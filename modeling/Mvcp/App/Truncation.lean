import Mvcp.App.Closing

/-!
# A clean end is no truncation

For two sessions joined by a connection, as long as `CloseWrite` does not overtake the write loop:
`io.EOF` on one side means that everything the other side wrote was read, nothing that was written
is dropped on the way, and no stream is reset for a message that it refused. If no side starts a
reset, no stream is reset at all.

## Main definitions

* `View.Lawful`, `View.Undisputed`: messages are refused for want of buffers only
* `View.Resets`: where the resets of a stream come from
* `Session.calm`: no reset was started on this side

## Main results

* `Net.eof_complete`: a clean end is no truncation
-/

namespace Mvcp

open Library (Reaches Always exists_reaches_of_run pending_advance)

def AppMessage.isReset : AppMessage → Bool
  | appReset .. => true
  | _ => false

namespace App

/-! ## Refusals -/

namespace View

variable {r : Ref} {v v' : View}

/-- The message is refused only for want of buffers, or because the stream is reset. -/
def Lawful (v : View) (x : Section) : Prop :=
  ∀ cause, v.st.Refuses x cause →
    cause = .deliverQuota ∨ cause = .dataAfterClose ∧ v.st.reset = true

/-- No stream is reset for a message that it refused, but for want of buffers. -/
structure Undisputed (v : View) : Prop where
  tasks : ∀ t ∈ v.tasks, ∀ cause, t.cause? = some cause → cause.refusal = true →
    cause = .deliverQuota ∨ cause = .dataAfterClose ∧ v.st.reset = true
  resetErr : ∀ cause, v.st.resetErr = some cause → cause.refusal = true → cause = .deliverQuota

theorem Initial.undisputed (h : Initial r v) : v.Undisputed := by
  cases h <;> exact ⟨by simp [Task.cause?], by simp⟩

theorem Step.reset {a : Option Section} (hs : Step r v a v') (h : v.st.reset = true) :
    v'.st.reset = true := by
  rcases hs.fires with ⟨hst, -⟩ | ⟨x, o, -, -, hf, hst, -⟩
  · exact hst ▸ h
  · exact hst ▸ hf.reset h

theorem Step.undisputed {a : Option Section} (hs : Step r v a v')
    (hG : ∀ x, a = some x → v.Lawful x) (h : v.Undisputed) : v'.Undisputed := by
  refine ⟨fun t ht cause hc href => ?_, fun cause hc href => ?_⟩
  · rcases hs.cause ht hc with ⟨t₀, hm, hc, -⟩ | hown | ⟨_, _, _, rfl, -⟩ | ⟨x, ha, hr⟩
    · exact (h.tasks t₀ hm cause hc href).imp_right fun hd => ⟨hd.1, hs.reset hd.2⟩
    · simp [Cause.refusal_of_remote hown] at href
    · simp [Cause.refusal] at href
    · exact (hG x ha cause hr).imp_right fun hd => ⟨hd.1, hs.reset hd.2⟩
  · rcases hs.resetErr hc with hc | ⟨hr, t, hm, hc⟩
    · exact h.resetErr cause hc href
    · exact (h.tasks t hm cause hc href).resolve_right fun hd => by simp [hr] at hd

end View

theorem Session.undisputed {cfg : Config} {ok : Session → Label → Prop} {s : Session} {r : Ref}
    {st : Stream} (hG : ∀ s l, ok s l → Guarded View.Lawful s l)
    (h : Reaches step ok (new cfg) s) (hst : s.heap[r]? = some st) : (s.view r st).Undisputed :=
  view_invariant (I := fun _ v => v.Undisputed) hG (fun _ _ hi => hi.undisputed)
    (fun _ _ _ _ hs hg hv => hs.undisputed hg hv) h hst

/-! ## Resets without a reason of their own -/

/-- The reasons of this side: the application, a copy loop of `Bridge`, a full queue, full buffers,
the context of `Open`, the end of the session. -/
def Cause.started : Cause → Bool
  | .deliverQuota => true
  | cause => !cause.remote

theorem Cause.started_cases {cause : Cause} (h : cause.started = false) :
    (∃ code message, cause = .peer code message) ∨
      cause.refusal = true ∧ cause ≠ .deliverQuota := by
  cases cause <;> simp_all [Cause.started, Cause.remote, Cause.refusal]

namespace View

variable {r : Ref} {v v' : View}

/-- A reset under way stays so until the stream is reset. -/
theorem Step.cause_kept {a : Option Section} (hs : Step r v a v') {t : Task} (ht : t ∈ v.tasks)
    {cause : Cause} (hc : t.cause? = some cause) :
    v'.st.reset = true ∨ ∃ t' ∈ v'.tasks, t'.cause? = some cause := by
  cases hs with
  | sect htasks hf =>
    rcases Multiset.mem_cons.mp (htasks ▸ ht) with rfl | hm
    · next x o rest =>
      -- the section that was to reset the stream does so
      obtain rfl : x = .setReset cause := by cases x <;> simp_all [Task.cause?]
      refine .inl ?_
      cases hf with
      | reset_again hr => exact hr
      | reset_set hr => rfl
      | ignored h => cases h
      | refused h => cases h
    · exact .inr ⟨t, Multiset.mem_add.mpr (.inr hm), hc⟩
  | sent htasks hm hup =>
    rcases Multiset.mem_cons.mp (htasks ▸ ht) with rfl | hm
    · next x _ =>
      -- written or not, the `APP_RESET` is followed by the section
      obtain rfl : x = .reset cause := by cases x <;> simp_all [Task.cause?]
      exact .inr ⟨.sect r (.setReset cause), by simp [Emission.sent], rfl⟩
    · exact .inr ⟨t, Multiset.mem_add.mpr (.inr hm), hc⟩
  | lost htasks hn =>
    rcases Multiset.mem_cons.mp (htasks ▸ ht) with rfl | hm
    · next x _ =>
      obtain rfl : x = .reset cause := by cases x <;> simp_all [Task.cause?]
      exact .inr ⟨.sect r (.setReset cause), by simp [Emission.failed], rfl⟩
    · exact .inr ⟨t, Multiset.mem_add.mpr (.inr hm), hc⟩
  | lead htasks hl =>
    rcases Multiset.mem_cons.mp (htasks ▸ ht) with rfl | hm
    · cases hl <;> simp [Task.cause?] at hc
    · exact .inr ⟨t, Multiset.mem_add.mpr (.inr hm), hc⟩
  | detach htasks =>
    rcases Multiset.mem_cons.mp (htasks ▸ ht) with rfl | hm
    · simp [Task.cause?] at hc
    · exact .inr ⟨t, Multiset.mem_cons_of_mem hm, hc⟩
  | arrive hid hl he hs => exact .inr ⟨t, Multiset.mem_add.mpr (.inr ht), hc⟩
  | fail hl htasks =>
    rcases htasks with htasks | htasks
    · exact .inr ⟨t, Multiset.mem_cons_of_mem (htasks ▸ ht), hc⟩
    · rcases Multiset.mem_cons.mp (htasks ▸ ht) with rfl | hm
      · simp [Task.cause?] at hc
      · exact .inr ⟨t, Multiset.mem_cons_of_mem hm, hc⟩
  | call hs hcall => exact .inr ⟨t, Multiset.mem_cons_of_mem ht, hc⟩
  | down => exact .inr ⟨t, ht, hc⟩

/-- Where the resets of a stream come from. -/
structure Resets (r : Ref) (v : View) : Prop where
  /-- The peer is not told of the resets that it sent. -/
  emits : ∀ cause, .emit r (.reset cause) ∈ v.tasks → ∀ code message, cause ≠ .peer code message
  heard : ∀ t ∈ v.tasks, ∀ code message, t.cause? = some (.peer code message) →
    ∃ m ∈ v.heard, m.isReset = true
  written : (∃ m ∈ v.out, m.isReset = true) → v.st.reset = true ∨ ∃ t ∈ v.tasks, ∃ cause,
    t.cause? = some cause ∧ ∀ code message, cause ≠ .peer code message

theorem Initial.resets (h : Initial r v) : v.Resets r := by
  cases h <;> exact ⟨by simp, by simp [Task.cause?], by simp⟩

theorem Step.resets {a : Option Section} (hs : Step r v a v') (h : v.Resets r) : v'.Resets r := by
  refine ⟨?_, ?_, ?_⟩
  · rintro cause ht code message rfl
    rcases hs.cause ht rfl with ⟨t₀, hm, -, rfl | rfl⟩ | hown | ⟨_, _, _, -, ht, -⟩ | ⟨x, -, hr⟩
    · exact h.emits _ hm _ _ rfl
    · exact h.emits _ hm _ _ rfl
    · simp [Cause.remote] at hown
    · simp at ht
    · cases hr
  · intro t ht code message hc
    rcases hs.cause ht hc with ⟨t₀, hm, hc, -⟩ | hown | ⟨id, _, _, -, -, hheard⟩ | ⟨x, -, hr⟩
    · obtain ⟨m, hm, hr⟩ := h.heard t₀ hm code message hc
      exact ⟨m, hs.grows.2.2.subset hm, hr⟩
    · simp [Cause.remote] at hown
    · exact ⟨_, by rw [hheard]; exact List.mem_append_right _ (List.mem_singleton_self _), rfl⟩
    · cases hr
  · rintro ⟨m, hm, hr⟩
    by_cases hold : m ∈ v.out
    · rcases h.written ⟨m, hold, hr⟩ with hst | ⟨t, ht, cause, hc, hne⟩
      · exact .inl (hs.reset hst)
      · rcases hs.cause_kept ht hc with hst | ⟨t', ht', hc'⟩
        · exact .inl hst
        · exact .inr ⟨t', ht', cause, hc', hne⟩
    · -- the frame was just written
      cases hs with
      | @sent x rest htasks hmar hup =>
        obtain rfl := List.mem_singleton.mp ((List.mem_append.mp hm).resolve_left hold)
        obtain ⟨cause, rfl⟩ : ∃ cause, x = .reset cause := by
          cases x <;> simp_all [Emission.message, AppMessage.isReset]
        exact .inr ⟨.sect r (.setReset cause), by simp [Emission.sent], cause, rfl,
          h.emits cause (by simp [htasks])⟩
      | _ => exact absurd hm hold

/-- The stream is not reset. -/
def spares (_ : View) (x : Section) : Prop := ∀ cause, x ≠ .setReset cause

end View

theorem Stream.Fires.reset_eq {r : Ref} {st : Stream} {x : Section} {o : Outcome}
    (h : Stream.Fires r st x o) : o.st.reset = st.reset ∨ ∃ cause, x = .setReset cause := by
  cases h with
  | reset_set hr => exact .inr ⟨_, rfl⟩
  | reset_again hr => exact .inr ⟨_, rfl⟩
  | _ => exact .inl rfl

namespace Session

variable {cfg : Config} {ok : Session → Label → Prop} {s : Session} {r : Ref} {st : Stream}

theorem resets (h : Reaches step ok (new cfg) s) (hst : s.heap[r]? = some st) :
    (s.view r st).Resets r :=
  view_inductive (I := fun r v => v.Resets r) (fun _ _ hi => hi.resets)
    (fun _ _ _ _ hs hv => hs.resets hv) h hst

theorem reset_eq_false (hG : ∀ s l, ok s l → Guarded View.spares s l)
    (h : Reaches step ok (new cfg) s) (hst : s.heap[r]? = some st) : st.reset = false := by
  refine view_invariant (I := fun _ v => v.st.reset = false) hG ?_ ?_ h hst
  · intro r v hi
    cases hi <;> rfl
  · intro r v a v' hs hg hv
    rcases hs.fires with ⟨hst, -⟩ | ⟨x, o, ha, -, hf, hst, -⟩
    · rw [hst]
      exact hv
    · rw [hst]
      rcases hf.reset_eq with he | ⟨cause, rfl⟩
      · rw [he]
        exact hv
      · exact absurd rfl (hg _ ha cause)

/-- No goroutine is about to reset a stream for a reason of this side. -/
def calm (s : Session) : Bool :=
  s.threads.flatten.all fun t => t.cause?.all fun cause => !cause.started

theorem started_of_calm (h : s.calm = true) {t : Task} (ht : t ∈ (s.view r st).tasks)
    {cause : Cause} (hc : t.cause? = some cause) : cause.started = false := by
  have hm : t ∈ s.threads.flatten := Multiset.mem_coe.mp (mem_tasksOf.mp ht).1
  simpa [hc] using List.all_eq_true.mp h t hm

end Session

theorem payloads_eq_nil {ms : List AppMessage} (h : ∀ m ∈ ms, m.isData = false) :
    payloads ms = [] :=
  List.flatMap_eq_nil_iff.mpr fun m hm => AppMessage.payload_of_isData (h m hm)

/-! ## The other end -/

namespace Net

variable {n : Net} {ρ : Role} {r r' : Ref} {st st' : Stream} {cfg : Role → Config}

theorem orderly (h : Reaches step (Guarded View.flushed) (new cfg) n)
    (hst : (n.side ρ).heap[r]? = some st) : ((n.side ρ).view r st).Orderly :=
  Session.orderly (fun _ _ h => h)
    (side_reaches (fun _ _ _ hok _ _ _ _ _ _ hl ht hst => Session.guarded_of_eq_true hok hl ht hst)
      h ρ) hst

/-- What the other end hears after the close of this end carries no data. -/
theorem Ends.heard_order (he : n.Ends ρ r r' st st') (hj : n.Joined)
    (ho : ((n.side ρ).view r st).Orderly) {id : UInt32} {ms ms' : List AppMessage}
    (hheard : ((n.side ρ.other).view r' st').heard = ms ++ .appClose id :: ms') :
    .appClose id ∈ ((n.side ρ).view r st).out ∧ (∀ m ∈ ms', m.isData = false) ∧
      payloads ((n.side ρ).view r st).out = payloads ms := by
  obtain ⟨rest, hrest⟩ := he.heard_core hj
  rw [hheard, List.filter_append, List.filter_cons_of_pos rfl, List.append_assoc,
    List.cons_append] at hrest
  have horder := hrest ▸ ho.order.filter AppMessage.core
  have hafter := (List.pairwise_cons.mp (List.pairwise_append.mp horder).2.1).1
  refine ⟨?_, fun m hm => ?_, ?_⟩
  · have hmem : .appClose id ∈ ((n.side ρ).view r st).out.filter AppMessage.core := by
      simp [← hrest]
    exact (List.mem_filter.mp hmem).1
  · by_cases hc : m.core = true
    · exact hafter m (List.mem_append_left _ (List.mem_filter.mpr ⟨hm, hc⟩)) rfl
    · cases m <;> simp_all [AppMessage.core, AppMessage.isData]
  · rw [← payloads_core, ← hrest, payloads_append, payloads_core, payloads_cons,
      payloads_eq_nil fun m hm => hafter m hm rfl]
    exact List.append_nil _

/-- Once the other end has processed the close of this one, all that was written here was read
there, or is queued there. -/
theorem Ends.complete (he : n.Ends ρ r r' st st') (hj : n.Joined)
    (ho : ((n.side ρ).view r st).Orderly) (hc : st'.remoteClosed = true) :
    returned ((n.side ρ.other).view r' st').log ++ st'.inQ.flatten =
      written ((n.side ρ).view r st).log ∧ st.localClosed = true := by
  obtain ⟨_, hr'⟩ := hj.reached ρ.other
  obtain ⟨ms, ms', hheard, hbytes⟩ := (Session.receiver hr' he.there).closed hc
  obtain ⟨hmem, -, hpay⟩ := he.heard_order hj ho hheard
  have hclose : ∃ m ∈ ((n.side ρ).view r st).out, m.isClose = true := ⟨_, hmem, rfl⟩
  refine ⟨?_, ho.closing (.inr hclose)⟩
  rw [ho.complete hclose, hpay]
  exact hbytes

/-- Data does not come after the close. -/
theorem Joined.lawful (hj : n.Joined) (hf : n.Fair)
    (ho : ∀ ρ r st, (n.side ρ).heap[r]? = some st → ((n.side ρ).view r st).Orderly) (ρ : Role)
    (l : Label) : Session.Guarded View.Lawful (n.side ρ) l := by
  intro i c r x rest st hl ht hst cause href
  have hhonest := hf.honest hj ρ l hl ht hst
  obtain ⟨_, hr⟩ := hj.reached ρ
  obtain ⟨others, hp, -⟩ := pending_advance ht
  have hx : .sect r x ∈ ((n.side ρ).view r st).tasks :=
    Session.mem_tasksOf.mpr ⟨by simp [hp], rfl⟩
  have hbreach := hhonest.breach href (Session.queues hr hst).sndCredit_le
  cases href with
  | deliverQuota => exact .inl rfl
  | @dataTooLarge data hlen =>
    obtain ⟨id, ms, hheard, -, r', st', he, hout⟩ := hj.heard_of_deliver hst hx
    obtain ⟨e, hsent, happ⟩ := List.mem_filterMap.mp hout
    obtain ⟨ref, msg⟩ := e
    obtain ⟨rfl, rfl⟩ := Sent.app?_eq_some happ
    obtain ⟨hok, -⟩ := (hj.departures ρ.other).sent _ hsent _ rfl
    simp [AppMessage.marshalBinary, hlen, Except.isOk, Except.toBool] at hok
  | @dataAfterClose data ha hop hcl =>
    refine .inr ⟨rfl, hcl.resolve_left fun hcl => ?_⟩
    obtain ⟨id, ms, hheard, -, r', st', he, hout⟩ := hj.heard_of_deliver hst hx
    obtain ⟨ms₀, ms₁, hsplit, -⟩ := (Session.receiver hr hst).closed hcl
    have hho := ho ρ.other r' st' he.there
    have hafter := (he.symm.heard_order hj hho (by rw [other_other]; exact hsplit)).2.1
    -- the data is the last message heard
    have hlast := congrArg List.getLast? (hheard.symm.trans hsplit)
    rw [List.getLast?_concat, List.getLast?_append_cons] at hlast
    rcases List.mem_cons.mp (List.mem_of_getLast? hlast.symm) with heq | hm
    · simp at heq
    · simpa [AppMessage.isData] using hafter _ hm
  | acceptMetaTooLarge hlen => exact absurd hhonest.1 (Nat.not_le.mpr hlen)
  | _ => simp [Cause.breach] at hbreach

/-- Along the runs in which `CloseWrite` does not overtake the write loop, either side refuses
messages for want of buffers only. -/
theorem lawful_reaches (h : Reaches step (Guarded View.flushed) (new cfg) n) (ρ : Role) :
    Reaches Session.step (Session.Guarded View.Lawful) (Session.new { cfg ρ with role := ρ })
      (n.side ρ) := by
  induction h generalizing ρ with
  | refl =>
    rw [side_new]
    exact .refl
  | @tail m m' l hr hok hs ih =>
    obtain ⟨σ, l⟩ := l
    have hlawful := (joined hr.always).lawful (fair hr.always) (fun _ _ _ => orderly hr) σ l
    obtain ⟨s', hs', rfl, -⟩ := step_cases hs
    rcases eq_or_eq_other ρ σ with rfl | rfl
    · rw [side_set_self]
      exact (ih ρ).tail hlawful hs'
    · rw [side_set_other]
      exact ih σ.other

theorem undisputed (h : Reaches step (Guarded View.flushed) (new cfg) n)
    (hst : (n.side ρ).heap[r]? = some st) : ((n.side ρ).view r st).Undisputed :=
  Session.undisputed (fun _ _ h => h) (lawful_reaches h ρ) hst

/-- `CloseWrite` does not overtake the write loop, and no side starts a reset. -/
def Calm (n : Net) (l : Role × Label) : Prop :=
  Guarded View.flushed n l ∧ ∀ ρ, (n.side ρ).calm = true

/-- If no side starts a reset, no stream is about to be reset. -/
theorem Joined.spares (hj : n.Joined) (hcalm : ∀ ρ, (n.side ρ).calm = true)
    (hund : ∀ ρ r st, (n.side ρ).heap[r]? = some st → ((n.side ρ).view r st).Undisputed)
    (hreset : ∀ ρ (r : Ref) (st : Stream), (n.side ρ).heap[r]? = some st → st.reset = false)
    (ρ : Role) (l : Label) :
    Session.Guarded View.spares (n.side ρ) l := by
  -- a reset under way comes from the peer
  have hpeer (ρ : Role) (r : Ref) (st : Stream) (hst : (n.side ρ).heap[r]? = some st) (t : Task)
      (ht : t ∈ ((n.side ρ).view r st).tasks) (cause : Cause) (hc : t.cause? = some cause) :
      ∃ code message, cause = .peer code message := by
    refine (Cause.started_cases (Session.started_of_calm (hcalm ρ) ht hc)).resolve_right ?_
    rintro ⟨href, hne⟩
    rcases (hund ρ r st hst).tasks t ht cause hc href with h | ⟨-, h⟩
    · exact hne h
    · rw [show ((n.side ρ).view r st).st.reset = st.reset from rfl, hreset ρ r st hst] at h
      simp at h
  rintro i c r x rest st hl ht hst cause rfl
  obtain ⟨others, hp, -⟩ := pending_advance ht
  have hx : .sect r (.setReset cause) ∈ ((n.side ρ).view r st).tasks :=
    Session.mem_tasksOf.mpr ⟨by simp [hp], rfl⟩
  obtain ⟨code, message, rfl⟩ := hpeer ρ r st hst _ hx cause rfl
  -- which wrote it for a reset under way on its side
  obtain ⟨_, hr⟩ := hj.reached ρ
  obtain ⟨m, hm, hmr⟩ := (Session.resets hr hst).heard _ hx code message rfl
  obtain ⟨r', st', he, hout⟩ := hj.exists_ends hst hm fun id code message hm => by
    simp [hm, AppMessage.isReset] at hmr
  have hst' := he.there
  obtain ⟨_, hr'⟩ := hj.reached ρ.other
  rcases (Session.resets hr' hst').written ⟨m, hout, hmr⟩ with h | ⟨t, ht, cause, hc, hne⟩
  · rw [show ((n.side ρ.other).view r' st').st.reset = st'.reset from rfl,
      hreset _ _ _ hst'] at h
    simp at h
  · obtain ⟨code, message, rfl⟩ := hpeer _ _ _ hst' t ht cause hc
    exact hne code message rfl

/-- If no side starts a reset, no stream is reset. -/
theorem reset_eq_false (h : Reaches step Calm (new cfg) n) (hst : (n.side ρ).heap[r]? = some st) :
    st.reset = false := by
  suffices hside : ∀ ρ, Reaches Session.step (Session.Guarded View.spares)
      (Session.new { cfg ρ with role := ρ }) (n.side ρ) from
    Session.reset_eq_false (fun _ _ h => h) (hside ρ) hst
  clear hst
  induction h with
  | refl =>
    intro ρ
    rw [side_new]
    exact .refl
  | @tail m m' l hr hok hs ih =>
    obtain ⟨σ, l⟩ := l
    intro ρ
    have hspares := (joined hr.always).spares hok.2
      (fun _ _ _ => undisputed (hr.mono fun _ _ h => h.1))
      (fun ρ _ _ => Session.reset_eq_false (fun _ _ h => h) (ih ρ)) σ l
    obtain ⟨s', hs', rfl, -⟩ := step_cases hs
    rcases eq_or_eq_other ρ σ with rfl | rfl
    · rw [side_set_self]
      exact (ih ρ).tail hspares hs'
    · rw [side_set_other]
      exact ih σ.other

/-- What was written at this end was read at the other, is queued there, is on its way, or is
queued here. -/
theorem Ends.conserved (he : n.Ends ρ r r' st st') (hj : n.Joined)
    (hup : (n.side ρ).connUp = true) (hr' : st'.reset = false)
    (hl : (n.side ρ.other).stream st'.id = some r') :
    (n.side ρ).bytesWritten r =
      (n.side ρ.other).bytesRead r' ++ st'.inQ.flatten ++
        payloads (n.unprocessed ρ r) ++ carried Task.hand ((n.side ρ).tasksOf r) ++
        st.sendQ.flatten := by
  obtain ⟨_, hs⟩ := hj.reached ρ
  obtain ⟨_, hs'⟩ := hj.reached ρ.other
  obtain ⟨d, hw, -, -, hflow⟩ := (Session.sender hs he.here).flow
  have hw : (n.side ρ).bytesWritten r = d ++ st.sendQ.flatten := hw
  have hdel : (n.side ρ.other).bytesRead r' ++ st'.inQ.flatten = _ :=
    Session.delivered hs' he.there hr'
  have hout := he.payloads_out hj (List.mem_map_of_mem (Session.mem_of_stream hl))
  calc (n.side ρ).bytesWritten r
      = payloads ((n.side ρ).view r st).out ++ carried Task.hand ((n.side ρ).tasksOf r) ++
          st.sendQ.flatten := by rw [hw, ← hflow hup]; rfl
    _ = _ := by rw [hout, hdel]

/-- **A clean end is no truncation.** As long as `CloseWrite` does not overtake the write loop:
what `Read` returned before `io.EOF` is all that was written at the other end, which is closed; once
a stream has processed the close of the other end, all that was written there was read, or is
queued; until then, what was written was read, is queued or is on its way; and no stream is reset
for a message that it refused, but for want of buffers. If, moreover, no side starts a reset, no
stream is reset at all. -/
theorem eof_complete (h : Reaches step (Guarded View.flushed) (new cfg) n) :
    (∀ ρ r st log log', (n.side ρ).heap[r]? = some st →
      ((n.side ρ).view r st).log = log ++ .readFailed r .eof :: log' →
      ∃ r' st', n.Ends ρ r r' st st' ∧ st'.closeAfterFlush = true ∧
        returned log = (n.side ρ.other).bytesWritten r') ∧
    (∀ ρ r r' st st', n.Ends ρ r r' st st' → st'.remoteClosed = true →
      (n.side ρ).bytesWritten r =
        (n.side ρ.other).bytesRead r' ++ st'.inQ.flatten) ∧
    (∀ ρ r r' st st', n.Ends ρ r r' st st' → (n.side ρ).connUp = true → st'.reset = false →
      (n.side ρ.other).stream st'.id = some r' →
      (n.side ρ).bytesWritten r =
        (n.side ρ.other).bytesRead r' ++ st'.inQ.flatten ++
          payloads (n.unprocessed ρ r) ++ carried Task.hand ((n.side ρ).tasksOf r) ++
          st.sendQ.flatten) ∧
    (∀ (ρ : Role) (r : Ref) (st : Stream) (cause : Cause), (n.side ρ).heap[r]? = some st →
      st.resetErr = some cause → cause.refusal = true → cause = .deliverQuota) ∧
    (Reaches step Calm (new cfg) n → ∀ (ρ : Role) (r : Ref) (st : Stream),
      (n.side ρ).heap[r]? = some st → st.reset = false) := by
  have hj := joined h.always
  refine ⟨?_, ?_, ?_, ?_, fun hcalm ρ r st hst => reset_eq_false hcalm hst⟩
  · intro ρ r st log log' hst hlog
    obtain ⟨_, hr⟩ := hj.reached ρ
    have hrec := Session.receiver hr hst
    -- `io.EOF` is returned when the close was processed and the queue is empty
    obtain ⟨hcl, hq⟩ : st.remoteClosed = true ∧ st.inQ = [] := hrec.eof (by simp [hlog])
    obtain ⟨ms, ms', hheard, -⟩ := hrec.closed hcl
    obtain ⟨r', st', he, -⟩ := hj.exists_ends hst (m := .appClose st.id)
      (by rw [hheard]; exact List.mem_append_right _ List.mem_cons_self) (by simp)
    have ho := orderly h he.there
    have hes : n.Ends ρ.other r' r st' st := he.symm
    obtain ⟨hbytes, hlc⟩ := hes.complete hj ho hcl
    obtain ⟨_, hr'⟩ := hj.reached ρ.other
    refine ⟨r', st', he, (Session.queues hr' he.there).flushed hlc, ?_⟩
    rw [other_other] at hbytes
    -- and nothing is returned after it
    have hlast : returned (.readFailed r .eof :: log') = [] := by
      rw [← List.singleton_append, returned_append, hrec.final _ _ hlog]
      rfl
    calc returned log = returned ((n.side ρ).view r st).log ++ st.inQ.flatten := by
          rw [hq, hlog, returned_append, hlast]
          simp
      _ = _ := hbytes
  · intro ρ r r' st st' he hcl
    exact (he.complete hj (orderly h he.here) hcl).1.symm
  · intro ρ r r' st st' he hup hr' hl
    exact he.conserved hj hup hr' hl
  · intro ρ r st cause hst hc href
    exact (undisputed h hst).resetErr cause hc href

/-- The host writes a byte and closes its direction; the bridge of the guest reads the byte, and the
end. -/
theorem eof_complete_byte :
    ∃ n log log' r' st st', Reaches step (Guarded View.flushed) (new fun _ => { role := .host }) n ∧
      (n.guest.view 0 st).log = log ++ .readFailed 0 .eof :: log' ∧ n.guest.bytesRead 0 = [7] ∧
      n.Ends .guest 0 r' st st' ∧ returned log = n.host.bytesWritten r' := by
  obtain ⟨n, hn, ht⟩ := exists_reaches_of_run step (Guarded View.flushed)
    (new fun _ => { role := .host })
    (fun n => n.guest.bytesRead 0 == [7] && decide (.readFailed 0 .eof ∈ n.guest.log) &&
      n.guest.heap[0]?.isSome)
    (openRun ++ [(.host, .call (.write 0 [7])), (.host, .run 3 .go), (.host, .run 2 .go),
      (.host, .run 2 .go), (.host, .run 2 .go), (.host, .call (.closeWrite 0)), (.host, .run 4 .go),
      (.host, .run 4 .go), (.guest, .recv (Outgoing.app (.appData 1 [7])).frame),
      (.guest, .run 0 .go), (.guest, .run 0 .go),
      (.guest, .recv (Outgoing.app (.appClose 1)).frame), (.guest, .run 0 .go),
      (.guest, .run 0 .go), (.guest, .run 0 .go), (.guest, .run 4 .go), (.guest, .run 4 .go),
      (.guest, .run 4 .go), (.guest, .run 4 (.epWrite 1 none)), (.guest, .run 4 .go)]) (by decide)
  simp only [Bool.and_eq_true, beq_iff_eq, decide_eq_true_eq, Option.isSome_iff_exists] at ht
  obtain ⟨⟨hread, heof⟩, st, hst⟩ := ht
  have hmem : .readFailed 0 .eof ∈ (n.guest.view 0 st).log :=
    List.mem_filter.mpr ⟨heof, by simp [Event.ref?]⟩
  obtain ⟨log, log', hlog⟩ := List.append_of_mem hmem
  obtain ⟨r', st', he, -, heq⟩ := (eof_complete hn).1 .guest 0 st log log' hst hlog
  exact ⟨n, log, log', r', st, st', hn, hlog, hread, he, heq⟩

-- `CloseWrite` between the round in which the write loop takes a byte and the frame write: the
-- guest reads the end, and not the byte.
example : (Library.run step Always
    (openRun ++ [(.host, .call (.write 0 [7])), (.host, .run 3 .go), (.host, .run 2 .go),
      (.host, .call (.closeWrite 0)), (.host, .run 4 .go), (.host, .run 4 .go),
      (.guest, .recv (Outgoing.app (.appClose 1)).frame), (.guest, .run 0 .go),
      (.guest, .run 0 .go), (.guest, .run 0 .go), (.guest, .run 4 .go)])
    (new fun _ => { role := .host })).any (fun n =>
      decide (.readFailed 0 .eof ∈ n.guest.log) && n.guest.bytesRead 0 == [] &&
        n.host.bytesWritten 0 == [7]) = true := by
  decide

end Net

end App

end Mvcp
