import Mvcp.App.Opening

/-!
# What a stream has made of the messages of the peer

`Serve` hands one message after the other to a stream. A message is handled when the critical
section of its handler is over, or, when the handler refuses it, when the stream is reset. Until
the stream is reset, the data of the messages handled is what `Read` returned and what it will
return next.

## Main definitions

* `View.handled`: the messages that were handled
* `View.Progressed`: the steps of a view, as far as the messages handled are concerned
* `View.Accepted`: a stream opened here that is used was accepted by the peer

## Main results

* `View.Step.progressed`: a step handles at most one message, by one critical section
* `Session.delivered`: no data of the messages handled is missing until the stream is reset
* `Session.accepted`: streams are used only after they were accepted
-/

namespace Mvcp.App

open Library (Reaches Always)

namespace View

variable {r : Ref} {v v' : View}

/-! ## The messages handled -/

/-- `Serve` handles a message on the stream. -/
def Busy (v : View) : Prop := ∃ t ∈ v.tasks, t.serves = true

instance (v : View) : Decidable v.Busy :=
  decidable_of_iff (0 < v.tasks.countP fun t => t.serves = true) Multiset.countP_pos

/-- The messages of the peer that were handled: all but the one `Serve` is busy with. -/
def handled (v : View) : List AppMessage := if v.Busy then v.heard.dropLast else v.heard

theorem handled_prefix (v : View) : v.handled <+: v.heard := by
  unfold handled
  split_ifs
  · exact List.dropLast_prefix _
  · exact List.prefix_rfl

/-- What `Serve` is busy with on the stream comes from the last message it handed to it. -/
def Current (r : Ref) (v : View) : Prop :=
  ∀ t ∈ v.tasks, t.serves = true → ∃ ms m, v.heard = ms ++ [m] ∧
    (t ∈ Session.dispatch r m ∨ t.refuses = true)

theorem Initial.idle (h : Initial r v) : ¬v.Busy := by
  rintro ⟨t, ht, hs⟩
  cases h <;> obtain rfl := Multiset.mem_singleton.mp ht <;> simp [Task.serves] at hs

theorem Initial.current (h : Initial r v) : v.Current r :=
  fun t ht hs => absurd ⟨t, ht, hs⟩ h.idle

end View

namespace Emission

variable {r : Ref} {x : Emission} {t : Task}

/-- After the write of an `APP_RESET`, done or failed, `Serve` resets the stream. -/
theorem refuses_of_serves : ∀ t ∈ x.sent r ++ x.failed r, t.serves = true →
    (Task.emit r x).serves = true ∧ t.refuses = true := by
  cases x <;> simp [Emission.sent, Emission.failed, Task.serves, Task.refuses]

end Emission

namespace Stream

variable {r : Ref} {st : Stream} {x : Section} {o : Outcome}

/-- A handler leaves something to do for `Serve` when it refuses the message. -/
theorem Fires.refuses (h : Fires r st x o) {t : Task} (ht : t ∈ o.push) (hs : t.serves = true) :
    (Task.sect r x).serves = true ∧ t.refuses = true ∧ t.ref? = some r ∧ o.st = st ∧
      o.log = [] ∧ ∃ cause, st.Refuses x cause := by
  have hx : (Task.sect r x).serves = true := by
    by_contra hc
    have := Task.serves_of_countP h.push_serves (by simpa using hc) t ht
    simp [hs] at this
  cases h with
  | refused h =>
    obtain rfl := List.mem_singleton.mp ht
    exact ⟨hx, hs, rfl, rfl, rfl, _, h⟩
  | reset_again hr => obtain rfl := List.mem_singleton.mp ht; simp [Task.serves] at hs
  | reset_set hr => obtain rfl := List.mem_singleton.mp ht; simp [Task.serves] at hs
  | remote_closed hr hc => obtain rfl := List.mem_singleton.mp ht; simp [Task.serves] at hs
  | accepted hm hg hg' ho => obtain rfl := List.mem_singleton.mp ht; simp [Task.serves] at hs
  | rejected ho =>
    simp only [List.mem_cons, List.not_mem_nil, or_false] at ht
    rcases ht with rfl | rfl <;> simp [Task.serves] at hs
  | ignored h => simp at ht
  | deliver_accepted hd hlen ha ho hc hr hw => simp at ht
  | credit_added hr h => simp at ht
  | _ => simp [Task.serves] at hx

/-- Only the accept of the peer sets the metadata. -/
theorem Fires.acceptMeta (h : Fires r st x o) : o.st.acceptMeta = st.acceptMeta ∨
    st.opening = true ∧ ∃ grant, x = .handleAccept o.st.acceptMeta grant := by
  cases h with
  | accepted hm hg hg' ho => exact .inr ⟨ho, _, rfl⟩
  | _ => exact .inl rfl

theorem Fires.opening_of_reset (h : Fires r st x o) (hr : st.reset = false)
    (hr' : o.st.reset = true) : o.st.opening = false := by
  cases h with
  | reset_set hr => rfl
  | _ => exact absurd (hr.symm.trans hr') (by simp)

end Stream

namespace View

variable {r : Ref} {v v' : View}

theorem Step.current {a : Option Section} (hs : Step r v a v') (h : v.Current r) :
    v'.Current r := by
  intro t ht hserve
  -- the message that a step of `Serve` comes from stays the last one
  have hkeep {t₀ : Task} (h₀ : t₀ ∈ v.tasks) (hs₀ : t₀.serves = true) (hr : t.refuses = true) :
      ∃ ms m, v.heard = ms ++ [m] ∧ (t ∈ Session.dispatch r m ∨ t.refuses = true) := by
    obtain ⟨ms, m, hheard, -⟩ := h t₀ h₀ hs₀
    exact ⟨ms, m, hheard, .inr hr⟩
  cases hs.moved with
  | sect htasks hf =>
    rcases Multiset.mem_add.mp ht with ht | ht
    · obtain ⟨hx, hr, -⟩ := hf.refuses (mem_own ht) hserve
      exact hkeep (by simp [htasks]) hx hr
    · exact h t (by simp [htasks, ht]) hserve
  | sent htasks hup =>
    rcases Multiset.mem_add.mp ht with ht | ht
    · obtain ⟨hx, hr⟩ := Emission.refuses_of_serves t (List.mem_append_left _ (mem_own ht)) hserve
      exact hkeep (by simp [htasks]) hx hr
    · exact h t (by simp [htasks, ht]) hserve
  | lost htasks hn =>
    rcases Multiset.mem_add.mp ht with ht | ht
    · obtain ⟨hx, hr⟩ := Emission.refuses_of_serves t (List.mem_append_right _ (mem_own ht)) hserve
      exact hkeep (by simp [htasks]) hx hr
    · exact h t (by simp [htasks, ht]) hserve
  | arrive hid hidle =>
    rcases Multiset.mem_add.mp ht with ht | ht
    · exact ⟨v.heard, _, rfl, .inl (mem_own ht)⟩
    · simp [hidle t ht] at hserve
  | quiet hq =>
    rw [hq.heard]
    exact h t ((hq.mem_iff (Task.cargo_of_serves hserve)).mp ht) hserve

/-- **The steps of a view, as far as the messages handled are concerned.** -/
inductive Progressed (r : Ref) (v : View) (a : Option Section) (v' : View) : Prop
  /-- The stream stays as it is. -/
  | same (hst : v'.st = v.st) (hlog : v'.log = v.log) (h : v'.handled = v.handled)
  /-- A critical section that handles no message. -/
  | own {x : Section} {o : Outcome} (ha : a = some x) (hx : .sect r x ∈ v.tasks)
      (hserve : (Task.sect r x).serves = false) (hf : Stream.Fires r v.st x o)
      (hst : v'.st = o.st) (hlog : v'.log = v.log ++ o.log) (h : v'.handled = v.handled)
  /-- A critical section that handles the message `m`. -/
  | handles {x : Section} {o : Outcome} {m : AppMessage} (ha : a = some x)
      (hx : .sect r x ∈ v.tasks)
      (hm : .sect r x ∈ Session.dispatch r m ∨ (Task.sect r x).refuses = true)
      (hf : Stream.Fires r v.st x o) (hpush : ∀ t ∈ App.own r o.push, t.serves = false)
      (hst : v'.st = o.st) (hlog : v'.log = v.log ++ o.log) (hheard : v.heard = v.handled ++ [m])
      (h : v'.handled = v.handled ++ [m])
  /-- A message that has no handler. -/
  | unhandled {m : AppMessage} (hm : m.isOpen = true) (hst : v'.st = v.st) (hlog : v'.log = v.log)
      (h : v'.handled = v.handled ++ [m])

theorem handled_eq (hb : v'.Busy ↔ v.Busy) (hh : v'.heard = v.heard) : v'.handled = v.handled := by
  unfold handled
  simp only [hb, hh]

/-- A step of a goroutine is replaced by others, of which one is a step of `Serve` if it was. -/
theorem busy_replace {t : Task} {ts : List Task} {rest : Multiset Task}
    (ht : v.tasks = t ::ₘ rest) (ht' : v'.tasks = App.own r ts + rest)
    (h : (∃ t' ∈ App.own r ts, t'.serves = true) ↔ t.serves = true) : v'.Busy ↔ v.Busy := by
  simp only [Busy, ht, ht', Multiset.mem_add, Multiset.mem_cons, or_and_right, exists_or,
    exists_eq_left, h]

theorem emit_serves {x : Emission} {ts : List Task} (h : ∀ t ∈ ts, t.serves = true →
      (Task.emit r x).serves = true)
    (hr : ∀ cause, x = .reset cause → .sect r (.setReset cause) ∈ ts) :
    (∃ t' ∈ App.own r ts, t'.serves = true) ↔ (Task.emit r x).serves = true := by
  refine ⟨fun ⟨t, hm, hs⟩ => h t (mem_own hm) hs, fun hs => ?_⟩
  cases x with
  | reset cause => exact ⟨_, Multiset.mem_filter.mpr ⟨hr cause rfl, rfl⟩, hs⟩
  | _ => simp [Task.serves] at hs

/-- **A step handles at most one message, by one critical section.** -/
theorem Step.progressed {a : Option Section} (hs : Step r v a v') (hh : v.Handshake)
    (h : v.Current r) : Progressed r v a v' := by
  cases hs.moved with
  | @sect x o rest ht hf =>
    have hx : .sect r x ∈ v.tasks := by simp [ht]
    by_cases hserve : (Task.sect r x).serves = true
    · obtain ⟨ms, m, hheard, hm⟩ := h _ hx hserve
      have hrest := hh.serves_eq_false ht hserve
      have hms : v.handled = ms := by
        rw [handled, if_pos ⟨_, hx, hserve⟩, hheard, List.dropLast_concat]
      by_cases hb : ∃ t ∈ App.own r o.push, t.serves = true
      · -- the message is refused
        obtain ⟨t, htm, hts⟩ := hb
        obtain ⟨-, -, -, hst, hlog, -⟩ := hf.refuses (mem_own htm) hts
        refine .same hst (by simp [hlog]) (handled_eq (busy_replace ht rfl ?_) rfl)
        exact ⟨fun _ => hserve, fun _ => ⟨t, htm, hts⟩⟩
      · have hpush : ∀ t ∈ App.own r o.push, t.serves = false := fun t htm => by
          by_contra hc
          exact hb ⟨t, htm, by simpa using hc⟩
        refine .handles rfl hx hm hf hpush rfl rfl (by rw [hms, hheard]) ?_
        rw [handled, if_neg, hms, hheard]
        rintro ⟨t, htm, hts⟩
        rcases Multiset.mem_add.mp htm with htm | htm
        · simp [hpush t htm] at hts
        · simp [hrest t htm] at hts
    · -- a section that `Serve` does not run
      have hserve' : (Task.sect r x).serves = false := by simpa using hserve
      refine .own rfl hx hserve' hf rfl rfl (handled_eq (busy_replace ht rfl ?_) rfl)
      refine ⟨?_, fun hc => absurd hc hserve⟩
      rintro ⟨t, htm, hts⟩
      exact (hf.refuses (mem_own htm) hts).1
  | sent ht hup =>
    refine .same rfl rfl (handled_eq (busy_replace ht rfl (emit_serves ?_ ?_)) rfl)
    · exact fun t htm hts => (Emission.refuses_of_serves t (List.mem_append_left _ htm) hts).1
    · rintro cause rfl
      simp [Emission.sent]
  | lost ht hn =>
    refine .same rfl rfl (handled_eq (busy_replace ht rfl (emit_serves ?_ ?_)) rfl)
    · exact fun t htm hts => (Emission.refuses_of_serves t (List.mem_append_right _ htm) hts).1
    · rintro cause rfl
      simp [Emission.failed]
  | @arrive m hid hidle =>
    -- `Serve` takes the next message when it is through with the last
    have hnb : ¬v.Busy := by
      rintro ⟨t, htm, hts⟩
      simp [hidle t htm] at hts
    have hms : v.handled = v.heard := by rw [handled, if_neg hnb]
    -- an `APP_OPEN` for a stream in the table is handled by `handleOpen`, not here
    by_cases ho : m.isOpen = true
    · refine .unhandled ho rfl rfl ?_
      have : Session.dispatch r m = [] := by
        cases m <;> simp_all [AppMessage.isOpen, Session.dispatch]
      rw [hms, handled, if_neg]
      rintro ⟨t, htm, hts⟩
      exact hnb ⟨t, by simpa [this] using htm, hts⟩
    · refine .same rfl rfl ?_
      obtain ⟨t, htd, hr, hts⟩ : ∃ t, t ∈ Session.dispatch r m ∧ t.ref? = some r ∧
          t.serves = true := by
        cases m with
        | appOpen id service metadata => exact absurd rfl ho
        | _ => exact ⟨_, List.mem_singleton_self _, rfl, rfl⟩
      rw [hms, handled, if_pos, List.dropLast_concat]
      exact ⟨t, Multiset.mem_add.mpr (.inl (Multiset.mem_filter.mpr ⟨htd, hr⟩)), hts⟩
  | quiet hq =>
    refine .same hq.st hq.log (handled_eq ?_ hq.heard)
    exact exists_congr fun t => and_congr_left fun hts => hq.mem_iff (Task.cargo_of_serves hts)

/-! ## Data -/

/-- Until the stream is reset, the data of the messages handled is what `Read` returned and what
is queued. -/
def Delivered (v : View) : Prop :=
  v.st.reset = false → returned v.log ++ v.st.inQ.flatten = payloads v.handled

theorem Initial.delivered (h : Initial r v) : v.Delivered := by
  intro _
  rw [handled, if_neg h.idle]
  cases h <;> rfl

theorem Step.delivered {a : Option Section} (hs : Step r v a v') (hh : v.Handshake)
    (hc : v.Current r) (h : v.Delivered) : v'.Delivered := by
  intro hr'
  have hreset {x : Section} {o : Outcome} (hf : Stream.Fires r v.st x o) (hst : v'.st = o.st) :
      v.st.reset = false := by
    by_contra hr
    simp [hst, hf.reset (by simpa using hr)] at hr'
  cases hs.progressed hh hc with
  | same hst hlog hd => rw [hlog, hst, hd, h (hst ▸ hr')]
  | @unhandled m hm hst hlog hd =>
    have : m.payload = [] := by cases m <;> simp_all [AppMessage.isOpen, AppMessage.payload]
    rw [hlog, hst, hd, h (hst ▸ hr'), payloads_append, payloads_cons, this]
    simp
  | own ha hx hserve hf hst hlog hd =>
    rcases hf.arriving with ⟨-, hq⟩ | ⟨data, rfl, -⟩
    · rw [hlog, hst, hd, returned_append, List.append_assoc, hq, h (hreset hf hst)]
    · simp [Task.serves] at hserve
  | @handles x o m ha hx hm hf hpush hst hlog hheard hd =>
    have hv := h (hreset hf hst)
    rw [hlog, hst, hd, returned_append, List.append_assoc, payloads_append, payloads_cons,
      payloads_nil, List.append_nil, ← hv]
    rcases hm with hm | hm
    · rcases hf.arriving with ⟨hx', hq⟩ | ⟨data, rfl, hlog', hq⟩
      · -- the message carries no data
        have : m.payload = [] := by
          cases m <;> simp_all [Session.dispatch, AppMessage.payload, Task.arriving]
        rw [hq, this, List.append_nil]
      · have hp : m.payload = data := by
          cases m <;> simp_all [Session.dispatch, AppMessage.payload]
        rcases hq with ⟨hq, -⟩ | ⟨-, t, htm, htr⟩
        · rw [hlog', returned_nil, hq, hp, List.nil_append, List.append_assoc]
        · simpa [hpush t htm] using Task.serves_of_refuses htr
    · simp [hst, hf.reset_of_refuses hm] at hr'

/-! ## The answer of the peer -/

/-- The peer accepted the stream, with the metadata that the stream keeps. -/
def HeardAccept (v : View) : Prop :=
  v.st.opening = false ∧ ∃ id grant, .appAccept id v.st.acceptMeta grant ∈ v.heard

/-- **A stream opened here that is used was accepted by the peer.** -/
structure Accepted (v : View) : Prop where
  resets : v.st.reset = true → v.st.resetErr ≠ none ∧ v.st.opening = false
  opened : v.st.inbound = false → v.st.reset = false → v.st.opening = false →
    v.st.openErr = none → v.HeardAccept
  used : v.st.inbound = false → (v.st.shared = true ∨ ∃ t ∈ v.tasks, t.phase = .live) →
    v.HeardAccept
  bytes : 0 < v.st.bytesOut → v.st.granted ∧ (v.st.inbound = false → v.HeardAccept)
  answered : (∃ m ∈ v.handled, m.isAccept = true) → v.st.opening = false

theorem Initial.accepted (h : Initial r v) : v.Accepted := by
  have hi : v.handled = v.heard := by rw [handled, if_neg h.idle]
  cases h with
  | inbound => exact ⟨by simp, by simp, by simp, by simp, by simp⟩
  | outbound hm =>
    exact ⟨by simp, by simp, by simp [Task.phase, Emission.phase], by simp, by simp [hi]⟩

/-- The metadata of the accept is kept. -/
theorem Step.heardAccept {a : Option Section} (hs : Step r v a v') (h : v.HeardAccept) :
    v'.HeardAccept := by
  obtain ⟨ho, id, grant, hm⟩ := h
  have hm' := hs.grows.2.2.subset hm
  rcases hs.fires with ⟨hst, -⟩ | ⟨x, o, -, -, hf, hst, -⟩
  · rw [← hst] at ho hm'
    exact ⟨ho, id, grant, hm'⟩
  · rcases hf.acceptMeta with he | ⟨hop, -⟩
    · refine ⟨?_, id, grant, by rwa [hst, he]⟩
      by_contra hc
      simp [hf.opening (by simpa [hst] using hc)] at ho
    · simp [ho] at hop

theorem Accepted.used_step {a : Option Section} (h : v.Accepted) (hs : Step r v a v')
    (hh : v.Handshake) (hi : v.st.inbound = false)
    (hu : v'.st.shared = true ∨ ∃ t ∈ v'.tasks, t.phase = .live) : v.HeardAccept := by
  have hlive {t : Task} (ht : t ∈ v.tasks) (hp : t.phase = .live) : v.HeardAccept :=
    h.used hi (.inr ⟨t, ht, hp⟩)
  -- the application gets hold of the stream, or a step comes up that is live
  rcases hu with hu | ⟨t, ht, hp⟩
  · rcases hs.fires with ⟨hst, -⟩ | ⟨x, o, -, hx, hf, hst, -⟩
    · exact h.used hi (.inl (hst ▸ hu))
    · rcases hf.shared (hst ▸ hu) with hu | hx'
      · exact h.used hi (.inl hu)
      · exact hlive hx hx'
  · cases hs.arises ht with
    | kept hm => exact hlive hm hp
    | @sect x o hx ha hf hst hm =>
      rcases hf.push_phase t hm with ⟨-, hx'⟩ | hn
      · cases hp' : x.phase with
        | neutral => exact absurd hp' hx'
        | live => exact hlive hx hp'
        -- `Open` returns the stream: it was neither rejected nor reset
        | opener =>
          obtain ⟨he, hre⟩ := hf.openResult_of_live hp' ⟨t, hm, hp⟩
          have hr : v.st.reset = false := by
            by_contra hr
            exact (h.resets (by simpa using hr)).1 hre
          have ho : v.st.opening = false := by
            by_contra hc
            have hs := (hh.opening (by simpa using hc)).2.2 _ hx
            cases x <;> simp [Section.phase, Task.settles] at hp' hs
          exact h.opened hi hr ho he
        -- only the peer's streams are accepted here
        | acceptor => simpa [hh.outbound hi] using hh.acceptor _ hx hp'
      · simp [hp] at hn
    | @sent x hx hout hm =>
      rcases x.sent_phase t hm with hn | hx'
      · simp [hp] at hn
      · exact hlive hx (hx'.symm.trans hp)
    | lost hx hm => simp [Emission.failed_phase _ t hm] at hp
    | lead h₀ hl hm =>
      rcases (hl.phase t hm).1 with hn | hp'
      · simp [hp] at hn
      · exact hlive h₀ (hp'.symm.trans hp)
    | detach ht => simp [ht, Task.phase, Section.phase] at hp
    | arrive hid hheard hm => simp [Session.dispatch_phase _ t hm] at hp
    | fail ht => simp [ht, Task.phase, Section.phase] at hp
    | call hs hc => exact h.used hi (.inl hs)

theorem Accepted.opened_sect {a : Option Section} {x : Section} {o : Outcome} (h : v.Accepted)
    (hs : Step r v a v') (hst : v'.st = o.st) (hc : v.Current r)
    (hx : .sect r x ∈ v.tasks) (hf : Stream.Fires r v.st x o) (hi : v.st.inbound = false)
    (hr : o.st.reset = false) (ho : o.st.opening = false) (he : o.st.openErr = none) :
    v'.HeardAccept := by
  by_cases ho' : v.st.opening = true
  · rcases hf.opening_ends ho' ho with ⟨metadata, grant, rfl⟩ | he' | hr'
    · -- the section handles the accept, whose metadata it stores
      obtain ⟨ms, m, hheard, hm⟩ := hc _ hx rfl
      have hmeta : o.st.acceptMeta = metadata := by
        cases hf with
        | accepted hm hg hg' ho => rfl
        | refused h => simp [ho'] at ho
        | ignored h => simp [ho'] at ho
      obtain ⟨id, g, rfl⟩ : ∃ id g, m = .appAccept id metadata g := by
        cases m <;> simp_all [Session.dispatch, Task.refuses]
      exact ⟨hst ▸ ho, id, g, hs.grows.2.2.subset (by simp [hheard, hst, hmeta])⟩
    · exact absurd he he'
    · simp [hr] at hr'
  · refine hs.heardAccept (h.opened hi ?_ (by simpa using ho') ?_)
    · by_contra hr'
      simp [hf.reset (by simpa using hr')] at hr
    · rcases hf.openErr with he' | ⟨-, ho'', -⟩
      · exact he' ▸ he
      · exact absurd ho'' ho'

theorem Accepted.answered_sect {x : Section} {o : Outcome} {m : AppMessage}
    (hx : .sect r x ∈ Session.dispatch r m) (hm : m.isAccept = true)
    (hf : Stream.Fires r v.st x o) (hpush : ∀ t ∈ App.own r o.push, t.serves = false) :
    o.st.opening = false := by
  obtain ⟨metadata, grant, rfl⟩ : ∃ metadata grant, x = .handleAccept metadata grant := by
    cases m <;> simp_all [AppMessage.isAccept, Session.dispatch]
  cases hf with
  | accepted hm hg hg' ho => rfl
  | ignored h => cases h; assumption
  | @refused _ cause h =>
    have := hpush (.emit r (.reset cause)) (by simp)
    rw [show (Task.emit r (.reset cause)).serves = true from (h.remote (r := r)).1] at this
    simp at this

/-- **Every step keeps it that streams are used only after they were accepted.** -/
theorem Step.accepted {a : Option Section} (hs : Step r v a v') (hh : v.Handshake)
    (hc : v.Current r) (h : v.Accepted) : v'.Accepted := by
  have hin : v'.st.inbound = v.st.inbound := by
    rcases hs.fires with ⟨hst, -⟩ | ⟨x, o, -, -, hf, hst, -⟩
    · rw [hst]
    · rw [hst]; exact congrArg Prod.snd hf.name
  -- `opening` ends once
  have hclosed {x : Section} {o : Outcome} (hf : Stream.Fires r v.st x o)
      (ho : v.st.opening = false) : o.st.opening = false := by
    by_contra hc
    simp [hf.opening (by simpa using hc)] at ho
  have hresets : v'.st.reset = true → v'.st.resetErr ≠ none ∧ v'.st.opening = false := by
    intro hr
    rcases hs.fires with ⟨hst, -⟩ | ⟨x, o, -, -, hf, hst, -⟩
    · rw [hst] at hr ⊢
      exact h.resets hr
    · rw [hst] at hr ⊢
      refine ⟨hf.resetErr (fun hr => (h.resets hr).1) hr, ?_⟩
      by_cases hr' : v.st.reset = true
      · exact hclosed hf (h.resets hr').2
      · exact hf.opening_of_reset (by simpa using hr') hr
  refine ⟨hresets, fun hi hr ho he => ?_, fun hi hu => hs.heardAccept ?_,
    fun hb => ?_, fun ha => ?_⟩
  · rcases hs.fires with ⟨hst, -⟩ | ⟨x, o, -, hx, hf, hst, -⟩
    · rw [hst] at hi hr ho he
      exact hs.heardAccept (h.opened hi hr ho he)
    · rw [hst] at hr ho he
      exact h.opened_sect hs hst hc hx hf (hin ▸ hi) hr ho he
  · exact h.used_step hs hh (hin ▸ hi) hu
  · rw [hin]
    rcases hs.fires with ⟨hst, -⟩ | ⟨x, o, -, hx, hf, hst, -⟩
    · rw [hst] at hb ⊢
      exact (h.bytes hb).imp_right fun hac hi => hs.heardAccept (hac hi)
    · rw [hst] at hb ⊢
      -- bytes were sent before, or the write loop of a live stream sends them
      rcases hf.bytesOut hb with hb | hx'
      · exact ⟨hf.granted (h.bytes hb).1, fun hi => hs.heardAccept ((h.bytes hb).2 hi)⟩
      · obtain ⟨ho, ha, he, -⟩ := hh.live (.inr ⟨_, hx, hx'⟩)
        exact ⟨hf.granted ⟨ha, ho, he⟩, fun hi => hs.heardAccept (h.used hi (.inr ⟨_, hx, hx'⟩))⟩
  · obtain ⟨m', hm', ha⟩ := ha
    cases hs.progressed hh hc with
    | same hst hlog hd => exact hst ▸ h.answered ⟨m', hd ▸ hm', ha⟩
    | own ha' hx hserve hf hst hlog hd =>
      exact hst ▸ hclosed hf (h.answered ⟨m', hd ▸ hm', ha⟩)
    | handles ha' hx hm hf hpush hst hlog hheard hd =>
      rw [hst]
      rcases List.mem_append.mp (hd ▸ hm') with hm' | hm'
      · exact hclosed hf (h.answered ⟨m', hm', ha⟩)
      · obtain rfl := List.mem_singleton.mp hm'
        rcases hm with hm | hm
        · exact Accepted.answered_sect hm ha hf hpush
        · exact hst ▸ (hresets (hst ▸ hf.reset_of_refuses hm)).2
    | unhandled hm hst hlog hd =>
      rcases List.mem_append.mp (hd ▸ hm') with hm' | hm'
      · exact hst ▸ h.answered ⟨m', hm', ha⟩
      · obtain rfl := List.mem_singleton.mp hm'
        cases m' <;> simp [AppMessage.isOpen, AppMessage.isAccept] at hm ha

end View

namespace Session

variable {cfg : Config} {ok : Session → Label → Prop} {s : Session} {r : Ref} {st : Stream}

theorem current (h : Reaches step ok (new cfg) s) (hst : s.heap[r]? = some st) :
    (s.view r st).Current r :=
  view_inductive (I := fun r v => v.Current r) (fun _ _ hi => hi.current)
    (fun _ _ _ _ hs hv => hs.current hv) h hst

/-- **No data of the messages handled is missing until the stream is reset.** -/
theorem delivered (h : Reaches step ok (new cfg) s) (hst : s.heap[r]? = some st) :
    (s.view r st).Delivered :=
  (view_inductive (I := fun r v => v.Handshake ∧ v.Current r ∧ v.Delivered)
    (fun _ _ hi => ⟨hi.handshake, hi.current, hi.delivered⟩)
    (fun _ _ _ _ hs hv =>
      ⟨hs.handshake hv.1, hs.current hv.2.1, hs.delivered hv.1 hv.2.1 hv.2.2⟩) h hst).2.2

/-- **Streams are used only after they were accepted, in every state reached.** -/
theorem accepted (h : Reaches step ok (new cfg) s) (hst : s.heap[r]? = some st) :
    (s.view r st).Accepted :=
  (view_inductive (I := fun r v => v.Handshake ∧ v.Current r ∧ v.Accepted)
    (fun _ _ hi => ⟨hi.handshake, hi.current, hi.accepted⟩)
    (fun _ _ _ _ hs hv =>
      ⟨hs.handshake hv.1, hs.current hv.2.1, hs.accepted hv.1 hv.2.1 hv.2.2⟩) h hst).2.2

end Session

end Mvcp.App
