import Mvcp.App.View

/-!
# The open handshake

A stream is opened by `Open` and accepted by `acceptOpen`. Until the handshake is complete, no
goroutine writes or reads the stream and its queues are empty. One goroutine leads each side
through the handshake and becomes the write loop: there are never two of them.

## Main definitions

* `Task.phase`: the part of the protocol a step belongs to
* `Task.chain`: the steps of the goroutine that opens or accepts a stream, and of its write loop
* `View.Handshake`: the handshake invariant

## Main results

* `View.Step.handshake`: every step of a view keeps the handshake invariant
* `Session.handshake`: the invariant holds of every stream in every state reached
-/

namespace Mvcp.App

open Library (Reaches Always)

/-! ## Phases -/

/-- The part of the protocol a step on a stream belongs to. -/
inductive Phase
  /-- `Open` waits for the answer of the peer. -/
  | opener
  /-- `acceptOpen` waits for the handler. -/
  | acceptor
  /-- The stream is used. -/
  | live
  /-- Frames of the peer, and teardown. -/
  | neutral
  deriving DecidableEq

def Section.phase : Section → Phase
  | .openResult => .opener
  | .acceptWindow .. => .acceptor
  | .write .. | .read .. | .readWait .. | .closeWrite | .writeLoop | .writeLoopWait _
  | .attachEndpoint _ | .markOpened | .openReturn => .live
  | .deliver _ | .addCredit _ | .remoteClose | .handleAccept .. | .handleReject .. | .closeReady
  | .setReset _ | .broadcast | .maybeFinish | .finish | .detachBytes | .closeEndpoint => .neutral

def Emission.phase : Emission → Phase
  | .open _ => .opener
  | .accept .. | .data _ | .credit _ | .close => .live
  | .reject .. | .reset _ => .neutral

def Task.phase : Task → Phase
  | .sect _ x => x.phase
  | .emit _ x => x.phase
  | .pump .. | .startWriteLoop _ => .live
  | .openWait _ => .opener
  | .acceptOpen .. | .handlerOpen .. => .acceptor
  | _ => .neutral

/-- The steps of the goroutine that leads a stream through the handshake, and of the write
loop. -/
def Task.chain : Task → Bool
  | .emit _ (.open _) | .openWait _ | .sect _ .openResult => true
  | .acceptOpen .. | .handlerOpen .. | .sect _ (.acceptWindow ..) | .emit _ (.accept ..) => true
  | .startWriteLoop _ | .sect _ .writeLoop | .sect _ (.writeLoopWait _) | .emit _ (.data _) => true
  | _ => false

/-- The steps by which the answer of the peer reaches `Open`. -/
def Task.settles : Task → Bool
  | .sect _ .closeReady | .sect _ .openResult => true
  | _ => false

theorem Emission.isOpen_message {st : Stream} {x : Emission} (h : (x.message st).isOpen = true) :
    x.phase = .opener := by
  cases x <;> simp_all [Emission.message, AppMessage.isOpen, Emission.phase]

/-- The steps of the handshake belong to the goroutine that leads the stream. -/
theorem Task.chain_of_phase {t : Task} (h : t.phase = .opener ∨ t.phase = .acceptor) :
    t.chain = true := by
  cases t with
  | sect r x => cases x <;> simp_all [Task.phase, Section.phase, Task.chain]
  | emit r x => cases x <;> simp_all [Task.phase, Emission.phase, Task.chain]
  | _ => simp_all [Task.phase, Task.chain]

theorem Stream.Ignores.phase {st : Stream} {x : Section} (h : st.Ignores x) :
    x.phase = .neutral := by
  cases h <;> rfl

theorem Stream.Refuses.phase {st : Stream} {x : Section} {cause : Cause}
    (h : st.Refuses x cause) : x.phase = .neutral := by
  cases h <;> rfl

namespace Stream.Fires

variable {r : Ref} {st : Stream} {x : Section} {o : Outcome}

theorem opening (h : Fires r st x o) (ho : o.st.opening = true) : st.opening = true := by
  cases h <;> first | exact ho | simp at ho

theorem accepting (h : Fires r st x o) :
    o.st.accepting = st.accepting ∧ x.phase ≠ .acceptor ∨
      o.st.accepting = false ∧ x.phase = .acceptor := by
  cases h with
  | acceptWindow => exact .inr ⟨rfl, rfl⟩
  | ignored h => exact .inl ⟨rfl, by simp [h.phase]⟩
  | refused h => exact .inl ⟨rfl, by simp [h.phase]⟩
  | _ => exact .inl ⟨rfl, by simp [Section.phase]⟩

theorem shared (h : Fires r st x o) (hs : o.st.shared = true) :
    st.shared = true ∨ x.phase = .live := by
  cases h with
  | markOpened_now hf ho hs' hlog => exact .inr rfl
  | openReturn => exact .inr rfl
  | _ => exact .inl hs

theorem readyClosed (h : Fires r st x o) (ho : o.st.opening = true) :
    o.st.readyClosed = st.readyClosed ∨ x = .closeReady := by
  cases h with
  | closeReady => exact .inr rfl
  | reset_set hr => simp at ho
  | _ => exact .inl rfl

theorem push_phase (h : Fires r st x o) :
    ∀ t ∈ o.push, t.phase = .live ∧ x.phase ≠ .neutral ∨ t.phase = .neutral := by
  cases h with
  | detachBytes => split_ifs <;> simp [Task.phase]
  | closeEndpoint => simp +contextual [Task.phase]
  | ignored h => simp
  | refused h => simp [Task.phase, Emission.phase]
  | _ => simp [Stream.park, Task.phase, Section.phase, Emission.phase, or_imp, forall_and]

theorem push_settles (h : Fires r st x o) :
    ∀ t ∈ o.push, t.settles = true → o.st.opening = false := by
  cases h with
  | detachBytes => split_ifs <;> simp [Task.settles]
  | closeEndpoint => simp +contextual [Task.settles]
  | _ => simp [Stream.park, Task.settles, or_imp, forall_and]

/-- The goroutine that leads a stream stays one goroutine. -/
theorem push_chain (h : Fires r st x o) :
    o.push.countP Task.chain ≤ if (Task.sect r x).chain then 1 else 0 := by
  have hw (k : Caller) (err : Option StreamError) : (k.wrote r err).countP Task.chain = 0 := by
    simp [List.countP_eq_zero, Task.chain]
  have hread (k : Caller) (p : Bytes) : (k.read r p).countP Task.chain = 0 := by
    simp [List.countP_eq_zero, Task.chain]
  have hf (k : Caller) (err : StreamError) : (k.readFailed r err).countP Task.chain = 0 := by
    simp [List.countP_eq_zero, Task.chain]
  cases h with
  | detachBytes => split_ifs <;> simp [Task.chain]
  | closeEndpoint => cases st.ep <;> simp [Task.chain]
  | _ => simp [Stream.park, Task.chain, List.countP_cons, hw, hread, hf]

theorem sendQ (h : Fires r st x o) (hx : x.phase ≠ .live) : o.st.sendQ = st.sendQ := by
  cases h <;> first | rfl | simp [Section.phase] at hx

/-- `Open` uses the stream only after an accept. -/
theorem openResult_of_live (h : Fires r st x o) (hx : x.phase = .opener)
    (hl : ∃ t ∈ o.push, t.phase = .live) : st.openErr = none ∧ st.resetErr = none := by
  cases h with
  | openResult_ok he hr => exact ⟨he, hr⟩
  | openResult_failed h => simp [Task.phase] at hl
  | ignored h => simp at hl
  | refused h => simp [h.phase] at hx
  | _ => simp [Section.phase] at hx

theorem inQ (h : Fires r st x o) (hx : x.phase ≠ .live) :
    o.st.inQ = st.inQ ∨ (Task.sect r x).serves = true ∧ st.opening = false ∧
      st.accepting = false := by
  cases h with
  | read_data hn hr hq => simp [Section.phase] at hx
  | deliver_accepted hd hlen ha ho hc hr hw => exact .inr ⟨rfl, ho, ha⟩
  | _ => exact .inl rfl

end Stream.Fires

namespace Emission

variable {r : Ref} (x : Emission)

theorem sent_phase : ∀ t ∈ x.sent r, t.phase = .neutral ∨ t.phase = x.phase := by
  cases x <;> simp [Emission.sent, Task.phase, Section.phase, Emission.phase]

theorem failed_phase : ∀ t ∈ x.failed r, t.phase = .neutral := by
  cases x <;> simp [Emission.failed, Task.phase, Section.phase]

theorem countP_chain {ts : List Task} (hts : ts = x.sent r ∨ ts = x.failed r) :
    ts.countP Task.chain ≤ if (Task.emit r x).chain = true then 1 else 0 := by
  rcases hts with rfl | rfl <;> cases x <;>
    simp [Emission.sent, Emission.failed, Task.chain, List.countP_cons]

end Emission

theorem Task.Follows.settles {r : Ref} {t : Task} (h : t.Follows r) : t.settles = false := by
  cases h <;> rfl

theorem Session.dispatch_phase {r : Ref} (m : AppMessage) :
    ∀ t ∈ Session.dispatch r m, t.phase = .neutral := by
  cases m <;> simp [Session.dispatch, Task.phase, Section.phase]

theorem Session.BridgeTask.phase {r : Ref} {e : EpRef} {t : Task}
    (h : Session.BridgeTask r e t) : (t.phase = .neutral ∨ t.phase = .live) ∧ t.settles = false ∧
      t.chain = false ∧ t.serves = false := by
  cases h <;> simp [Task.phase, Section.phase, Emission.phase, Task.settles, Task.chain,
    Task.serves, Cause.remote]

/-- What a step of a goroutine on its own stream leads to. -/
theorem View.Leads.phase {r : Ref} {st : Stream} {t : Task} {ts : Multiset Task}
    (h : View.Leads r st t ts) : ∀ t' ∈ ts, (t'.phase = .neutral ∨ t'.phase = t.phase) ∧
      (t'.settles = true → 0 < st.readyClosed) ∧ t'.serves = false := by
  cases h with
  | pump h =>
    intro t' ht'
    rw [← own_append] at ht'
    obtain ⟨hp, hs, -, hv⟩ := (h.tasks t' (mem_own ht')).phase
    exact ⟨hp, by simp [hs], hv⟩
  | open_ready hr => simpa [Task.phase, Section.phase, Task.settles, Task.serves] using hr
  | _ => simp [Task.phase, Section.phase, Emission.phase, Task.settles, Task.serves, Cause.remote]

theorem View.Leads.chain {r : Ref} {st : Stream} {t : Task} {ts : Multiset Task}
    (h : View.Leads r st t ts) :
    ts.countP (fun t => t.chain = true) ≤ if t.chain = true then 1 else 0 := by
  have hone (a : Task) : ({a} : Multiset Task).countP (fun t => t.chain = true) ≤ 1 :=
    Multiset.countP_le_card _ _
  cases h with
  | pump h =>
    rw [← own_append, Multiset.countP_eq_zero.mpr]
    · exact Nat.zero_le _
    · intro t' ht'
      simp [(h.tasks t' (mem_own ht')).phase.2.2.1]
  | open_canceled => exact hone _
  | no_handler => exact (Multiset.countP_eq_zero.mpr (by simp [Task.chain])).trans_le (by simp)
  | handler_refused =>
    exact (Multiset.countP_eq_zero.mpr (by simp [Task.chain])).trans_le (by simp)
  | start_closed => simp
  | open_closed => simp
  | failed => simp
  | _ => exact hone _

/-! ## The invariant -/

namespace View

/-- The `APP_OPEN` of the stream could not be written. -/
def LostOpen (v : View) : Prop := ∃ m ∈ v.lost, m.isOpen = true

/-- **The handshake invariant.** -/
structure Handshake (v : View) : Prop where
  inbound : v.st.inbound = true →
    v.st.opening = false ∧ v.st.openErr = none ∧ ¬v.LostOpen
  outbound : v.st.inbound = false → v.st.accepting = false
  opener : ∀ t ∈ v.tasks, t.phase = .opener → v.st.inbound = false ∧ ¬v.LostOpen ∧
    v.st.shared = false ∧ ∀ t' ∈ v.tasks, t'.phase ≠ .live
  acceptor : ∀ t ∈ v.tasks, t.phase = .acceptor → v.st.accepting = true
  opening : v.st.opening = true → v.st.readyClosed = 0 ∧ v.st.openErr = none ∧
    ∀ t ∈ v.tasks, t.settles = false
  /-- A stream that is used has completed the handshake. -/
  live : (v.st.shared = true ∨ ∃ t ∈ v.tasks, t.phase = .live) →
    v.st.opening = false ∧ v.st.accepting = false ∧ v.st.openErr = none ∧ ¬v.LostOpen
  /-- One goroutine leads the stream through the handshake and becomes its write loop. -/
  chain : v.tasks.countP (fun t => t.chain = true) ≤ 1
  /-- Nothing is queued before the handshake is complete. -/
  empty : v.st.opening = true ∨ v.st.accepting = true ∨ v.st.openErr ≠ none →
    v.st.sendQ = [] ∧ v.st.inQ = []
  /-- One frame is handled at a time, and none after a rejection. -/
  serves : v.tasks.countP (fun t => t.serves = true) ≤ 1
  rejected : v.st.openErr ≠ none → ∀ t ∈ v.tasks, t.serves = false

variable {r : Ref} {v v' : View}

theorem Initial.handshake (h : Initial r v) : v.Handshake := by
  have hcount (p : Task → Prop) [DecidablePred p] (t : Task) :
      ({t} : Multiset Task).countP p ≤ 1 := Multiset.countP_le_card p {t}
  cases h with
  | inbound => constructor <;> simp [Task.phase, LostOpen, hcount]
  | outbound => constructor <;> simp [Task.phase, Emission.phase, Task.settles, LostOpen, hcount]

theorem countP_own_le (p : Task → Prop) [DecidablePred p] (ts : List Task) :
    (own r ts).countP p ≤ ts.countP (fun t => decide (p t)) := by
  rw [← Multiset.coe_countP]
  exact Multiset.countP_le_of_le _ (Multiset.filter_le _ _)

/-- One task is replaced by others. -/
theorem countP_replace {p : Task → Prop} [DecidablePred p] {ts new rest : Multiset Task} {t : Task}
    (ht : ts = t ::ₘ rest) (hnew : new.countP p ≤ if p t then 1 else 0) (h : ts.countP p ≤ 1) :
    (new + rest).countP p ≤ 1 := by
  rw [ht, Multiset.countP_cons] at h
  rw [Multiset.countP_add]
  omega

/-- If one task has a property that at most one has, the others do not. -/
theorem not_of_countP_le {p : Task → Prop} [DecidablePred p] {ts rest : Multiset Task} {t : Task}
    (ht : ts = t ::ₘ rest) (hp : p t) (h : ts.countP p ≤ 1) : ∀ t' ∈ rest, ¬p t' := by
  rw [ht, Multiset.countP_cons, if_pos hp] at h
  exact Multiset.countP_eq_zero.mp (by omega)

theorem Handshake.sect {x : Section} {o : Outcome} {rest : Multiset Task} (h : v.Handshake)
    (ht : v.tasks = .sect r x ::ₘ rest) (hf : Stream.Fires r v.st x o) :
    Handshake { v with st := o.st, tasks := own r o.push + rest, log := v.log ++ o.log } := by
  have hx : .sect r x ∈ v.tasks := by simp [ht]
  have hrest {t : Task} (hm : t ∈ rest) : t ∈ v.tasks := by simp [ht, hm]
  have hin : o.st.inbound = v.st.inbound := congrArg Prod.snd hf.name
  -- the flags can only be cleared, and `openErr` is set when `opening` is
  have hopen : v.st.opening = false → o.st.opening = false := fun ho => by
    by_contra hc; simp [hf.opening (by simpa using hc)] at ho
  have hacc : v.st.accepting = false → o.st.accepting = false := fun ha => by
    rcases hf.accepting with h | h
    · rw [h.1, ha]
    · exact h.1
  have herr : v.st.opening = false → o.st.openErr = v.st.openErr := fun ho => by
    rcases hf.openErr with h | ⟨-, h, -⟩
    · exact h
    · simp [h] at ho
  -- a live section has an open stream
  have hlive (hx' : x.phase = .live) := h.live (.inr ⟨_, hx, hx'⟩)
  have hphase {t : Task} (hm : t ∈ own r o.push) := hf.push_phase t (mem_own hm)
  refine ⟨fun hi => ?_, fun hi => ?_, fun t hm hp => ?_, fun t hm hp => ?_, fun ho => ?_,
    fun hl => ?_, ?_, fun he => ?_, ?_, fun he t hm => ?_⟩
  · obtain ⟨ho, he, hl⟩ := h.inbound (hin ▸ hi)
    exact ⟨hopen ho, (herr ho).trans he, hl⟩
  · exact hacc (h.outbound (hin ▸ hi))
  · rcases Multiset.mem_add.mp hm with hm | hm
    · rcases hphase hm with ⟨hl, -⟩ | hn
      · simp [hp] at hl
      · simp [hp] at hn
    · obtain ⟨hi, hlost, hs, hl⟩ := h.opener t (hrest hm) hp
      have hx' : x.phase = .neutral := by
        cases hx' : x.phase with
        | neutral => rfl
        | live => exact absurd hx' (hl _ hx)
        | _ =>
          have hc : (Task.sect r x).chain = true := Task.chain_of_phase (by simp [Task.phase, hx'])
          exact absurd (Task.chain_of_phase (.inl hp)) (not_of_countP_le ht hc h.chain t hm)
      refine ⟨hin.trans hi, hlost, ?_, fun t' hm' => ?_⟩
      · by_contra hc
        rcases hf.shared (by simpa using hc) with hs' | hx''
        · simp [hs'] at hs
        · simp [hx'] at hx''
      · rcases Multiset.mem_add.mp hm' with hm' | hm'
        · rcases hphase hm' with ⟨-, hn⟩ | hn
          · exact absurd hx' hn
          · simp [hn]
        · exact hl t' (hrest hm')
  · rcases Multiset.mem_add.mp hm with hm | hm
    · rcases hphase hm with ⟨hl, -⟩ | hn
      · simp [hp] at hl
      · simp [hp] at hn
    · rcases hf.accepting with ⟨ha, -⟩ | ⟨-, hx'⟩
      · exact ha.trans (h.acceptor t (hrest hm) hp)
      · have hc : (Task.sect r x).chain = true := Task.chain_of_phase (.inr hx')
        exact absurd (Task.chain_of_phase (.inr hp)) (not_of_countP_le ht hc h.chain t hm)
  · obtain ⟨hr, he, hs⟩ := h.opening (hf.opening ho)
    refine ⟨?_, ?_, fun t hm => ?_⟩
    · rcases hf.readyClosed ho with h | rfl
      · exact h.trans hr
      · simpa [Task.settles] using hs _ hx
    · rcases hf.openErr with h | ⟨-, -, h, -⟩
      · exact h.trans he
      · simp [h] at ho
    · rcases Multiset.mem_add.mp hm with hm | hm
      · by_contra hc
        simp [hf.push_settles t (mem_own hm) (by simpa using hc)] at ho
      · exact hs t (hrest hm)
  · have hkeep (hv : v.st.opening = false ∧ v.st.accepting = false ∧ v.st.openErr = none ∧
        ¬v.LostOpen) : o.st.opening = false ∧ o.st.accepting = false ∧ o.st.openErr = none ∧
        ¬v.LostOpen := ⟨hopen hv.1, hacc hv.2.1, (herr hv.1).trans hv.2.2.1, hv.2.2.2⟩
    rcases hl with hs | ⟨t, hm, hp⟩
    · rcases hf.shared hs with hs | hx'
      · exact hkeep (h.live (.inl hs))
      · exact hkeep (hlive hx')
    rcases Multiset.mem_add.mp hm with hm | hm
    · rcases hphase hm with ⟨-, hx'⟩ | hn
      · cases hp' : x.phase with
        | neutral => exact absurd hp' hx'
        | live => exact hkeep (hlive hp')
        | opener =>
          obtain ⟨hi, hlost, -⟩ := h.opener _ hx hp'
          have ho : v.st.opening = false := by
            by_contra hc
            have hs := (h.opening (by simpa using hc)).2.2 _ hx
            cases x <;> simp [Section.phase, Task.settles] at hp' hs
          exact hkeep ⟨ho, h.outbound hi, (hf.openResult_of_live hp' ⟨t, mem_own hm, hp⟩).1, hlost⟩
        | acceptor =>
          have hi : v.st.inbound = true := by
            by_contra hc
            have ha := h.outbound (by simpa using hc)
            simp [h.acceptor _ hx hp'] at ha
          obtain ⟨ho, he, hlost⟩ := h.inbound hi
          refine ⟨hopen ho, ?_, (herr ho).trans he, hlost⟩
          rcases hf.accepting with ⟨-, hn⟩ | ⟨ha, -⟩
          · exact absurd hp' hn
          · exact ha
      · simp [hp] at hn
    · exact hkeep (h.live (.inr ⟨t, hrest hm, hp⟩))
  · refine countP_replace ht ?_ h.chain
    exact (countP_own_le _ _).trans (by simpa using hf.push_chain)
  · have he' : v.st.opening = true ∨ v.st.accepting = true ∨ v.st.openErr ≠ none := by
      by_contra hc
      simp only [not_or, Bool.not_eq_true, not_not] at hc
      simp [hopen hc.1, hacc hc.2.1, herr hc.1, hc.2.2] at he
    have hx' : x.phase ≠ .live := fun hp => by
      obtain ⟨h₁, h₂, h₃, -⟩ := hlive hp
      simp [h₁, h₂, h₃] at he'
    obtain ⟨hq₁, hq₂⟩ := h.empty he'
    refine ⟨(hf.sendQ hx').trans hq₁, ?_⟩
    rcases hf.inQ hx' with hq | ⟨hs, ho, ha⟩
    · exact hq.trans hq₂
    · simp only [ho, ha, Bool.false_eq_true, false_or] at he'
      simp [h.rejected he' _ hx] at hs
  · refine countP_replace ht ?_ h.serves
    exact (countP_own_le _ _).trans (by simpa using hf.push_serves)
  · rcases Multiset.mem_add.mp hm with hm | hm
    · rcases hf.openErr with he' | ⟨hpush, -⟩
      · exact Task.serves_of_countP hf.push_serves (h.rejected (he' ▸ he) _ hx) t (mem_own hm)
      · have := mem_own hm
        simp only [hpush, List.mem_cons, List.not_mem_nil, or_false] at this
        rcases this with rfl | rfl <;> rfl
    · rcases hf.openErr with he' | ⟨-, -, -, code, message, rfl⟩
      · exact h.rejected (he' ▸ he) t (hrest hm)
      · have hs : (Task.sect r (.handleReject code message)).serves = true := rfl
        simpa using not_of_countP_le ht hs h.serves t hm

/-- The stream is unchanged and some steps are replaced by steps of the same phases. -/
theorem Handshake.replace {new rest : Multiset Task} (h : v.Handshake) (hst : v'.st = v.st)
    (hlost : v'.LostOpen ↔ v.LostOpen) (ht : v'.tasks = new + rest) (hle : rest ≤ v.tasks)
    (hphase : ∀ t ∈ new, t.phase = .neutral ∨ (∃ t' ∈ v.tasks, t'.phase = t.phase) ∨
      t.phase = .live ∧ v.st.shared = true)
    (hsettles : ∀ t ∈ new, t.settles = true → v.st.opening = false)
    (hchain : (new + rest).countP (fun t => t.chain = true) ≤ 1)
    (hserves : (new + rest).countP (fun t => t.serves = true) ≤ 1)
    (hrej : v.st.openErr ≠ none → ∀ t ∈ new, t.serves = false) : v'.Handshake := by
  have hrest {t : Task} (hm : t ∈ rest) : t ∈ v.tasks := Multiset.mem_of_le hle hm
  -- no phase comes up that was not there, but for a call of the application
  have hfrom {t : Task} (hm : t ∈ v'.tasks) : t.phase = .neutral ∨
      (∃ t' ∈ v.tasks, t'.phase = t.phase) ∨ t.phase = .live ∧ v.st.shared = true := by
    rcases Multiset.mem_add.mp (ht ▸ hm) with hm | hm
    · exact hphase t hm
    · exact .inr (.inl ⟨t, hrest hm, rfl⟩)
  refine ⟨?_, ?_, fun t hm hp => ?_, fun t hm hp => ?_, fun ho => ?_, fun hl => ?_, ht ▸ hchain,
    ?_, ht ▸ hserves, fun he t hm => ?_⟩
  · rw [hst, hlost]; exact h.inbound
  · rw [hst]; exact h.outbound
  · rw [hst, hlost]
    obtain ⟨t', hm', hp'⟩ : ∃ t' ∈ v.tasks, t'.phase = .opener := by
      rcases hfrom hm with hn | ⟨t', hm', hp'⟩ | ⟨hl, -⟩
      · simp [hp] at hn
      · exact ⟨t', hm', hp'.trans hp⟩
      · simp [hp] at hl
    obtain ⟨hi, hlo, hs, hl⟩ := h.opener t' hm' hp'
    refine ⟨hi, hlo, hs, fun t₁ hm₁ hp₁ => ?_⟩
    rcases hfrom hm₁ with hn | ⟨t₂, hm₂, hp₂⟩ | ⟨-, hs'⟩
    · simp [hp₁] at hn
    · exact hl t₂ hm₂ (hp₂.trans hp₁)
    · simp [hs] at hs'
  · rw [hst]
    rcases hfrom hm with hn | ⟨t', hm', hp'⟩ | ⟨hl, -⟩
    · simp [hp] at hn
    · exact h.acceptor t' hm' (hp'.trans hp)
    · simp [hp] at hl
  · rw [hst] at ho ⊢
    obtain ⟨hr, he, hs⟩ := h.opening ho
    refine ⟨hr, he, fun t hm => ?_⟩
    rcases Multiset.mem_add.mp (ht ▸ hm) with hm | hm
    · by_contra hc
      simp [hsettles t hm (by simpa using hc)] at ho
    · exact hs t (hrest hm)
  · rw [hst, hlost]
    refine h.live ?_
    rcases hl with hs | ⟨t, hm, hp⟩
    · exact .inl (hst ▸ hs)
    · rcases hfrom hm with hn | ⟨t', hm', hp'⟩ | ⟨-, hs⟩
      · simp [hp] at hn
      · exact .inr ⟨t', hm', hp'.trans hp⟩
      · exact .inl hs
  · rw [hst]; exact h.empty
  · rw [hst] at he
    rcases Multiset.mem_add.mp (ht ▸ hm) with hm | hm
    · exact hrej he t hm
    · exact h.rejected he t (hrest hm)

theorem Handshake.sent {x : Emission} {rest : Multiset Task} (h : v.Handshake)
    (ht : v.tasks = .emit r x ::ₘ rest) {m : AppMessage} :
    Handshake { v with tasks := own r (x.sent r) + rest, out := v.out ++ [m] } := by
  refine h.replace rfl Iff.rfl rfl (ht ▸ Multiset.le_cons_self _ _) (fun t hm => ?_)
    (fun t hm hs => ?_) ?_ ?_ fun he t hm =>
      Task.serves_of_countP (x.countP_serves (.inl rfl)) (h.rejected he _ (by simp [ht])) t
        (mem_own hm)
  · rcases x.sent_phase t (mem_own hm) with hp | hp
    · exact .inl hp
    · exact .inr (.inl ⟨.emit r x, by simp [ht], hp.symm⟩)
  · simp [(x.sent_follows t (mem_own hm)).settles] at hs
  · exact countP_replace ht
      ((countP_own_le _ _).trans (by simpa using x.countP_chain (.inl rfl))) h.chain
  · refine countP_replace ht ?_ h.serves
    exact (countP_own_le _ _).trans (by simpa using x.countP_serves (.inl rfl))

theorem Handshake.lost {x : Emission} {rest : Multiset Task} (h : v.Handshake)
    (ht : v.tasks = .emit r x ::ₘ rest) :
    Handshake { v with tasks := own r (x.failed r) + rest,
                       lost := v.lost ++ [x.message v.st] } := by
  have hchain : (own r (x.failed r) + rest).countP (fun t => t.chain = true) ≤ 1 :=
    countP_replace ht ((countP_own_le _ _).trans (by simpa using x.countP_chain (.inr rfl))) h.chain
  have hserves : (own r (x.failed r) + rest).countP (fun t => t.serves = true) ≤ 1 := by
    refine countP_replace ht ?_ h.serves
    exact (countP_own_le _ _).trans (by simpa using x.countP_serves (.inr rfl))
  by_cases hx : x.phase = .opener
  · -- `Open` gives the stream up: no goroutine uses it, and none ever will
    have hx' : .emit r x ∈ v.tasks := by simp [ht]
    obtain ⟨hi, -, hs, hl⟩ := h.opener _ hx' hx
    have hc : (Task.emit r x).chain = true := Task.chain_of_phase (.inl hx)
    have hmem {t : Task} (hm : t ∈ own r (x.failed r) + rest) :
        t.phase = .neutral ∨ t ∈ rest := by
      rcases Multiset.mem_add.mp hm with hm | hm
      · exact .inl (x.failed_phase t (mem_own hm))
      · exact .inr hm
    have hrest {t : Task} (hm : t ∈ rest) : t ∈ v.tasks := by simp [ht, hm]
    refine ⟨fun hi' => absurd (hi.symm.trans hi') (by simp), h.outbound, fun t hm hp => ?_,
      fun t hm hp => ?_, fun ho => ?_, fun hl' => ?_, hchain, h.empty, hserves, fun he t hm => ?_⟩
    · rcases hmem hm with hn | hm
      · simp [hp] at hn
      · exact absurd (Task.chain_of_phase (.inl hp)) (not_of_countP_le ht hc h.chain t hm)
    · rcases hmem hm with hn | hm
      · simp [hp] at hn
      · exact h.acceptor t (hrest hm) hp
    · obtain ⟨hr, he, hse⟩ := h.opening ho
      refine ⟨hr, he, fun t hm => ?_⟩
      rcases Multiset.mem_add.mp hm with hm | hm
      · exact (x.failed_follows t (mem_own hm)).settles
      · exact hse t (hrest hm)
    · rcases hl' with hs' | ⟨t, hm, hp⟩
      · exact absurd (hs.symm.trans hs') (by simp)
      · rcases hmem hm with hn | hm
        · simp [hp] at hn
        · exact absurd hp (hl t (hrest hm))
    · rcases Multiset.mem_add.mp hm with hm | hm
      · exact Task.serves_of_countP (x.countP_serves (.inr rfl)) (h.rejected he _ hx') t
          (mem_own hm)
      · exact h.rejected he t (hrest hm)
  · refine h.replace rfl ?_ rfl (ht ▸ Multiset.le_cons_self _ _)
      (fun t hm => .inl (x.failed_phase t (mem_own hm)))
      (fun t hm hs => by simp [(x.failed_follows t (mem_own hm)).settles] at hs) hchain hserves
      fun he t hm =>
        Task.serves_of_countP (x.countP_serves (.inr rfl)) (h.rejected he _ (by simp [ht])) t
          (mem_own hm)
    simp only [LostOpen, List.mem_append, List.mem_singleton]
    refine ⟨?_, fun ⟨m, hm, ho⟩ => ⟨m, .inl hm, ho⟩⟩
    rintro ⟨m, hm | rfl, ho⟩
    · exact ⟨m, hm, ho⟩
    · exact absurd (Emission.isOpen_message ho) hx

theorem Handshake.lead {t : Task} {ts rest : Multiset Task} (h : v.Handshake)
    (ht : v.tasks = t ::ₘ rest) (hl : Leads r v.st t ts) :
    Handshake { v with tasks := ts + rest } := by
  refine h.replace rfl Iff.rfl rfl (ht ▸ Multiset.le_cons_self _ _) (fun t' hm => ?_)
    (fun t' hm hs => ?_) (countP_replace ht hl.chain h.chain) (countP_replace ht ?_ h.serves)
    fun _ t' hm => (hl.phase t' hm).2.2
  · rcases (hl.phase t' hm).1 with hp | hp
    · exact .inl hp
    · exact .inr (.inl ⟨t, by simp [ht], hp.symm⟩)
  · by_contra ho
    have hr := (hl.phase t' hm).2.1 hs
    simp [(h.opening (by simpa using ho)).1] at hr
  · rw [Multiset.countP_eq_zero.mpr fun t' hm => by simp [(hl.phase t' hm).2.2]]
    exact Nat.zero_le _

theorem Handshake.arrive {m : AppMessage} (h : v.Handshake) (he : v.st.openErr = none)
    (hs : ∀ t ∈ v.tasks, t.serves = false) :
    Handshake { v with tasks := own r (Session.dispatch r m) + v.tasks,
                       heard := v.heard ++ [m] } := by
  refine h.replace rfl Iff.rfl rfl le_rfl
    (fun t hm => .inl (Session.dispatch_phase m t (mem_own hm))) (fun t hm ht => ?_) ?_ ?_
    fun he' => absurd he he'
  · simp [(Session.dispatch_follows m t (mem_own hm)).settles] at ht
  · have hz : (own r (Session.dispatch r m)).countP (fun t => t.chain = true) = 0 := by
      rw [Multiset.countP_eq_zero]
      intro t hm
      have := mem_own hm
      cases m <;> simp [Session.dispatch] at this <;> simp [this, Task.chain]
    rw [Multiset.countP_add, hz, zero_add]
    exact h.chain
  · have hz : v.tasks.countP (fun t => t.serves = true) = 0 := by
      rw [Multiset.countP_eq_zero]
      exact fun t hm => by simp [hs t hm]
    rw [Multiset.countP_add, hz, add_zero]
    refine (countP_own_le _ _).trans (List.countP_le_length.trans ?_)
    cases m <;> simp [Session.dispatch]

/-- A neutral step that is none of `Serve` and tells `Open` nothing is added. -/
theorem Handshake.add {t : Task} {rest : Multiset Task} (h : v.Handshake) (hst : v'.st = v.st)
    (hlost : v'.lost = v.lost) (ht : v'.tasks = t ::ₘ rest) (hle : rest ≤ v.tasks)
    (hp : t.phase = .neutral ∨ t.phase = .live ∧ v.st.shared = true) (hsettles : t.settles = false)
    (hchain : t.chain = false) (hserves : t.serves = false) : v'.Handshake := by
  refine h.replace hst (by simp [LostOpen, hlost]) (by simpa using ht : _ = {t} + rest) hle
    ?_ ?_ ?_ ?_ ?_
  · simpa using hp.imp id .inr
  · simp [hsettles]
  · rw [Multiset.singleton_add, Multiset.countP_cons, hchain]
    simpa using (Multiset.countP_le_of_le _ hle).trans h.chain
  · rw [Multiset.singleton_add, Multiset.countP_cons, hserves]
    simpa using (Multiset.countP_le_of_le _ hle).trans h.serves
  · simp [hserves]

/-- **Every step of a view keeps the handshake invariant.** -/
theorem Step.handshake {a : Option Section} (hs : Step r v a v') (h : v.Handshake) :
    v'.Handshake := by
  cases hs with
  | sect ht hf => exact h.sect ht hf
  | sent ht hm hup => exact h.sent ht
  | lost ht hn => exact h.lost ht
  | lead ht hl => exact h.lead ht hl
  | detach ht =>
    exact h.add rfl rfl rfl (ht ▸ Multiset.le_cons_self _ _) (.inl rfl) rfl rfl rfl
  | arrive hid hl he hs => exact h.arrive he hs
  | fail hl ht =>
    refine h.add rfl rfl rfl ?_ (.inl rfl) rfl rfl rfl
    rcases ht with ht | ht
    · exact ht ▸ le_rfl
    · exact ht ▸ Multiset.le_cons_self _ _
  | call hs hc =>
    refine h.add rfl rfl rfl le_rfl ?_ ?_ ?_ ?_
    · cases hc with
      | reset => exact .inl rfl
      | _ => exact .inr ⟨rfl, hs⟩
    all_goals cases hc <;> rfl
  | down =>
    exact ⟨h.inbound, h.outbound, h.opener, h.acceptor, h.opening, h.live, h.chain, h.empty,
      h.serves, h.rejected⟩

end View

/-- **The handshake invariant holds of every stream in every state reached.** -/
theorem Session.handshake {cfg : Config} {ok : Session → Label → Prop} {s : Session} {r : Ref}
    {st : Stream} (h : Reaches Session.step ok (Session.new cfg) s) (hst : s.heap[r]? = some st) :
    (s.view r st).Handshake :=
  Session.view_inductive (I := fun _ v => v.Handshake) (fun _ _ hi => hi.handshake)
    (fun _ _ _ _ hs hv => hs.handshake hv) h hst

end Mvcp.App
