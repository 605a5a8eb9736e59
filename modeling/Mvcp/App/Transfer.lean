import Mvcp.App.Queues

/-!
# Bytes on their way through one side of a stream

What one side of a stream has written to the connection is a part, without gaps, of what the
application wrote; what the application read is a part, without gaps, of the data that `Serve`
handed to the stream. In between, bytes are in the queues, in the hand of the write loop, or in
the hand of `Serve`.

## Main definitions

* `payloads`, `written`, `returned`: the bytes of messages, of `Write` and of `Read`
* `carried`: the bytes in the hand of a goroutine
* `View.Moved`: the steps of a view, as far as messages and bytes are concerned
* `View.Sender`, `View.Receiver`: the transfer invariants of the two directions

## Main results

* `View.Step.moved`: steps other than critical sections and frames move no bytes
* `Session.sender`, `Session.receiver`: the transfer invariants hold in every state reached
-/

namespace Mvcp

open Library (Reaches Always)

/-! ## Bytes of messages and events -/

/-- The bytes of an `APP_DATA`. -/
def AppMessage.payload : AppMessage → Bytes
  | .appData _ data => data
  | _ => []

namespace App

/-- The bytes of the `APP_DATA` among the messages. -/
def payloads (ms : List AppMessage) : Bytes := ms.flatMap AppMessage.payload

@[simp] theorem payloads_nil : payloads [] = [] := rfl

@[simp] theorem payloads_append (ms ms' : List AppMessage) :
    payloads (ms ++ ms') = payloads ms ++ payloads ms' := List.flatMap_append

@[simp] theorem payloads_cons (m : AppMessage) (ms : List AppMessage) :
    payloads (m :: ms) = m.payload ++ payloads ms := List.flatMap_cons

/-- The bytes a `Write` accepted. -/
def Event.written : Event → Bytes
  | .wrote _ p => p
  | _ => []

/-- The bytes a `Read` returned. -/
def Event.returned : Event → Bytes
  | .read _ p => p
  | _ => []

/-- The bytes that `Write` accepted. -/
def written (log : List Event) : Bytes := log.flatMap Event.written

/-- The bytes that `Read` returned. -/
def returned (log : List Event) : Bytes := log.flatMap Event.returned

@[simp] theorem written_nil : written [] = [] := rfl

@[simp] theorem written_append (log log' : List Event) :
    written (log ++ log') = written log ++ written log' := List.flatMap_append

@[simp] theorem written_singleton (e : Event) : written [e] = e.written := List.flatMap_singleton ..

@[simp] theorem returned_nil : returned [] = [] := rfl

@[simp] theorem returned_append (log log' : List Event) :
    returned (log ++ log') = returned log ++ returned log' := List.flatMap_append

@[simp] theorem returned_singleton (e : Event) : returned [e] = e.returned :=
  List.flatMap_singleton ..

/-! ## Bytes in the hand of a goroutine -/

/-- The bytes the write loop is about to write to the connection. -/
def Task.hand : Task → Option Bytes
  | .emit _ (.data p) => some p
  | _ => none

theorem Task.Follows.hand {r : Ref} {t : Task} (h : t.Follows r) : t.hand = none := by
  cases h <;> rfl

/-- The bytes `Serve` is about to queue. -/
def Task.arriving : Task → Option Bytes
  | .sect _ (.deliver data) => some data
  | _ => none

/-- The bytes that `f` finds in the hand of a goroutine. -/
noncomputable def carried (f : Task → Option Bytes) (ts : Multiset Task) : Bytes :=
  (ts.filterMap f).toList.flatten

section Carried

variable {f : Task → Option Bytes} {ts rest : Multiset Task} {t : Task} {b : Bytes}

theorem filterMap_eq_zero (h : ∀ t ∈ ts, f t = none) : ts.filterMap f = 0 := by
  refine Multiset.eq_zero_of_forall_notMem fun b hb => ?_
  obtain ⟨t, ht, hf⟩ := (Multiset.mem_filterMap f ts).mp hb
  simp [h t ht] at hf

theorem carried_eq_nil (h : ∀ t ∈ ts, f t = none) : carried f ts = [] := by
  rw [carried, filterMap_eq_zero h, Multiset.toList_zero, List.flatten_nil]

theorem carried_cons (ht : f t = some b) (h : ∀ t' ∈ rest, f t' = none) :
    carried f (t ::ₘ rest) = b := by
  rw [carried, Multiset.filterMap_cons_some f t rest ht, filterMap_eq_zero h]
  simp

end Carried

/-- The steps that carry messages or bytes: those of `Serve`, and the frame writes of an open
stream. -/
def Task.cargo : Task → Bool
  | .emit _ (.open _) | .emit _ (.accept ..) | .emit _ (.data _) | .emit _ (.credit _)
  | .emit _ .close => true
  | t => t.serves

theorem Task.cargo_of_hand {t : Task} {b : Bytes} (h : t.hand = some b) : t.cargo = true := by
  cases t with
  | emit r x => cases x <;> simp_all [Task.hand, Task.cargo]
  | _ => simp [Task.hand] at h

/-- The handlers of the peer's frames, on the stream found. -/
def Task.handles : Task → Bool
  | .sect _ (.deliver _) | .sect _ (.addCredit _) | .sect _ .remoteClose
  | .sect _ (.handleAccept ..) | .sect _ (.handleReject ..) => true
  | _ => false

theorem Task.serves_of_handles {t : Task} (h : t.handles = true) : t.serves = true := by
  cases t with
  | sect r x => cases x <;> simp_all [Task.handles, Task.serves]
  | _ => simp [Task.handles] at h

theorem Task.handles_of_arriving {t : Task} {b : Bytes} (h : t.arriving = some b) :
    t.handles = true := by
  cases t with
  | sect r x => cases x <;> simp_all [Task.arriving, Task.handles]
  | _ => simp [Task.arriving] at h

theorem Task.cargo_of_serves {t : Task} (h : t.serves = true) : t.cargo = true := by
  cases t with
  | emit r x => cases x <;> simp_all [Task.serves, Task.cargo]
  | _ => simpa [Task.cargo] using h

theorem Task.chain_of_hand {t : Task} {b : Bytes} (h : t.hand = some b) : t.chain = true := by
  cases t with
  | emit r x => cases x <;> simp_all [Task.hand, Task.chain]
  | _ => simp [Task.hand] at h

/-- What is carried depends on the cargo only. -/
theorem filterMap_cargo {β : Type*} {f : Task → Option β} {ts : Multiset Task}
    (h : ∀ t b, f t = some b → t.cargo = true) :
    (ts.filter fun t => t.cargo = true).filterMap f = ts.filterMap f := by
  rw [Multiset.filterMap_filter]
  refine congrArg (Multiset.filterMap · ts) (funext fun t => ?_)
  split_ifs with ht
  · rfl
  · exact (Option.eq_none_iff_forall_ne_some.mpr fun b hb => ht (h t b hb)).symm

/-! ## Steps, as far as messages and bytes are concerned -/

namespace View

/-- A step that touches neither the stream, nor a history, nor a step that carries something. -/
structure Quiet (v v' : View) : Prop where
  st : v'.st = v.st
  out : v'.out = v.out
  lost : v'.lost = v.lost
  heard : v'.heard = v.heard
  log : v'.log = v.log
  up : v'.up = true → v.up = true
  cargo : (v'.tasks.filter fun t => t.cargo = true) = v.tasks.filter fun t => t.cargo = true

/-- **The steps of a view, as far as messages and bytes are concerned.** -/
inductive Moved (r : Ref) (v : View) : Option Section → View → Prop
  | sect {x : Section} {o : Outcome} {rest : Multiset Task} (ht : v.tasks = .sect r x ::ₘ rest)
      (hf : Stream.Fires r v.st x o) :
      Moved r v (some x)
        { v with st := o.st, tasks := own r o.push + rest, log := v.log ++ o.log }
  | sent {x : Emission} {rest : Multiset Task} (ht : v.tasks = .emit r x ::ₘ rest)
      (hup : v.up = true) :
      Moved r v none { v with tasks := own r (x.sent r) + rest, out := v.out ++ [x.message v.st] }
  | lost {x : Emission} {rest : Multiset Task} (ht : v.tasks = .emit r x ::ₘ rest)
      (h : ¬((x.message v.st).marshalBinary.isOk = true ∧ v.up = true)) :
      Moved r v none
        { v with tasks := own r (x.failed r) + rest, lost := v.lost ++ [x.message v.st] }
  | arrive {m : AppMessage} (hid : m.streamID = v.st.id) (hs : ∀ t ∈ v.tasks, t.serves = false) :
      Moved r v none
        { v with tasks := own r (Session.dispatch r m) + v.tasks, heard := v.heard ++ [m] }
  | quiet {v' : View} (h : Quiet v v') : Moved r v none v'

variable {r : Ref} {v v' : View}

theorem filter_cargo_eq_zero {ts : Multiset Task} (h : ∀ t ∈ ts, t.cargo = false) :
    (ts.filter fun t => t.cargo = true) = 0 := by
  rw [Multiset.filter_eq_nil]
  simpa using h

theorem Quiet.mem_iff (h : Quiet v v') {t : Task} (ht : t.cargo = true) :
    t ∈ v'.tasks ↔ t ∈ v.tasks := by
  have := congrArg (t ∈ ·) h.cargo
  simpa [Multiset.mem_filter, ht] using this

theorem Quiet.countP_eq (h : Quiet v v') {p : Task → Prop} [DecidablePred p]
    (hp : ∀ t, p t → t.cargo = true) : v'.tasks.countP p = v.tasks.countP p := by
  have := congrArg (Multiset.countP p) h.cargo
  simpa only [Multiset.countP_filter, and_iff_left_of_imp (hp _)] using this

/-- Steps that carry nothing are replaced by steps that carry nothing. -/
theorem quiet_of_replace (gone new : Multiset Task) (listed : Bool) {rest : Multiset Task}
    (ht : v.tasks = gone + rest) (hg : ∀ t ∈ gone, t.cargo = false)
    (hn : ∀ t ∈ new, t.cargo = false) : Quiet v { v with tasks := new + rest, listed } where
  st := rfl
  out := rfl
  lost := rfl
  heard := rfl
  log := rfl
  up := id
  cargo := by
    rw [ht, Multiset.filter_add, Multiset.filter_add, filter_cargo_eq_zero hg,
      filter_cargo_eq_zero hn]

theorem Leads.cargo {st : Stream} {t : Task} {ts : Multiset Task} (h : Leads r st t ts) :
    t.cargo = false ∧ ∀ t' ∈ ts, t'.cargo = false := by
  cases h with
  | pump h =>
    refine ⟨rfl, fun t' ht' => ?_⟩
    rw [← own_append] at ht'
    have := h.tasks t' (mem_own ht')
    cases this <;> rfl
  | _ => simp [Task.cargo, Task.serves, Cause.remote]

/-- **Steps other than critical sections and frames move no bytes.** -/
theorem Step.moved {a : Option Section} (hs : Step r v a v') : Moved r v a v' := by
  cases hs with
  | sect ht hf => exact .sect ht hf
  | sent ht hm hup => exact .sent ht hup
  | lost ht h => exact .lost ht h
  | arrive hid hl he hs => exact .arrive hid hs
  | @lead t ts rest ht hl =>
    exact .quiet (quiet_of_replace {t} _ _ (by simpa using ht) (by simpa using hl.cargo.1)
      hl.cargo.2)
  | detach ht =>
    have := quiet_of_replace {.detach r} {.sect r .detachBytes} false (by simpa using ht)
      (by simp [Task.cargo, Task.serves])
      (by simp [Task.cargo, Task.serves])
    exact .quiet (by simpa using this)
  | @fail rest hl ht =>
    have hn : ∀ t ∈ ({.sect r (.setReset .peerGone)} : Multiset Task), t.cargo = false := by
      simp [Task.cargo, Task.serves, Cause.remote]
    rcases ht with ht | ht
    · have := quiet_of_replace 0 _ false (by simpa using ht : v.tasks = 0 + rest) (by simp) hn
      exact .quiet (by simpa using this)
    · have := quiet_of_replace {_} _ false (by simpa using ht : v.tasks = {_} + rest)
        (by simp [Task.cargo, Task.serves]) hn
      exact .quiet (by simpa using this)
  | @call t hs hc =>
    have ht : t.cargo = false := by cases hc <;> rfl
    have := quiet_of_replace 0 {t} v.listed (by simp : v.tasks = 0 + v.tasks)
      (by simp) (by simpa using ht)
    exact .quiet (by simpa using this)
  | down => exact .quiet ⟨rfl, rfl, rfl, rfl, rfl, by simp, rfl⟩

/-! ## The sending direction -/

end View

namespace Stream

variable {r : Ref} {st : Stream} {x : Section} {o : Outcome}

theorem take_dequeue (st : Stream) (c : Bytes) (q : List Bytes) :
    c.take (st.quantum c) ++ (st.dequeue c q).sendQ.flatten = (c :: q).flatten := by
  have := st.quantum_le_length c
  simp only [dequeue]
  split_ifs with h
  · rw [← h, List.take_length, List.flatten_cons]
  · rw [List.flatten_cons, ← List.append_assoc, List.take_append_drop, List.flatten_cons]

/-- A critical section queues what `Write` accepted, or takes a part of the queue in hand. -/
theorem Fires.hand (h : Fires r st x o) :
    (∀ t ∈ o.push, t.hand = none) ∧ o.st.bytesOut = st.bytesOut ∧
        o.st.sendQ.flatten = st.sendQ.flatten ++ written o.log ∨
      x = .writeLoop ∧ ∃ b, own r o.push = {.emit r (.data b)} ∧
        b ++ o.st.sendQ.flatten = st.sendQ.flatten ∧ written o.log = [] ∧
        o.st.bytesOut = st.bytesOut + b.length := by
  cases h with
  | write_queued hp hr hl hc hq =>
    exact .inl ⟨by simp [Task.hand], rfl, by simp [enqueue, Event.written]⟩
  | @loop_data c q hr hq hc =>
    refine .inr ⟨rfl, c.take (st.quantum c), by simp, ?_, rfl, ?_⟩
    · rw [st.take_dequeue c q, hq]
    · simpa [dequeue] using st.quantum_le_length c
  | finish_now h hlog =>
    exact .inl ⟨by simp [Task.hand], rfl, by rcases hlog with rfl | rfl <;> simp [Event.written]⟩
  | markOpened_now hf ho hs hlog =>
    exact .inl ⟨by simp, rfl, by rcases hlog with rfl | rfl <;> simp [Event.written]⟩
  | detachBytes => exact .inl ⟨by split_ifs <;> simp [Task.hand], rfl, by simp⟩
  | closeEndpoint => exact .inl ⟨by simp +contextual [Task.hand], rfl, by simp⟩
  | _ =>
    exact .inl ⟨by simp [Stream.park, Task.hand, or_imp, forall_and], rfl,
      by simp [Stream.park, consume, Event.written, Stream.accept]⟩

end Stream

/-- The frame write fits its message. -/
def Emission.fits : Emission → Bool
  | .open metadata | .accept _ metadata => metadata.length ≤ appMaxMetaBytes
  | .data p => p.length ≤ appMaxDataBytes
  | .credit n => n ≤ appInitialWindow
  | _ => true

/-- The frame write that the step is, or will lead to, fits its message. -/
def Task.fits : Task → Bool
  | .emit _ x => x.fits
  | .sect _ (.acceptWindow _ metadata) => metadata.length ≤ appMaxMetaBytes
  | _ => true

theorem Emission.marshals {x : Emission} (h : x.fits = true) (st : Stream) :
    (x.message st).marshalBinary.isOk = true := by
  cases x with
  | «open» metadata =>
    simp only [Emission.fits, decide_eq_true_eq] at h
    simp [Emission.message, AppMessage.marshalBinary, Nat.not_lt.mpr h, Except.isOk, Except.toBool]
  | accept e metadata =>
    simp only [Emission.fits, decide_eq_true_eq] at h
    simp [Emission.message, AppMessage.marshalBinary, Nat.not_lt.mpr h, Except.isOk, Except.toBool]
  | data p =>
    simp only [Emission.fits, decide_eq_true_eq] at h
    simp [Emission.message, AppMessage.marshalBinary, Nat.not_lt.mpr h, Except.isOk, Except.toBool]
  | _ => rfl

theorem Task.Follows.fits {r : Ref} {t : Task} (h : t.Follows r) : t.fits = true := by
  cases h <;> rfl

theorem Stream.Fires.fits {r : Ref} {st : Stream} {x : Section} {o : Outcome}
    (h : Stream.Fires r st x o) (hx : (Task.sect r x).fits = true)
    (hin : st.reset = false → x.phase = .live → ∀ c ∈ st.inQ, c.length ≤ appInitialWindow) :
    ∀ t ∈ o.push, t.fits = true := by
  cases h with
  | @read_data n k c q hn hr hq =>
    have hc := hin hr rfl c (by simp [hq])
    simp only [List.cons_append, List.nil_append, List.mem_cons]
    rintro t (rfl | rfl | ht)
    · rfl
    · simp only [Task.fits, Emission.fits, decide_eq_true_eq]
      omega
    · revert t
      simp [Task.fits]
  | @loop_data c q hr hq hc =>
    have := st.quantum_le_data c
    simp only [List.mem_cons, List.not_mem_nil, or_false, forall_eq_or_imp, forall_eq, Task.fits,
      Emission.fits, List.length_take, decide_eq_true_eq, true_and]
    omega
  | acceptWindow => simpa [Task.fits, Emission.fits] using hx
  | detachBytes => split_ifs <;> simp [Task.fits]
  | closeEndpoint => simp +contextual [Task.fits]
  | _ => simp [Stream.park, Task.fits, Emission.fits, or_imp, forall_and]

namespace View

variable {r : Ref} {v v' : View}

theorem Leads.fits {st : Stream} {t : Task} {ts : Multiset Task} (h : Leads r st t ts) :
    ∀ t' ∈ ts, t'.fits = true := by
  cases h with
  | pump h =>
    intro t' ht'
    rw [← own_append] at ht'
    have := h.tasks t' (mem_own ht')
    cases this <;> rfl
  | handler_accepted h => simpa [Task.fits] using h
  | _ => simp [Task.fits, Emission.fits]

/-- **Every frame write fits its message.** -/
theorem Step.fits {a : Option Section} (hs : Step r v a v') (hh : v.Handshake) (hq : v.Queues)
    (h : ∀ t ∈ v.tasks, t.fits = true) : ∀ t ∈ v'.tasks, t.fits = true := by
  intro t ht
  cases hs.arises ht with
  | kept hm => exact h t hm
  | @sect x o hx ha hf hst hm =>
    refine hf.fits (h _ hx) (fun hr hp c hc => ?_) t hm
    -- a chunk of the queue fits the window
    obtain ⟨-, ha, -, hl⟩ := hh.live (.inr ⟨_, hx, hp⟩)
    have hct := hq.counted hr hl
    have hw := hct.window ha
    have hlen : c.length ≤ v.st.inQ.flatten.length := (List.sublist_flatten_of_mem hc).length_le
    have := hct.inb
    omega
  | sent hx hout hm => exact (Emission.sent_follows _ t hm).fits
  | lost hx hm => exact (Emission.failed_follows _ t hm).fits
  | lead h₀ hl hm => exact hl.fits t hm
  | detach ht => rw [ht]; rfl
  | arrive hid hheard hm => exact (Session.dispatch_follows _ t hm).fits
  | fail ht => rw [ht]; rfl
  | call hs hc => cases hc <;> rfl

/-- **The transfer invariant of the sending direction.** -/
structure Sender (v : View) : Prop where
  fits : ∀ t ∈ v.tasks, t.fits = true
  /-- Frames are lost only when the connection is. -/
  down : v.lost ≠ [] → v.up = false
  /-- What was written is what the write loop took, and what is queued; what the write loop took
  was written to the connection, or is in its hand. -/
  flow : ∃ d, written v.log = d ++ v.st.sendQ.flatten ∧ d.length = v.st.bytesOut ∧
    payloads v.out <+: d ∧ (v.up = true → payloads v.out ++ carried Task.hand v.tasks = d)

theorem Initial.sender (h : Initial r v) : v.Sender := by
  have hnone {t : Task} (ht : t.hand = none) : carried Task.hand {t} = [] :=
    carried_eq_nil (by simpa using ht)
  cases h with
  | inbound =>
    exact ⟨by simp [Task.fits], by simp, [], rfl, rfl, List.nil_prefix, fun _ => hnone rfl⟩
  | outbound hm =>
    exact ⟨by simpa [Task.fits, Emission.fits] using hm, by simp, [], rfl, rfl, List.nil_prefix,
      fun _ => hnone rfl⟩

/-- If a step of the goroutine that leads the stream is pending, no other one has bytes in
hand. -/
theorem Handshake.hand_eq_none (hh : v.Handshake) {t : Task} {rest : Multiset Task}
    (ht : v.tasks = t ::ₘ rest) (hc : t.chain = true) : ∀ t' ∈ rest, t'.hand = none :=
  fun t' hm => Option.eq_none_iff_forall_ne_some.mpr fun _ hb =>
    not_of_countP_le ht hc hh.chain t' hm (Task.chain_of_hand hb)

theorem Emission.payload_message (x : Emission) (st : Stream) :
    (x.message st).payload = ((Task.emit r x).hand).getD [] := by
  cases x <;> rfl

/-- The frame in hand, when there is one, is the only one. -/
theorem Handshake.carried_emit (hh : v.Handshake) {x : Emission} {rest : Multiset Task}
    (ht : v.tasks = .emit r x ::ₘ rest) :
    carried Task.hand v.tasks = (x.message v.st).payload ++ carried Task.hand rest := by
  rw [Emission.payload_message (r := r)]
  cases hx : (Task.emit r x).hand with
  | none =>
    rw [ht, carried, Multiset.filterMap_cons_none _ _ hx]
    rfl
  | some b =>
    have hrest := hh.hand_eq_none ht (Task.chain_of_hand hx)
    rw [ht, carried_cons hx hrest, carried_eq_nil hrest]
    simp

theorem carried_emitted {rest : Multiset Task} {ts : List Task} (h : ∀ t ∈ ts, t.hand = none) :
    carried Task.hand (own r ts + rest) = carried Task.hand rest := by
  rw [carried, Multiset.filterMap_add, filterMap_eq_zero fun t hm => h t (mem_own hm), zero_add]
  rfl

theorem Sender.sect {x : Section} {o : Outcome} {rest : Multiset Task} (h : v.Sender)
    (hh : v.Handshake) (ht : v.tasks = .sect r x ::ₘ rest) (hf : Stream.Fires r v.st x o) :
    ∃ d, written (v.log ++ o.log) = d ++ o.st.sendQ.flatten ∧ d.length = o.st.bytesOut ∧
      payloads v.out <+: d ∧
      (v.up = true → payloads v.out ++ carried Task.hand (own r o.push + rest) = d) := by
  obtain ⟨d, hw, hd, hpre, hup⟩ := h.flow
  have hcarried : carried Task.hand v.tasks = carried Task.hand rest := by
    rw [ht, carried, Multiset.filterMap_cons_none _ _ rfl]
    rfl
  rcases hf.hand with ⟨hpush, hout, hq⟩ | ⟨rfl, b, hpush, hq, hlog, hout⟩
  · refine ⟨d, ?_, hd.trans hout.symm, hpre, fun hu => ?_⟩
    · rw [written_append, hw, hq, List.append_assoc]
    · rw [carried_emitted hpush, ← hcarried, hup hu]
  · have hrest := hh.hand_eq_none ht rfl
    refine ⟨d ++ b, ?_, by rw [List.length_append, hd, hout], hpre.trans (List.prefix_append _ _),
      fun hu => ?_⟩
    · rw [written_append, hw, hlog, List.append_nil, List.append_assoc, hq]
    · rw [hpush, Multiset.singleton_add, carried_cons rfl hrest, ← hup hu, hcarried,
        carried_eq_nil hrest, List.append_nil]

/-- **Every step keeps the transfer invariant of the sending direction.** -/
theorem Step.sender {a : Option Section} (hs : Step r v a v') (hh : v.Handshake) (hq : v.Queues)
    (h : v.Sender) : v'.Sender := by
  have hfits := hs.fits hh hq h.fits
  cases hs.moved with
  | sect ht hf => exact ⟨hfits, h.down, h.sect hh ht hf⟩
  | @sent x rest ht hup =>
    -- the chunk in hand is the next of the bytes
    obtain ⟨d, hw, hd, -, hflow⟩ := h.flow
    have hnone : ∀ t ∈ x.sent r, t.hand = none := fun t hm => (x.sent_follows t hm).hand
    have hd' := hflow hup
    rw [hh.carried_emit ht, ← List.append_assoc] at hd'
    refine ⟨hfits, h.down, d, hw, hd, ?_, fun _ => ?_⟩
    · rw [payloads_append, payloads_cons, payloads_nil, List.append_nil, ← hd']
      exact List.prefix_append _ _
    · rw [carried_emitted hnone, payloads_append, payloads_cons, payloads_nil, List.append_nil, hd']
  | @lost x rest ht hn =>
    -- all frames can be encoded, so a write is lost only when the connection is down
    have hup : v.up = false := by
      by_contra hup
      exact hn ⟨Emission.marshals (h.fits (.emit r x) (by simp [ht])) v.st, by simpa using hup⟩
    obtain ⟨d, hw, hd, hpre, -⟩ := h.flow
    exact ⟨hfits, fun _ => hup, d, hw, hd, hpre, by simp [hup]⟩
  | @arrive m hid hserve =>
    obtain ⟨d, hw, hd, hpre, hflow⟩ := h.flow
    have hnone : ∀ t ∈ Session.dispatch r m, t.hand = none := by
      cases m <;> simp [Session.dispatch, Task.hand]
    exact ⟨hfits, h.down, d, hw, hd, hpre, fun hu => by rw [carried_emitted hnone, hflow hu]⟩
  | quiet hqt =>
    obtain ⟨d, hw, hd, hpre, hflow⟩ := h.flow
    refine ⟨hfits, fun hl => ?_, d, ?_, ?_, ?_, fun hu => ?_⟩
    · have := h.down (hqt.lost ▸ hl)
      by_contra hu
      simp [hqt.up (by simpa using hu)] at this
    · rw [hqt.log, hqt.st, hw]
    · rw [hqt.st, hd]
    · rw [hqt.out]; exact hpre
    · rw [hqt.out, ← hflow (hqt.up hu), carried, carried,
        ← filterMap_cargo (fun _ _ => Task.cargo_of_hand), hqt.cargo,
        filterMap_cargo fun _ _ => Task.cargo_of_hand]

/-! ## The receiving direction -/

end View

/-- The steps by which `Serve` resets a stream. -/
def Task.refuses : Task → Bool
  | .emit _ (.reset cause) | .sect _ (.setReset cause) => cause.remote
  | _ => false

theorem Task.serves_of_refuses {t : Task} (h : t.refuses = true) : t.serves = true := by
  cases t with
  | sect r x => cases x <;> simp_all [Task.refuses, Task.serves]
  | emit r x => cases x <;> simp_all [Task.refuses, Task.serves]
  | _ => simp [Task.refuses] at h

namespace Stream

variable {r : Ref} {st : Stream} {x : Section} {o : Outcome}

theorem take_consume (st : Stream) (n : ℕ) (c : Bytes) (q : List Bytes) :
    c.take n ++ (st.consume n c q).inQ.flatten = (c :: q).flatten := by
  have htake : c.take n = c.take (min n c.length) := by
    rw [← List.take_take, List.take_length]
  simp only [consume]
  split_ifs with h
  · have := List.drop_eq_nil_iff.mp h
    rw [List.take_of_length_le (by omega), List.flatten_cons]
  · rw [htake, List.flatten_cons, ← List.append_assoc, List.take_append_drop, List.flatten_cons]

/-- A critical section returns what it takes out of the queue, or `Serve` adds to the queue what
it has in hand, or refuses it. -/
theorem Fires.arriving (h : Fires r st x o) :
    (Task.sect r x).arriving = none ∧ returned o.log ++ o.st.inQ.flatten = st.inQ.flatten ∨
      ∃ data, x = .deliver data ∧ o.log = [] ∧
        (o.st.inQ.flatten = st.inQ.flatten ++ data ∧ (data = [] ∨ st.reset = false) ∨
          o.st = st ∧ ∃ t ∈ own r o.push, t.refuses = true) := by
  cases h with
  | @read_data n k c q hn hr hq =>
    refine .inl ⟨rfl, ?_⟩
    rw [returned_singleton, hq]
    exact st.take_consume n c q
  | deliver_accepted hd hlen ha ho hc hr hw =>
    exact .inr ⟨_, rfl, rfl, .inl ⟨by simp [Stream.accept], .inr hr⟩⟩
  | ignored h =>
    cases h with
    | deliver => exact .inr ⟨_, rfl, rfl, .inl ⟨by simp, .inl rfl⟩⟩
    | _ => exact .inl ⟨rfl, by simp⟩
  | @refused _ cause h =>
    cases x with
    | deliver data =>
      refine .inr ⟨_, rfl, rfl, .inr ⟨rfl, .emit r (.reset cause), by simp, ?_⟩⟩
      exact (h.remote (r := r)).1
    | _ => exact .inl ⟨rfl, by simp⟩
  | finish_now h hlog =>
    exact .inl ⟨rfl, by rcases hlog with rfl | rfl <;> simp [Event.returned]⟩
  | markOpened_now hf ho hs hlog =>
    exact .inl ⟨rfl, by rcases hlog with rfl | rfl <;> simp [Event.returned]⟩
  | _ =>
    exact .inl ⟨rfl, by simp [Stream.park, Event.returned, enqueue, dequeue]⟩

theorem Fires.remoteClosed (h : Fires r st x o) :
    o.st.remoteClosed = st.remoteClosed ∨
      x = .remoteClose ∧ st.reset = false ∧ o.st.remoteClosed = true := by
  cases h with
  | remote_closed hr hc => exact .inr ⟨rfl, hr, rfl⟩
  | _ => exact .inl rfl

/-- Nothing is queued after the peer closed its direction. -/
theorem Fires.inQ_of_remoteClosed (h : Fires r st x o) (hc : st.remoteClosed = true) :
    returned o.log ++ o.st.inQ.flatten = st.inQ.flatten ∧
      (st.inQ = [] → o.st.inQ = [] ∧ returned o.log = []) := by
  cases h with
  | @read_data n k c q hn hr hq =>
    rw [returned_singleton, hq]
    exact ⟨st.take_consume n c q, by simp⟩
  | deliver_accepted hd hlen ha ho hc' hr hw => simp [hc] at hc'
  | finish_now h hlog => rcases hlog with rfl | rfl <;> exact ⟨rfl, fun hnil => ⟨hnil, rfl⟩⟩
  | markOpened_now hf ho hs hlog =>
    rcases hlog with rfl | rfl <;> exact ⟨rfl, fun hnil => ⟨hnil, rfl⟩⟩
  | _ =>
    exact ⟨by simp [Stream.park, Event.returned, enqueue, dequeue],
      fun hnil => ⟨hnil, by simp [Stream.park, Event.returned]⟩⟩

/-- `Read` returns `io.EOF` when the peer closed its direction and nothing is queued. -/
theorem Fires.eof (h : Fires r st x o) (he : .readFailed r .eof ∈ o.log) :
    o.st = st ∧ st.remoteClosed = true ∧ st.inQ = [] := by
  cases h with
  | read_eof hr hq hc => exact ⟨rfl, hc, hq⟩
  | finish_now h hlog => rcases hlog with rfl | rfl <;> simp at he
  | markOpened_now hf ho hs hlog => rcases hlog with rfl | rfl <;> simp at he
  | _ => simp [Stream.park, resetError] at he

theorem Fires.push_handles (h : Fires r st x o) : ∀ t ∈ o.push, t.handles = false := by
  cases h with
  | detachBytes => split_ifs <;> simp [Task.handles]
  | closeEndpoint => simp +contextual [Task.handles]
  | _ => simp [Stream.park, Task.handles, or_imp, forall_and]

/-- `Serve` carries its resets out. -/
theorem Fires.reset_of_refuses (h : Fires r st x o) (hx : (Task.sect r x).refuses = true) :
    o.st.reset = true := by
  cases h with
  | reset_again hr => exact hr
  | reset_set hr => rfl
  | ignored h => cases h <;> simp [Task.refuses] at hx
  | refused h => cases h <;> simp [Task.refuses] at hx
  | _ => simp [Task.refuses] at hx

theorem Fires.log_length (h : Fires r st x o) : o.log = [] ∨ ∃ e, o.log = [e] := by
  cases h with
  | finish_now h hlog => exact hlog.imp_right fun h => ⟨_, h⟩
  | markOpened_now hf ho hs hlog => exact hlog.imp_right fun h => ⟨_, h⟩
  | _ => simp [Stream.park]

end Stream

namespace View

variable {r : Ref} {v v' : View}

/-- **The transfer invariant of the receiving direction.** -/
structure Receiver (r : Ref) (v : View) : Prop where
  /-- Of the data handed to the stream, nothing is missing until the stream is reset. -/
  flow : returned v.log ++ v.st.inQ.flatten ++ carried Task.arriving v.tasks = payloads v.heard ∨
    returned v.log ++ v.st.inQ.flatten <+: payloads v.heard ∧
      (v.st.reset = true ∨ ∃ t ∈ v.tasks, t.refuses = true)
  closing : .sect r .remoteClose ∈ v.tasks → ∃ ms, v.heard = ms ++ [.appClose v.st.id]
  /-- What is queued when the peer closes its direction is what it sent before that. -/
  closed : v.st.remoteClosed = true → ∃ ms ms', v.heard = ms ++ .appClose v.st.id :: ms' ∧
    returned v.log ++ v.st.inQ.flatten = payloads ms
  eof : .readFailed r .eof ∈ v.log → v.st.remoteClosed = true ∧ v.st.inQ = []
  final : ∀ log log', v.log = log ++ .readFailed r .eof :: log' → returned log' = []

theorem Receiver.returned_payloads (h : v.Receiver r) : returned v.log <+: payloads v.heard := by
  rcases h.flow with h | ⟨h, -⟩
  · rw [← h, List.append_assoc]
    exact List.prefix_append _ _
  · exact (List.prefix_append _ _).trans h

theorem Initial.receiver (h : Initial r v) : v.Receiver r := by
  have hnone {t : Task} (ht : t.arriving = none) : carried Task.arriving {t} = [] :=
    carried_eq_nil (by simpa using ht)
  cases h with
  | inbound => exact ⟨.inl (hnone rfl), by simp, by simp, by simp, by simp⟩
  | outbound hm => exact ⟨.inl (hnone rfl), by simp, by simp, by simp, by simp⟩

/-- If `Serve` has a step to take on the stream, it has nothing else in hand. -/
theorem Handshake.serves_eq_false (hh : v.Handshake) {t : Task} {rest : Multiset Task}
    (ht : v.tasks = t ::ₘ rest) (hs : t.serves = true) : ∀ t' ∈ rest, t'.serves = false :=
  fun t' hm => by simpa using not_of_countP_le ht hs hh.serves t' hm

theorem Task.arriving_eq_none {t : Task} (h : t.handles = false) : t.arriving = none :=
  Option.eq_none_iff_forall_ne_some.mpr fun _ hb => by simpa [h] using Task.handles_of_arriving hb

theorem handles_eq_false {ts : Multiset Task} (h : ∀ t ∈ ts, t.serves = false) :
    ∀ t ∈ ts, t.handles = false := fun t hm => by
  by_contra hc
  exact absurd (Task.serves_of_handles (by simpa using hc)) (by simp [h t hm])

theorem arriving_eq_none {ts : Multiset Task} (h : ∀ t ∈ ts, t.serves = false) :
    ∀ t ∈ ts, t.arriving = none :=
  fun t hm => Task.arriving_eq_none (handles_eq_false h t hm)

theorem carried_arriving {rest : Multiset Task} {ts : List Task}
    (h : ∀ t ∈ ts, t.handles = false) :
    carried Task.arriving (own r ts + rest) = carried Task.arriving rest := by
  rw [carried, Multiset.filterMap_add,
    filterMap_eq_zero fun t hm => Task.arriving_eq_none (h t (mem_own hm)), zero_add]
  rfl

theorem Receiver.flow_sect {x : Section} {o : Outcome} {rest : Multiset Task} (h : v.Receiver r)
    (hh : v.Handshake) (ht : v.tasks = .sect r x ::ₘ rest) (hf : Stream.Fires r v.st x o) :
    returned (v.log ++ o.log) ++ o.st.inQ.flatten ++ carried Task.arriving (own r o.push + rest) =
      payloads v.heard ∨
    returned (v.log ++ o.log) ++ o.st.inQ.flatten <+: payloads v.heard ∧
      (o.st.reset = true ∨ ∃ t ∈ own r o.push + rest, t.refuses = true) := by
  rw [carried_arriving hf.push_handles, returned_append]
  -- the reason why data is missing stays one
  have hkeep (hr : v.st.reset = true ∨ ∃ t ∈ v.tasks, t.refuses = true) :
      o.st.reset = true ∨ ∃ t ∈ own r o.push + rest, t.refuses = true := by
    rcases hr with hr | ⟨t, hm, hr⟩
    · exact .inl (hf.reset hr)
    · rcases Multiset.mem_cons.mp (ht ▸ hm) with rfl | hm
      · exact .inl (hf.reset_of_refuses hr)
      · exact .inr ⟨t, Multiset.mem_add.mpr (.inr hm), hr⟩
  rcases hf.arriving with ⟨hx, hq⟩ | ⟨data, rfl, hlog, hq⟩
  · have hsame : returned v.log ++ returned o.log ++ o.st.inQ.flatten =
        returned v.log ++ v.st.inQ.flatten := by rw [List.append_assoc, hq]
    have hcarried : carried Task.arriving v.tasks = carried Task.arriving rest := by
      rw [ht, carried, Multiset.filterMap_cons_none _ _ hx]
      rfl
    rw [hsame, ← hcarried]
    exact h.flow.imp_right (And.imp_right hkeep)
  · -- `Serve` delivers: it has nothing else in hand
    have hserve := hh.serves_eq_false ht rfl
    have hrest : carried Task.arriving rest = [] := carried_eq_nil (arriving_eq_none hserve)
    have hdata : carried Task.arriving v.tasks = data := by
      rw [ht]
      exact carried_cons rfl (arriving_eq_none hserve)
    rw [hlog, returned_nil, List.append_nil, hrest, List.append_nil]
    rcases hq with ⟨hq, hd⟩ | ⟨hst, t, hm, hr⟩
    · rw [hq, ← List.append_assoc]
      rcases h.flow with hA | ⟨hB, hr⟩
      · exact .inl (hdata ▸ hA)
      · rcases hd with rfl | hd
        · rw [List.append_nil]
          exact .inr ⟨hB, hkeep hr⟩
        · rcases hr with hr | ⟨t, hm, hr⟩
          · simp [hd] at hr
          · rcases Multiset.mem_cons.mp (ht ▸ hm) with rfl | hm
            · simp [Task.refuses] at hr
            · simpa [hserve t hm] using Task.serves_of_refuses hr
    · rw [hst]
      refine .inr ⟨?_, .inr ⟨t, Multiset.mem_add.mpr (.inl hm), hr⟩⟩
      rcases h.flow with hA | ⟨hB, -⟩
      · rw [← hA]
        exact List.prefix_append _ _
      · exact hB

theorem Receiver.closed_sect {x : Section} {o : Outcome} {rest : Multiset Task}
    (h : v.Receiver r) (hh : v.Handshake) (ht : v.tasks = .sect r x ::ₘ rest)
    (hf : Stream.Fires r v.st x o) (hc : o.st.remoteClosed = true) :
    ∃ ms ms', v.heard = ms ++ .appClose v.st.id :: ms' ∧
      returned (v.log ++ o.log) ++ o.st.inQ.flatten = payloads ms := by
  by_cases hc' : v.st.remoteClosed = true
  · obtain ⟨ms, ms', hms, hq⟩ := h.closed hc'
    exact ⟨ms, ms', hms, by
      rw [returned_append, List.append_assoc, (hf.inQ_of_remoteClosed hc').1, hq]⟩
  · rcases hf.remoteClosed with hsame | ⟨rfl, hr, -⟩
    · exact absurd (hsame ▸ hc) hc'
    · -- `Serve` takes the `APP_CLOSE`: all data before it has been delivered
      have hserve := hh.serves_eq_false ht rfl
      obtain ⟨ms, hms⟩ := h.closing (by simp [ht])
      refine ⟨ms, [], hms, ?_⟩
      have hq : returned o.log ++ o.st.inQ.flatten = v.st.inQ.flatten := by
        rcases hf.arriving with ⟨-, hq⟩ | ⟨data, hx, -⟩
        · exact hq
        · simp at hx
      rw [returned_append, List.append_assoc, hq]
      rcases h.flow with hA | ⟨-, hr' | ⟨t, hm, hr'⟩⟩
      · have hrest : carried Task.arriving v.tasks = [] := by
          refine carried_eq_nil fun t hm => ?_
          rcases Multiset.mem_cons.mp (ht ▸ hm) with rfl | hm
          · rfl
          · exact arriving_eq_none hserve t hm
        rw [hrest, List.append_nil, hms] at hA
        simpa [AppMessage.payload] using hA
      · simp [hr] at hr'
      · rcases Multiset.mem_cons.mp (ht ▸ hm) with rfl | hm
        · simp [Task.refuses] at hr'
        · simpa [hserve t hm] using Task.serves_of_refuses hr'

/-- An event that returns nothing is added to a history in which nothing is returned after `e`. -/
theorem returned_after_concat {log : List Event} {e e' : Event}
    (h : ∀ l l', log = l ++ e :: l' → returned l' = []) (he : e ∈ log → e'.returned = []) :
    ∀ l l', log ++ [e'] = l ++ e :: l' → returned l' = [] := by
  intro l l' hl
  rcases List.eq_nil_or_concat l' with rfl | ⟨l', e'', rfl⟩
  · rfl
  · rw [List.concat_eq_append, ← List.cons_append, ← List.append_assoc] at hl
    obtain ⟨h₁, h₂⟩ := List.append_inj' hl rfl
    rw [List.concat_eq_append, returned_append, h l l' h₁, ← List.singleton_inj.mp h₂,
      returned_singleton, he (by simp [h₁])]
    rfl

theorem Receiver.sect {x : Section} {o : Outcome} {rest : Multiset Task}
    (h : v.Receiver r) (hh : v.Handshake) (ht : v.tasks = .sect r x ::ₘ rest)
    (hf : Stream.Fires r v.st x o) :
    Receiver r { v with st := o.st, tasks := own r o.push + rest, log := v.log ++ o.log } := by
  have hid : o.st.id = v.st.id := congrArg Prod.fst hf.name
  have heof (he : .readFailed r .eof ∈ v.log ++ o.log) :
      o.st.remoteClosed = true ∧ o.st.inQ = [] := by
    rcases List.mem_append.mp he with he | he
    · obtain ⟨hc, hq⟩ := h.eof he
      refine ⟨?_, ((hf.inQ_of_remoteClosed hc).2 hq).1⟩
      exact hf.remoteClosed.elim (·.trans hc) (·.2.2)
    · obtain ⟨hst, hc, hq⟩ := hf.eof he
      rw [hst]
      exact ⟨hc, hq⟩
  refine ⟨h.flow_sect hh ht hf, fun hm => ?_, fun hc => hid ▸ h.closed_sect hh ht hf hc, heof,
    fun l l' hl => ?_⟩
  · rcases Multiset.mem_add.mp hm with hm | hm
    · simpa [Task.handles] using hf.push_handles _ (mem_own hm)
    · rw [hid]
      exact h.closing (by simp [ht, hm])
  · rcases hf.log_length with hlog | ⟨e, hlog⟩
    · exact h.final l l' (by simpa [hlog] using hl)
    · refine returned_after_concat h.final (fun he => ?_) l l' (hlog ▸ hl)
      obtain ⟨hc, hq⟩ := h.eof he
      simpa [hlog] using ((hf.inQ_of_remoteClosed hc).2 hq).2

/-- The stream stays as it is, and `Serve` hands it nothing. -/
theorem Receiver.same (h : v.Receiver r) (hst : v'.st = v.st) (hlog : v'.log = v.log)
    (hheard : v'.heard = v.heard)
    (harr : carried Task.arriving v'.tasks = carried Task.arriving v.tasks)
    (hcl : .sect r .remoteClose ∈ v'.tasks → .sect r .remoteClose ∈ v.tasks)
    (href : (∃ t ∈ v.tasks, t.refuses = true) → ∃ t ∈ v'.tasks, t.refuses = true) :
    v'.Receiver r := by
  refine ⟨?_, fun hm => ?_, ?_, ?_, ?_⟩
  · rw [hst, hlog, hheard, harr]
    exact h.flow.imp_right (And.imp_right (Or.imp_right href))
  · rw [hst, hheard]
    exact h.closing (hcl hm)
  · rw [hst, hlog, hheard]
    exact h.closed
  · rw [hst, hlog]
    exact h.eof
  · rw [hlog]
    exact h.final

/-- A frame write leads to other steps, none of which handles a frame. -/
theorem Receiver.emit (h : v.Receiver r) (x : Emission) (ts : List Task)
    {rest : Multiset Task} (hst : v'.st = v.st) (hlog : v'.log = v.log)
    (hheard : v'.heard = v.heard) (ht : v.tasks = .emit r x ::ₘ rest)
    (ht' : v'.tasks = own r ts + rest) (hts : ∀ t ∈ ts, t.handles = false)
    (href : ∀ cause, x = .reset cause → .sect r (.setReset cause) ∈ ts) : v'.Receiver r := by
  refine h.same hst hlog hheard ?_ (fun hm => ?_) fun ⟨t, hm, hr⟩ => ?_
  · rw [ht', ht, carried_arriving hts, carried, carried, Multiset.filterMap_cons_none _ _ rfl]
  · rcases Multiset.mem_add.mp (ht' ▸ hm) with hm | hm
    · simpa [Task.handles] using hts _ (mem_own hm)
    · simp [ht, hm]
  · rcases Multiset.mem_cons.mp (ht ▸ hm) with rfl | hm
    · cases x with
      | reset cause =>
        refine ⟨.sect r (.setReset cause), ?_, hr⟩
        rw [ht']
        exact Multiset.mem_add.mpr (.inl (Multiset.mem_filter.mpr ⟨href cause rfl, rfl⟩))
      | _ => simp [Task.refuses] at hr
    · exact ⟨t, by rw [ht']; exact Multiset.mem_add.mpr (.inr hm), hr⟩

theorem Receiver.arrive {m : AppMessage} (h : v.Receiver r) (hid : m.streamID = v.st.id)
    (hs : ∀ t ∈ v.tasks, t.serves = false) :
    Receiver r { v with tasks := own r (Session.dispatch r m) + v.tasks,
                        heard := v.heard ++ [m] } := by
  have hnone : carried Task.arriving v.tasks = [] := carried_eq_nil (arriving_eq_none hs)
  have hnew : carried Task.arriving (own r (Session.dispatch r m) + v.tasks) = m.payload := by
    cases m with
    | appData id data =>
      simp only [Session.dispatch, own_cons, Task.ref?_sect, if_true, own_nil, AppMessage.payload,
        Multiset.cons_add, zero_add]
      exact carried_cons rfl (arriving_eq_none hs)
    | _ =>
      refine carried_eq_nil fun t hm => ?_
      rcases Multiset.mem_add.mp hm with hm | hm
      · have := mem_own hm
        simp [Session.dispatch] at this <;> simp [this, Task.arriving]
      · exact arriving_eq_none hs t hm
  refine ⟨?_, fun hm => ?_, fun hc => ?_, h.eof, h.final⟩
  · rw [payloads_append, payloads_cons, payloads_nil, List.append_nil]
    rcases h.flow with hA | ⟨hB, hr | ⟨t, hm, hr⟩⟩
    · rw [hnone, List.append_nil] at hA
      exact .inl (by rw [hnew, hA])
    · exact .inr ⟨hB.trans (List.prefix_append _ _), .inl hr⟩
    · simpa [hs t hm] using Task.serves_of_refuses hr
  · rcases Multiset.mem_add.mp hm with hm | hm
    · have := mem_own hm
      cases m with
      | appClose id => exact ⟨v.heard, by rw [← hid]; rfl⟩
      | _ => simp [Session.dispatch] at this
    · simpa [Task.serves] using hs _ hm
  · obtain ⟨ms, ms', hms, hq⟩ := h.closed hc
    exact ⟨ms, ms' ++ [m], by simp [hms], hq⟩

/-- **Every step keeps the transfer invariant of the receiving direction.** -/
theorem Step.receiver {a : Option Section} (hs : Step r v a v') (hh : v.Handshake)
    (h : v.Receiver r) : v'.Receiver r := by
  cases hs.moved with
  | sect ht hf => exact h.sect hh ht hf
  | @sent x rest ht hup =>
    refine h.emit x (x.sent r) rfl rfl rfl ht rfl ?_ fun cause hx => ?_
    · cases x <;> simp [Emission.sent, Task.handles]
    · simp [hx, Emission.sent]
  | @lost x rest ht hn =>
    refine h.emit x (x.failed r) rfl rfl rfl ht rfl ?_ fun cause hx => ?_
    · cases x <;> simp [Emission.failed, Task.handles]
    · simp [hx, Emission.failed]
  | arrive hid hserve => exact h.arrive hid hserve
  | quiet hq =>
    have hmem {t : Task} (ht : t.serves = true) : t ∈ v'.tasks ↔ t ∈ v.tasks :=
      hq.mem_iff (Task.cargo_of_serves ht)
    have hcargo (t : Task) (b : Bytes) (h : t.arriving = some b) : t.cargo = true :=
      Task.cargo_of_serves (Task.serves_of_handles (Task.handles_of_arriving h))
    refine h.same hq.st hq.log hq.heard ?_ (fun hm => (hmem rfl).mp hm) ?_
    · rw [carried, carried, ← filterMap_cargo hcargo, hq.cargo, filterMap_cargo hcargo]
    · rintro ⟨t, hm, hr⟩
      exact ⟨t, (hmem (Task.serves_of_refuses hr)).mpr hm, hr⟩

end View

namespace Session

variable {cfg : Config} {ok : Session → Label → Prop} {s : Session} {r : Ref} {st : Stream}

/-- **The transfer invariant of the sending direction holds in every state reached.** -/
theorem sender (h : Reaches step ok (new cfg) s) (hst : s.heap[r]? = some st) :
    (s.view r st).Sender :=
  (view_inductive (I := fun _ v => v.Handshake ∧ v.Queues ∧ v.Sender)
    (fun _ _ hi => ⟨hi.handshake, hi.queues, hi.sender⟩)
    (fun _ _ _ _ hs hv =>
      ⟨hs.handshake hv.1, hs.queues hv.1 hv.2.1, hs.sender hv.1 hv.2.1 hv.2.2⟩) h hst).2.2

/-- **The transfer invariant of the receiving direction holds in every state reached.** -/
theorem receiver (h : Reaches step ok (new cfg) s) (hst : s.heap[r]? = some st) :
    (s.view r st).Receiver r :=
  (view_inductive (I := fun r v => v.Handshake ∧ v.Receiver r)
    (fun _ _ hi => ⟨hi.handshake, hi.receiver⟩)
    (fun _ _ _ _ hs hv => ⟨hs.handshake hv.1, hs.receiver hv.1 hv.2⟩) h hst).2

end Session

end App

end Mvcp
