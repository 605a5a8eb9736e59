import Mvcp.App.AddCredit
import Mvcp.App.Ledger
import Mvcp.App.Net

/-!
# One frame, one stream

`Serve` handles a frame in a few steps: it looks the stream up, runs the handler, and where the
frame breaks the rules it resets the stream, takes it out of the table and closes its endpoint.
These steps touch one stream, and whatever a frame of the peer says about a stream, no other stream
notices. As long as the connection takes the answers, `Serve` comes to the end of them and reads on.

## Main definitions

* `Session.Anchored`: the endpoints that streams and goroutines refer to exist
* `Task.servesOn`: the steps that `Serve` takes on a stream
* `Session.Confined`: only one stream, and its entry in the table, have changed

## Main results

* `Session.serve_alone`: `Serve` comes to the end of a frame
* `Session.frame_isolated`: a frame touches the stream it names and no other
-/

namespace Mvcp.App

open Library (Reaches Always pending pending_advance pending_append pending_set advance
  advance_getElem?_self sum_map_set lookup_filter_ne)

/-! ## Endpoints -/

/-- The endpoint that the step will close or hand to the stream. -/
def Task.endpoint : Task → Option EpRef
  | .epClose e | .sect _ (.acceptWindow e _) | .sect _ (.attachEndpoint e)
  | .emit _ (.accept e _) => some e
  | _ => none

namespace Stream.Fires

variable {r : Ref} {st : Stream} {x : Section} {o : Outcome} {e : EpRef}

/-- The endpoint of a stream is the one that was handed to it. -/
theorem ep (h : Fires r st x o) (he : o.st.ep = some e) :
    st.ep = some e ∨ (Task.sect r x).endpoint = some e := by
  cases h with
  | attachEndpoint => exact .inr he
  | closeEndpoint => simp at he
  | _ => exact .inl he

theorem push_endpoint (h : Fires r st x o) :
    ∀ t ∈ o.push, t.endpoint = some e → st.ep = some e ∨ (Task.sect r x).endpoint = some e := by
  cases h with
  | detachBytes => split_ifs <;> simp [Task.endpoint]
  | closeEndpoint => cases hep : st.ep <;> simp [Task.endpoint]
  | acceptWindow => simp +contextual [Task.endpoint]
  | _ => simp [Stream.park, Task.endpoint, or_imp, forall_and]

end Stream.Fires

namespace Session

variable {cfg : Config} {ok : Session → Label → Prop} {s s' t u : Session} {r : Ref}
variable {st st' : Stream} {n : Next} {l : Label} {task : Task}

/-- **The endpoints that streams and goroutines refer to exist.** -/
structure Anchored (s : Session) : Prop where
  tasks : ∀ t ∈ pending s.threads, ∀ e, t.endpoint = some e → e < s.eps.length
  streams : ∀ st ∈ s.heap, ∀ e, st.ep = some e → e < s.eps.length

theorem anchored_new (cfg : Config) : (new cfg).Anchored := ⟨by simp [new], by simp [new]⟩

theorem Acts.eps_le (ha : Acts s task n) : s.eps.length ≤ n.sess.eps.length := by
  cases ha with
  | detach hst => unfold delete; split_ifs <;> exact le_rfl
  | _ => simp

theorem Acts.anchored_streams (ha : Acts s task n) (h : s.Anchored)
    (ht : ∀ e, task.endpoint = some e → e < s.eps.length) :
    ∀ st ∈ n.sess.heap, ∀ e, st.ep = some e → e < n.sess.eps.length := by
  have hold (st : Stream) (hst : st ∈ s.heap) (e : EpRef) (he : st.ep = some e) :
      e < n.sess.eps.length := (h.streams st hst e he).trans_le ha.eps_le
  cases ha with
  | sect hst hf ho =>
    intro st hm e he
    rcases List.mem_or_eq_of_mem_set hm with hm | rfl
    · exact hold st hm e he
    · rcases hf.ep he with he | he
      · exact hold _ (List.mem_of_getElem? hst) e he
      · exact ht e he
  | detach hst => rw [delete_heap]; exact hold
  | open_created =>
    intro st hm e he
    rcases List.mem_append.mp hm with hm | hm
    · exact hold st hm e he
    · simp [List.mem_singleton.mp hm] at he
  | open_admitted =>
    intro st hm e he
    rcases List.mem_append.mp hm with hm | hm
    · exact hold st hm e he
    · simp [List.mem_singleton.mp hm] at he
  | _ => exact hold

theorem Acts.anchored_tasks (ha : Acts s task n) (h : s.Anchored)
    (ht : ∀ e, task.endpoint = some e → e < s.eps.length) :
    ∀ t ∈ n.push ++ n.spawn.flatten, ∀ e, t.endpoint = some e → e < n.sess.eps.length := by
  cases ha with
  | sect hst hf ho =>
    intro t hm e he
    simp only [List.flatten_nil, List.append_nil] at hm
    rcases hf.push_endpoint t hm he with he | he
    · exact h.streams _ (List.mem_of_getElem? hst) e he
    · exact ht e he
  | @emit_sent r x st hst hs =>
    cases x <;> simp_all [Emission.sent, Task.endpoint]
  | @emit_lost r x st hst hs =>
    cases x <;> simp_all [Emission.failed, Task.endpoint]
  | pump hep hp =>
    intro t hm e he
    have hlt := (List.getElem?_eq_some_iff.mp hep).1
    have htask := hp.tasks t hm
    cases htask <;> simp_all [Task.endpoint]
  | @lookup_found m r hl =>
    cases m <;> simp [dispatch, Task.endpoint]
  | fail_now hc hrefs =>
    intro t hm e he
    cases failTask_of_mem (mem_push hm) <;> simp [Task.endpoint] at he
  | _ => simp [Task.endpoint]

theorem Started.endpoint (h : Started s task) : task.endpoint = none := by
  cases h with
  | callOn hs hc => cases hc <;> rfl
  | _ => rfl

theorem Moves.eps_le (hm : Moves s l s') : s.eps.length ≤ s'.eps.length := by
  cases hm with
  | run ht ha => exact ha.eps_le
  | callOn hs hc => simp
  | _ => exact le_rfl

/-- **Every step keeps the endpoints.** -/
theorem Moves.anchored (hm : Moves s l s') (h : s.Anchored) : s'.Anchored := by
  have heps := hm.eps_le
  rcases hm.run_or_starts with ⟨i, c, task, rest, n, -, ht, ha, rfl⟩ | ⟨ts, hts⟩ | rfl
  · obtain ⟨others, h₁, h₂⟩ := pending_advance ht
    have htask : ∀ e, task.endpoint = some e → e < s.eps.length := h.tasks task (by simp [h₁])
    refine ⟨fun t hm e he => ?_, ha.anchored_streams h htask⟩
    rw [h₂] at hm
    rcases Multiset.mem_add.mp hm with hm | hm
    · exact ha.anchored_tasks h htask t (by simpa [pending] using hm) e he
    · exact (h.tasks t (by simp [h₁, hm]) e he).trans_le ha.eps_le
  · refine ⟨fun t hm e he => ?_, fun st hst e he => ?_⟩
    · rcases Multiset.mem_add.mp (hts.pending ▸ hm) with hm | hm
      · simp [(hts.started t hm).endpoint] at he
      · exact (h.tasks t hm e he).trans_le heps
    · exact (h.streams st (hts.heap ▸ hst) e he).trans_le heps
  · exact ⟨h.tasks, h.streams⟩

theorem anchored (h : Reaches step ok (new cfg) s) : s.Anchored :=
  h.invariant (anchored_new cfg) fun _ _ _ _ _ hs ih => (moves_of_step hs).anchored ih

/-! ## The steps of `Serve` on a stream -/

end Session

/-- The critical sections that `Serve` enters on the stream a frame names. -/
def Section.handled : Section → Bool
  | .deliver _ | .addCredit _ | .remoteClose | .handleAccept .. | .handleReject .. | .closeReady
  | .setReset _ | .broadcast | .maybeFinish | .finish | .detachBytes | .closeEndpoint => true
  | _ => false

/-- The steps that `Serve` takes on the stream `r`. -/
def Task.servesOn (r : Ref) : Task → Bool
  | .sect r' x => r' = r && x.handled
  | .emit r' (.reset _) | .detach r' => r' = r
  | .releaseBuffer _ | .epClose _ => true
  | _ => false

/-- How many steps of `Serve` the step leads to, itself included, at most. -/
def Task.cost : Task → ℕ
  | .sect _ .closeEndpoint | .sect _ .detachBytes => 2
  | .detach _ => 3
  | .sect _ (.handleReject ..) => 5
  | .sect _ .finish => 6
  | .sect _ .broadcast | .sect _ .maybeFinish => 7
  | .sect _ (.setReset _) | .sect _ .remoteClose => 8
  | .emit _ _ => 9
  | .sect _ (.deliver _) | .sect _ (.addCredit _) | .sect _ (.handleAccept ..) => 10
  | _ => 1

/-- The steps of `Serve` left. -/
def cost (ts : List Task) : ℕ := (ts.map Task.cost).sum

@[simp] theorem cost_nil : cost [] = 0 := rfl

@[simp] theorem cost_cons (t : Task) (ts : List Task) : cost (t :: ts) = t.cost + cost ts := by
  simp [cost]

@[simp] theorem cost_append (ts us : List Task) : cost (ts ++ us) = cost ts + cost us := by
  simp [cost]

/-- A critical section of `Serve` leads to fewer steps of `Serve`, on the same stream. -/
theorem Stream.Fires.push_servesOn {r : Ref} {st : Stream} {x : Section} {o : Outcome}
    (h : Fires r st x o) (hx : x.handled = true) :
    (∀ t ∈ o.push, t.servesOn r = true) ∧ cost o.push < (Task.sect r x).cost := by
  cases h with
  | refused h => cases h <;> simp [Task.servesOn, Task.cost]
  | ignored h => cases h <;> simp [Task.cost]
  | detachBytes => split_ifs <;> simp [Task.servesOn, Task.cost]
  | closeEndpoint => cases hep : st.ep <;> simp [Task.servesOn, Task.cost]
  | _ => simp_all [Section.handled, Task.servesOn, Task.cost]

namespace Session

variable {cfg : Config} {ok : Session → Label → Prop} {s s' t u : Session} {r : Ref}
variable {st st' : Stream} {n : Next} {l : Label} {task : Task} {id : UInt32}

/-- **Only the stream `r`, which has the given id, and the entry of the id in the table have
changed.** -/
structure Confined (r : Ref) (id : UInt32) (s s' : Session) : Prop where
  owner : ∀ p, s'.names[r]? = some p → p.1 = id
  heap : ∀ q, q ≠ r → s'.heap[q]? = s.heap[q]?
  names : s.names <+: s'.names
  streams : ∀ id', id' ≠ id → s'.stream id' = s.stream id'
  closed : s'.closed = s.closed
  served : s'.served = s.served
  connUp : s'.connUp = s.connUp

/-- A step that leaves the streams and the table alone. -/
theorem Confined.of_eq (ho : ∀ p, s.names[r]? = some p → p.1 = id) (hh : s'.heap = s.heap)
    (ht : s'.streams = s.streams) (hc : s'.closed = s.closed) (hs : s'.served = s.served)
    (hu : s'.connUp = s.connUp) : Confined r id s s' := by
  have hn : s'.names = s.names := congrArg (List.map Stream.name) hh
  exact ⟨hn ▸ ho, fun _ _ => by rw [hh], hn ▸ List.prefix_rfl, fun _ _ => congrArg _ ht, hc, hs, hu⟩

theorem Confined.trans (h : Confined r id s t) (h' : Confined r id t u) : Confined r id s u where
  owner := h'.owner
  heap q hq := (h'.heap q hq).trans (h.heap q hq)
  names := h.names.trans h'.names
  streams id' hid := (h'.streams id' hid).trans (h.streams id' hid)
  closed := h'.closed.trans h.closed
  served := h'.served.trans h.served
  connUp := h'.connUp.trans h.connUp

/-- What is known of the streams stays so, whatever goroutines do next. -/
theorem Confined.congr (h : Confined r id s t) (hh : u.heap = t.heap) (ht : u.streams = t.streams)
    (hc : u.closed = t.closed) (hs : u.served = t.served) (hu : u.connUp = t.connUp) :
    Confined r id s u :=
  h.trans (.of_eq h.owner hh ht hc hs hu)

theorem confined_delete (ho : ∀ p, s.names[r]? = some p → p.1 = id) :
    Confined r id s (s.delete r id) := by
  unfold delete
  split_ifs
  · refine ⟨ho, fun _ _ => rfl, List.prefix_rfl, fun id' hid => ?_, rfl, rfl, rfl⟩
    exact (lookup_filter_ne (by simp) s.streams id').trans (if_neg hid)
  · exact .of_eq ho rfl rfl rfl rfl rfl

theorem name_owner (hst : s.heap[r]? = some st) : ∀ p, s.names[r]? = some p → p.1 = st.id := by
  intro p hp
  rw [names_getElem?, hst] at hp
  exact congrArg Prod.fst (Option.some.inj hp).symm

theorem confined_set {buffered : ℕ} {log : List Event} (hst : s.heap[r]? = some st)
    (hn : st'.name = st.name) :
    Confined r st.id s { s with heap := s.heap.set r st', buffered, log } := by
  have hnames : (s.heap.set r st').map Stream.name = s.names := Library.map_set_of_eq hst hn
  refine ⟨fun p hp => name_owner hst p ?_, fun q hq => ?_, ?_, fun _ _ => rfl, rfl, rfl, rfl⟩
  · rwa [← hnames]
  · exact List.getElem?_set_ne (Ne.symm hq)
  · rw [← hnames, names]

/-- **A step of `Serve` on a stream is confined to it.** -/
theorem Acts.confined (ha : Acts s task n) (ht : task.servesOn r = true)
    (hst : s.heap[r]? = some st) (hup : s.connUp = true) :
    Confined r st.id s n.sess ∧ n.spawn = [] ∧ (∀ t ∈ n.push, t.servesOn r = true) ∧
      cost n.push < task.cost := by
  have ho := name_owner hst
  cases ha with
  | sect hst' hf ho' =>
    simp only [Task.servesOn, Bool.and_eq_true, decide_eq_true_eq] at ht
    obtain ⟨rfl, hx⟩ := ht
    obtain ⟨hpush, hcost⟩ := hf.push_servesOn hx
    obtain rfl := Option.some.inj (hst'.symm.trans hst)
    exact ⟨confined_set hst hf.name, rfl, hpush, hcost⟩
  | @emit_sent r' x st' hst' h =>
    cases x with
    | reset cause =>
      refine ⟨.of_eq ho rfl rfl rfl rfl rfl, rfl, ?_, ?_⟩
      · simpa [Emission.sent, Task.servesOn, Section.handled] using ht
      · simp [Emission.sent, Task.cost]
    | _ => simp [Task.servesOn] at ht
  | @emit_lost r' x st' hst' h =>
    cases x with
    -- an `APP_RESET` always marshals, so only the connection can refuse it
    | reset cause => exact absurd ⟨rfl, hup⟩ h
    | _ => simp [Task.servesOn] at ht
  | detach hst' =>
    simp only [Task.servesOn, decide_eq_true_eq] at ht
    subst ht
    obtain rfl := Option.some.inj (hst'.symm.trans hst)
    exact ⟨confined_delete ho, rfl, by simp [Task.servesOn, Section.handled], by simp [Task.cost]⟩
  | releaseBuffer => exact ⟨.of_eq ho rfl rfl rfl rfl rfl, rfl, by simp, by simp [Task.cost]⟩
  | epClose hep => exact ⟨.of_eq ho rfl rfl rfl rfl rfl, rfl, by simp, by simp [Task.cost]⟩
  | _ => simp [Task.servesOn] at ht

/-! ## Frames that name a stream -/

/-- What `Serve` has left to do on a message for the id. -/
inductive Serves (s : Session) (id : UInt32) : List Task → Prop
  | done : Serves s id []
  | lookup {m : AppMessage} (h : m.streamID = id) : Serves s id [.lookup m]
  | handleOpen {service metadata : Bytes} : Serves s id [.handleOpen id service metadata]
  | sendReject {code : UInt16} {message : Bytes} : Serves s id [.sendReject id code message]
  | stream {r : Ref} {b : Bool} {ts : List Task} (hid : s.names[r]? = some (id, b))
      (hts : ∀ t ∈ ts, t.servesOn r = true) : Serves s id ts

/-- Streams keep their names. -/
theorem names_mono {p : UInt32 × Bool} (hn : s.names <+: s'.names) (h : s.names[r]? = some p) :
    s'.names[r]? = some p := by
  obtain ⟨ps, hps⟩ := hn
  rw [← hps, List.getElem?_append_left (List.getElem?_eq_some_iff.mp h).1, h]

theorem Serves.mono {ts : List Task} (h : s.Serves id ts) (hn : s.names <+: s'.names) :
    s'.Serves id ts := by
  cases h with
  | done => exact .done
  | lookup h => exact .lookup h
  | handleOpen => exact .handleOpen
  | sendReject => exact .sendReject
  | stream hid hts => exact .stream (names_mono hn hid) hts

theorem dispatch_servesOn (r : Ref) (m : AppMessage) :
    ∀ t ∈ dispatch r m, t.servesOn r = true := by
  cases m <;> simp [dispatch, Task.servesOn, Section.handled]

theorem handleFrame_app {registry : Registry} {f : Frame} {m : AppMessage} (hf : f.flags = 0)
    (hid : f.msgID = 0) (hm : decodeMessage registry f.typ f.body = .ok (.app m)) :
    handleFrame registry f = [.lookup m] ∨
    ∃ service metadata, handleFrame registry f = [.handleOpen m.streamID service metadata] ∧
      m = .appOpen m.streamID service metadata := by
  unfold handleFrame
  rw [if_neg (by simp [hf, hid])]
  cases m with
  | appOpen id service metadata => exact .inr ⟨service, metadata, by rw [hm]; rfl, rfl⟩
  | _ => exact .inl (by rw [hm])

/-- No stream has the next reference. -/
theorem names_length_owner (s : Session) (id : UInt32) :
    ∀ p, s.names[s.heap.length]? = some p → p.1 = id := by
  simp [names_getElem?]

/-- A stream with the id enters the table. -/
theorem confined_insert (hh : ∃ st, s'.heap = s.heap ++ [st] ∧ st.id = id)
    (ht : s'.streams = (id, s.heap.length) :: s.streams) (hc : s'.closed = s.closed)
    (hs : s'.served = s.served) (hu : s'.connUp = s.connUp) : Confined s.heap.length id s s' := by
  obtain ⟨st, hh, hid⟩ := hh
  refine ⟨?_, fun q hne => ?_, ?_, fun id' hid' => ?_, hc, hs, hu⟩
  · simp +contextual [names_getElem?, hh, Stream.name, hid]
  · rw [hh]
    rcases Nat.lt_or_ge q s.heap.length with hlt | hge
    · exact List.getElem?_append_left hlt
    · rw [List.getElem?_eq_none hge, List.getElem?_eq_none]
      simpa using Nat.succ_le_of_lt (Nat.lt_of_le_of_ne hge (Ne.symm hne))
  · simp [names, hh]
  · simp [stream, ht, List.lookup_cons, beq_eq_false_iff_ne.mpr hid']

/-- **Every step of `Serve` on a message is confined to one stream with the id of the message.** -/
theorem Acts.serves {rest : List Task} (ha : Acts s task n) (h : s.Serves id (task :: rest))
    (htab : s.Table) (hup : s.connUp = true) :
    (∃ r, Confined r id s n.sess) ∧ n.sess.Serves id (n.push ++ rest) := by
  have hown := s.names_length_owner id
  cases h with
  | lookup hm =>
    cases ha with
    | lookup_none h => exact ⟨⟨_, .of_eq hown rfl rfl rfl rfl rfl⟩, .done⟩
    | lookup_found h =>
      obtain ⟨b, hb⟩ := htab.ids _ (mem_of_stream h)
      refine ⟨⟨_, .of_eq hown rfl rfl rfl rfl rfl⟩, .stream (hm ▸ hb) ?_⟩
      simpa using dispatch_servesOn _ _
  | handleOpen =>
    cases ha with
    | open_refused h => exact ⟨⟨_, .of_eq hown rfl rfl rfl rfl rfl⟩, .sendReject⟩
    | open_ignored h => exact ⟨⟨_, .of_eq hown rfl rfl rfl rfl rfl⟩, .done⟩
    | open_admitted h₀ hid hv hm hc hnew hq =>
      exact ⟨⟨_, confined_insert ⟨_, rfl, rfl⟩ rfl rfl rfl rfl⟩, .done⟩
  | sendReject =>
    cases ha with
    | _ => exact ⟨⟨_, .of_eq hown rfl rfl rfl rfl rfl⟩, .done⟩
  | stream hid hts =>
    obtain ⟨st, hst, hname⟩ := Option.map_eq_some_iff.mp ((names_getElem? _ _).symm.trans hid)
    obtain rfl : st.id = id := congrArg Prod.fst hname
    obtain ⟨hconf, -, hpush, -⟩ := ha.confined (hts _ (List.mem_cons_self ..)) hst hup
    refine ⟨⟨_, hconf⟩, .stream (names_mono hconf.names hid) fun t ht => ?_⟩
    rcases List.mem_append.mp ht with ht | ht
    · exact hpush t ht
    · exact hts t (List.mem_cons_of_mem _ ht)

/-- `Serve` is never blocked on a message. -/
theorem Serves.exec {rest : List Task} (h : s.Serves id (task :: rest)) (ha : s.Anchored)
    (hm : task ∈ pending s.threads) : ∃ n, s.exec task .go = some n := by
  cases h with
  | @stream r b _ hid hts =>
    have ht := hts task (List.mem_cons_self ..)
    obtain ⟨st, hst, -⟩ := Option.map_eq_some_iff.mp ((names_getElem? _ _).symm.trans hid)
    cases task with
    | sect r' x =>
      simp only [Task.servesOn, Bool.and_eq_true, decide_eq_true_eq] at ht
      obtain ⟨rfl, hx⟩ := ht
      cases x <;> simp [Section.handled] at hx <;>
        simp [Session.exec, Session.enter, hst, Stream.enter]
    | emit r' x =>
      cases x with
      | reset cause =>
        obtain rfl : r' = r := by simpa [Task.servesOn] using ht
        simp [Session.exec, hst]
      | _ => simp [Task.servesOn] at ht
    | detach r' =>
      obtain rfl : r' = r := by simpa [Task.servesOn] using ht
      simp [Session.exec, hst]
    | releaseBuffer k => exact ⟨_, rfl⟩
    | epClose e =>
      have he := ha.tasks _ hm e rfl
      simp [Session.exec, onEndpoint, List.getElem?_eq_getElem he]
    | _ => simp [Task.servesOn] at ht
  | _ => exact ⟨_, rfl⟩

theorem step_of_exec {i : ℕ} {c : Choice} {rest : List Task}
    (hi : s.threads[i]? = some (task :: rest)) (hn : s.exec task c = some n) :
    s.step (.run i c) =
      some { n.sess with threads := advance s.threads i (n.push ++ rest) n.spawn } := by
  simp [step, hi, hn]

theorem mem_pending_of_head {i : ℕ} {rest : List Task} (hi : s.threads[i]? = some (task :: rest)) :
    task ∈ pending s.threads := by
  obtain ⟨others, h₁, -⟩ := pending_advance hi
  simp [h₁]

/-- **`Serve` comes to the end of what it does on a stream**, and touches no other. -/
theorem serve_alone {ts : List Task} (h : Reachable cfg s) (hup : s.connUp = true)
    (hst : s.heap[r]? = some st) (hts : s.threads[0]? = some ts)
    (hserve : ∀ t ∈ ts, t.servesOn r = true) :
    ∃ k s', s.alone 0 k = some s' ∧ Confined r st.id s s' ∧ s'.threads = s.threads.set 0 [] := by
  -- every step lowers the cost of what is left
  induction hk : cost ts using Nat.strongRecOn generalizing s st ts with
  | _ k ih =>
    have hname : s.names[r]? = some (st.id, st.inbound) := by rw [names_getElem?, hst]; rfl
    cases ts with
    | nil =>
      refine ⟨0, s, rfl, .of_eq (name_owner hst) rfl rfl rfl rfl rfl, ?_⟩
      obtain ⟨hlt, h0⟩ := List.getElem?_eq_some_iff.mp hts
      rw [← h0, List.set_getElem_self]
    | cons task rest =>
      have hser : s.Serves st.id (task :: rest) := .stream hname hserve
      obtain ⟨n, hn⟩ := hser.exec (anchored h) (mem_pending_of_head hts)
      obtain ⟨hconf, hspawn, hpush, hcost⟩ :=
        (acts_of_exec hn).confined (hserve _ (List.mem_cons_self ..)) hst hup
      have hstep := step_of_exec hts hn
      set s₁ : Session := { n.sess with threads := advance s.threads 0 (n.push ++ rest) n.spawn }
      have hconf₁ : Confined r st.id s s₁ := hconf.congr rfl rfl rfl rfl rfl
      obtain ⟨st₁, hst₁, hname₁⟩ := Option.map_eq_some_iff.mp
        ((names_getElem? _ _).symm.trans (names_mono hconf₁.names hname))
      obtain hid₁ : st₁.id = st.id := congrArg Prod.fst hname₁
      have hrest : ∀ t ∈ n.push ++ rest, t.servesOn r = true := by
        intro t ht
        rcases List.mem_append.mp ht with ht | ht
        · exact hpush t ht
        · exact hserve t (List.mem_cons_of_mem _ ht)
      obtain ⟨j, s', halone, hconf', hthreads⟩ := ih (cost (n.push ++ rest))
        (by rw [← hk, cost_append, cost_cons]; omega)
        (h.tail trivial hstep) (hconf₁.connUp.trans hup) hst₁
        (advance_getElem?_self (List.getElem?_eq_some_iff.mp hts).1) hrest rfl
      refine ⟨j + 1, s', ?_, hconf₁.trans (hid₁ ▸ hconf'), ?_⟩
      · rw [alone_succ, hstep, Option.bind_some, halone]
      · rw [hthreads]
        simp [s₁, advance, hspawn]

/-! ## A frame -/

/-- **The frame touched the stream with the id, and nothing else.** -/
structure Isolated (id : UInt32) (s s' : Session) : Prop where
  /-- `handleFrame` returned, and `Serve` reads on. -/
  serving : s'.serving = true
  closed : s'.closed = false
  streams : ∀ q, q < s.heap.length → s.stream id ≠ some q → s'.heap[q]? = s.heap[q]?
  entries : ∀ id', id' ≠ id → s'.stream id' = s.stream id'
  /-- The ledger moves by what the stream with the id buffers. -/
  ledger : ∀ r, s.stream id = some r → ∃ st st', s.heap[r]? = some st ∧ s'.heap[r]? = some st' ∧
    s'.buffered + st.reserved = s.buffered + st'.reserved
  unknown : s.stream id = none → s'.buffered = s.buffered

theorem Confined.isolated (h : Confined r id s s') (hclosed : s.closed = false)
    (hserved : s.served = false) (hidle : s'.threads[0]? = some [])
    (hr : s.stream id = some r ∨ s.heap.length ≤ r)
    (hledger : ∀ r, s.stream id = some r → ∃ st st', s.heap[r]? = some st ∧
      s'.heap[r]? = some st' ∧ s'.buffered + st.reserved = s.buffered + st'.reserved)
    (hunknown : s.stream id = none → s'.buffered = s.buffered) : Isolated id s s' where
  serving := serving_iff.mpr ⟨hidle, h.served.trans hserved⟩
  closed := h.closed.trans hclosed
  streams q hq hne := by
    apply h.heap
    rintro rfl
    rcases hr with hr | hr
    · exact hne hr
    · exact absurd hq (Nat.not_lt.mpr hr)
  entries := h.streams
  ledger := hledger
  unknown := hunknown

/-- A frame that leaves the streams, the table and the ledger alone. -/
theorem isolated_of_eq (htab : s.Table) (hclosed : s.closed = false) (hserved : s.served = false)
    (hidle : s'.threads[0]? = some []) (hh : s'.heap = s.heap) (ht : s'.streams = s.streams)
    (hc : s'.closed = s.closed) (hs : s'.served = s.served) (hu : s'.connUp = s.connUp)
    (hb : s'.buffered = s.buffered) : Isolated id s s' := by
  have hconf : Confined s.heap.length id s s' :=
    .of_eq (s.names_length_owner id) hh ht hc hs hu
  refine hconf.isolated hclosed hserved hidle (.inr le_rfl) (fun r hr => ?_) fun _ => hb
  obtain ⟨b, hn⟩ := htab.ids _ (mem_of_stream hr)
  obtain ⟨st, hst, -⟩ := Option.map_eq_some_iff.mp ((names_getElem? _ _).symm.trans hn)
  exact ⟨st, st, hst, by rw [hh, hst], by rw [hb]⟩

/-- Between two states with the same goroutines, the ledger moves by what the stream holds. -/
theorem Confined.buffered (h : Confined r id s s') (hl : s.Ledger) (hl' : s'.Ledger)
    (hclosed : s.closed = false) (hthreads : s'.threads = s.threads)
    (hst : s.heap[r]? = some st) (hst' : s'.heap[r]? = some st') :
    s'.buffered + st.reserved = s.buffered + st'.reserved := by
  have hheap : s'.heap = s.heap.set r st' := by
    apply List.ext_getElem?
    intro q
    rw [List.getElem?_set]
    split_ifs with hq hlt
    · rw [← hq, hst']
    · exact absurd (List.getElem?_eq_some_iff.mp hst).1 hlt
    · exact h.heap q (Ne.symm hq)
  have hsum := sum_map_set Stream.reserved hst st'
  rw [hl.balance hclosed, hl'.balance (h.closed.trans hclosed), load, load, hthreads, hheap]
  omega

section Frame

variable {f : Frame} {m : AppMessage}

/-- `Serve` has read the frame, and is about to take the steps `ts`. -/
def received (s : Session) (f : Frame) (ts : List Task) : Session :=
  { s with inbox := s.inbox ++ [f], threads := s.threads.set 0 ts }

theorem step_recv (hserve : s.serving = true) (hf : readable f = true) :
    s.step (.recv f) = some (s.received f (handleFrame s.cfg.registry f)) := by
  simp [step, hserve, hf, received]

theorem received_head (hidle : s.threads[0]? = some []) (ts : List Task) :
    (s.received f ts).threads[0]? = some ts :=
  List.getElem?_set_self (List.getElem?_eq_some_iff.mp hidle).1

/-- `Serve` has nothing left to do. -/
theorem received_nil (hidle : s.threads[0]? = some []) :
    s.received f [] = { s with inbox := s.inbox ++ [f] } := by
  obtain ⟨_, h0⟩ := List.getElem?_eq_some_iff.mp hidle
  rw [received, ← h0, List.set_getElem_self]

section Idle

variable (hidle : s.threads[0]? = some []) (hclosed : s.closed = false)
  (hserved : s.served = false)

include hidle

/-- A message for an id that is not in the table. -/
theorem alone_unknown (hr : s.stream m.streamID = none) :
    (s.received f [.lookup m]).alone 0 1 = some { s with inbox := s.inbox ++ [f] } := by
  have hn : (s.received f [.lookup m]).exec (.lookup m) .go =
      some { sess := s.received f [.lookup m] } := by
    have hr₁ : (s.received f [.lookup m]).stream m.streamID = none := hr
    simp [exec, lookup, hr₁]
  rw [alone_one, step_of_exec (received_head hidle _) hn, ← received_nil hidle]
  simp [received, advance]

include hclosed hserved

/-- A message for a stream in the table. -/
theorem isolated_found (h : Reachable cfg s) (hup : s.connUp = true)
    (h₁ : Reachable cfg (s.received f [.lookup m])) (hr : s.stream m.streamID = some r) :
    ∃ k s', (s.received f [.lookup m]).alone 0 k = some s' ∧ Isolated m.streamID s s' := by
  obtain ⟨b, hb⟩ := h.table.ids _ (mem_of_stream hr)
  obtain ⟨st, hst, hname⟩ := Option.map_eq_some_iff.mp ((names_getElem? _ _).symm.trans hb)
  obtain hid : st.id = m.streamID := congrArg Prod.fst hname
  have hn : (s.received f [.lookup m]).exec (.lookup m) .go =
      some { sess := { s.received f [.lookup m] with heard := s.heard ++ [(r, m)] },
             push := dispatch r m } := by
    have hr₁ : (s.received f [.lookup m]).stream m.streamID = some r := hr
    simp only [exec, lookup, hr₁]
    rfl
  -- `Serve` finds the stream, and takes the steps of the message on it
  have hs₂ := step_of_exec (received_head hidle _) hn
  set s₂ : Session := { s.received f [.lookup m] with
    heard := s.heard ++ [(r, m)],
    threads := advance (s.received f [.lookup m]).threads 0 (dispatch r m ++ []) [] }
  have hi₂ : s₂.threads[0]? = some (dispatch r m) := by
    rw [← List.append_nil (dispatch r m)]
    exact advance_getElem?_self (List.getElem?_eq_some_iff.mp (received_head hidle _)).1
  have h₂ : Reachable cfg s₂ := h₁.tail trivial hs₂
  obtain ⟨k, s', halone, hconf, hthreads⟩ := serve_alone h₂ hup hst hi₂ (dispatch_servesOn r m)
  have hconf₂ : Confined r m.streamID s s₂ :=
    .of_eq (hid ▸ name_owner hst) rfl rfl rfl rfl rfl
  have hconf' : Confined r m.streamID s s' := hconf₂.trans (hid ▸ hconf)
  -- after them it reads on
  have hthreads' : s'.threads = s.threads := by
    obtain ⟨_, h0⟩ := List.getElem?_eq_some_iff.mp hidle
    simp only [hthreads, s₂, received, advance, List.append_nil, List.set_set]
    rw [← h0, List.set_getElem_self]
  have h' : Reachable cfg s' := Reaches.trans h₂ (Library.reaches_of_run halone)
  refine ⟨k + 1, s', ?_, hconf'.isolated hclosed hserved (hthreads' ▸ hidle) (.inl hr) ?_ ?_⟩
  · rw [alone_succ, hs₂, Option.bind_some, halone]
  · intro r' hr'
    obtain rfl := Option.some.inj (hr.symm.trans hr')
    obtain ⟨st', hst', -⟩ := Option.map_eq_some_iff.mp
      ((names_getElem? _ _).symm.trans (names_mono hconf'.names hb))
    exact ⟨st, st', hst, hst', hconf'.buffered (ledger h) (ledger h') hclosed hthreads' hst hst'⟩
  · simp [hr]

/-- An `APP_OPEN`. -/
theorem isolated_open {service metadata : Bytes} (htab : s.Table) :
    ∃ k s', (s.received f [.handleOpen id service metadata]).alone 0 k = some s' ∧
      Isolated id s s' := by
  set s₁ := s.received f [.handleOpen id service metadata] with hs₁
  have hi₁ : s₁.threads[0]? = some [.handleOpen id service metadata] := received_head hidle _
  have hn : s₁.exec (.handleOpen id service metadata) .go =
      some (s₁.handleOpen id service metadata) := rfl
  have hs₂ := step_of_exec hi₁ hn
  have ha := acts_of_exec hn
  generalize s₁.handleOpen id service metadata = n at hn ha hs₂
  cases ha with
  | @open_refused _ _ _ code message hd =>
    set s₂ : Session :=
      { s₁ with threads := advance s₁.threads 0 ([.sendReject id code message] ++ []) [] }
    have hi₂ : s₂.threads[0]? = some [.sendReject id code message] :=
      advance_getElem?_self (List.getElem?_eq_some_iff.mp hi₁).1
    obtain ⟨n', hn'⟩ : ∃ n', s₂.exec (.sendReject id code message) .go = some n' := ⟨_, rfl⟩
    have hs₃ := step_of_exec hi₂ hn'
    have ha' := acts_of_exec hn'
    refine ⟨2, _, by rw [alone_succ, hs₂, Option.bind_some, alone_one, hs₃], ?_⟩
    have hidle' : (advance s₂.threads 0 (n'.push ++ []) n'.spawn)[0]? = some (n'.push ++ []) :=
      advance_getElem?_self (List.getElem?_eq_some_iff.mp hi₂).1
    -- whether the `APP_REJECT` was written or not, the session is as it was
    cases ha' with
    | reject_sent _ => exact isolated_of_eq htab hclosed hserved hidle' rfl rfl rfl rfl rfl rfl
    | reject_lost => exact isolated_of_eq htab hclosed hserved hidle' rfl rfl rfl rfl rfl rfl
  | open_ignored hc => simp [s₁, received, hclosed] at hc
  | open_admitted h₀ hid hv hm hc hnew hq =>
    have hidle' : (advance s₁.threads 0 ([] ++ []) [[.acceptOpen s.heap.length metadata]])[0]? =
        some [] := advance_getElem?_self (List.getElem?_eq_some_iff.mp hi₁).1
    refine ⟨1, _, by rw [alone_one, hs₂], ?_⟩
    refine Confined.isolated (confined_insert ⟨_, rfl, rfl⟩ rfl rfl rfl rfl) hclosed hserved hidle'
      (.inr le_rfl) (fun r hr => ?_) fun _ => rfl
    exact absurd (hr.symm.trans hnew) (Option.some_ne_none r)

end Idle

/-! ## Interleavings -/

/-- The steps up to the next frame that `Serve` reads. -/
def Midway (_ : Session) (l : Label) : Prop := (∀ f, l ≠ .recv f) ∧ l ≠ .readError

/-- `Serve` is at work on a message for the id. -/
def At (id : UInt32) (s : Session) : Prop := ∃ ts, s.threads[0]? = some ts ∧ s.Serves id ts

theorem Acts.names (ha : Acts s task n) : s.names <+: n.sess.names := by
  cases ha with
  | sect hst hf ho =>
    have hn := Library.map_set_of_eq hst hf.name
    exact (congrArg (s.names <+: ·) hn).mpr List.prefix_rfl
  | detach hst => rw [Session.names, Session.names, delete_heap]
  | open_created => simp [Session.names]
  | open_admitted => simp [Session.names]
  | _ => exact List.prefix_rfl

theorem Moves.at (hm : Moves s l s') (hmid : Midway s l) (htab : s.Table) (hup : s.connUp = true)
    (h : s.At id) : s'.At id := by
  obtain ⟨ts, hts, hser⟩ := h
  have hlt := (List.getElem?_eq_some_iff.mp hts).1
  cases hm with
  | @run i c task rest n ht ha =>
    by_cases hi : i = 0
    · subst hi
      obtain rfl := Option.some.inj (hts.symm.trans ht)
      exact ⟨_, advance_getElem?_self hlt, (ha.serves hser htab hup).2.mono List.prefix_rfl⟩
    · exact ⟨ts, (Library.advance_getElem?_ne hlt hi).trans hts, hser.mono ha.names⟩
  | recv => exact absurd rfl (hmid.1 _)
  | readError => exact absurd rfl hmid.2
  | connLost => exact ⟨ts, hts, hser.mono List.prefix_rfl⟩
  | _ => exact ⟨ts, (List.getElem?_append_left hlt).trans hts, hser.mono List.prefix_rfl⟩

theorem Acts.connUp (ha : Acts s task n) (h : n.sess.connUp = true) : s.connUp = true := by
  cases ha with
  | closeConn => exact absurd h (by simp)
  | detach hst =>
    simp only [delete] at h
    split_ifs at h <;> exact h
  | _ => exact h

/-- A connection that failed stays so. -/
theorem Moves.connUp (hm : Moves s l s') (h : s'.connUp = true) : s.connUp = true := by
  cases hm with
  | run ht ha => exact ha.connUp h
  | connLost => exact absurd h (by simp)
  | _ => exact h

/-- Up to the next frame, `Serve` is at work on this one. -/
theorem at_of_midway (h : Reachable cfg s) (hat : s.At id) (ht : Reaches step Midway s t) :
    t.connUp = true → t.At id := by
  apply ht.invariant (I := fun t => t.connUp = true → t.At id) (fun _ => hat)
  intro t u l hr hmid hs ih hup
  have hm := moves_of_step hs
  have hup' := hm.connUp hup
  exact hm.at hmid (Reachable.table (Reaches.trans h hr.always)) hup' (ih hup')

/-- Whatever the other goroutines do meanwhile, `Serve` is not blocked, and its steps are
confined. -/
theorem At.confined (h : t.At id) (ht : Reachable cfg t) (hup : t.connUp = true) :
    (t.threads[0]? = some [] ∨ ∃ u, t.step (.run 0 .go) = some u) ∧
    ∀ c u, t.step (.run 0 c) = some u → ∃ r, Confined r id t u := by
  obtain ⟨ts, hts, hser⟩ := h
  constructor
  · cases ts with
    | nil => exact .inl hts
    | cons task rest =>
      obtain ⟨n, hn⟩ := hser.exec (anchored ht) (mem_pending_of_head hts)
      exact .inr ⟨_, step_of_exec hts hn⟩
  · intro c u hs
    have hm := moves_of_step hs
    cases hm with
    | run hi ha =>
      obtain rfl := Option.some.inj (hts.symm.trans hi)
      obtain ⟨⟨r, hconf⟩, -⟩ := ha.serves hser ht.table hup
      exact ⟨r, hconf.congr rfl rfl rfl rfl rfl⟩

/-- **Stream isolation.** While the connection takes what is written, `Serve` comes to the end of
every message, reads on, and has touched no stream but the one that the message names; the ledger
has moved by what that stream holds more or less. A message for an id that is not in the table
changes nothing, unless it opens a stream. And whatever the other goroutines do in between, each
step of `Serve` on the message is confined to one stream with its id. -/
theorem frame_isolated (h : Reachable cfg s) (hclosed : s.closed = false) (hup : s.connUp = true)
    (hserve : s.serving = true) (hread : readable f = true) (hflags : f.flags = 0)
    (hmsg : f.msgID = 0) (hm : decodeMessage s.cfg.registry f.typ f.body = .ok (.app m)) :
    ∃ s₁, s.step (.recv f) = some s₁ ∧
      (∃ k s', s₁.alone 0 k = some s' ∧ Isolated m.streamID s s' ∧
        (s.stream m.streamID = none →
          (∀ service metadata, m ≠ .appOpen m.streamID service metadata) →
          s' = { s with inbox := s.inbox ++ [f] })) ∧
      ∀ t, Reaches step Midway s₁ t → t.connUp = true →
        (t.threads[0]? = some [] ∨ ∃ u, t.step (.run 0 .go) = some u) ∧
        ∀ c u, t.step (.run 0 c) = some u → ∃ r, Confined r m.streamID t u := by
  have hs₁ := step_recv hserve hread
  have h₁ : Reachable cfg (s.received f (handleFrame s.cfg.registry f)) := h.tail trivial hs₁
  obtain ⟨hidle, hserved⟩ := serving_iff.mp hserve
  refine ⟨_, hs₁, ?_, fun t ht hupt => ?_⟩
  · -- all at once: the message is for a stream, for none, or opens one
    rcases handleFrame_app hflags hmsg hm with hf | ⟨service, metadata, hf, hopen⟩
    · rw [hf] at h₁ ⊢
      cases hr : s.stream m.streamID with
      | none =>
        refine ⟨1, _, alone_unknown hidle hr, ?_, fun _ _ => rfl⟩
        exact isolated_of_eq h.table hclosed hserved hidle rfl rfl rfl rfl rfl rfl
      | some r =>
        obtain ⟨k, s', halone, hiso⟩ := isolated_found hidle hclosed hserved h hup h₁ hr
        exact ⟨k, s', halone, hiso, by simp⟩
    · rw [hf]
      obtain ⟨k, s', halone, hiso⟩ : ∃ k s',
          (s.received f [.handleOpen m.streamID service metadata]).alone 0 k = some s' ∧
            Isolated m.streamID s s' := isolated_open hidle hclosed hserved h.table
      exact ⟨k, s', halone, hiso, fun _ hne => absurd hopen (hne _ _)⟩
  · -- step by step, with the others in between
    have hat : (s.received f (handleFrame s.cfg.registry f)).At m.streamID := by
      refine ⟨_, received_head hidle _, ?_⟩
      rcases handleFrame_app hflags hmsg hm with hf | ⟨service, metadata, hf, -⟩
      · rw [hf]
        exact .lookup rfl
      · rw [hf]
        exact .handleOpen
    exact (at_of_midway h₁ hat ht hupt).confined (Reaches.trans h₁ ht.always) hupt

end Frame

/-- Data on a stream that the peer has not accepted resets the stream, and not the one next to
it. -/
theorem frame_isolated_data :
    ∃ s s₁ k s', Reachable { role := .host } s ∧ s.stream 1 = some 0 ∧ s.stream 2 = some 1 ∧
      s.step (.recv (Outgoing.app (.appData 1 [7])).frame) = some s₁ ∧ s₁.alone 0 k = some s' ∧
      Isolated 1 s s' := by
  obtain ⟨s, hs, hp⟩ := Library.exists_reaches_of_run step Always (new { role := .host })
    (fun s => !s.closed && s.connUp && s.serving && s.stream 1 == some 0 && s.stream 2 == some 1)
    [.call (.open (text "svc") []), .run 1 .go, .run 1 .go, .call (.open (text "svc") []),
      .run 2 .go, .run 2 .go] (by decide)
  simp only [Bool.and_eq_true, Bool.not_eq_true', beq_iff_eq] at hp
  obtain ⟨⟨⟨⟨hclosed, hup⟩, hserve⟩, h1⟩, h2⟩ := hp
  obtain ⟨s₁, hs₁, ⟨k, s', halone, hiso, -⟩, -⟩ := frame_isolated (m := .appData 1 [7]) hs hclosed
    hup hserve (f := (Outgoing.app (.appData 1 [7])).frame) (by decide) (by decide) (by decide)
    (by rw [reaches_cfg hs]; rfl)
  exact ⟨s, s₁, k, s', hs, h1, h2, hs₁, halone, hiso⟩

end Session

end Mvcp.App
