import Mvcp.Rpc.Client
import Mvcp.Library.Maps

/-!
# One call of a client

What a client does, seen from one of its calls: the call itself, whether it is pending under its
id, what the read loop is doing with it, and the frames read under its id since it was registered.
Every step of the client is a step of this view or leaves it alone, so an invariant of a single
call is proved against the steps of the view.

## Main definitions

* `Client.Routed`: the pending map and the read loop name calls by their ids
* `View`, `Client.view`: a client seen from one call
* `Act`, `View.Step`: what may happen to a view
* `Client.Causes`: which step of the client is behind it

## Main results

* `Client.routed`: every client reached is routed
* `Client.step_view`: a step of the client is a step of the view, a stutter, or the start of a call
* `Client.view_invariant`: the invariant rule for views
-/

namespace Mvcp.Rpc

open Library (Reaches lookup_eq_some_iff lookup_filter_ne)

namespace Client

variable {s s' : Client} {l : Label}

/-! ## The pending map -/

@[simp] theorem lookup_delete (s : Client) (id id' : UInt32) :
    (s.delete id).lookup id' = if id' = id then none else s.lookup id' :=
  lookup_filter_ne (by simp) s.pending id'

@[simp] theorem lookup_insert (s : Client) (id id' : UInt32) (c : ℕ) :
    (s.insert id c).lookup id' = if id' = id then some c else s.lookup id' := by
  show ((id, c) :: s.without id).lookup id' = _
  rw [List.lookup_cons]
  by_cases h : id' = id
  · simp [h]
  · rw [beq_eq_false_iff_ne.mpr h, if_neg h]
    exact (lookup_delete s id id').trans (if_neg h)

theorem mem_without {s : Client} {id : UInt32} {e : UInt32 × ℕ} :
    e ∈ s.without id ↔ e ∈ s.pending ∧ e.1 ≠ id := by
  simp [without]

/-- The pending map and the read loop name calls by their ids. -/
structure Routed (s : Client) : Prop where
  keys : (s.pending.map Prod.fst).Nodup
  pending : ∀ e ∈ s.pending, ∃ call, s.calls[e.2]? = some call ∧ call.id = e.1 ∧
    call.registered = true
  sending : ∀ c id f, s.loop = .sending c id f → ∃ call, s.calls[c]? = some call ∧ call.id = id ∧
    call.registered = true
  removing : ∀ c id, s.loop = .removing c id → ∃ call, s.calls[c]? = some call ∧ call.id = id ∧
    call.registered = true
  born : ∀ call ∈ s.calls, call.born ≤ s.heard.length

theorem Routed.lookup_iff (h : s.Routed) {id : UInt32} {c : ℕ} :
    s.lookup id = some c ↔ (id, c) ∈ s.pending :=
  lookup_eq_some_iff h.keys

end Client

/-! ## The steps of a call -/

namespace Call

/-- The goroutine of `CallFlags` waits in `receive`. -/
def awaits (c : Call) : Prop := c.phase = .receive ∨ c.phase = .receiveAgain

/-- What a step of a goroutine of the call `c` does. -/
inductive Steps (closed : Bool) (c : Call) : Op → Call → Effect → Prop
  | add (hp : c.phase = .add) :
      Steps closed c (.run .go) { c with phase := .write, registered := true } .insert
  | writeStream (hp : c.phase = .write) (hs : c.isStream = true) :
      Steps closed c (.run .go) { c with phase := .streaming, watcher := .waiting } .send
  | writeCall (hp : c.phase = .write) (hs : c.isStream = false) :
      Steps closed c (.run .go) { c with phase := .receive } .send
  | writeFail (hp : c.phase = .write) :
      Steps closed c (.run .fail) { c with phase := .finish (.error .write) } .none
  | receive {f : StreamFrame} {rest : List StreamFrame} (hp : c.phase = .receive)
      (ho : c.out = f :: rest) :
      Steps closed c (.run .go)
        { c with
          out := rest
          received := c.received ++ [f]
          phase := if f.typ = typeSTARTED then .receiveAgain else .finish (.ok ⟨f.typ, f.body⟩) }
        .none
  | receiveAgain {f : StreamFrame} {rest : List StreamFrame} (hp : c.phase = .receiveAgain)
      (ho : c.out = f :: rest) :
      Steps closed c (.run .go)
        { c with
          out := rest
          received := c.received ++ [f]
          phase := .finish (.ok ⟨f.typ, f.body⟩) }
        .none
  | receiveClosed (hp : c.awaits) (ho : c.out = []) (hc : c.outClosed = true) :
      Steps closed c (.run .go) { c with phase := .finish (.error .callClosed) } .none
  | receiveContext (hp : c.awaits) (hc : c.ctxDone = true) :
      Steps closed c (.run .ctx) { c with phase := .finish (.error .context) } .none
  | receiveShut (hp : c.awaits) (hc : closed = true) :
      Steps closed c (.run .closed) { c with phase := .finish (.error .clientClosed) } .none
  | finish {r : Result} (hp : c.phase = .finish r) :
      Steps closed c (.run .go) { c with done := true, phase := .remove r } .none
  | remove {r : Result} (hp : c.phase = .remove r) :
      Steps closed c (.run .go) { c with phase := .returned r } .delete
  | watchContext (hw : c.watcher = .waiting) (hc : c.ctxDone = true) :
      Steps closed c (.watch .ctx) { c with watcher := .finish } .none
  | watchShut (hw : c.watcher = .waiting) (hc : closed = true) :
      Steps closed c (.watch .closed) { c with watcher := .finish } .none
  | watchFinish (hw : c.watcher = .finish) :
      Steps closed c (.watch .go) { c with done := true, watcher := .remove } .none
  | watchRemove (hw : c.watcher = .remove) :
      Steps closed c (.watch .go) { c with watcher := .ended } .delete
  | take {f : StreamFrame} {rest : List StreamFrame} (hr : c.registered = true)
      (hf : c.forwarder = .idle) (hi : c.inbox = f :: rest) :
      Steps closed c (.forward .go) { c with forwarder := .holding f, inbox := rest } .none
  | push {f : StreamFrame} (hr : c.registered = true) (hf : c.forwarder = .holding f)
      (ho : c.out.length < chanSize) :
      Steps closed c (.forward .go)
        { c with
          out := c.out ++ [f]
          delivered := c.delivered ++ [f]
          forwarder := if f.more then .idle else .exited
          outClosed := !f.more }
        .none
  | quit (hr : c.registered = true) (hf : c.forwarder ≠ .exited) (hd : c.done = true) :
      Steps closed c (.forward .done) { c with forwarder := .exited, outClosed := true } .none
  | consume {f : StreamFrame} {rest : List StreamFrame} (hp : c.phase = .streaming)
      (ho : c.out = f :: rest) :
      Steps closed c .consume { c with out := rest, received := c.received ++ [f] } .none
  | cancel : Steps closed c .cancel { c with ctxDone := true } .none

variable {closed : Bool} {c c' : Call} {o : Op} {e : Effect}

theorem steps_interrupt {x : Choice} (hp : c.awaits) (h : c.interrupt closed x = some (c', e)) :
    Steps closed c (.run x) c' e := by
  cases x with
  | ctx =>
    simp only [interrupt] at h
    split_ifs at h with hc
    obtain ⟨rfl, rfl⟩ := Prod.mk.inj (Option.some.inj h)
    exact .receiveContext hp hc
  | closed =>
    simp only [interrupt] at h
    split_ifs at h with hc
    obtain ⟨rfl, rfl⟩ := Prod.mk.inj (Option.some.inj h)
    exact .receiveShut hp hc
  | _ => simp [interrupt] at h

theorem steps_run {x : Choice} (h : c.run closed x = some (c', e)) :
    Steps closed c (.run x) c' e := by
  unfold run at h
  split at h
  · next hp =>
    obtain ⟨rfl, rfl⟩ := Prod.mk.inj (Option.some.inj h)
    exact .add hp
  · next hp =>
    split_ifs at h with hs
    · obtain ⟨rfl, rfl⟩ := Prod.mk.inj (Option.some.inj h)
      exact .writeStream hp hs
    · obtain ⟨rfl, rfl⟩ := Prod.mk.inj (Option.some.inj h)
      exact .writeCall hp (by simpa using hs)
  · next hp =>
    obtain ⟨rfl, rfl⟩ := Prod.mk.inj (Option.some.inj h)
    exact .writeFail hp
  · next hp =>
    split at h
    · next ho =>
      obtain ⟨rfl, rfl⟩ := Prod.mk.inj (Option.some.inj h)
      exact .receive hp ho
    · next ho =>
      split_ifs at h with hc
      obtain ⟨rfl, rfl⟩ := Prod.mk.inj (Option.some.inj h)
      exact .receiveClosed (.inl hp) ho hc
  · next hp =>
    split at h
    · next ho =>
      obtain ⟨rfl, rfl⟩ := Prod.mk.inj (Option.some.inj h)
      exact .receiveAgain hp ho
    · next ho =>
      split_ifs at h with hc
      obtain ⟨rfl, rfl⟩ := Prod.mk.inj (Option.some.inj h)
      exact .receiveClosed (.inr hp) ho hc
  · next hp _ =>
    exact steps_interrupt (.inl hp) h
  · next hp _ =>
    exact steps_interrupt (.inr hp) h
  · next hp =>
    obtain ⟨rfl, rfl⟩ := Prod.mk.inj (Option.some.inj h)
    exact .finish hp
  · next hp =>
    obtain ⟨rfl, rfl⟩ := Prod.mk.inj (Option.some.inj h)
    exact .remove hp
  · simp at h

theorem steps_watch {x : Choice} (h : c.watch closed x = some (c', e)) :
    Steps closed c (.watch x) c' e := by
  unfold watch at h
  split at h
  · next hw =>
    split_ifs at h with hc
    obtain ⟨rfl, rfl⟩ := Prod.mk.inj (Option.some.inj h)
    exact .watchContext hw hc
  · next hw =>
    split_ifs at h with hc
    obtain ⟨rfl, rfl⟩ := Prod.mk.inj (Option.some.inj h)
    exact .watchShut hw hc
  · next hw =>
    obtain ⟨rfl, rfl⟩ := Prod.mk.inj (Option.some.inj h)
    exact .watchFinish hw
  · next hw =>
    obtain ⟨rfl, rfl⟩ := Prod.mk.inj (Option.some.inj h)
    exact .watchRemove hw
  · simp at h

theorem steps_forward {x : Choice} (hr : c.registered = true)
    (h : c.forward x = some (c', e)) : Steps closed c (.forward x) c' e := by
  unfold forward at h
  split at h
  · next hf =>
    split at h
    · next hi =>
      obtain ⟨rfl, rfl⟩ := Prod.mk.inj (Option.some.inj h)
      exact .take hr hf hi
    · simp at h
  · next hf =>
    by_cases ho : c.out.length < chanSize
    · rw [if_pos ho] at h
      obtain ⟨rfl, rfl⟩ := Prod.mk.inj (Option.some.inj h)
      exact .push hr hf ho
    · simp [ho] at h
  · next hf =>
    split_ifs at h with hd
    obtain ⟨rfl, rfl⟩ := Prod.mk.inj (Option.some.inj h)
    exact .quit hr (by simp [hf]) hd
  · next hf =>
    split_ifs at h with hd
    obtain ⟨rfl, rfl⟩ := Prod.mk.inj (Option.some.inj h)
    exact .quit hr (by simp [hf]) hd
  · simp at h

/-- **Every step of a call is one of the table.** -/
theorem steps_of_step (h : c.step closed o = some (c', e)) : Steps closed c o c' e := by
  cases o with
  | run x => exact steps_run h
  | watch x => exact steps_watch h
  | forward x =>
    simp only [step] at h
    split_ifs at h with hr
    exact steps_forward hr h
  | consume =>
    simp only [step, consume] at h
    split at h
    · next hp ho =>
      obtain ⟨rfl, rfl⟩ := Prod.mk.inj (Option.some.inj h)
      exact .consume hp ho
    · simp at h
  | cancel =>
    obtain ⟨rfl, rfl⟩ := Prod.mk.inj (Option.some.inj h)
    exact .cancel

/-- What the steps of a call leave alone. -/
structure Framed (c c' : Call) : Prop where
  id : c'.id = c.id
  born : c'.born = c.born
  read : c'.read = c.read
  lost : c'.lost = c.lost
  inbox : c'.inbox <:+ c.inbox

theorem Steps.framed (h : Steps closed c o c' e) : Framed c c' := by
  cases h with
  | take hr hf hi => exact ⟨rfl, rfl, rfl, rfl, hi ▸ List.suffix_cons _ _⟩
  | _ => exact ⟨rfl, rfl, rfl, rfl, List.suffix_rfl⟩

theorem Steps.registered (h : Steps closed c o c' e) :
    c'.registered = (c.registered || e == .insert) := by
  cases h <;> simp

theorem Steps.request (h : Steps closed c o c' e) : c'.request = c.request := by
  cases h <;> rfl

end Call

/-! ## The steps of a client -/

/-- The read loop runs, is busy with no call, and does not wait in `shutdown`. -/
def Loop.plain : Loop → Prop
  | .top | .reading | .failed | .got _ | .enter | .exited => True
  | _ => False

namespace Client

variable {s s' : Client} {l : Label}

/-- What a step of the client does. -/
inductive Moves (s : Client) : Label → Client → Prop
  | start : Moves s .start (if s.loop = .notStarted then { s with loop := .starting } else s)
  | spawn (hl : s.loop = .starting) : Moves s .spawn { s with loop := .top }
  | startDone (h₁ : s.loop ≠ .notStarted) (h₂ : s.loop ≠ .starting) (h₃ : s.startDone = false) :
      Moves s .startDone
        { s with startDone := true, closers := s.closers ++ [{ isClose := false }] }
  | close : Moves s .close { s with closers := s.closers ++ [{ isClose := true }] }
  | shutCloser {i : ℕ} {k : Closer} (hk : s.closers[i]? = some k) (hp : k.phase = .enter)
      (hc : s.closed = false) :
      Moves s (.closer i) { s.shut with closers := s.closers.set i { k with phase := .waiting } }
  | closer {i : ℕ} {k : Closer} {p : Closing} (hk : s.closers[i]? = some k) (hp : p ≠ .waiting)
      (hw : k.phase = .waiting → s.wg = 0) :
      Moves s (.closer i) { s with closers := s.closers.set i { k with phase := p } }
  | call {isStream : Bool} {typ flags : UInt8} {body : Bytes} :
      Moves s (.call isStream typ flags body)
        { s with
          msgID := nextMsgID s.msgID
          calls := s.calls ++ [{ id := nextMsgID s.msgID, isStream, typ, flags, body }] }
  | op {c : ℕ} {call call' : Call} {o : Op} {e : Effect} (hc : s.calls[c]? = some call)
      (h : call.Steps s.closed o call' e) :
      Moves s (.op c o) ({ s with calls := s.calls.set c call' }.effect c call' e)
  | loop {x : LoopChoice} {p : Loop} (hl : s.loop.plain) (hp : p.plain)
      (hw : s.loop ≠ .waiting ∧ p ≠ .waiting) : Moves s (.loop x) { s with loop := p }
  | shutLoop (hl : s.loop = .enter) (hc : s.closed = false) :
      Moves s (.loop .go) { s.shut with loop := .waiting }
  | miss {f : Frame} (hl : s.loop = .got f) (hc : s.closed = false) (hf : s.lookup f.msgID = none) :
      Moves s (.loop .go) { s with loop := .top, heard := s.heard ++ [f] }
  | look {f : Frame} {c : ℕ} {call : Call} (hl : s.loop = .got f) (hc : s.closed = false)
      (hf : s.lookup f.msgID = some c) (hcall : s.calls[c]? = some call) :
      Moves s (.loop .go)
        { s with
          loop := .sending c f.msgID (streamFrame f)
          heard := s.heard ++ [f]
          calls := s.calls.set c { call with read := call.read ++ [streamFrame f] } }
  | accept {c : ℕ} {id : UInt32} {f : StreamFrame} {call : Call} (hl : s.loop = .sending c id f)
      (hcall : s.calls[c]? = some call) (hroom : call.inbox.length < chanSize) :
      Moves s (.loop .go)
        { s with
          loop := afterSend c id f
          calls := s.calls.set c { call with inbox := call.inbox ++ [f] } }
  | drop {c : ℕ} {id : UInt32} {f : StreamFrame} {call : Call} (hl : s.loop = .sending c id f)
      (hcall : s.calls[c]? = some call) (hd : call.done = true) :
      Moves s (.loop .done)
        { s with
          loop := afterSend c id f
          calls := s.calls.set c { call with lost := true } }
  | clear {c : ℕ} {id : UInt32} (hl : s.loop = .removing c id) :
      Moves s (.loop .go) { s.delete id with loop := .top }

theorem moves_loop {x : LoopChoice} (h : s.stepLoop x = some s') : Moves s (.loop x) s' := by
  unfold stepLoop at h
  split at h
  · next hl =>
    obtain rfl := Option.some.inj h
    refine .loop (by simp [hl, Loop.plain]) ?_ ⟨by simp [hl], ?_⟩
    · split_ifs <;> trivial
    · split_ifs <;> simp
  · next hl =>
    split_ifs at h
    obtain rfl := Option.some.inj h
    exact .loop (by simp [hl, Loop.plain]) trivial (by simp [hl])
  · next hl =>
    obtain rfl := Option.some.inj h
    exact .loop (by simp [hl, Loop.plain]) trivial (by simp [hl])
  · next hl =>
    obtain rfl := Option.some.inj h
    refine .loop (by simp [hl, Loop.plain]) ?_ ⟨by simp [hl], ?_⟩
    · split_ifs <;> trivial
    · split_ifs <;> simp
  · next hl =>
    split_ifs at h with hc
    · obtain rfl := Option.some.inj h
      exact .loop (by simp [hl, Loop.plain]) trivial (by simp [hl])
    · obtain rfl := Option.some.inj h
      exact .shutLoop hl (by simpa using hc)
  · next hl =>
    -- the loop waits for itself
    simp [wg, hl] at h
  · next f hl =>
    split_ifs at h with hc
    · obtain rfl := Option.some.inj h
      exact .loop (by simp [hl, Loop.plain]) trivial (by simp [hl])
    · split at h
      · next hf =>
        obtain rfl := Option.some.inj h
        exact .miss hl (by simpa using hc) hf
      · next c hf =>
        obtain ⟨call, hcall, h⟩ := Option.bind_eq_some_iff.mp h
        obtain rfl := Option.some.inj h
        exact .look hl (by simpa using hc) hf hcall
  · next hl =>
    obtain ⟨call, hcall, h⟩ := Option.bind_eq_some_iff.mp h
    split_ifs at h with hroom
    obtain rfl := Option.some.inj h
    exact .accept hl hcall hroom
  · next hl =>
    obtain ⟨call, hcall, h⟩ := Option.bind_eq_some_iff.mp h
    split_ifs at h with hd
    obtain rfl := Option.some.inj h
    exact .drop hl hcall hd
  · next hl =>
    obtain rfl := Option.some.inj h
    exact .clear hl
  · simp at h

theorem moves_closer {i : ℕ} (h : s.stepCloser i = some s') : Moves s (.closer i) s' := by
  obtain ⟨k, hk, h⟩ := Option.bind_eq_some_iff.mp h
  have hafter : (if k.isClose then Closing.closeConn else .ended) ≠ .waiting := by
    split_ifs <;> simp
  dsimp only at h
  split at h
  · next hp =>
    by_cases hc : s.closed = true
    · rw [if_pos hc] at h
      obtain rfl := Option.some.inj h
      exact .closer hk hafter (by simp [hp])
    · rw [if_neg hc] at h
      obtain rfl := Option.some.inj h
      exact .shutCloser hk hp (by simpa using hc)
  · next hp =>
    by_cases hw : s.wg = 0
    · rw [if_pos hw] at h
      obtain rfl := Option.some.inj h
      exact .closer hk hafter fun _ => hw
    · simp [hw] at h
  · next hp =>
    obtain rfl := Option.some.inj h
    exact .closer hk (by simp) (by simp [hp])
  · simp at h

/-- **Every step of a client is one of the table.** -/
theorem moves_of_step (h : s.step l = some s') : Moves s l s' := by
  cases l with
  | start =>
    obtain rfl := Option.some.inj h
    exact .start
  | spawn =>
    simp only [step] at h
    split_ifs at h with hl
    obtain rfl := Option.some.inj h
    exact .spawn hl
  | startDone =>
    simp only [step] at h
    split_ifs at h with hl
    obtain rfl := Option.some.inj h
    exact .startDone hl.1 hl.2.1 hl.2.2
  | close =>
    obtain rfl := Option.some.inj h
    exact .close
  | closer i => exact moves_closer h
  | call isStream typ flags body =>
    obtain rfl := Option.some.inj h
    exact .call
  | op c o =>
    obtain ⟨call, hc, h⟩ := Option.bind_eq_some_iff.mp h
    obtain ⟨⟨call', e⟩, hstep, h⟩ := Option.bind_eq_some_iff.mp h
    obtain rfl := Option.some.inj h
    exact .op hc (Call.steps_of_step hstep)
  | loop x => exact moves_loop h

/-! ## Routing -/

/-- The call as it stands after a step with the effect `e`. -/
def settled (s : Client) (call : Call) (e : Effect) : Call :=
  if e = .insert then { call with born := s.heard.length } else call

theorem effect_calls (s : Client) (c : ℕ) (call : Call) (e : Effect) :
    ({ s with calls := s.calls.set c call }.effect c call e).calls =
      s.calls.set c (s.settled call e) := by
  cases e <;> simp [effect, settled, insert, delete]

theorem effect_pending (s : Client) (c : ℕ) (call : Call) (e : Effect) :
    ({ s with calls := s.calls.set c call }.effect c call e).pending =
      match e with
      | .insert => (call.id, c) :: s.without call.id
      | .delete => s.without call.id
      | _ => s.pending := by
  cases e <;> rfl

theorem effect_lookup (s : Client) (c : ℕ) (call : Call) (e : Effect) (id : UInt32) :
    ({ s with calls := s.calls.set c call }.effect c call e).lookup id =
      match e with
      | .insert => if id = call.id then some c else s.lookup id
      | .delete => if id = call.id then none else s.lookup id
      | _ => s.lookup id := by
  cases e with
  | insert => exact lookup_insert s call.id id c
  | delete => exact lookup_delete s call.id id
  | none | send => rfl

@[simp] theorem effect_loop (s : Client) (c : ℕ) (call : Call) (e : Effect) :
    ({ s with calls := s.calls.set c call }.effect c call e).loop = s.loop := by
  cases e <;> rfl

@[simp] theorem effect_closed (s : Client) (c : ℕ) (call : Call) (e : Effect) :
    ({ s with calls := s.calls.set c call }.effect c call e).closed = s.closed := by
  cases e <;> rfl

@[simp] theorem effect_heard (s : Client) (c : ℕ) (call : Call) (e : Effect) :
    ({ s with calls := s.calls.set c call }.effect c call e).heard = s.heard := by
  cases e <;> rfl

/-- The call at an index after `calls.set`. -/
theorem getElem?_set_cases {calls : List Call} {i c : ℕ} {call' x : Call}
    (h : (calls.set i call')[c]? = some x) : c = i ∧ x = call' ∨ c ≠ i ∧ calls[c]? = some x := by
  rw [List.getElem?_set] at h
  split_ifs at h with hi hlt
  · exact .inl ⟨hi.symm, (Option.some.inj h).symm⟩
  · exact .inr ⟨Ne.symm hi, h⟩

/-- An id stays with its call, and a registered call stays registered. -/
def Keeps (calls calls' : List Call) : Prop :=
  ∀ (c : ℕ) (call : Call), calls[c]? = some call → ∃ call', calls'[c]? = some call' ∧
    call'.id = call.id ∧ (call.registered = true → call'.registered = true)

theorem keeps_set {calls : List Call} {i : ℕ} {call call' : Call} (h : calls[i]? = some call)
    (hid : call'.id = call.id) (hr : call.registered = true → call'.registered = true) :
    Keeps calls (calls.set i call') := by
  intro c x hx
  by_cases hc : i = c
  · subst hc
    obtain rfl := Option.some.inj (h.symm.trans hx)
    exact ⟨call', by simp [(List.getElem?_eq_some_iff.mp h).1], hid, hr⟩
  · exact ⟨x, by simp [hc, hx], rfl, id⟩

theorem Moves.keeps (h : Moves s l s') : Keeps s.calls s'.calls := by
  have hrefl (calls : List Call) : Keeps calls calls := fun c call hc => ⟨call, hc, rfl, id⟩
  have hshut : Keeps s.calls s.shut.calls := by
    intro c call hc
    simp only [shut, List.getElem?_mapIdx, hc, Option.map_some]
    refine ⟨_, rfl, ?_, ?_⟩
    · split_ifs <;> rfl
    · split_ifs <;> exact id
  cases h with
  | start =>
    split_ifs
    · exact hrefl _
    · exact hrefl _
  | call =>
    intro c call hc
    exact ⟨call, by simp [List.getElem?_append_left (List.getElem?_eq_some_iff.mp hc).1, hc], rfl,
      id⟩
  | @op c call call' o e hc h =>
    rw [effect_calls]
    refine keeps_set hc ?_ ?_
    · unfold settled
      split_ifs <;> exact h.framed.id
    · intro hr
      have := h.registered
      unfold settled
      split_ifs <;> simp [this, hr]
  | shutCloser | shutLoop => exact hshut
  | look hl hc hf hcall => exact keeps_set hcall rfl id
  | accept hl hcall hroom => exact keeps_set hcall rfl id
  | drop hl hcall hd => exact keeps_set hcall rfl id
  | _ => exact hrefl _

theorem Routed.born_step (h : s.Routed) (hm : Moves s l s') :
    ∀ call ∈ s'.calls, call.born ≤ s'.heard.length := by
  have hmem {c : ℕ} {call : Call} (hc : s.calls[c]? = some call) : call.born ≤ s.heard.length :=
    h.born _ (List.mem_of_getElem? hc)
  -- a call that is replaced keeps its start, and the history only grows
  have hset {c : ℕ} {call' : Call} {heard : List Frame} (hl : s.heard.length ≤ heard.length)
      (hb : call'.born ≤ heard.length) : ∀ x ∈ s.calls.set c call', x.born ≤ heard.length := by
    intro x hx
    rcases List.mem_or_eq_of_mem_set hx with hx | rfl
    · exact (h.born x hx).trans hl
    · exact hb
  have hshut : ∀ x ∈ s.shut.calls, x.born ≤ s.heard.length := by
    intro x hx
    obtain ⟨i, hi, rfl⟩ := List.mem_mapIdx.mp hx
    have hb := h.born _ (List.getElem_mem hi)
    split_ifs <;> exact hb
  cases hm with
  | start =>
    split_ifs
    · exact h.born
    · exact h.born
  | shutCloser | shutLoop => exact hshut
  | call =>
    intro x hx
    rcases List.mem_append.mp hx with hx | hx
    · exact h.born x hx
    · obtain rfl := List.mem_singleton.mp hx
      exact Nat.zero_le _
  | @op c call call' o e hc hst =>
    rw [effect_calls, effect_heard]
    refine hset le_rfl ?_
    unfold settled
    split_ifs
    · exact le_rfl
    · exact hst.framed.born.trans_le (hmem hc)
  | miss =>
    intro x hx
    exact (h.born x hx).trans (by simp)
  | look hl hc hf hcall =>
    exact hset (by simp) ((hmem hcall).trans (by simp))
  | accept hl hcall hroom =>
    have hb := hmem hcall
    exact hset le_rfl hb
  | drop hl hcall hd =>
    have hb := hmem hcall
    exact hset le_rfl hb
  | _ => exact h.born

theorem Routed.step (h : s.Routed) (hm : Moves s l s') : s'.Routed := by
  have hk := hm.keeps
  -- the calls that are named keep their ids
  have hnamed {c : ℕ} {id : UInt32} (hc : ∃ call, s.calls[c]? = some call ∧ call.id = id ∧
      call.registered = true) : ∃ call, s'.calls[c]? = some call ∧ call.id = id ∧
        call.registered = true := by
    obtain ⟨call, hcall, hid, hr⟩ := hc
    obtain ⟨call', hcall', hid', hr'⟩ := hk c call hcall
    exact ⟨call', hcall', hid'.trans hid, hr' hr⟩
  have hkeys (id : UInt32) : ((s.without id).map Prod.fst).Nodup :=
    h.keys.sublist (List.filter_sublist.map _)
  have hrest {p : List (UInt32 × ℕ)} (hp : ∀ e ∈ p, e ∈ s.pending) : ∀ e ∈ p, ∃ call,
      s'.calls[e.2]? = some call ∧ call.id = e.1 ∧ call.registered = true :=
    fun e he => hnamed (h.pending e (hp e he))
  have hsub (id : UInt32) : ∀ e ∈ s.without id, e ∈ s.pending := fun e he => (mem_without.mp he).1
  have hborn := h.born_step hm
  cases hm with
  | start =>
    split_ifs at hnamed hborn ⊢
    · exact ⟨h.keys, h.pending, by simp, by simp, h.born⟩
    · exact h
  | spawn hl => exact ⟨h.keys, h.pending, by simp, by simp, h.born⟩
  | startDone | close => exact ⟨h.keys, h.pending, h.sending, h.removing, h.born⟩
  | shutCloser hkc hp hc =>
    exact ⟨List.nodup_nil, fun _ he => absurd he List.not_mem_nil,
      fun c id f hl => hnamed (h.sending c id f hl), fun c id hl => hnamed (h.removing c id hl),
      hborn⟩
  | closer => exact ⟨h.keys, h.pending, h.sending, h.removing, h.born⟩
  | call =>
    exact ⟨h.keys, hrest fun e he => he, fun c id f hl => hnamed (h.sending c id f hl),
      fun c id hl => hnamed (h.removing c id hl), hborn⟩
  | @op c call call' o e hc hst =>
    refine ⟨?_, ?_, fun c id f hl => hnamed (h.sending c id f (by simpa using hl)),
      fun c id hl => hnamed (h.removing c id (by simpa using hl)), hborn⟩
    · rw [effect_pending]
      cases e with
      | insert =>
        rw [List.map_cons, List.nodup_cons]
        refine ⟨fun hmem => ?_, hkeys _⟩
        obtain ⟨e, he, hid⟩ := List.mem_map.mp hmem
        exact (mem_without.mp he).2 hid
      | delete => exact hkeys _
      | none | send => exact h.keys
    · rw [effect_pending]
      cases e with
      | insert =>
        intro e he
        rcases List.mem_cons.mp he with rfl | he
        · -- the call registers itself
          rw [effect_calls]
          refine ⟨s.settled call' .insert, by simp [(List.getElem?_eq_some_iff.mp hc).1],
            by simp [settled], ?_⟩
          have := hst.registered
          simp [settled, this]
        · exact hrest (hsub _) e he
      | delete => exact hrest (hsub _)
      | none | send => exact hrest fun e he => he
  | loop hl hp =>
    refine ⟨h.keys, h.pending, fun c id f he => ?_, fun c id he => ?_, h.born⟩
    · dsimp only at he
      subst he
      exact hp.elim
    · dsimp only at he
      subst he
      exact hp.elim
  | shutLoop =>
    exact ⟨List.nodup_nil, fun _ he => absurd he List.not_mem_nil, by simp, by simp, hborn⟩
  | miss => exact ⟨h.keys, h.pending, by simp, by simp, hborn⟩
  | @look f c call hl hc hf hcall =>
    refine ⟨h.keys, hrest fun e he => he, fun c' id f' he => ?_, by simp, hborn⟩
    obtain ⟨rfl, rfl, rfl⟩ := Loop.sending.inj he
    exact hnamed (h.pending _ (h.lookup_iff.mp hf))
  | accept hl hcall hroom =>
    refine ⟨h.keys, hrest fun e he => he, ?_, fun c' id he => ?_, hborn⟩
    · intro c' id f he
      dsimp only [afterSend] at he
      split_ifs at he
    · dsimp only [afterSend] at he
      split_ifs at he
      obtain ⟨rfl, rfl⟩ := Loop.removing.inj he
      exact hnamed (h.sending _ _ _ hl)
  | drop hl hcall hd =>
    refine ⟨h.keys, hrest fun e he => he, ?_, fun c' id he => ?_, hborn⟩
    · intro c' id f he
      dsimp only [afterSend] at he
      split_ifs at he
    · dsimp only [afterSend] at he
      split_ifs at he
      obtain ⟨rfl, rfl⟩ := Loop.removing.inj he
      exact hnamed (h.sending _ _ _ hl)
  | clear => exact ⟨hkeys _, hrest (hsub _), by simp, by simp, h.born⟩

/-- **Every client reached is routed.** -/
theorem routed {ok : Client → Label → Prop} (h : Reached ok s) : s.Routed :=
  h.invariant ⟨by simp, by simp, by simp, by simp, by simp⟩
    fun _ _ _ _ _ hs hr => hr.step (moves_of_step hs)

end Client

/-! ## The view of a call -/

/-- A client seen from one of its calls. -/
structure View where
  call : Call
  /-- The call is pending under its id. -/
  listed : Bool
  /-- The frame the read loop is sending to the call. -/
  hand : Option StreamFrame
  /-- The read loop is about to remove the entry of the call. -/
  clearing : Bool
  closed : Bool
  /-- The frames handled under the id of the call since it was registered. -/
  since : List StreamFrame

namespace Client

/-- The frame the read loop is sending to the call `c`. -/
def handOf (s : Client) (c : ℕ) : Option StreamFrame :=
  match s.loop with
  | .sending c' _ f => if c' = c then some f else none
  | _ => none

/-- The read loop is about to remove the entry of the call `c`. -/
def clearingOf (s : Client) (c : ℕ) : Bool :=
  match s.loop with
  | .removing c' _ => c' == c
  | _ => false

/-- The frames handled under the id of a call since it was registered. -/
def sinceOf (s : Client) (call : Call) : List StreamFrame :=
  if call.registered then
    ((s.heard.drop call.born).filter fun f => f.msgID == call.id).map streamFrame
  else []

def view (s : Client) (c : ℕ) (call : Call) : View where
  call
  listed := s.lookup call.id == some c
  hand := s.handOf c
  clearing := s.clearingOf c
  closed := s.closed
  since := s.sinceOf call

end Client

/-- What may happen to a call. -/
inductive Act
  | op (o : Op)
  /-- The entry of the call is overwritten or deleted through another call with its id. -/
  | unlist
  /-- The read loop found the call pending under the id of a frame. -/
  | look
  /-- The read loop found another call, or none, under the id of a frame for this one. -/
  | miss
  | accept
  | drop
  | clear
  | shut

/-- The steps of a view. -/
inductive View.Step (v : View) : Act → View → Prop
  | op {o : Op} {call' : Call} {e : Effect} (he : e ≠ .insert)
      (h : v.call.Steps v.closed o call' e) :
      Step v (.op o) { v with call := call', listed := v.listed && e != .delete }
  | insert {o : Op} {call' : Call} {born : ℕ} (h : v.call.Steps v.closed o call' .insert) :
      Step v (.op o) { v with call := { call' with born := born }, listed := true, since := [] }
  | unlist : Step v .unlist { v with listed := false }
  | look {f : StreamFrame} (hl : v.listed = true) (hr : v.call.registered = true)
      (hh : v.hand = none) (hcl : v.clearing = false) (hc : v.closed = false) :
      Step v .look
        { v with
          call := { v.call with read := v.call.read ++ [f] }
          hand := some f
          since := v.since ++ [f] }
  | miss {f : StreamFrame} (hl : v.listed = false) (hr : v.call.registered = true) :
      Step v .miss { v with since := v.since ++ [f] }
  | accept {f : StreamFrame} (hh : v.hand = some f) (hroom : v.call.inbox.length < chanSize) :
      Step v .accept
        { v with
          call := { v.call with inbox := v.call.inbox ++ [f] }
          hand := none
          clearing := !f.more }
  | drop {f : StreamFrame} (hh : v.hand = some f) (hd : v.call.done = true) :
      Step v .drop
        { v with call := { v.call with lost := true }, hand := none, clearing := !f.more }
  | clear (hcl : v.clearing = true) : Step v .clear { v with listed := false, clearing := false }
  | shut (hc : v.closed = false) :
      Step v .shut
        { v with
          call := { v.call with done := v.call.done || v.listed }
          listed := false
          closed := true }

namespace Client

/-- The step `l` of the client `s` is behind what happens to the call `c`. -/
inductive Causes (s : Client) : Label → ℕ → Act → Prop
  | op {c : ℕ} {o : Op} : Causes s (.op c o) c (.op o)
  | accept {c : ℕ} {id : UInt32} {f : StreamFrame} (hl : s.loop = .sending c id f) :
      Causes s (.loop .go) c .accept
  | shutLoop {c : ℕ} (hl : s.loop = .enter) : Causes s (.loop .go) c .shut
  | shutCloser {i c : ℕ} : Causes s (.closer i) c .shut
  /-- Another call with the same id registers or is removed. -/
  | unlist {c c' : ℕ} {o : Op} {call call' : Call} (hne : c' ≠ c) (hc : s.calls[c]? = some call)
      (hc' : s.calls[c']? = some call') (hid : call'.id = call.id) : Causes s (.op c' o) c .unlist
  | unlistLoop {c c' : ℕ} {id : UInt32} {call : Call} (hl : s.loop = .removing c' id)
      (hne : c' ≠ c) (hc : s.calls[c]? = some call) (hid : call.id = id) :
      Causes s (.loop .go) c .unlist
  | look {c : ℕ} : Causes s (.loop .go) c .look
  | miss {c : ℕ} : Causes s (.loop .go) c .miss
  | drop {c : ℕ} : Causes s (.loop .done) c .drop
  | clear {c : ℕ} : Causes s (.loop .go) c .clear

/-- A step admits only what `G` allows to happen to each call. -/
def Guarded (G : View → Act → Prop) (s : Client) (l : Label) : Prop :=
  ∀ c call a, s.calls[c]? = some call → Causes s l c a → G (s.view c call) a

variable {s s' : Client} {l : Label}

/-- What a step of the client does to the view of the call `c`. -/
def Evolves (s : Client) (l : Label) (c : ℕ) (v v' : View) : Prop :=
  v' = v ∨ ∃ a, Causes s l c a ∧ v.Step a v'

theorem handOf_plain (h : s.loop.plain) (c : ℕ) : s.handOf c = none := by
  unfold handOf
  split
  · next hl =>
    rw [hl] at h
    exact h.elim
  · rfl

theorem clearingOf_plain (h : s.loop.plain) (c : ℕ) : s.clearingOf c = false := by
  unfold clearingOf
  split
  · next hl =>
    rw [hl] at h
    exact h.elim
  · rfl

theorem sinceOf_concat (h : s.Routed) {c : ℕ} {call : Call} (hc : s.calls[c]? = some call)
    (f : Frame) (s' : Client) (hh : s'.heard = s.heard ++ [f]) :
    s'.sinceOf call = s.sinceOf call ++
      if call.registered ∧ f.msgID = call.id then [streamFrame f] else [] := by
  have hb := h.born call (List.mem_of_getElem? hc)
  unfold sinceOf
  by_cases hr : call.registered = true
  · by_cases hid : f.msgID = call.id
    · simp [hr, hid, hh, List.drop_append_of_le_length hb]
    · simp [hr, hid, hh, List.drop_append_of_le_length hb]
  · simp [hr]

theorem view_congr {c : ℕ} {call : Call} (hp : s'.lookup call.id = s.lookup call.id)
    (hh : s'.handOf c = s.handOf c) (hcl : s'.clearingOf c = s.clearingOf c)
    (hc : s'.closed = s.closed) (hs : s'.heard = s.heard) : s'.view c call = s.view c call := by
  simp only [view, sinceOf, hp, hh, hcl, hc, hs]

/-- A view whose entry may have gone. -/
theorem evolves_unlist {c : ℕ} {v v' : View} (hcause : Causes s l c .unlist)
    (hv : v' = { v with listed := false }) : s.Evolves l c v v' := by
  cases hl : v.listed with
  | true => exact .inr ⟨_, hcause, hv ▸ .unlist⟩
  | false =>
    refine .inl (hv.trans ?_)
    rw [← hl]

theorem evolves_op_self {c : ℕ} {call call' : Call} {o : Op} {e : Effect}
    (h : call.Steps s.closed o call' e) :
    s.Evolves (.op c o) c (s.view c call)
      (({ s with calls := s.calls.set c call' }.effect c call' e).view c (s.settled call' e)) := by
  refine .inr ⟨.op o, .op, ?_⟩
  have hf := h.framed
  have hreg := h.registered
  by_cases he : e = .insert
  · subst he
    have hst : (s.view c call).Step (.op o) { s.view c call with
        call := { call' with born := s.heard.length }, listed := true, since := [] } := .insert h
    have hr : call'.registered = true := by simp [hreg]
    convert hst using 1
    simp only [view, effect_lookup, handOf, clearingOf, sinceOf, effect_loop, effect_closed,
      effect_heard, settled, if_true]
    simp [hr]
  · have hst : (s.view c call).Step (.op o)
        { s.view c call with call := call', listed := (s.view c call).listed && e != .delete } :=
      .op he h
    have hset : s.settled call' e = call' := by simp [settled, he]
    have hr : call'.registered = call.registered := by simp [hreg, he]
    convert hst using 1
    simp only [hset, view, effect_lookup, handOf, clearingOf, sinceOf, effect_loop, effect_closed,
      effect_heard, hr, hf.id, hf.born]
    cases e <;> simp_all

/-- Another call registers or is removed. -/
theorem evolves_op_other {c c' : ℕ} {call call₀ call' : Call} {o : Op} {e : Effect}
    (hne : c' ≠ c) (hc : s.calls[c]? = some call) (hc' : s.calls[c']? = some call₀)
    (h : call₀.Steps s.closed o call' e) :
    s.Evolves (.op c' o) c (s.view c call)
      (({ s with calls := s.calls.set c' call' }.effect c' call' e).view c call) := by
  have hid := h.framed.id
  by_cases he : (e = .insert ∨ e = .delete) ∧ call.id = call'.id
  · -- the entry under the id is now the one of the other call, or none
    obtain ⟨he, heq⟩ := he
    refine evolves_unlist (.unlist hne hc hc' (hid.symm.trans heq.symm)) ?_
    simp only [view, effect_lookup, handOf, clearingOf, sinceOf, effect_loop, effect_closed,
      effect_heard]
    rcases he with rfl | rfl
    · simp [heq, hne]
    · simp [heq]
  · refine .inl (view_congr ?_ ?_ ?_ ?_ ?_)
    · rw [effect_lookup]
      cases e <;> simp_all
    all_goals simp [handOf, clearingOf]

/-- A frame is handled: the call found under its id is sent it, and the other calls with that id
miss it. -/
theorem evolves_heard (hr : s.Routed) {c : ℕ} {call : Call} {f : Frame}
    (hc : s.calls[c]? = some call) (hl : s.loop = .got f) (hf : s.lookup f.msgID ≠ some c)
    (hh : s'.heard = s.heard ++ [f]) (hp : s'.pending = s.pending) (hcl : s'.closed = s.closed)
    (h₁ : s'.handOf c = none) (h₂ : s'.clearingOf c = false) :
    s.Evolves (.loop .go) c (s.view c call) (s'.view c call) := by
  have hplain : s.loop.plain := by simp [hl, Loop.plain]
  have hsince := sinceOf_concat hr hc f s' hh
  have hlook : s'.lookup call.id = s.lookup call.id := by rw [lookup, lookup, hp]
  have hview : s'.view c call = { s.view c call with since := s'.sinceOf call } := by
    simp only [view, hlook, h₁, h₂, hcl, handOf_plain hplain, clearingOf_plain hplain]
  by_cases hit : call.registered = true ∧ f.msgID = call.id
  · refine .inr ⟨.miss, .miss, ?_⟩
    have hst : (s.view c call).Step .miss
        { s.view c call with since := (s.view c call).since ++ [streamFrame f] } := by
      refine .miss ?_ hit.1
      rw [hit.2] at hf
      simpa [view] using hf
    rw [hview, hsince, if_pos hit]
    exact hst
  · refine .inl ?_
    rw [hview, hsince, if_neg hit, List.append_nil]
    rfl

/-- A frame leaves the hand of the read loop. -/
theorem view_afterSend {c c' : ℕ} {call : Call} {id : UInt32} {f : StreamFrame} {calls : List Call}
    (hne : c' ≠ c) (hl : s.loop = .sending c' id f) :
    view { s with loop := afterSend c' id f, calls := calls } c call = s.view c call := by
  refine view_congr rfl ?_ ?_ rfl rfl
  · simp only [handOf, afterSend, hl]
    split_ifs <;> rfl
  · simp only [clearingOf, afterSend, hl]
    split_ifs
    · rfl
    · simp [hne]

/-- The entry under an id is removed by the read loop. -/
theorem view_clear (s' : Client) {c : ℕ} {call : Call} {id : UInt32}
    (hlook : s'.lookup call.id = if call.id = id then none else s.lookup call.id)
    (hh : s'.handOf c = s.handOf c) (hcl : s'.clearingOf c = false) (hc : s'.closed = s.closed)
    (hs : s'.heard = s.heard) :
    s'.view c call = { s.view c call with
      listed := (s.view c call).listed && call.id != id
      clearing := false } := by
  simp only [view, hlook, hh, hcl, hc, hs, sinceOf]
  by_cases hid : call.id = id <;> simp [hid]

/-- The calls that `shutdown` finishes are the pending ones. -/
theorem contains_iff (hr : s.Routed) {c : ℕ} {call : Call} (hc : s.calls[c]? = some call) :
    (s.pending.map Prod.snd).contains c = (s.lookup call.id == some c) := by
  rw [Bool.eq_iff_iff, beq_iff_eq, hr.lookup_iff, List.contains_iff_mem]
  constructor
  · intro hm
    obtain ⟨e, he, rfl⟩ := List.mem_map.mp hm
    obtain ⟨call', hcall', hid, -⟩ := hr.pending e he
    obtain rfl := Option.some.inj (hc.symm.trans hcall')
    rw [hid]
    exact he
  · exact fun hm => List.mem_map.mpr ⟨_, hm, rfl⟩

/-- `shutdown` finishes the pending calls and empties the map. -/
theorem view_shut (s' : Client) (hr : s.Routed) (hcl : s.closed = false) {c : ℕ} {call' : Call}
    (hc' : s.shut.calls[c]? = some call') (hh : s'.handOf c = s.handOf c)
    (hclr : s'.clearingOf c = s.clearingOf c) (hp : s'.pending = s.shut.pending)
    (hc : s'.closed = s.shut.closed) (hheard : s'.heard = s.heard) :
    ∃ call, s.calls[c]? = some call ∧ (s.view c call).Step .shut (s'.view c call') := by
  simp only [shut, List.getElem?_mapIdx, Option.map_eq_some_iff] at hc'
  obtain ⟨call, hcall, rfl⟩ := hc'
  refine ⟨call, hcall, ?_⟩
  have hst : (s.view c call).Step .shut { s.view c call with
      call := { call with done := call.done || (s.view c call).listed }
      listed := false
      closed := true } := .shut hcl
  convert hst using 1
  have hlook (id : UInt32) : s'.lookup id = none := by rw [lookup, hp]; rfl
  have hclosed : s'.closed = true := hc
  rw [contains_iff hr hcall]
  simp only [view, hlook, hh, hclr, hclosed, sinceOf, hheard]
  cases s.lookup call.id == some c <;> simp

/-- **A step of the client is a step of the view of each call, or leaves it alone**; one step
starts a new call. -/
theorem step_view (hr : s.Routed) (hm : Moves s l s') {c : ℕ} {call' : Call}
    (hc' : s'.calls[c]? = some call') :
    (s.calls[c]? = none ∧ ∃ isStream typ flags body, l = .call isStream typ flags body ∧
      call' = { id := nextMsgID s.msgID, isStream, typ, flags, body } ∧
      s'.pending = s.pending ∧ s'.loop = s.loop ∧ s'.closed = s.closed) ∨
    ∃ call, s.calls[c]? = some call ∧ s.Evolves l c (s.view c call) (s'.view c call') := by
  cases hm with
  | start =>
    split_ifs at hc' ⊢ with hl
    · refine .inr ⟨call', hc', .inl (view_congr rfl ?_ ?_ rfl rfl)⟩ <;>
        simp [handOf, clearingOf, hl]
    · exact .inr ⟨call', hc', .inl rfl⟩
  | spawn hl =>
    refine .inr ⟨call', hc', .inl (view_congr rfl ?_ ?_ rfl rfl)⟩ <;>
      simp [handOf, clearingOf, hl]
  | startDone | close | closer =>
    exact .inr ⟨call', hc', .inl (view_congr rfl rfl rfl rfl rfl)⟩
  | @call isStream typ flags body =>
    rw [List.getElem?_append] at hc'
    split_ifs at hc' with hlt
    · exact .inr ⟨call', hc', .inl (view_congr rfl rfl rfl rfl rfl)⟩
    · obtain ⟨hi, he⟩ := List.getElem?_eq_some_iff.mp hc'
      rw [List.getElem_singleton] at he
      subst he
      exact .inl ⟨List.getElem?_eq_none (Nat.not_lt.mp hlt), isStream, typ, flags, body, rfl, rfl,
        rfl, rfl, rfl⟩
  | @op c₀ call call₁ o e hc h =>
    rw [effect_calls] at hc'
    -- the step of one call; another one may lose its entry to it
    rcases getElem?_set_cases hc' with ⟨rfl, rfl⟩ | ⟨hne, hc'⟩
    · exact .inr ⟨call, hc, evolves_op_self h⟩
    · exact .inr ⟨call', hc', evolves_op_other (Ne.symm hne) hc' hc h⟩
  | loop hl hp =>
    refine .inr ⟨call', hc', .inl (view_congr rfl ?_ ?_ rfl rfl)⟩
    · rw [handOf_plain hl, handOf_plain hp]
    · rw [clearingOf_plain hl, clearingOf_plain hp]
  | miss hl hc hf =>
    exact .inr ⟨call', hc', evolves_heard hr hc' hl (by simp [hf]) rfl rfl rfl rfl rfl⟩
  | @look f c₀ call hl hc hf hcall =>
    -- the frame is for the call `c`, or for another one with another id
    rcases getElem?_set_cases hc' with ⟨rfl, rfl⟩ | ⟨hne, hc'⟩
    · refine .inr ⟨call, hcall, .inr ⟨.look, .look, ?_⟩⟩
      have hplain : s.loop.plain := by simp [hl, Loop.plain]
      obtain ⟨call₁, hcall₁, hid, hreg⟩ := hr.pending _ (hr.lookup_iff.mp hf)
      obtain rfl := Option.some.inj (hcall.symm.trans hcall₁)
      have hst : (s.view c call).Step .look { s.view c call with
          call := { call with read := call.read ++ [streamFrame f] }
          hand := some (streamFrame f)
          since := (s.view c call).since ++ [streamFrame f] } := by
        refine .look ?_ hreg (handOf_plain hplain c) (clearingOf_plain hplain c) hc
        simp [view, hid, hf]
      have hsince := sinceOf_concat hr hcall f { s with heard := s.heard ++ [f] } rfl
      rw [if_pos ⟨hreg, hid.symm⟩] at hsince
      convert hst using 1
      simp only [view, lookup, handOf, clearingOf, hl, if_true]
      congr 1
    · refine .inr ⟨call', hc', evolves_heard hr hc' hl ?_ rfl rfl rfl ?_ rfl⟩
      · rw [hf]
        simpa using Ne.symm hne
      · simp [handOf, Ne.symm hne]
  | @accept c₀ id f call hl hcall hroom =>
    rcases getElem?_set_cases hc' with ⟨rfl, rfl⟩ | ⟨hne, hc'⟩
    · refine .inr ⟨call, hcall, .inr ⟨.accept, .accept hl, ?_⟩⟩
      have hst : (s.view c call).Step .accept { s.view c call with
          call := { call with inbox := call.inbox ++ [f] }, hand := none, clearing := !f.more } :=
        .accept (by simp [view, handOf, hl]) hroom
      convert hst using 1
      simp only [view, lookup, handOf, clearingOf, sinceOf, afterSend]
      cases f.more <;> simp
    · exact .inr ⟨call', hc', .inl (view_afterSend (Ne.symm hne) hl)⟩
  | @drop c₀ id f call hl hcall hd =>
    rcases getElem?_set_cases hc' with ⟨rfl, rfl⟩ | ⟨hne, hc'⟩
    · refine .inr ⟨call, hcall, .inr ⟨.drop, .drop, ?_⟩⟩
      have hst : (s.view c call).Step .drop { s.view c call with
          call := { call with lost := true }, hand := none, clearing := !f.more } :=
        .drop (by simp [view, handOf, hl]) hd
      convert hst using 1
      simp only [view, lookup, handOf, clearingOf, sinceOf, afterSend]
      cases f.more <;> simp
    · exact .inr ⟨call', hc', .inl (view_afterSend (Ne.symm hne) hl)⟩
  | @clear c₀ id hl =>
    obtain ⟨call₀, hcall₀, hid₀, -⟩ := hr.removing _ _ hl
    refine .inr ⟨call', hc', ?_⟩
    rw [view_clear { s.delete id with loop := .top } (lookup_delete s id call'.id)
      (by simp [handOf, hl]) rfl rfl rfl]
    -- the entry that is removed is found by its id, and may be that of another call
    by_cases hcc : c₀ = c
    · subst hcc
      obtain rfl := Option.some.inj (hcall₀.symm.trans hc')
      refine .inr ⟨.clear, .clear, ?_⟩
      have hst : (s.view c₀ call₀).Step .clear
          { s.view c₀ call₀ with listed := false, clearing := false } :=
        .clear (by simp [view, clearingOf, hl])
      simpa [hid₀] using hst
    · have hclr : (s.view c call').clearing = false := by simp [view, clearingOf, hl, hcc]
      by_cases hid : call'.id = id
      · refine evolves_unlist (.unlistLoop hl hcc hc' hid) ?_
        simp [hid, ← hclr]
      · refine .inl ?_
        have hne : (call'.id != id) = true := by simpa using hid
        rw [hne, Bool.and_true, ← hclr]
  | shutLoop hl hc =>
    obtain ⟨call, hcall, hst⟩ := view_shut { s.shut with loop := .waiting } hr hc hc'
      (by simp [handOf, hl]) (by simp [clearingOf, hl]) rfl rfl rfl
    exact .inr ⟨call, hcall, .inr ⟨.shut, .shutLoop hl, hst⟩⟩
  | @shutCloser i k hk hp hc =>
    obtain ⟨call, hcall, hst⟩ := view_shut
      { s.shut with closers := s.closers.set i { k with phase := .waiting } } hr hc hc'
      rfl rfl rfl rfl rfl
    exact .inr ⟨call, hcall, .inr ⟨.shut, .shutCloser, hst⟩⟩

end Client

/-- The view of a call that has just got its id. -/
structure View.Fresh (v : View) : Prop where
  call : ∃ id isStream typ flags body,
    v.call = ({ id, isStream, typ, flags, body } : Call)
  listed : v.listed = false
  hand : v.hand = none
  clearing : v.clearing = false
  since : v.since = []

namespace Client

variable {s s' : Client} {l : Label}

theorem view_fresh (hr : s.Routed) {c : ℕ} (hc : s.calls[c]? = none) {id : UInt32}
    {isStream : Bool} {typ flags : UInt8} {body : Bytes} (hp : s'.pending = s.pending)
    (hl : s'.loop = s.loop) :
    (s'.view c { id, isStream, typ, flags, body }).Fresh := by
  refine ⟨⟨id, isStream, typ, flags, body, rfl⟩, ?_, ?_, ?_, rfl⟩
  · -- an entry names a call that exists
    rw [view, beq_eq_false_iff_ne, lookup, hp]
    intro he
    obtain ⟨call, hcall, -⟩ := hr.pending _ (hr.lookup_iff.mp he)
    simp [hc] at hcall
  · simp only [view, handOf, hl]
    split
    · next c' id f hs =>
      obtain ⟨call, hcall, -⟩ := hr.sending _ _ _ hs
      have hne : c' ≠ c := by
        rintro rfl
        simp [hc] at hcall
      simp [hne]
    · rfl
  · simp only [view, clearingOf, hl]
    split
    · next c' id hs =>
      obtain ⟨call, hcall, -⟩ := hr.removing _ _ hs
      have hne : c' ≠ c := by
        rintro rfl
        simp [hc] at hcall
      simp [hne]
    · rfl

/-- **The invariant rule for views**: what holds of a new call and is kept by every admitted step
of a view holds of every call in every client reached. -/
theorem view_invariant {ok : Client → Label → Prop} {G : View → Act → Prop} {I : View → Prop}
    (hG : ∀ s l, ok s l → Guarded G s l) (h₀ : ∀ v : View, v.Fresh → I v)
    (hstep : ∀ ⦃v a v'⦄, View.Step v a v' → G v a → I v → I v') (h : Reached ok s) :
    ∀ (c : ℕ) (call : Call), s.calls[c]? = some call → I (s.view c call) := by
  refine Reaches.invariant
    (I := fun s => ∀ (c : ℕ) (call : Call), s.calls[c]? = some call → I (s.view c call)) h
    (by simp) ?_
  intro t u l ht hok hs ih c call' hc'
  have hr := routed ht
  rcases step_view hr (moves_of_step hs) hc' with
    ⟨hc, isStream, typ, flags, body, -, rfl, hp, hl, -⟩ | ⟨call, hc, hv | ⟨a, hcause, hst⟩⟩
  · exact h₀ _ (view_fresh hr hc hp hl)
  · rw [hv]
    exact ih c call hc
  · exact hstep hst (hG t l hok c call a hc hcause) (ih c call hc)

end Client

end Mvcp.Rpc
