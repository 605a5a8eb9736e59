import Mvcp.Rpc.Multiplex
import Mvcp.Rpc.Response

/-!
# Calls on a closed client

`CallFlags` and `StreamFlags` do not look at `closed`. What rejects a call on a closed client is its
connection: when the write of the request fails, the call returns the error and leaves nothing
behind. As long as the connection still takes frames (`shutdown` does not close it, only `Close`
does, after `shutdown`) the request is written, and `StreamFlags` returns a channel and no error.

## Main definitions

* `Client.Refusing`: the connection of a closed client refuses requests
* `View.Rejected`: a call that began on a closed client

## Main results

* `Client.closed_rejects`: with `Refusing`, a closed client rejects every call
* `Client.closed_accepts`: without it, a stream is opened on a closed client
-/

namespace Mvcp.Rpc

open Library

/-- The phases of a call whose request cannot be written. -/
def Phase.rejects : Phase → Prop
  | .add | .write => True
  | .finish r | .remove r | .returned r => r = .error .write
  | .receive | .receiveAgain | .streaming => False

namespace View

variable {v v' : View} {a : Act}

/-- **A call that began on a closed client**, whose connection refuses its request. -/
structure Rejected (v : View) : Prop where
  closed : v.closed = true
  phase : v.call.phase.rejects
  /-- When it has returned, it has no entry in the map. -/
  unlisted : ∀ r, v.call.phase = .returned r → v.listed = false

/-- The connection refuses the request of a call on a closed client. -/
def Refuses (v : View) (a : Act) : Prop :=
  a = .op (.run .go) → v.closed = true → v.call.phase ≠ .write

theorem Rejected.op {o : Op} {call' : Call} {e : Effect} (h : v.Rejected)
    (hg : v.Refuses (.op o)) (hst : v.call.Steps v.closed o call' e) :
    call'.phase.rejects ∧ ∀ r, call'.phase = .returned r → (v.listed && e != .delete) = false := by
  have hph := h.phase
  cases hst with
  | add hp => exact ⟨trivial, by simp⟩
  | writeStream hp | writeCall hp => exact absurd hp (hg rfl h.closed)
  | writeFail hp => exact ⟨rfl, by simp⟩
  | receive hp | receiveAgain hp | consume hp => simp [hp, Phase.rejects] at hph
  | receiveClosed hp | receiveContext hp | receiveShut hp =>
    rcases hp with hp | hp <;> simp [hp, Phase.rejects] at hph
  | finish hp | remove hp =>
    rw [hp] at hph
    exact ⟨hph, by simp⟩
  | take | push | quit | cancel | watchContext | watchShut | watchFinish | watchRemove =>
    refine ⟨hph, fun r hr => ?_⟩
    rw [h.unlisted r hr, Bool.false_and]

/-- **Every step keeps it rejected.** -/
theorem Step.rejected (hs : v.Step a v') (hg : v.Refuses a) (h : v.Rejected) : v'.Rejected := by
  cases hs with
  | op he hst =>
    obtain ⟨hph, hl⟩ := h.op hg hst
    exact ⟨h.closed, hph, hl⟩
  | insert hst =>
    cases hst with
    | add hp => exact ⟨h.closed, trivial, by simp⟩
  | unlist | clear => exact ⟨h.closed, h.phase, fun _ _ => rfl⟩
  | look hl hr hh hcl hc => simp [h.closed] at hc
  | miss | accept | drop => exact ⟨h.closed, h.phase, h.unlisted⟩
  | shut hc => exact ⟨rfl, h.phase, fun _ _ => rfl⟩

end View

namespace Client

open View

variable {s u : Client} {l : Label} {c : ℕ}

/-- The connection of a closed client refuses requests. -/
def Refusing (s : Client) : Label → Prop
  | .op c (.run .go) => s.closed = true → ∀ call ∈ s.calls[c]?, call.phase ≠ .write
  | _ => True

instance (s : Client) (l : Label) : Decidable (s.Refusing l) := by
  unfold Refusing
  split <;> infer_instance

theorem Refusing.guarded (h : s.Refusing l) : s.Guarded View.Refuses l := by
  rintro c call a hc hcause rfl
  cases hcause
  intro hcl
  exact h hcl call hc

/-- A request that is in the history was there before, or its call has just written it. -/
theorem mem_sent_of_step (h : s.step l = some u) {e : ℕ × Frame} (he : e ∈ u.sent) :
    e ∈ s.sent ∨ l = .op e.1 (.run .go) ∧ ∃ call, s.calls[e.1]? = some call ∧
      call.phase = .write := by
  cases moves_of_step h with
  | start => split_ifs at he <;> exact .inl he
  | @op c call call' o eff hc hst =>
    cases eff with
    | send =>
      rcases List.mem_append.mp he with he | he
      · exact .inl he
      · obtain rfl := List.mem_singleton.mp he
        cases hst with
        | writeStream hp => exact .inr ⟨rfl, call, hc, hp⟩
        | writeCall hp => exact .inr ⟨rfl, call, hc, hp⟩
    | none | insert | delete => exact .inl he
  | _ => exact .inl he

/-- The call `c` began on a closed client, and its request was not written. -/
def Turned (s : Client) (c : ℕ) : Prop :=
  s.Routed ∧ (∃ call, s.calls[c]? = some call ∧ (s.view c call).Rejected) ∧ ∀ f, (c, f) ∉ s.sent

theorem Turned.step (h : s.Turned c) (hok : s.Refusing l) (hs : s.step l = some u) :
    u.Turned c := by
  obtain ⟨hr, ⟨call, hc, hv⟩, hsent⟩ := h
  obtain ⟨call', hc', hev⟩ := step_call hr hs hc
  refine ⟨hr.step (moves_of_step hs), ⟨call', hc', ?_⟩, fun f hf => ?_⟩
  · rcases hev with heq | ⟨a, hcause, hst⟩
    · exact heq ▸ hv
    · exact hst.rejected (hok.guarded c call a hc hcause) hv
  · rcases mem_sent_of_step hs hf with hf | ⟨rfl, call₀, hc₀, hp⟩
    · exact hsent f hf
    · exact hok hv.closed call₀ hc₀ hp

/-- A call that begins on a closed client. -/
theorem turned_of_call (h : Reached Always s) (hcl : s.closed = true) {isStream : Bool}
    {typ flags : UInt8} {body : Bytes} (hs : s.step (.call isStream typ flags body) = some u) :
    u.Turned s.calls.length := by
  have hr := routed h
  have hu := moves_of_step hs
  refine ⟨hr.step hu, ?_, fun f hf => ?_⟩
  · cases hu
    refine ⟨_, List.getElem?_concat_length, ⟨hcl, trivial, ?_⟩⟩
    intro r hp
    cases hp
  · rcases mem_sent_of_step hs hf with hf | ⟨hl, -⟩
    · -- every request belongs to a call that exists
      obtain ⟨call, hc, -⟩ := (requests h).call _ hf
      simp at hc
    · cases hl

/-- A goroutine of the call takes a step, and the call is in the phase that the step leads to. -/
theorem exists_step_op {call call' : Call} {o : Op} {e : Effect} (hc : s.calls[c]? = some call)
    (h : call.step s.closed o = some (call', e)) :
    ∃ u call'', s.step (.op c o) = some u ∧ u.calls[c]? = some call'' ∧
      call''.phase = call'.phase := by
  have hlt := (List.getElem?_eq_some_iff.mp hc).1
  refine ⟨{ s with calls := s.calls.set c call' }.effect c call' e, s.settled call' e, ?_, ?_, ?_⟩
  · simp [step, stepOp, hc, h]
  · rw [effect_calls]
    simp [hlt]
  · unfold settled
    split_ifs <;> rfl

/-- How many steps the goroutine of the call `c` is from its end, at most. -/
def left (s : Client) (c : ℕ) : ℕ := (s.calls[c]?.map fun call => rank call.phase).getD 0

/-- A rejected call that has not returned can take a step towards it. -/
theorem Turned.advance (h : s.Turned c) :
    (∃ call, s.calls[c]? = some call ∧ call.phase = .returned (.error .write)) ∨
    ∃ o u, s.Refusing (.op c o) ∧ s.step (.op c o) = some u ∧
      u.left c < s.left c := by
  obtain ⟨-, ⟨call, hc, hv⟩, -⟩ := h
  have hph : call.phase.rejects := hv.phase
  have hgo {o : Op} {call' : Call} {e : Effect} (hst : call.step s.closed o = some (call', e))
      (hok : s.Refusing (.op c o)) (hlt : rank call'.phase < rank call.phase) :
      ∃ o u, s.Refusing (.op c o) ∧ s.step (.op c o) = some u ∧
        u.left c < s.left c := by
    obtain ⟨u, call'', hu, hcu, hp⟩ := exists_step_op hc hst
    exact ⟨o, u, hok, hu, by simpa [left, hcu, hc, hp] using hlt⟩
  have hok {p : Phase} (hp : call.phase = p) (hne : p ≠ .write) :
      s.Refusing (.op c (.run .go)) := by
    intro _ call₀ hc₀
    obtain rfl := Option.some.inj (hc.symm.trans hc₀)
    exact hp ▸ hne
  cases hp : call.phase with
  | add =>
    refine .inr (hgo (by simp only [Call.step, Call.run, hp]; rfl) (hok hp (by simp)) ?_)
    simp [rank, hp]
  | write =>
    refine .inr (hgo (by simp only [Call.step, Call.run, hp]; rfl) (o := .run .fail) trivial ?_)
    simp [rank, hp]
  | finish r =>
    refine .inr (hgo (by simp only [Call.step, Call.run, hp]; rfl) (hok hp (by simp)) ?_)
    simp [rank, hp]
  | remove r =>
    refine .inr (hgo (by simp only [Call.step, Call.run, hp]; rfl) (hok hp (by simp)) ?_)
    simp [rank, hp]
  | returned r =>
    rw [hp] at hph
    exact .inl ⟨call, hc, hp.trans (congrArg _ hph)⟩
  | receive | receiveAgain | streaming =>
    rw [hp] at hph
    exact hph.elim

/-- A rejected call can return. -/
theorem Turned.returns (h : s.Turned c) :
    ∃ t call, Reaches Client.step Refusing s t ∧ t.calls[c]? = some call ∧
      call.phase = .returned (.error .write) := by
  have hprogress (t : Client) (ht : t.Turned c) :
      (∃ call, t.calls[c]? = some call ∧ call.phase = .returned (.error .write)) ∨
        ∃ l u, t.Refusing l ∧ t.step l = some u ∧ u.Turned c ∧ u.left c < t.left c := by
    rcases ht.advance with hd | ⟨o, u, hok, hu, hlt⟩
    · exact .inl hd
    · exact .inr ⟨.op c o, u, hok, hu, ht.step hok hu, hlt⟩
  obtain ⟨t, ht, -, call, hc, hp⟩ := exists_reaches_of_measure (left · c) hprogress h
  exact ⟨t, call, ht, hc, hp⟩

/-- **A closed client whose connection refuses requests rejects every call.** A `Call` or a `Stream`
that begins after `shutdown` set `closed` can return, and returns nothing but an error; no frame is
written for it, and when it has returned it has no entry in the map. -/
theorem closed_rejects {s₀ s₁ : Client} {isStream : Bool} {typ flags : UInt8} {body : Bytes}
    (h₀ : Reached Always s₀) (hcl : s₀.closed = true)
    (hcall : s₀.step (.call isStream typ flags body) = some s₁)
    (h : Reaches step Refusing s₁ s) :
    (∃ call, s.calls[s₀.calls.length]? = some call ∧ call.phase ≠ .streaming ∧
      ∀ r, call.phase = .returned r →
        (∃ e, r = .error e) ∧ ∀ id, (id, s₀.calls.length) ∉ s.pending) ∧
    (∀ f, (s₀.calls.length, f) ∉ s.sent) ∧
    ∃ t call e, Reaches step Refusing s t ∧ t.calls[s₀.calls.length]? = some call ∧
      call.phase = .returned (.error e) := by
  have hturned : s.Turned s₀.calls.length :=
    h.invariant (I := fun t => t.Turned s₀.calls.length) (turned_of_call h₀ hcl hcall)
      fun _ _ _ _ hok hs ht => ht.step hok hs
  refine ⟨?_, hturned.2.2, ?_⟩
  · obtain ⟨hr, ⟨call, hc, hv⟩, -⟩ := hturned
    have hph : call.phase.rejects := hv.phase
    refine ⟨call, hc, ?_, ?_⟩
    · intro hp
      rw [hp] at hph
      exact hph
    · intro r hp
      rw [hp] at hph
      refine ⟨⟨_, hph⟩, fun id hm => ?_⟩
      -- an entry that names the call stands under its id
      obtain ⟨call₀, hc₀, hid, -⟩ := hr.pending _ hm
      obtain rfl := Option.some.inj (hc.symm.trans hc₀)
      have hlisted : (s.lookup call.id == some s₀.calls.length) = false := hv.unlisted r hp
      rw [hid, hr.lookup_iff.mpr hm] at hlisted
      simp at hlisted
  · obtain ⟨t, call, ht, hc, hp⟩ := hturned.returns
    exact ⟨t, call, _, ht, hc, hp⟩

/-- A client that `Close` has shut down, before it closes the connection. -/
def shutClient : Client := { closed := true, closers := [{ isClose := true, phase := .waiting }] }

/-- A `Stream` has begun on it. -/
def shutStream : Client :=
  { shutClient with
    msgID := 1
    calls := [{ id := 1, isStream := true, typ := 0x10, flags := 0, body := [] }] }

theorem reached_shutClient : Reached Always shutClient :=
  (Reaches.refl.tail trivial (l := .close) rfl).tail trivial (l := .closer 0) rfl

/-- A `Stream` on a closed client, whose request the connection refuses. -/
theorem closed_rejects_stream :
    ∃ s₁ s, shutClient.step (.call true 0x10 0 []) = some s₁ ∧ Reaches step Refusing s₁ s ∧
      (∃ call, s.calls[0]? = some call ∧ call.phase ≠ .streaming ∧
        ∀ r, call.phase = .returned r → (∃ e, r = .error e) ∧ ∀ id, (id, 0) ∉ s.pending) ∧
      (∀ f, (0, f) ∉ s.sent) ∧
      ∃ t call e, Reaches step Refusing s t ∧ t.calls[0]? = some call ∧
        call.phase = .returned (.error e) := by
  obtain ⟨s, hs, -⟩ := exists_reaches_of_run step Refusing shutStream
    (fun s => s.calls[0]?.any fun call => call.phase == .returned (.error .write))
    [.op 0 (.run .go), .op 0 (.run .fail), .op 0 (.run .go), .op 0 (.run .go)] (by decide)
  exact ⟨_, s, rfl, hs, closed_rejects reached_shutClient rfl rfl hs⟩

/-- **A stream is opened on a closed client**: its connection still takes frames, `Stream` writes
the request, leaves its entry in the map and returns the channel. -/
theorem closed_accepts :
    ∃ s₁ s call, Reached Always shutClient ∧ shutClient.closed = true ∧
      shutClient.step (.call true 0x10 0 []) = some s₁ ∧ Reaches step Always s₁ s ∧
      s.calls[0]? = some call ∧ call.phase = .streaming ∧ s.pending = [(1, 0)] ∧
      s.sent = [(0, ⟨0x10, 0, 1, []⟩)] := by
  obtain ⟨s, hs, ht⟩ := exists_reaches_of_run step Always shutStream
    (fun s => s.pending == [(1, 0)] && s.sent == [(0, ⟨0x10, 0, 1, []⟩)] &&
      s.calls[0]?.any fun call => call.phase == .streaming)
    [.op 0 (.run .go), .op 0 (.run .go)] (by decide)
  simp only [Option.any_eq_true, Bool.and_eq_true, beq_iff_eq] at ht
  obtain ⟨⟨hpending, hsent⟩, call, hc, hp⟩ := ht
  exact ⟨_, s, call, reached_shutClient, rfl, rfl, hs, hc, hp, hpending, hsent⟩

end Client

end Mvcp.Rpc
