import Mvcp.Rpc.Delivery

/-!
# Message ids

`allocMsgID` counts up and skips zero, so the ids repeat after `2^32 - 1` allocations. The map of
pending calls is keyed by them: a call that is still in use when its id comes round again shares
its entry with another call.

## Main definitions

* `idCount`, `Numbered`: the ids in the order of their allocation
* `View.live`: the call has an entry in the map, or will add or remove one
* `ShortLived`: no call is live when its id comes round again

## Main results

* `Client.ids_unique`: with `ShortLived`, `addPending` overwrites no entry and `removePending`
  deletes no entry of another call
* `Client.entry_overwritten`: without it, a long-lived stream loses its entry
-/

namespace Mvcp.Rpc

open Library

/-! ## The sequence of ids -/

/-- How many ids there are. -/
def idCount : ℕ := 2 ^ 32 - 1

/-- The id of the call with the index `c`. -/
def idOf (c : ℕ) : ℕ := c % idCount + 1

/-- Ids differ as long as fewer than `idCount` were allocated in between. -/
theorem idOf_ne {c d : ℕ} (h : c < d) (hd : d < c + idCount) : idOf c ≠ idOf d := by
  unfold idOf idCount at *
  omega

theorem nextMsgID_toNat (m : UInt32) :
    (nextMsgID m).toNat = if m.toNat + 1 = 2 ^ 32 then 1 else m.toNat + 1 := by
  have hm := m.toNat_lt
  have h0 : m + 1 = 0 ↔ m.toNat + 1 = 2 ^ 32 := by
    rw [← UInt32.toNat_inj, UInt32.toNat_add]
    simp
    omega
  unfold nextMsgID
  split_ifs with h h' h'
  · rfl
  · exact absurd (h0.mp h) h'
  · exact absurd (h0.mpr h') h
  · rw [UInt32.toNat_add]
    simp
    omega

namespace View

variable {v v' : View} {a : Act}

/-- A goroutine of the call may still add or remove its entry. -/
def running (v : View) : Bool :=
  (match v.call.phase with
    | .returned _ | .streaming => false
    | _ => true) ||
  match v.call.watcher with
    | .none | .ended => false
    | _ => true

/-- The call has an entry, or will add or remove one. -/
def live (v : View) : Bool := v.running || v.listed || v.hand.isSome || v.clearing

theorem running_of_phase (h : ∀ r, v.call.phase ≠ .returned r) (hs : v.call.phase ≠ .streaming) :
    v.running = true := by
  unfold running
  split
  · exact absurd ‹_› (h _)
  · exact absurd ‹_› hs
  · rfl

theorem running_of_watcher (h : v.call.watcher ≠ .none) (he : v.call.watcher ≠ .ended) :
    v.running = true := by
  unfold running
  split <;> simp_all

/-- A call that is over stays over. -/
theorem Step.running {o : Op} {call' : Call} {e : Effect} (h : v.call.Steps v.closed o call' e)
    (hv : v'.call.phase = call'.phase) (hw : v'.call.watcher = call'.watcher)
    (hr : v'.running = true) : v.running = true := by
  cases h with
  | add hp | writeStream hp | writeCall hp | writeFail hp | receive hp | receiveAgain hp
  | finish hp | remove hp => exact running_of_phase (by simp [hp]) (by simp [hp])
  | receiveClosed hp | receiveContext hp | receiveShut hp =>
    rcases hp with hp | hp <;> exact running_of_phase (by simp [hp]) (by simp [hp])
  | watchContext hw' | watchShut hw' | watchFinish hw' | watchRemove hw' =>
    exact running_of_watcher (by simp [hw']) (by simp [hw'])
  | take | push | quit | consume | cancel =>
    simpa only [View.running, hv, hw] using hr

theorem live_iff : v.live = true ↔
    v.running = true ∨ v.listed = true ∨ v.hand.isSome = true ∨ v.clearing = true := by
  simp [live, or_assoc]

theorem Step.live (hs : v.Step a v') (h : v'.live = true) : v.live = true := by
  rw [live_iff] at h ⊢
  cases hs with
  | op he hst =>
    rcases h with hr | hl | hrest
    · exact .inl (Step.running hst rfl rfl hr)
    · exact .inr (.inl (Bool.and_eq_true_iff.mp hl).1)
    · exact .inr (.inr hrest)
  | insert hst =>
    cases hst with
    | add hp => exact .inl (running_of_phase (by simp [hp]) (by simp [hp]))
  | unlist => exact h.imp_right fun h => .inr (h.resolve_left (by simp))
  | look hl => exact .inr (.inl hl)
  | miss => exact h
  | accept hh | drop hh => exact .inr (.inr (.inl (by simp [hh])))
  | clear hcl => exact .inr (.inr (.inr hcl))
  | shut => exact h.imp_right fun h => .inr (h.resolve_left (by simp))

theorem Step.call_id (hs : v.Step a v') : v'.call.id = v.call.id := by
  cases hs with
  | op he hst => exact hst.framed.id
  | insert hst => exact hst.framed.id
  | _ => rfl

end View

namespace Client

variable {s u : Client} {l : Label}

/-- A call keeps its id, and is not revived. -/
theorem Evolves.live {c : ℕ} {v v' : View} (h : s.Evolves l c v v') :
    v'.call.id = v.call.id ∧ (v'.live = true → v.live = true) := by
  rcases h with rfl | ⟨a, -, hst⟩
  · exact ⟨rfl, fun h => h⟩
  · exact ⟨hst.call_id, hst.live⟩

/-- Only `allocMsgID` changes the counter, and each allocation starts a call. -/
theorem step_msgID (h : s.step l = some u) :
    u.msgID = s.msgID ∧ u.calls.length = s.calls.length ∨
      u.msgID = nextMsgID s.msgID ∧ u.calls.length = s.calls.length + 1 := by
  cases moves_of_step h with
  | start => split_ifs <;> exact .inl ⟨rfl, rfl⟩
  | call => exact .inr ⟨rfl, by simp⟩
  | @op _ _ _ _ e =>
    refine .inl ⟨by cases e <;> rfl, ?_⟩
    rw [effect_calls, List.length_set]
  | look | accept | drop => exact .inl ⟨rfl, by simp⟩
  | shutCloser | shutLoop => exact .inl ⟨rfl, by simp [shut]⟩
  | _ => exact .inl ⟨rfl, rfl⟩

/-- A new call is the last one. -/
theorem new_index {c : ℕ} {call' : Call} (h : s.step l = some u) (hc : s.calls[c]? = none)
    (hc' : u.calls[c]? = some call') : c = s.calls.length := by
  have hlt := (List.getElem?_eq_some_iff.mp hc').1
  have hge := List.getElem?_eq_none_iff.mp hc
  rcases step_msgID h with ⟨-, hlen⟩ | ⟨-, hlen⟩ <;> omega

/-- The calls have the ids in order. -/
structure Numbered (s : Client) : Prop where
  next : (nextMsgID s.msgID).toNat = idOf s.calls.length
  ids : ∀ (c : ℕ) (call : Call), s.calls[c]? = some call → call.id.toNat = idOf c

theorem next_idOf {m : UInt32} {n : ℕ} (h : m.toNat = idOf n) :
    (nextMsgID m).toNat = idOf (n + 1) := by
  rw [nextMsgID_toNat, h]
  unfold idOf idCount
  split_ifs <;> omega

theorem numbered {ok : Client → Label → Prop} (h : Reached ok s) : s.Numbered := by
  refine Reaches.invariant (I := Numbered) h ⟨by decide, by simp⟩ ?_
  intro t u l ht _ hs ih
  constructor
  · rcases step_msgID hs with ⟨hm, hlen⟩ | ⟨hm, hlen⟩
    · rw [hm, hlen]
      exact ih.next
    · rw [hm, hlen]
      exact next_idOf ih.next
  · intro c call' hc'
    rcases step_view (routed ht) (moves_of_step hs) hc' with
      ⟨hc, _, _, _, _, -, rfl, -⟩ | ⟨call, hc, hev⟩
    · -- the new call is the last one
      rw [new_index hs hc hc']
      exact ih.next
    · have hid : call'.id = call.id := hev.live.1
      rw [hid]
      exact ih.ids c call hc

/-- No call is live when its id comes round again. -/
def ShortLived (s : Client) : Label → Prop
  | .call .. =>
    ∀ e ∈ s.calls.zipIdx, (s.view e.2 e.1).live = true → s.calls.length < e.2 + idCount
  | _ => True

instance (s : Client) : (l : Label) → Decidable (s.ShortLived l)
  | .call .. => inferInstanceAs (Decidable (∀ e ∈ s.calls.zipIdx, _ → _))
  | .start | .spawn | .startDone | .close | .closer _ | .op _ _ | .loop _ => isTrue trivial

/-- Calls that are live at the same time have different ids. -/
def Distinct (s : Client) : Prop :=
  ∀ (c d : ℕ) (call call' : Call), s.calls[c]? = some call → s.calls[d]? = some call' →
    (s.view c call).live = true → (s.view d call').live = true → call.id = call'.id → c = d

/-- The next id is not the one of a live call. -/
theorem ShortLived.next_ne {isStream : Bool} {typ flags : UInt8} {body : Bytes} {c : ℕ}
    {call : Call} (h : s.ShortLived (.call isStream typ flags body)) (hn : s.Numbered)
    (hc : s.calls[c]? = some call) (hl : (s.view c call).live = true) :
    call.id ≠ nextMsgID s.msgID := by
  have hwin := h (call, c) (List.mk_mem_zipIdx_iff_getElem?.mpr hc) hl
  have hlt := (List.getElem?_eq_some_iff.mp hc).1
  intro heq
  apply idOf_ne hlt hwin
  rw [← hn.ids c call hc, heq, hn.next]

theorem distinct (h : Reached ShortLived s) : s.Distinct := by
  refine Reaches.invariant (I := Distinct) h (by simp [Distinct]) ?_
  intro t u l ht hok hs ih c d call call' hc hd hlive hlive' hid
  have hnum := numbered ht
  have hview {c : ℕ} {call : Call} (hc : u.calls[c]? = some call) :=
    step_view (routed ht) (moves_of_step hs) hc
  rcases hview hc with ⟨hc₀, isStream, typ, flags, body, rfl, rfl, -⟩ | ⟨call₀, hc₀, hev⟩ <;>
    rcases hview hd with ⟨hd₀, _, _, _, _, hl, rfl, -⟩ | ⟨call₁, hd₀, hev'⟩
  · -- there is one new call
    rw [new_index hs hc₀ hc, new_index hs hd₀ hd]
  · -- the id of a new call is not the one of a live call
    obtain ⟨hid', hl'⟩ := hev'.live
    exact absurd (hid'.symm.trans hid.symm) (hok.next_ne hnum hd₀ (hl' hlive'))
  · subst hl
    obtain ⟨hid', hl'⟩ := hev.live
    exact absurd (hid'.symm.trans hid) (hok.next_ne hnum hc₀ (hl' hlive))
  · obtain ⟨hid₀, hl₀⟩ := hev.live
    obtain ⟨hid₁, hl₁⟩ := hev'.live
    exact ih c d call₀ call₁ hc₀ hd₀ (hl₀ hlive) (hl₁ hlive') (hid₀.symm.trans (hid.trans hid₁))

/-- The call under an id is live. -/
theorem live_of_lookup (hr : s.Routed) {id : UInt32} {d : ℕ} (h : s.lookup id = some d) :
    ∃ call, s.calls[d]? = some call ∧ call.id = id ∧ (s.view d call).live = true := by
  obtain ⟨call, hcall, hid, -⟩ := hr.pending _ (hr.lookup_iff.mp h)
  refine ⟨call, hcall, hid, View.live_iff.mpr (.inr (.inl ?_))⟩
  simp [view, hid, h]

/-- The call `c` is about to remove the entry under its id: the caller, the watcher of a stream, or
the read loop after the response. -/
def Removes (s : Client) (c : ℕ) (call : Call) : Prop :=
  (∃ r, call.phase = .remove r) ∨ call.watcher = .remove ∨ ∃ id, s.loop = .removing c id

/-- **Ids are unique among live calls** in a run in which no call is live when its id comes round
again, of any length. No id is zero; the id of a new request is not the one of a pending call;
`addPending` finds no entry, and `removePending` finds the entry of its own call or none. -/
theorem ids_unique (h : Reached ShortLived s) :
    (∀ call ∈ s.calls, call.id ≠ 0) ∧
    (∀ isStream typ flags body, s.ShortLived (.call isStream typ flags body) →
      nextMsgID s.msgID ≠ 0 ∧ s.lookup (nextMsgID s.msgID) = none) ∧
    ∀ (c : ℕ) (call : Call), s.calls[c]? = some call →
      (call.phase = .add → s.lookup call.id = none) ∧
      (s.Removes c call → ∀ d, s.lookup call.id = some d → d = c) := by
  have hr := routed h
  have hnum := numbered h
  refine ⟨?_, ?_, ?_⟩
  · intro call hcall h0
    obtain ⟨c, hc⟩ := List.mem_iff_getElem?.mp hcall
    have hid := hnum.ids c call hc
    simp [h0, idOf] at hid
  · intro isStream typ flags body hok
    constructor
    · intro h0
      have hid := hnum.next
      simp [h0, idOf] at hid
    · rw [Option.eq_none_iff_forall_ne_some]
      intro d hd
      obtain ⟨call, hcall, hid, hlive⟩ := live_of_lookup hr hd
      exact hok.next_ne hnum hcall hlive hid
  · intro c call hc
    have huniq {d : ℕ} (hlive : (s.view c call).live = true) (hd : s.lookup call.id = some d) :
        d = c := by
      obtain ⟨call', hcall', hid, hlive'⟩ := live_of_lookup hr hd
      exact distinct h d c call' call hcall' hc hlive' hlive hid
    constructor
    · intro hp
      rw [Option.eq_none_iff_forall_ne_some]
      intro d hd
      -- the entry would be its own, but it has none yet
      have hrun : (s.view c call).running = true :=
        View.running_of_phase (by simp [view, hp]) (by simp [view, hp])
      obtain rfl := huniq (View.live_iff.mpr (.inl hrun)) hd
      have hno := ((view_flow h d call hc).1.listed hp).1
      simp [view, hd] at hno
    · intro hrem d hd
      apply huniq ?_ hd
      rw [View.live_iff]
      rcases hrem with ⟨r, hp⟩ | hw | ⟨id, hl⟩
      · exact .inl (View.running_of_phase (by simp [view, hp]) (by simp [view, hp]))
      · exact .inl (View.running_of_watcher (by simp [view, hw]) (by simp [view, hw]))
      · exact .inr (.inr (.inr (by simp [view, clearingOf, hl])))

/-- A stream is pending while a second request is made. -/
theorem ids_unique_second :
    ∃ s, Reached ShortLived s ∧ s.lookup 1 = some 0 ∧ nextMsgID s.msgID = 2 ∧
      s.lookup (nextMsgID s.msgID) = none := by
  obtain ⟨s, hs, ht⟩ := exists_reaches_of_run step ShortLived {}
    (fun s => s.lookup 1 == some 0 && nextMsgID s.msgID == 2 &&
      decide (s.ShortLived (.call false 0x20 0 [])))
    [.call true 0x20 0 [], .op 0 (.run .go), .op 0 (.run .go)] (by decide)
  simp only [Bool.and_eq_true, beq_iff_eq, decide_eq_true_eq] at ht
  exact ⟨s, hs, ht.1.1, ht.1.2, ((ids_unique hs).2.1 _ _ _ _ ht.2).2⟩

/-! ## The wrap of the counter -/

/-- A stream with the id 1 that is open. -/
def longStream : Call where
  id := 1
  isStream := true
  typ := 0x20
  flags := 0
  body := []
  phase := .streaming
  watcher := .waiting
  registered := true

/-- The first call is a stream that stays open, and `n` calls were made in all; the others are
over. -/
structure Lap (n : ℕ) (s : Client) : Prop where
  calls : s.calls.length = n
  msgID : s.msgID.toNat = n
  pending : s.pending = [(1, 0)]
  first : s.calls[0]? = some longStream

/-- The client after the last call `k` was made, with the map `p`. -/
def withLast (s : Client) (k : Call) (p : List (UInt32 × ℕ)) : Client :=
  { s with msgID := nextMsgID s.msgID, calls := s.calls ++ [k], pending := p }

/-- A request that is not written. -/
def failedCall (id : UInt32) : Call :=
  { id, isStream := false, typ := 0x20, flags := 0, body := [] }

/-- One more call, whose request is not written. -/
theorem Lap.succ {n : ℕ} (h : Lap n s) (hn : n + 1 < 2 ^ 32) :
    ∃ t, Reaches step Always s t ∧ Lap (n + 1) t := by
  have h0 : 0 < n := by
    rw [← h.calls]
    exact (List.getElem?_eq_some_iff.mp h.first).1
  let id := nextMsgID s.msgID
  have hid : id.toNat = n + 1 := by
    rw [nextMsgID_toNat, h.msgID, if_neg (by omega)]
  have hne : (1 : UInt32) ≠ id := by
    intro heq
    have := congrArg UInt32.toNat heq
    simp [hid] at this
    omega
  let k : Call := { failedCall id with registered := true, born := s.heard.length }
  have h₁ : s.step (.call false 0x20 0 []) = some (s.withLast (failedCall id) [(1, 0)]) := by
    simp [step, withLast, failedCall, h.pending, id]
  have h₂ : (s.withLast (failedCall id) [(1, 0)]).step (.op n (.run .go)) =
      some (s.withLast { k with phase := .write } [(id, n), (1, 0)]) := by
    simp [step, stepOp, withLast, Call.step, Call.run, failedCall, effect, insert, without, k,
      ← h.calls, hne]
  have h₃ : (s.withLast { k with phase := .write } [(id, n), (1, 0)]).step (.op n (.run .fail)) =
      some (s.withLast { k with phase := .finish (.error .write) } [(id, n), (1, 0)]) := by
    simp [step, stepOp, withLast, Call.step, Call.run, effect, ← h.calls]
  have h₄ : (s.withLast { k with phase := .finish (.error .write) } [(id, n), (1, 0)]).step
      (.op n (.run .go)) =
      some (s.withLast { k with done := true, phase := .remove (.error .write) }
        [(id, n), (1, 0)]) := by
    simp [step, stepOp, withLast, Call.step, Call.run, effect, ← h.calls]
  have h₅ : (s.withLast { k with done := true, phase := .remove (.error .write) }
      [(id, n), (1, 0)]).step (.op n (.run .go)) =
      some (s.withLast { k with done := true, phase := .returned (.error .write) } [(1, 0)]) := by
    simp [step, stepOp, withLast, Call.step, Call.run, effect, delete, without, k, failedCall,
      ← h.calls, hne]
  refine ⟨_, ((((Reaches.refl.tail trivial h₁).tail trivial h₂).tail trivial h₃).tail trivial
    h₄).tail trivial h₅, ?_, hid, rfl, ?_⟩
  · simp [withLast, h.calls]
  · have hlt : 0 < s.calls.length := h.calls ▸ h0
    rw [withLast, List.getElem?_append_left hlt]
    exact h.first

/-- The stream stays open while all the other ids are used. -/
theorem exists_lap {n : ℕ} (h0 : 0 < n) (hn : n < 2 ^ 32) :
    ∃ s, Reached Always s ∧ Lap n s := by
  induction n, h0 using Nat.le_induction with
  | base =>
    obtain ⟨s, hs, ht⟩ := exists_reaches_of_run step Always {}
      (fun s => s.calls == [longStream] && s.msgID == 1 && s.pending == [(1, 0)])
      [.call true 0x20 0 [], .op 0 (.run .go), .op 0 (.run .go)] (by decide)
    simp only [Bool.and_eq_true, beq_iff_eq] at ht
    obtain ⟨⟨hcalls, hmsgID⟩, hpending⟩ := ht
    exact ⟨s, hs, by simp [hcalls], by simp [hmsgID], hpending, by simp [hcalls]⟩
  | succ n h0 ih =>
    obtain ⟨s, hs, hlap⟩ := ih (by omega)
    obtain ⟨t, ht, hlap'⟩ := hlap.succ hn
    exact ⟨t, hs.trans ht, hlap'⟩

/-- **A live call loses its entry.** A stream with the id 1 stays open while `2^32 - 2` calls come
and go. The next call gets the id 1 again, and its `addPending` overwrites the entry of the
stream. -/
theorem entry_overwritten :
    ∃ s u, Reached Always s ∧ s.lookup 1 = some 0 ∧ s.calls[0]? = some longStream ∧
      s.step (.call false 0x20 0 []) = some u ∧ u.calls[s.calls.length]? = some (failedCall 1) ∧
      ∃ t, u.step (.op s.calls.length (.run .go)) = some t ∧ t.calls[0]? = some longStream ∧
        t.lookup 1 = some s.calls.length ∧ s.calls.length ≠ 0 := by
  obtain ⟨s, hs, hlap⟩ := exists_lap (n := 2 ^ 32 - 1) (by decide) (by decide)
  have hid : nextMsgID s.msgID = 1 := by
    rw [← UInt32.toNat_inj, nextMsgID_toNat, hlap.msgID]
    rfl
  have hpos : 0 < s.calls.length := (List.getElem?_eq_some_iff.mp hlap.first).1
  let k : Call := { failedCall 1 with phase := .write, registered := true, born := s.heard.length }
  have h₁ : s.step (.call false 0x20 0 []) = some (s.withLast (failedCall 1) [(1, 0)]) := by
    simp [step, withLast, failedCall, hlap.pending, hid]
  have h₂ : (s.withLast (failedCall 1) [(1, 0)]).step (.op s.calls.length (.run .go)) =
      some (s.withLast k [(1, s.calls.length)]) := by
    simp [step, stepOp, withLast, Call.step, Call.run, failedCall, effect, insert, without, k]
  refine ⟨s, _, hs, ?_, hlap.first, h₁, ?_, _, h₂, ?_, ?_, Nat.ne_of_gt hpos⟩
  · simp [lookup, hlap.pending]
  · simp [withLast]
  · rw [withLast, List.getElem?_append_left hpos]
    exact hlap.first
  · simp [lookup, withLast]

end Client

end Mvcp.Rpc
