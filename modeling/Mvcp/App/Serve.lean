import Mvcp.App.Table

/-!
# The `Serve` goroutine

Frames of the peer are handled by one goroutine, one after the other: it looks the stream up,
runs the handler of the frame, resets the stream if the frame gives a reason, and takes the next
frame when that is done.

## Main definitions

* `Task.serves`: the steps that only `Serve` takes
* `Session.Serving`: the discipline of the `Serve` goroutine

## Main results

* `Session.Moves.serving`: every step keeps the discipline
-/

namespace Mvcp.App

open Library (Reaches Always pending pending_cons advance advance_getElem? advance_getElem?_self
  advance_getElem?_ne getElem?_concat_cases)

/-- A frame of the peer is the reason for the reset. -/
def Cause.remote : Cause → Bool
  | .peer .. | .dataTooLarge | .dataBeforeAccept | .dataAfterClose | .creditExceeded | .deliverQuota
  | .creditCap | .acceptMetaTooLarge | .invalidGrant => true
  | .peerGone | .app .. | .bridge _ | .sendOverflow | .writeQuota | .openTimeout => false

/-- The steps that only `Serve` takes, for a frame of the peer. -/
def Task.serves : Task → Bool
  | .lookup _ | .handleOpen .. => true
  | .sect _ (.deliver _) | .sect _ (.addCredit _) | .sect _ .remoteClose
  | .sect _ (.handleAccept ..) | .sect _ (.handleReject ..) => true
  | .emit _ (.reset cause) | .sect _ (.setReset cause) => cause.remote
  | _ => false

/-- What follows a step that is none of `Serve`. -/
theorem Task.serves_of_countP {ts : List Task} {t : Task}
    (h : ts.countP Task.serves ≤ if t.serves then 1 else 0) (ht : t.serves = false) :
    ∀ t' ∈ ts, t'.serves = false := by
  simpa [ht, List.countP_eq_zero] using h

theorem Stream.Refuses.remote {st : Stream} {x : Section} {cause : Cause}
    (h : st.Refuses x cause) {r : Ref} : cause.remote = true ∧ (Task.sect r x).serves = true := by
  cases h <;> exact ⟨rfl, rfl⟩

namespace Stream.Fires

variable {r : Ref} {st : Stream} {x : Section} {o : Outcome}

/-- What `Serve` has to do for a frame stays one step. -/
theorem push_serves (h : Fires r st x o) :
    o.push.countP Task.serves ≤ if (Task.sect r x).serves then 1 else 0 := by
  have hw (k : Caller) (err : Option StreamError) : (k.wrote r err).countP Task.serves = 0 := by
    simp [List.countP_eq_zero, Task.serves]
  have hread (k : Caller) (p : Bytes) : (k.read r p).countP Task.serves = 0 := by
    simp [List.countP_eq_zero, Task.serves]
  have hf (k : Caller) (err : StreamError) : (k.readFailed r err).countP Task.serves = 0 := by
    simp [List.countP_eq_zero, Task.serves]
  cases h with
  | write_overflow hr hc => rcases hc with rfl | rfl <;> simp [Task.serves, Cause.remote, hw]
  | refused h => simp [h.remote.2, List.countP_cons]; split_ifs <;> simp
  | detachBytes => split_ifs <;> simp [Task.serves]
  | closeEndpoint => cases st.ep <;> simp [Task.serves]
  | _ => simp [Stream.park, Task.serves, hw, hread, hf]

/-- Only a rejection sets `openErr`, and `Serve` detaches the stream next. -/
theorem openErr (h : Fires r st x o) :
    o.st.openErr = st.openErr ∨ o.push = [.detach r, .sect r .closeReady] ∧ st.opening = true ∧
      o.st.opening = false ∧ ∃ code message, x = .handleReject code message := by
  cases h with
  | rejected ho => exact .inr ⟨rfl, ho, rfl, _, _, rfl⟩
  | _ => exact .inl rfl

end Stream.Fires

/-- After a frame write there is a step of `Serve` to take if the write was one. -/
theorem Emission.countP_serves {r : Ref} {ts : List Task} (x : Emission)
    (hts : ts = x.sent r ∨ ts = x.failed r) :
    ts.countP Task.serves ≤ if (Task.emit r x).serves then 1 else 0 := by
  rcases hts with rfl | rfl <;> cases x with
  | reset cause =>
    cases hc : cause.remote <;> simp [Emission.sent, Emission.failed, Task.serves, hc]
  | _ => simp [Emission.sent, Emission.failed, Task.serves]

namespace Session

variable {s s' : Session} {t : Task} {n : Next} {l : Label} {r : Ref}

theorem BridgeTask.serves {e : EpRef} (h : BridgeTask r e t) : t.serves = false := by
  cases h <;> rfl

theorem countP_serves_eq_zero {ts : List Task} (h : ∀ t ∈ ts, t.serves = false) :
    ts.countP Task.serves = 0 := by
  simpa [List.countP_eq_zero] using h

theorem dispatch_serves (m : AppMessage) : (dispatch r m).countP Task.serves ≤ 1 :=
  List.countP_le_length.trans (by cases m <;> simp [dispatch])

/-- A step of `Serve` leads to one step of `Serve`, and no other step does. -/
theorem Acts.push_serves (ha : Acts s t n) :
    n.push.countP Task.serves ≤ if t.serves then 1 else 0 := by
  cases ha with
  | sect hst hf ho => exact hf.push_serves
  | emit_sent hst h => exact Emission.countP_serves _ (.inl rfl)
  | emit_lost hst h => exact Emission.countP_serves _ (.inr rfl)
  | pump hep h =>
    rw [countP_serves_eq_zero fun t ht => (h.tasks t (by simp [ht])).serves]
    exact Nat.zero_le _
  | lookup_found h => exact dispatch_serves _
  | fail_now hc hrefs =>
    refine (countP_serves_eq_zero fun t ht => ?_).trans_le (Nat.zero_le _)
    cases failTask_of_mem ht <;> rfl
  | _ => simp [Task.serves, Cause.remote]

/-- No goroutine that is started takes a step of `Serve`. -/
theorem Acts.spawn_serves (ha : Acts s t n) : ∀ ts ∈ n.spawn, ∀ t' ∈ ts, t'.serves = false := by
  cases ha with
  | pump hep h => exact fun ts hts t ht => (h.tasks t (by simp; exact .inr ⟨ts, hts, ht⟩)).serves
  | _ => simp [Task.serves]

/-- **The discipline of the `Serve` goroutine.** -/
structure Serving (s : Session) : Prop where
  alive : 0 < s.threads.length
  /-- No other goroutine handles frames. -/
  others : ∀ i ts, s.threads[i + 1]? = some ts → ∀ t ∈ ts, t.serves = false
  /-- `Serve` handles one frame at a time. -/
  single : ∀ ts, s.threads[0]? = some ts → ts.countP Task.serves ≤ 1
  /-- A stream that was rejected leaves the table before the next frame is handled. -/
  rejected : ∀ r st, s.heap[r]? = some st → st.openErr ≠ none → r ∈ s.streams.map Prod.snd →
    ∃ ts, s.threads[0]? = some (.detach r :: ts)

/-- At most one step of `Serve` is pending. -/
theorem Serving.countP_le (h : s.Serving) :
    (pending s.threads).countP (fun t => t.serves = true) ≤ 1 := by
  obtain ⟨us, ts, hts⟩ : ∃ us ts, s.threads = us :: ts :=
    List.exists_cons_of_ne_nil (List.length_pos_iff.mp h.alive)
  have hzero : (pending ts).countP (fun t => t.serves = true) = 0 := by
    rw [Multiset.countP_eq_zero]
    intro t ht
    obtain ⟨vs, hvs, htv⟩ := List.mem_flatten.mp (Multiset.mem_coe.mp ht)
    obtain ⟨i, hi⟩ := List.mem_iff_getElem?.mp hvs
    simp [h.others i vs (by simpa [hts] using hi) t htv]
  have hone := h.single us (by simp [hts])
  rw [hts, pending_cons, Multiset.countP_add, hzero, Multiset.coe_countP]
  simpa using hone

theorem serving_new (cfg : Config) : (new cfg).Serving where
  alive := Nat.one_pos
  others i ts h := by simp [new] at h
  single ts h := by
    obtain rfl := Option.some.inj h
    exact Nat.zero_le _
  rejected r st h := by simp [new] at h

theorem handleFrame_serves (registry : Registry) (f : Frame) :
    (handleFrame registry f).countP Task.serves ≤ 1 := by
  unfold handleFrame
  split_ifs
  · simp [Task.serves]
  · split <;> simp [Task.serves]

/-- A stream that is rejected and still in the table was so before the step, or `Serve` has just
rejected it. -/
theorem Acts.rejected (ha : Acts s t n) {st : Stream} (hst : n.sess.heap[r]? = some st)
    (he : st.openErr ≠ none) (hl : r ∈ n.sess.streams.map Prod.snd) :
    ((∃ st₀, s.heap[r]? = some st₀ ∧ st₀.openErr ≠ none) ∧ r ∈ s.streams.map Prod.snd ∨
      t.serves = true ∧ n.push = [.detach r, .sect r .closeReady]) := by
  cases ha with
  | @sect r' x st' o hst' hf ho =>
    by_cases hr : r' = r
    · subst hr
      have hlt := (List.getElem?_eq_some_iff.mp hst').1
      simp only [List.getElem?_set_self hlt, Option.some.injEq] at hst
      subst hst
      rcases hf.openErr with h | ⟨hp, -, -, code, message, rfl⟩
      · exact .inl ⟨⟨st', hst', h ▸ he⟩, hl⟩
      · exact .inr ⟨rfl, hp⟩
    · simp only [List.getElem?_set_ne hr] at hst
      exact .inl ⟨⟨st, hst, he⟩, hl⟩
  | detach hst' =>
    rw [delete_heap] at hst
    exact .inl ⟨⟨st, hst, he⟩, (delete_sublist s _ _).map Prod.snd |>.subset hl⟩
  | open_created hv hm hc hq hid =>
    rcases getElem?_concat_cases hst with ⟨hlt, hst⟩ | ⟨-, rfl⟩
    · exact .inl ⟨⟨st, hst, he⟩, by simpa [hlt.ne] using hl⟩
    · exact absurd rfl he
  | open_admitted h₀ hid hv hm hc hnew hq =>
    rcases getElem?_concat_cases hst with ⟨hlt, hst⟩ | ⟨-, rfl⟩
    · exact .inl ⟨⟨st, hst, he⟩, by simpa [hlt.ne] using hl⟩
    · exact absurd rfl he
  | fail_now hc hrefs => simp at hl
  | _ => exact .inl ⟨⟨st, hst, he⟩, hl⟩

theorem Acts.not_detached (ha : Acts s (.detach r) n) (htab : s.Table) :
    r ∉ n.sess.streams.map Prod.snd := by
  cases ha with
  | detach hst => simp [htab.mem_delete hst]

theorem Serving.run (h : s.Serving) (htab : s.Table) {i : ℕ} {rest : List Task}
    (ht : s.threads[i]? = some (t :: rest)) (ha : Acts s t n) :
    Serving { n.sess with threads := advance s.threads i (n.push ++ rest) n.spawn } where
  alive := by simpa [advance] using .inl h.alive
  others j ts hj t' ht' := by
    rcases advance_getElem? hj with ⟨rfl, rfl⟩ | ⟨-, hj⟩ | ⟨-, hj⟩
    · have hrest := h.others j _ ht
      rcases List.mem_append.mp ht' with ht' | ht'
      · exact Task.serves_of_countP ha.push_serves (hrest t (by simp)) t' ht'
      · exact hrest t' (by simp [ht'])
    · exact h.others j ts hj t' ht'
    · exact ha.spawn_serves ts hj t' ht'
  single ts h0 := by
    have hlt := (List.getElem?_eq_some_iff.mp ht).1
    rcases advance_getElem? h0 with ⟨rfl, rfl⟩ | ⟨-, h0⟩ | ⟨hl, -⟩
    · have h1 := h.single _ ht
      have h2 := ha.push_serves
      rw [List.countP_cons] at h1
      rw [List.countP_append]
      omega
    · exact h.single ts h0
    · omega
  rejected r st hst he hl := by
    have hlt := (List.getElem?_eq_some_iff.mp ht).1
    rcases ha.rejected hst he hl with ⟨⟨st₀, hst₀, he₀⟩, hl₀⟩ | ⟨hs, hp⟩
    · obtain ⟨ts, h0⟩ := h.rejected r st₀ hst₀ he₀ hl₀
      rcases Nat.eq_zero_or_pos i with rfl | hi
      · -- `Serve` takes the step: it detaches the stream, which is then not in the table
        obtain ⟨rfl, -⟩ := List.cons.inj (Option.some.inj (ht.symm.trans h0))
        exact absurd hl (ha.not_detached htab)
      · exact ⟨ts, (advance_getElem?_ne (by omega) hi.ne').trans h0⟩
    · cases i with
      | zero => exact ⟨.sect r .closeReady :: rest, by simp [advance_getElem?_self hlt, hp]⟩
      | succ i => simp [h.others i _ ht t (by simp)] at hs

/-- A call starts. -/
theorem Serving.spawn (h : s.Serving) {ts : List Task} (hts : ∀ t ∈ ts, t.serves = false)
    (hh : s'.heap = s.heap) (hs : s'.streams = s.streams) (ht : s'.threads = s.threads ++ [ts]) :
    s'.Serving := by
  have hzero : s'.threads[0]? = s.threads[0]? := by rw [ht, List.getElem?_append_left h.alive]
  refine ⟨by simp [ht], fun i us hi t' ht' => ?_, fun us h0 => h.single us (hzero ▸ h0),
    fun r st hst he hl => ?_⟩
  · rw [ht] at hi
    rcases getElem?_concat_cases hi with ⟨-, hi⟩ | ⟨-, rfl⟩
    · exact h.others i us hi t' ht'
    · exact hts t' ht'
  · rw [hzero]
    exact h.rejected r st (hh ▸ hst) he (hs ▸ hl)

/-- `Serve` goes on with the steps `ts`. -/
theorem Serving.serve (h : s.Serving) {ts : List Task} (h0 : s.threads[0]? = some [])
    (hts : ts.countP Task.serves ≤ 1)
    (hh : s'.heap = s.heap) (hs : s'.streams = s.streams) (ht : s'.threads = s.threads.set 0 ts) :
    s'.Serving := by
  refine ⟨by simpa [ht] using h.alive, fun i us hi => ?_, fun us h0' => ?_,
    fun r st hst he hl => ?_⟩
  · rw [ht, List.getElem?_set_ne (Nat.succ_ne_zero i).symm] at hi
    exact h.others i us hi
  · rw [ht, List.getElem?_set_self h.alive] at h0'
    exact Option.some.inj h0' ▸ hts
  · obtain ⟨us, hus⟩ := h.rejected r st (hh ▸ hst) he (hs ▸ hl)
    simp [h0] at hus

/-- **Every step keeps the discipline of `Serve`.** -/
theorem Moves.serving (hm : Moves s l s') (htab : s.Table) (h : s.Serving) : s'.Serving := by
  cases hm with
  | run ht ha => exact h.run htab ht ha
  | callOn hs hc => exact h.spawn (by cases hc <;> simp [Task.serves, Cause.remote]) rfl rfl rfl
  | callOpen => exact h.spawn (by simp [Task.serves]) rfl rfl rfl
  | callClose => exact h.spawn (by simp [Task.serves]) rfl rfl rfl
  | recv hserve hs => exact h.serve hserve (handleFrame_serves _ _) rfl rfl rfl
  | readError hserve hs =>
    exact h.serve hserve (by simp [Task.serves]) rfl rfl rfl
  | connLost => exact ⟨h.alive, h.others, h.single, h.rejected⟩

theorem Reachable.serving {cfg : Config} (h : Reachable cfg s) : s.Serving :=
  Reaches.invariant h (serving_new cfg) fun _ _ _ hr _ hs ht =>
    (moves_of_step hs).serving (Reachable.table hr) ht

end Session

end Mvcp.App
