import Mvcp.App.Wakeups
import Mvcp.App.Isolation

/-!
# `Close` and the write loops

`Session.Close` ends with `wg.Wait`: it waits for the write loops. The wait group counts the write
loops that have not ended, so when `Close` has returned there is none left, and there never is one
again.

`Close` returns when every write loop is told to end. `fail` tells those of the streams it takes
from the table, by the broadcast of their reset. Those of streams that left the table earlier were
told then, with one exception: `CloseWrite` on an empty queue does not broadcast, and when the peer
has closed its direction already, nothing does afterwards. The write loop of such a stream is
stranded, and `Close` waits for it for ever. In the runs without the exception nothing can keep
`Close` from returning: whatever state a closed session is in, its own goroutines can take it to the
return of every `Close`.

## Main definitions

* `Task.prompt`, `Task.windsUp`, `Task.ending`: the steps of goroutines that reset a stream, of
  write loops, and of callers of `Close`
* `Session.Winding`: how the steps of one goroutine follow each other
* `Session.Attended`: `CloseWrite` does not close a direction while the write loop is parked
* `Session.Stranded`: a write loop that nothing will wake

## Main results

* `Session.threads_invariant`: the invariant rule for goroutines
* `Session.wg_eq`: the wait group counts the write loops
* `Session.close_waits`: when `Close` has returned, no write loop runs
* `Session.close_returns`: `Close` can return
* `Session.stranded_forever`: a stranded write loop is never woken, and `Close` never returns
-/

namespace Mvcp.App

open Library (Reaches Always pending pending_advance pending_append pending_set advance
  advance_getElem? exists_reaches_of_measure exists_reaches_of_run)

/-! ## The steps of the goroutines that end -/

/-- The steps of a goroutine up to the broadcast of a reset: none of them blocks. -/
def Task.prompt : Task → Bool
  | .sect _ .maybeFinish | .sect _ .finish | .sect _ .detachBytes | .sect _ .closeEndpoint
  | .sect _ (.setReset _) | .sect _ .broadcast | .emit _ (.reset _) | .detach _ | .fail _
  | .clearBuffered | .closeConn | .releaseBuffer _ | .epClose _ => true
  | _ => false

/-- The steps of a write loop. -/
def Task.looping : Task → Bool
  | .sect _ .writeLoop | .sect _ (.writeLoopWait _) | .emit _ (.data _) => true
  | _ => false

/-- The steps of a write loop, and those that follow its end. -/
def Task.windsUp (t : Task) : Bool :=
  t.prompt || t.looping || (match t with | .emit _ .close | .wgDone => true | _ => false)

/-- The steps of a caller of `Session.Close`. -/
def Task.ending (t : Task) : Bool :=
  t.prompt || (match t with | .wgWait | .closeReturn => true | _ => false)

/-- The steps that reset a stream and wake who is parked on it. -/
def Task.resets : Task → Bool
  | .sect _ (.setReset _) | .sect _ .broadcast => true
  | _ => false

/-- The steps that goroutines start with and that no other step leads to. -/
def Task.marks : Task → Bool
  | .wgDone | .wgWait | .closeReturn => true
  | _ => false

theorem Task.prompt_of_resets {t : Task} (h : t.resets = true) : t.prompt = true := by
  cases t with
  | sect r x => cases x <;> simp_all [Task.resets, Task.prompt]
  | _ => simp [Task.resets] at h

theorem Task.windsUp_of_prompt {t : Task} (h : t.prompt = true) : t.windsUp = true := by
  simp [Task.windsUp, h]

theorem Task.windsUp_cases {t : Task} (h : t.windsUp = true) :
    t.prompt = true ∨ (∃ r, t = .sect r .writeLoop) ∨
      (∃ r ticket, t = .sect r (.writeLoopWait ticket)) ∨ (∃ r p, t = .emit r (.data p)) ∨
      (∃ r, t = .emit r .close) ∨ t = .wgDone := by
  simp only [Task.windsUp, Bool.or_eq_true] at h
  rcases h with (h | h) | h
  · exact .inl h
  · unfold Task.looping at h
    split at h <;> simp at h ⊢
  · split at h <;> simp at h ⊢

theorem Task.ending_cases {t : Task} (h : t.ending = true) :
    t.prompt = true ∨ t = .wgWait ∨ t = .closeReturn := by
  simp only [Task.ending, Bool.or_eq_true] at h
  rcases h with h | h
  · exact .inl h
  · split at h <;> simp at h ⊢

namespace Stream.Fires

variable {r : Ref} {st : Stream} {x : Section} {o : Outcome}

theorem prompt (h : Fires r st x o) (hx : (Task.sect r x).prompt = true) :
    ∀ t ∈ o.push, t.prompt = true := by
  cases h with
  | detachBytes => split_ifs <;> simp [Task.prompt]
  | closeEndpoint => simp +contextual [Task.prompt]
  | _ => simp_all [Task.prompt]

theorem windsUp_writeLoop (h : Fires r st .writeLoop o) : ∀ t ∈ o.push, t.windsUp = true := by
  cases h with
  | ignored h => cases h
  | refused h => cases h
  | _ => simp [Stream.park, Task.windsUp, Task.prompt, Task.looping]

theorem push_writeLoopWait {ticket : ℕ} (h : Fires r st (.writeLoopWait ticket) o) :
    o.push = [.sect r .writeLoop] := by
  cases h with
  | ignored h => cases h
  | refused h => cases h
  | loop_woken => rfl

/-- A critical section that leads to a reset leads to nothing else. -/
theorem push_resets (h : Fires r st x o) :
    (∀ t ∈ o.push, t.resets = false) ∨ ∀ t ∈ o.push, t.prompt = true := by
  cases h with
  | reset_again | reset_set => exact .inr (by simp [Task.prompt])
  | detachBytes => exact .inl (by split_ifs <;> simp [Task.resets])
  | closeEndpoint => exact .inl (by simp +contextual [Task.resets])
  | _ => exact .inl (by simp [Stream.park, Task.resets, or_imp, forall_and])

theorem log_ne (h : Fires r st x o) : .closeReturned ∉ o.log := by
  cases h with
  | finish_now _ hlog | markOpened_now _ _ _ hlog => rcases hlog with rfl | rfl <;> simp
  | _ => simp [Stream.park]

theorem push_marks (h : Fires r st x o) : ∀ t ∈ o.push, t.marks = false := by
  cases h with
  | detachBytes => split_ifs <;> simp [Task.marks]
  | closeEndpoint => simp +contextual [Task.marks]
  | _ => simp [Stream.park, Task.marks, or_imp, forall_and]

/-- Only a write loop goes on as a write loop. -/
theorem push_looping (h : Fires r st x o) :
    (∀ t ∈ o.push, t.looping = false) ∨ (Task.sect r x).looping = true := by
  cases h with
  | loop_data | loop_park | loop_woken => exact .inr rfl
  | detachBytes => exact .inl (by split_ifs <;> simp [Task.looping])
  | closeEndpoint => exact .inl (by simp +contextual [Task.looping])
  | _ => exact .inl (by simp [Task.looping, or_imp, forall_and])

end Stream.Fires

namespace Session

variable {cfg : Config} {ok : Session → Label → Prop} {s s' t u : Session} {r : Ref} {st : Stream}
variable {n : Next} {l : Label} {task : Task} {ts : List Task}

/-! ## What a step leads to -/

theorem Acts.prompt (ha : Acts s task n) (ht : task.prompt = true) :
    (∀ t ∈ n.push, t.prompt = true) ∧ n.spawn = [] := by
  cases ha with
  | sect hst hf => exact ⟨hf.prompt ht, rfl⟩
  | @emit_sent _ x | @emit_lost _ x =>
    cases x <;> simp_all [Task.prompt, Emission.sent, Emission.failed]
  | fail_now => exact ⟨by simp [or_imp, forall_and, Task.prompt], rfl⟩
  | _ => simp_all [Task.prompt]

theorem Acts.windsUp (ha : Acts s task n) (ht : task.windsUp = true) :
    (∀ t ∈ n.push, t.windsUp = true) ∧ n.spawn = [] := by
  rcases Task.windsUp_cases ht with
    hp | ⟨r, rfl⟩ | ⟨r, ticket, rfl⟩ | ⟨r, p, rfl⟩ | ⟨r, rfl⟩ | rfl
  · obtain ⟨hpush, hspawn⟩ := ha.prompt hp
    exact ⟨fun t hm => Task.windsUp_of_prompt (hpush t hm), hspawn⟩
  · cases ha with
    | sect hst hf => exact ⟨hf.windsUp_writeLoop, rfl⟩
  · cases ha with
    | sect hst hf => exact ⟨by rw [hf.push_writeLoopWait]; simp [Task.windsUp, Task.looping], rfl⟩
  · cases ha <;> exact ⟨by simp [Emission.sent, Emission.failed, Task.windsUp, Task.looping,
      Task.prompt], rfl⟩
  · cases ha <;> exact ⟨by simp [Emission.sent, Emission.failed, Task.windsUp, Task.prompt], rfl⟩
  · cases ha
    simp

theorem Acts.ending (ha : Acts s task n) (ht : task.ending = true) :
    ∀ t ∈ n.push, t.ending = true := by
  rcases Task.ending_cases ht with hp | rfl | rfl
  · intro t hm
    simp [Task.ending, (ha.prompt hp).1 t hm]
  · cases ha
    simp
  · cases ha
    simp

/-- A step that leads to a reset leads to nothing that could delay it. -/
theorem Acts.push_resets (ha : Acts s task n) :
    (∀ t ∈ n.push, t.resets = false) ∨ ∀ t ∈ n.push, t.prompt = true := by
  cases ha with
  | sect hst hf => exact hf.push_resets
  | @emit_sent r x | @emit_lost r x =>
    cases x <;> simp [Emission.sent, Emission.failed, Task.resets, Task.prompt]
  | pump hep h =>
    refine .inl fun t ht => ?_
    cases h.tasks t (by simp [ht]) <;> rfl
  | @lookup_found m => cases m <;> simp [dispatch, Task.resets, Task.prompt]
  | fail_now => exact .inr (by simp [or_imp, forall_and, Task.prompt])
  | _ => exact .inl (by simp [Task.resets])

theorem Acts.push_marks (ha : Acts s task n) : ∀ t ∈ n.push, t.marks = false := by
  have hfollows {r : Ref} {ts : List Task} (h : ∀ t ∈ ts, t.Follows r) :
      ∀ t ∈ ts, t.marks = false := fun t ht => by cases h t ht <;> rfl
  cases ha with
  | sect hst hf => exact hf.push_marks
  | @emit_sent r x => exact hfollows x.sent_follows
  | @emit_lost r x => exact hfollows x.failed_follows
  | pump hep h =>
    intro t ht
    cases h.tasks t (by simp [ht]) <;> rfl
  | @lookup_found m => exact hfollows (dispatch_follows m)
  | fail_now => simp [or_imp, forall_and, Task.marks]
  | _ => simp [Task.marks]

theorem Acts.push_looping (ha : Acts s task n) :
    (∀ t ∈ n.push, t.looping = false) ∨ task.looping = true := by
  cases ha with
  | sect hst hf => exact hf.push_looping
  | @emit_sent r x | @emit_lost r x =>
    cases x <;> simp [Emission.sent, Emission.failed, Task.looping]
  | pump hep h =>
    refine .inl fun t ht => ?_
    cases h.tasks t (by simp [ht]) <;> rfl
  | @lookup_found m => cases m <;> simp [dispatch, Task.looping]
  | fail_now => exact .inl (by simp [or_imp, forall_and, Task.looping])
  | _ => exact .inl (by simp [Task.looping])

/-- The goroutines that a step starts. -/
inductive Spawns : List Task → Prop
  | writeLoop {r : Ref} : Spawns [.sect r .writeLoop, .wgDone]
  | acceptOpen {r : Ref} {metadata : Bytes} : Spawns [.acceptOpen r metadata]
  | copyIn {r : Ref} {e : EpRef} : Spawns [.pump r e .readEp]
  | copyOut {r : Ref} {e : EpRef} {k : ℕ} : Spawns [.sect r (.read k (.bridge e none))]
  | copyFailed {r : Ref} {e : EpRef} {err : Option Bytes} : Spawns [.pump r e (.outDone err)]
  | bridge {e : EpRef} : Spawns [.bridgeWait e, .epClose e]

theorem Acts.spawns (ha : Acts s task n) : ∀ ts ∈ n.spawn, Spawns ts := by
  cases ha with
  | start => simpa using .writeLoop
  | open_admitted => simpa using .acceptOpen
  | pump hep h =>
    cases h with
    | start ht =>
      cases ht <;> simp [Spawns.copyIn, Spawns.copyOut, Spawns.copyFailed, Spawns.bridge]
    | _ => simp
  | _ => simp

/-- The goroutines that a call or a frame starts. -/
inductive Begins (s : Session) : List Task → Prop
  | callOn {r : Ref} {t : Task} (h : Calls r t) : Begins s [t]
  | open {service metadata : Bytes} : Begins s [.open service metadata]
  | close : Begins s [.fail none, .wgWait, .closeReturn]
  | frame {registry : Registry} {f : Frame} : Begins s (handleFrame registry f)
  | readError : Begins s [.fail none, .stopServe]

/-- **The invariant rule for goroutines.** What holds of a goroutine that begins, is kept by its own
steps, and is not disturbed by the steps of others, holds of every goroutine. -/
theorem threads_invariant {P : Session → List Task → Prop}
    (hkeep : ∀ s l s' ts, Reaches step ok (new cfg) s → Moves s l s' → P s ts → P s' ts)
    (hrun : ∀ s t rest n, Reaches step ok (new cfg) s → Acts s t n → P s (t :: rest) →
      P n.sess (n.push ++ rest))
    (hthreads : ∀ s ts us, P s us → P { s with threads := ts } us)
    (hspawn : ∀ s ts, Spawns ts → P s ts) (hbegin : ∀ s ts, Begins s ts → P s ts)
    (hnil : ∀ s, P s []) (h : Reaches step ok (new cfg) s) : ∀ ts ∈ s.threads, P s ts := by
  refine h.invariant (I := fun s => ∀ ts ∈ s.threads, P s ts) ?_ fun s s' l hr _ hs ih us hus => ?_
  · simpa [new] using hnil _
  have hm := moves_of_step hs
  have hold {us : List Task} (hus : us ∈ s.threads) : P s' us := hkeep s l s' us hr hm (ih us hus)
  obtain ⟨j, hj⟩ := List.getElem?_of_mem hus
  cases hm with
  | @run i c task rest n ht ha =>
    -- the goroutine that ran, one that did not, or one that was started
    rcases advance_getElem? hj with ⟨-, rfl⟩ | ⟨-, hj⟩ | ⟨-, hj⟩
    · exact hthreads _ _ _ (hrun s task rest n hr ha (ih _ (List.mem_of_getElem? ht)))
    · exact hold (List.mem_of_getElem? hj)
    · exact hspawn _ _ (ha.spawns us hj)
  | callOn _ hc =>
    rcases List.mem_append.mp hus with hus | hus
    · exact hold hus
    · obtain rfl := List.mem_singleton.mp hus
      exact hbegin _ _ (.callOn hc)
  | callOpen =>
    rcases List.mem_append.mp hus with hus | hus
    · exact hold hus
    · obtain rfl := List.mem_singleton.mp hus
      exact hbegin _ _ .open
  | callClose =>
    rcases List.mem_append.mp hus with hus | hus
    · exact hold hus
    · obtain rfl := List.mem_singleton.mp hus
      exact hbegin _ _ .close
  | recv =>
    rcases List.mem_or_eq_of_mem_set hus with hus | rfl
    · exact hold hus
    · exact hbegin _ _ .frame
  | readError =>
    rcases List.mem_or_eq_of_mem_set hus with hus | rfl
    · exact hold hus
    · exact hbegin _ _ .readError
  | connLost => exact hold hus

/-! ## The order of the steps of a goroutine -/

/-- **How the steps of one goroutine follow each other.** A goroutine that will leave the wait group
is a write loop, and every write loop will; a goroutine that will return from `Close` does little
else; neither does anything afterwards; and what comes before a reset does not block. -/
structure Winding (ts : List Task) : Prop where
  loop : .wgDone ∈ ts → ∀ t ∈ ts, t.windsUp = true
  close : .closeReturn ∈ ts → ∀ t ∈ ts, t.ending = true
  counted : (∃ t ∈ ts, t.looping = true) → .wgDone ∈ ts
  last : ts.Pairwise fun u _ => u ≠ .wgDone ∧ u ≠ .closeReturn
  resets : ts.Pairwise fun u t => t.resets = true → u.prompt = true

/-- What holds of all steps of a goroutine with a mark goes on to do so. -/
theorem mem_of_mark {mark : Task} {p : Task → Bool} {push rest : List Task}
    (hmark : ∀ t ∈ push, t.marks = false) (hm : mark.marks = true)
    (h : mark ∈ task :: rest → ∀ t ∈ task :: rest, p t = true)
    (hp : p task = true → ∀ t ∈ push, p t = true) :
    mark ∈ push ++ rest → ∀ t ∈ push ++ rest, p t = true := by
  intro hin t ht
  rcases List.mem_append.mp hin with hin | hin
  · simp [hmark _ hin] at hm
  · have hall := h (List.mem_cons_of_mem _ hin)
    rcases List.mem_append.mp ht with ht | ht
    · exact hp (hall task (List.mem_cons_self ..)) t ht
    · exact hall t (List.mem_cons_of_mem _ ht)

theorem Acts.winding {rest : List Task} (ha : Acts s task n) (h : Winding (task :: rest)) :
    Winding (n.push ++ rest) where
  loop := mem_of_mark ha.push_marks rfl h.loop fun ht => (ha.windsUp ht).1
  close := mem_of_mark ha.push_marks rfl h.close ha.ending
  counted := by
    rintro ⟨t, ht, hl⟩
    have hlater : (∃ t ∈ task :: rest, t.looping = true) := by
      rcases List.mem_append.mp ht with ht | ht
      · exact ⟨task, List.mem_cons_self .., ha.push_looping.resolve_left fun hn => by
          simp [hn t ht] at hl⟩
      · exact ⟨t, List.mem_cons_of_mem _ ht, hl⟩
    rcases List.mem_cons.mp (h.counted hlater) with rfl | hm
    · -- the write loop has ended: it does not go on afterwards
      have hnil : n.push = [] := by cases ha; rfl
      rw [hnil, List.nil_append] at ht
      exact absurd rfl ((List.pairwise_cons.mp h.last).1 t ht).1
    · exact List.mem_append_right _ hm
  last := by
    have hne : ∀ u ∈ n.push, u ≠ .wgDone ∧ u ≠ .closeReturn := by
      intro u hu
      have := ha.push_marks u hu
      constructor <;> rintro rfl <;> simp [Task.marks] at this
    exact List.pairwise_append.mpr
      ⟨List.pairwise_of_forall_mem_list fun u hu _ _ => hne u hu,
        (List.pairwise_cons.mp h.last).2, fun u hu _ _ => hne u hu⟩
  resets := by
    obtain ⟨hhead, hrest⟩ := List.pairwise_cons.mp h.resets
    refine List.pairwise_append.mpr ⟨?_, hrest, fun u hu t ht hr => ?_⟩
    · rcases ha.push_resets with hno | hall
      · exact List.pairwise_of_forall_mem_list fun u _ t ht hr => by simp [hno t ht] at hr
      · exact List.pairwise_of_forall_mem_list fun u hu _ _ _ => hall u hu
    · exact (ha.prompt (hhead t ht hr)).1 u hu

theorem Spawns.winding (h : Spawns ts) : Winding ts := by
  cases h <;> constructor <;> simp [Task.windsUp, Task.prompt, Task.looping, Task.resets]

theorem handleFrame_winding (registry : Registry) (f : Frame) :
    Winding (handleFrame registry f) := by
  unfold handleFrame
  split_ifs
  · constructor <;> simp [Task.looping, Task.resets]
  · split <;> constructor <;> simp [Task.looping, Task.resets]

theorem Begins.winding (h : Begins s ts) : Winding ts := by
  cases h with
  | callOn h => cases h <;> constructor <;> simp [Task.looping]
  | frame => exact handleFrame_winding _ _
  | _ => constructor <;> simp [Task.looping, Task.resets, Task.ending, Task.prompt]

theorem winding (h : Reaches step ok (new cfg) s) : ∀ ts ∈ s.threads, Winding ts :=
  threads_invariant (P := fun _ ts => Winding ts) (fun _ _ _ _ _ _ hp => hp)
    (fun _ _ _ _ _ ha hp => ha.winding hp) (fun _ _ _ hp => hp) (fun _ _ hs => hs.winding)
    (fun _ _ hb => hb.winding) (fun _ => by constructor <;> simp) h

/-! ## The wait group -/

theorem Acts.wg (ha : Acts s task n) :
    task = .wgDone ∧ n.sess.wg = s.wg - 1 ∧ n.push = [] ∧ n.spawn = [] ∨
      task ≠ .wgDone ∧ n.sess.wg = s.wg + (pending n.spawn).count .wgDone := by
  cases ha with
  | wgDone => exact .inl ⟨rfl, rfl, rfl, rfl⟩
  | detach hst => exact .inr ⟨by simp, by unfold delete; split_ifs <;> rfl⟩
  | pump hep h =>
    cases h with
    | start ht => cases ht <;> exact .inr ⟨by simp, by simp⟩
    | _ => exact .inr ⟨by simp, by simp⟩
  | _ => exact .inr ⟨by simp, by simp⟩

theorem Started.ne_wgDone (h : Started s task) : task ≠ .wgDone := by
  rintro rfl
  cases h with
  | callOn _ h => cases h

/-- **The wait group counts the write loops** that have not left it. -/
theorem wg_eq (h : Reaches step ok (new cfg) s) : s.wg = (pending s.threads).count .wgDone := by
  refine h.invariant (I := fun s => s.wg = (pending s.threads).count .wgDone) (by simp [new])
    fun s s' l _ _ hs ih => ?_
  rcases (moves_of_step hs).run_or_starts with
    ⟨i, c, task, rest, n, -, ht, ha, rfl⟩ | ⟨ts, hst⟩ | rfl
  · obtain ⟨others, hold, hnew⟩ := pending_advance ht
    have hpush : (n.push : Multiset Task).count .wgDone = 0 :=
      Multiset.count_eq_zero.mpr fun hm => absurd (ha.push_marks _ (Multiset.mem_coe.mp hm)) (by
        simp [Task.marks])
    simp only [hnew, Multiset.count_add, hpush]
    rw [hold] at ih
    rcases ha.wg with ⟨rfl, hwg, -, hspawn⟩ | ⟨hne, hwg⟩
    · simp only [Multiset.count_cons_self] at ih
      simp [hwg, hspawn, ih]
    · rw [Multiset.count_cons_of_ne hne.symm] at ih
      omega
  · have hzero : (ts : Multiset Task).count .wgDone = 0 :=
      Multiset.count_eq_zero.mpr fun hm => (hst.started _ (Multiset.mem_coe.mp hm)).ne_wgDone rfl
    rw [hst.wg, hst.pending, Multiset.count_add, hzero, ih, zero_add]
  · exact ih

/-- A closed session starts no write loop. -/
theorem Acts.wg_le (ha : Acts s task n) (hc : s.closed = true) : n.sess.wg ≤ s.wg := by
  cases ha with
  | start hopen => simp [hc] at hopen
  | wgDone => exact Nat.sub_le _ _
  | detach => exact le_of_eq (by unfold delete; split_ifs <;> rfl)
  | _ => exact le_rfl

/-! ## What `Close` has waited for -/

/-- The session is closed and no write loop is left. -/
def Ended (s : Session) : Prop := s.closed = true ∧ s.wg = 0

theorem Acts.ended (ha : Acts s task n) (h : s.Ended) : n.sess.Ended :=
  ⟨ha.closed h.1, Nat.le_zero.mp (h.2 ▸ ha.wg_le h.1)⟩

theorem Moves.closed (hm : Moves s l s') (hc : s.closed = true) : s'.closed = true := by
  rcases hm.run_or_starts with ⟨i, c, task, rest, n, -, ht, ha, rfl⟩ | ⟨ts, hst⟩ | rfl
  · exact ha.closed hc
  · exact hst.closed.trans hc
  · exact hc

theorem Moves.ended (hm : Moves s l s') (h : s.Ended) : s'.Ended := by
  rcases hm.run_or_starts with ⟨i, c, task, rest, n, -, ht, ha, rfl⟩ | ⟨ts, hst⟩ | rfl
  · exact ha.ended h
  · exact ⟨hst.closed.trans h.1, hst.wg.trans h.2⟩
  · exact h

/-- A caller of `Close` has not begun, or the session is closed; and it returns only when the
session has ended. -/
structure Awaits (s : Session) (ts : List Task) : Prop where
  wait : .wgWait ∈ ts → ts = [.fail none, .wgWait, .closeReturn] ∨ s.closed = true
  ret : .closeReturn ∈ ts → .wgWait ∈ ts ∨ s.Ended

theorem Awaits.imp (h : Awaits s ts) (hc : s.closed = true → s'.closed = true)
    (he : s.Ended → s'.Ended) : Awaits s' ts :=
  ⟨fun hw => (h.wait hw).imp_right hc, fun hr => (h.ret hr).imp_right he⟩

theorem Awaits.of_not_mem (hw : .wgWait ∉ ts) (hr : .closeReturn ∉ ts) : Awaits s ts :=
  ⟨fun h => absurd h hw, fun h => absurd h hr⟩

/-- After `fail` the session is closed. -/
theorem Acts.closed_of_fail {caller : Option Ref} (ha : Acts s (.fail caller) n) :
    n.sess.closed = true := by
  cases ha with
  | fail_again hc => exact hc
  | fail_now => rfl

theorem Acts.awaits {rest : List Task} (ha : Acts s task n) (h : Awaits s (task :: rest)) :
    Awaits n.sess (n.push ++ rest) := by
  have hrest {mark : Task} (hm : mark.marks = true) (hin : mark ∈ n.push ++ rest) : mark ∈ rest :=
    (List.mem_append.mp hin).resolve_left fun hin => by simp [ha.push_marks _ hin] at hm
  constructor
  · intro hw
    rcases h.wait (List.mem_cons_of_mem _ (hrest rfl hw)) with heq | hc
    · obtain ⟨rfl, -⟩ := List.cons.inj heq
      exact .inr ha.closed_of_fail
    · exact .inr (ha.closed hc)
  · intro hr
    rcases h.ret (List.mem_cons_of_mem _ (hrest rfl hr)) with hw | he
    · rcases List.mem_cons.mp hw with rfl | hw
      · -- `wg.Wait` returns
        have hc : s.closed = true := (h.wait (List.mem_cons_self ..)).resolve_left (by simp)
        cases ha with
        | wgWait hwg => exact .inr ⟨hc, hwg⟩
      · exact .inl (List.mem_append_right _ hw)
    · exact .inr (ha.ended he)

theorem handleFrame_marks (registry : Registry) (f : Frame) :
    ∀ t ∈ handleFrame registry f, t.marks = false := by
  unfold handleFrame
  split_ifs
  · simp [Task.marks]
  · split <;> simp [Task.marks]

theorem Begins.awaits (h : Begins s ts) : Awaits s ts := by
  cases h with
  | callOn h => cases h <;> exact .of_not_mem (by simp) (by simp)
  | close => exact ⟨fun _ => .inl rfl, fun _ => .inl (by simp)⟩
  | frame =>
    exact .of_not_mem (fun hw => by simpa [Task.marks] using handleFrame_marks _ _ _ hw)
      fun hr => by simpa [Task.marks] using handleFrame_marks _ _ _ hr
  | _ => exact .of_not_mem (by simp) (by simp)

theorem awaits (h : Reaches step ok (new cfg) s) : ∀ ts ∈ s.threads, Awaits s ts :=
  threads_invariant (P := Awaits) (fun _ _ _ _ _ hm hp => hp.imp hm.closed hm.ended)
    (fun _ _ _ _ _ ha hp => ha.awaits hp) (fun _ _ _ hp => hp.imp (fun hc => hc) fun he => he)
    (fun _ _ hs => by cases hs <;> exact .of_not_mem (by simp) (by simp))
    (fun _ _ hb => hb.awaits) (fun _ => .of_not_mem (by simp) (by simp)) h

/-- Only `Close` reports that it returned. -/
theorem Acts.closeReturned (ha : Acts s task n) (h : .closeReturned ∈ n.sess.log) :
    .closeReturned ∈ s.log ∨ task = .closeReturn := by
  cases ha with
  | sect hst hf =>
    exact .inl ((List.mem_append.mp h).resolve_right hf.log_ne)
  | closeReturn => exact .inr rfl
  | detach => exact .inl (by unfold delete at h; split_ifs at h <;> exact h)
  | _ => exact .inl (by simpa using h)

theorem ended_of_returned (h : Reaches step ok (new cfg) s) (hl : .closeReturned ∈ s.log) :
    s.Ended := by
  revert hl
  refine h.invariant (I := fun s => .closeReturned ∈ s.log → s.Ended) (by simp [new])
    fun s s' l hr _ hs ih hl => ?_
  have hm := moves_of_step hs
  by_cases hold : .closeReturned ∈ s.log
  · exact hm.ended (ih hold)
  · rcases hm.run_or_starts with ⟨i, c, task, rest, n, -, ht, ha, rfl⟩ | ⟨ts, hst⟩ | rfl
    · obtain rfl := (ha.closeReturned hl).resolve_left hold
      have hth := List.mem_of_getElem? ht
      -- `Close` does nothing after it has returned, and before it has waited
      have hend := ((awaits hr _ hth).ret (List.mem_cons_self ..)).resolve_left fun hw => by
        have hw : .wgWait ∈ rest := by simpa using hw
        exact absurd rfl ((List.pairwise_cons.mp (winding hr _ hth).last).1 _ hw).2
      exact ha.ended hend
    · exact absurd (hst.log ▸ hl) hold
    · exact absurd hl hold

/-- A session that has ended has no write loop. -/
theorem Ended.not_looping (he : s.Ended) (h : Reaches step ok (new cfg) s) :
    ∀ t ∈ pending s.threads, t.looping = false := by
  intro t ht
  obtain ⟨ts, hts, hm⟩ := List.mem_flatten.mp (Multiset.mem_coe.mp ht)
  by_contra hl
  have hdone := (winding h ts hts).counted ⟨t, hm, by simpa using hl⟩
  have hcount := wg_eq h
  rw [he.2] at hcount
  exact Multiset.count_eq_zero.mp hcount.symm
    (Multiset.mem_coe.mpr (List.mem_flatten.mpr ⟨ts, hts, hdone⟩))

/-- **When `Close` has returned, every write loop has ended**, whoever called it and whatever else
was going on, and none is ever started again. -/
theorem close_waits (h : Reachable cfg s) (hl : .closeReturned ∈ s.log)
    (ht : Reaches step Always s t) :
    t.closed = true ∧ t.wg = 0 ∧ ∀ task ∈ pending t.threads, task.looping = false := by
  have he : t.Ended := ht.invariant (ended_of_returned h hl) fun _ _ _ _ _ hs he =>
    (moves_of_step hs).ended he
  exact ⟨he.1, he.2, he.not_looping (h.trans ht)⟩

/-- The steps by which `Open` opens a stream, whose write loop parks. -/
def opens : List Label :=
  [.call (.open (text "svc") []), .run 1 .go, .run 1 .go,
    .recv (Outgoing.app (.appAccept 1 [] 1)).frame, .run 0 .go, .run 0 .go, .run 0 .go,
    .run 1 (.select .ready), .run 1 .go, .run 1 .go, .run 1 .go, .run 1 .go, .run 2 .go]

/-- `Close` returns from a session with a stream. -/
theorem close_waits_open :
    ∃ s, Reachable { role := .host } s ∧ s.heap.length = 1 ∧ .closeReturned ∈ s.log ∧
      ∀ task ∈ pending s.threads, task.looping = false := by
  obtain ⟨s, hs, ht⟩ := exists_reaches_of_run step Always (new { role := .host })
    (fun s => decide (s.heap.length = 1) && decide (.closeReturned ∈ s.log))
    (List.flatten [opens, [.call .close], .replicate 9 (.run 3 .go), .replicate 3 (.run 2 .go),
      .replicate 2 (.run 3 .go)])
    (by decide)
  simp only [Bool.and_eq_true, decide_eq_true_eq] at ht
  exact ⟨s, hs, ht.1, ht.2, (close_waits hs ht.2 .refl).2.2⟩

end Session

/-! ## The way to the return -/

/-- How many steps the step leads to in a closed session, itself included, at most. -/
def Task.effort : Task → ℕ
  | .sect _ .closeEndpoint | .sect _ .detachBytes => 2
  | .detach _ => 3
  | .sect _ .finish => 6
  | .sect _ .broadcast | .sect _ .maybeFinish => 7
  | .sect _ (.setReset _) => 8
  | .sect _ .writeLoop => 11
  | .sect _ (.writeLoopWait _) | .emit _ (.data _) => 12
  | .emit _ _ => 10
  | _ => 1

/-- The steps that are left. -/
def effort (ts : Multiset Task) : ℕ := (ts.map Task.effort).sum

@[simp] theorem effort_zero : effort 0 = 0 := rfl

@[simp] theorem effort_cons (t : Task) (ts : Multiset Task) :
    effort (t ::ₘ ts) = t.effort + effort ts := by
  simp [effort]

@[simp] theorem effort_add (ts us : Multiset Task) : effort (ts + us) = effort ts + effort us := by
  simp [effort]

theorem Stream.Fires.effort_prompt {r : Ref} {st : Stream} {x : Section} {o : Outcome}
    (h : Fires r st x o) (hx : (Task.sect r x).prompt = true) :
    effort o.push < (Task.sect r x).effort := by
  cases h with
  | detachBytes => split_ifs <;> simp [effort, Task.effort]
  | closeEndpoint => cases st.ep <;> simp [effort, Task.effort]
  | refused h => cases h <;> simp [Task.prompt] at hx
  | ignored h => cases h <;> simp [Task.prompt] at hx
  | _ => simp_all [Task.prompt, effort, Task.effort]

/-- The write loop of a stream that is settled ends. -/
theorem View.Settled.effort_loop {r : Ref} {v : View} {o : Outcome} (h : v.Settled)
    (hh : v.Handshake) (hm : .sect r .writeLoop ∈ v.tasks)
    (hf : Stream.Fires r v.st .writeLoop o) :
    effort o.push < (Task.sect r .writeLoop).effort := by
  obtain ⟨-, ha, ho, hlost⟩ := hh.live (.inr ⟨_, hm, rfl⟩)
  -- what was settled without a reset is flushed, and its direction closed
  have hflushed (hr : v.st.reset = false) : v.st.sendQ = [] ∧ v.st.closeAfterFlush = true := by
    rcases h with hr' | hl | ⟨⟨hq, -⟩, ⟨hc, -⟩ | he | ⟨hac, -⟩⟩
    · simp [hr] at hr'
    · exact absurd hl hlost
    · exact ⟨hq, hc⟩
    · exact absurd ho he
    · simp [ha] at hac
  cases hf with
  | loop_exit hr => simp [effort, Task.effort]
  | loop_data hr hq hc => simp [(hflushed hr).1] at hq
  | loop_close hr hq hc => simp [effort, Task.effort]
  | loop_park hr hp =>
    obtain ⟨hq, hc⟩ := hflushed hr
    rcases hp with ⟨hne, -⟩ | ⟨-, hno⟩
    · exact absurd hq hne
    · simp [hc] at hno
  | ignored h => cases h
  | refused h => cases h

namespace Session

variable {cfg : Config} {ok : Session → Label → Prop} {s s' t u : Session} {r : Ref} {st : Stream}
variable {n : Next} {l : Label} {task : Task} {ts : List Task}

theorem Acts.effort_prompt (ha : Acts s task n) (hc : s.closed = true) (ht : task.prompt = true) :
    effort n.push < task.effort := by
  cases ha with
  | sect hst hf => exact hf.effort_prompt ht
  | @emit_sent _ x | @emit_lost _ x =>
    cases x <;> simp_all [Task.prompt, Emission.sent, Emission.failed, effort, Task.effort]
  | fail_now hopen => simp [hc] at hopen
  | _ => simp_all [Task.prompt, effort, Task.effort]

/-- A goroutine on the way to a reset is never blocked. -/
theorem exec_prompt (h : Reaches step ok (new cfg) s) (hm : task ∈ pending s.threads)
    (hp : task.prompt = true) : ∃ n, s.exec task .go = some n := by
  have hheap {r : Ref} (hr : task.ref? = some r) : ∃ st, s.heap[r]? = some st :=
    exists_heap h hm hr
  cases task with
  | sect r x =>
    obtain ⟨st, hst⟩ := hheap rfl
    cases x <;> simp [Task.prompt] at hp <;> simp [exec, enter, hst, Stream.enter]
  | emit r x =>
    obtain ⟨st, hst⟩ := hheap rfl
    simp [exec, hst]
  | detach r =>
    obtain ⟨st, hst⟩ := hheap rfl
    simp [exec, hst]
  | epClose e =>
    have he := (anchored h).tasks _ hm e rfl
    simp [exec, onEndpoint, List.getElem?_eq_getElem he]
  | fail caller =>
    cases hc : s.closed with
    | true => simp [exec, Session.fail, hc]
    | false => simp [exec, Session.fail, hc, List.isPerm_iff]
  | clearBuffered | closeConn | releaseBuffer => exact ⟨_, rfl⟩
  | _ => simp [Task.prompt] at hp

/-- A write loop is blocked only when it is parked. -/
theorem exec_windsUp (h : Reaches step ok (new cfg) s) (hm : task ∈ pending s.threads)
    (hw : task.windsUp = true)
    (hwoken : ∀ r ticket st, task = .sect r (.writeLoopWait ticket) → s.heap[r]? = some st →
      st.cond.woken ticket = true) : ∃ n, s.exec task .go = some n := by
  have hheap {r : Ref} (hr : task.ref? = some r) : ∃ st, s.heap[r]? = some st :=
    exists_heap h hm hr
  rcases Task.windsUp_cases hw with
    hp | ⟨r, rfl⟩ | ⟨r, ticket, rfl⟩ | ⟨r, p, rfl⟩ | ⟨r, rfl⟩ | rfl
  · exact exec_prompt h hm hp
  · obtain ⟨st, hst⟩ := hheap rfl
    simp [exec, enter, hst, Stream.enter]
  · obtain ⟨st, hst⟩ := hheap rfl
    simp [exec, enter, hst, Stream.enter, hwoken r ticket st rfl hst]
  · obtain ⟨st, hst⟩ := hheap rfl
    simp [exec, hst]
  · obtain ⟨st, hst⟩ := hheap rfl
    simp [exec, hst]
  · exact ⟨_, rfl⟩

/-- The steps of a write loop come to an end in a closed session that has nothing to reset. -/
theorem Acts.effort_windsUp (ha : Acts s task n) (h : Reaches step ok (new cfg) s)
    (hm : task ∈ pending s.threads) (hc : s.closed = true) (hn : ∀ r, ¬s.Resetting r)
    (hw : task.windsUp = true) : effort n.push < task.effort := by
  rcases Task.windsUp_cases hw with
    hp | ⟨r, rfl⟩ | ⟨r, ticket, rfl⟩ | ⟨r, p, rfl⟩ | ⟨r, rfl⟩ | rfl
  · exact ha.effort_prompt hc hp
  · cases ha with
    | sect hst hf =>
      exact (settled_of_left h hst (.inl hc) (hn r)).effort_loop (handshake h hst)
        (mem_tasksOf.mpr ⟨hm, rfl⟩) hf
  · cases ha with
    | sect hst hf => simp [hf.push_writeLoopWait, effort, Task.effort]
  · cases ha <;> simp [Emission.sent, Emission.failed, effort, Task.effort]
  · cases ha <;> simp [Emission.sent, Emission.failed, effort, Task.effort]
  · cases ha
    simp [effort, Task.effort]

/-- `CloseWrite` does not close a direction while the write loop is parked. -/
def Attended (s : Session) (l : Label) : Prop := s.guarded View.attended l = true

instance (s : Session) (l : Label) : Decidable (s.Attended l) :=
  inferInstanceAs (Decidable (_ = true))

theorem attended_of_ne {i : ℕ} {c : Choice} {rest : List Task}
    (ht : s.threads[i]? = some (task :: rest)) (hne : ∀ r, task ≠ .sect r .closeWrite) :
    s.Attended (.run i c) := by
  unfold Attended guarded
  simp only [ht]
  split
  · next r x _ heq =>
    obtain ⟨rfl, -⟩ := List.cons.inj (Option.some.inj heq)
    cases hst : s.heap[r]? with
    | none => rfl
    | some st => cases x <;> simp_all [View.attended]
  · rfl

/-- The goroutines of the session go on; the application and the peer do nothing. -/
def Internal (_ : Session) (l : Label) : Prop := ∃ i, l = .run i .go

/-- The session is closed, in a run without the exception, and a `Close` that was called before is
still on its way or has returned. -/
structure Ending (cfg : Config) (waits : Prop) (s : Session) : Prop where
  reached : Reaches step Attended (new cfg) s
  closed : s.closed = true
  returns : waits → .closeReturn ∈ pending s.threads ∨ .closeReturned ∈ s.log

/-- `Close` reports its return. -/
theorem Acts.log_closeReturn (ha : Acts s .closeReturn n) : .closeReturned ∈ n.sess.log := by
  cases ha
  simp

theorem Acts.log_mono {e : Event} (ha : Acts s task n) (h : e ∈ s.log) : e ∈ n.sess.log := by
  cases ha with
  | detach => unfold delete; split_ifs <;> exact h
  | _ => simp [h]

/-- A goroutine takes a step that leaves less to do. -/
theorem Ending.advance {waits : Prop} {i : ℕ} {rest : List Task} (he : Ending cfg waits s)
    (hi : s.threads[i]? = some (task :: rest)) (hn : s.exec task .go = some n)
    (hne : ∀ r, task ≠ .sect r .closeWrite) (hspawn : n.spawn = [])
    (heff : effort n.push < task.effort) :
    ∃ l u, Internal s l ∧ s.step l = some u ∧ Ending cfg waits u ∧
      effort (pending u.threads) < effort (pending s.threads) := by
  have ha := acts_of_exec hn
  have hstep := step_of_exec hi hn
  obtain ⟨others, hold, hnew⟩ := pending_advance hi
  refine ⟨_, _, ⟨i, rfl⟩, hstep, ⟨he.reached.tail (attended_of_ne hi hne) hstep,
    ha.closed he.closed, fun hw => ?_⟩, ?_⟩
  · rcases he.returns hw with hm | hl
    · rcases Multiset.mem_cons.mp (hold ▸ hm) with rfl | hm
      · exact .inr ha.log_closeReturn
      · exact .inl (by simp [hnew, hm])
    · exact .inr (ha.log_mono hl)
  · simp only [hnew, hspawn, hold, effort_add, effort_cons, Library.pending_nil, effort_zero]
    omega

/-- The goroutine of a step, with the step it takes next. -/
theorem exists_head (hm : task ∈ pending s.threads) :
    ∃ (i : ℕ) (t : Task) (rest : List Task),
      s.threads[i]? = some (t :: rest) ∧ task ∈ t :: rest := by
  obtain ⟨ts, hts, ht⟩ := List.mem_flatten.mp (Multiset.mem_coe.mp hm)
  obtain ⟨i, hi⟩ := List.getElem?_of_mem hts
  cases ts with
  | nil => simp at ht
  | cons t rest => exact ⟨i, t, rest, hi, ht⟩

/-- **A goroutine of a closed session can go on**, until every write loop has ended and every
`Close` has returned. -/
theorem Ending.progress {waits : Prop} (he : Ending cfg waits s) :
    (s.wg = 0 ∧ .closeReturn ∉ pending s.threads) ∨
      ∃ l u, Internal s l ∧ s.step l = some u ∧ Ending cfg waits u ∧
        effort (pending u.threads) < effort (pending s.threads) := by
  have h := he.reached
  have hpromptly {i : ℕ} {t : Task} {rest : List Task} (hi : s.threads[i]? = some (t :: rest))
      (hp : t.prompt = true) : ∃ l u, Internal s l ∧ s.step l = some u ∧ Ending cfg waits u ∧
        effort (pending u.threads) < effort (pending s.threads) := by
    obtain ⟨n, hn⟩ := exec_prompt h (mem_pending_of_head hi) hp
    have ha := acts_of_exec hn
    refine he.advance hi hn (fun r hr => ?_) (ha.prompt hp).2 (ha.effort_prompt he.closed hp)
    simp [hr, Task.prompt] at hp
  -- the streams that are about to be reset come first
  by_cases hreset : ∃ t ∈ pending s.threads, t.resets = true
  · obtain ⟨t, hm, hr⟩ := hreset
    obtain ⟨i, hd, rest, hi, ht⟩ := exists_head hm
    refine .inr (hpromptly hi ?_)
    rcases List.mem_cons.mp ht with rfl | ht
    · exact Task.prompt_of_resets hr
    · exact (List.pairwise_cons.mp (winding h _ (List.mem_of_getElem? hi)).resets).1 t ht hr
  have hn (r : Ref) : ¬s.Resetting r := by
    rintro (⟨cause, hm⟩ | hm)
    · exact hreset ⟨_, (mem_tasksOf.mp hm).1, rfl⟩
    · exact hreset ⟨_, (mem_tasksOf.mp hm).1, rfl⟩
  -- then the write loops, all of which were told
  by_cases hloop : .wgDone ∈ pending s.threads
  · obtain ⟨i, hd, rest, hi, ht⟩ := exists_head hloop
    have hw := (winding h _ (List.mem_of_getElem? hi)).loop ht hd (List.mem_cons_self ..)
    have hm := mem_pending_of_head hi
    obtain ⟨n, hx⟩ := exec_windsUp h hm hw fun r ticket st heq hst => by
      subst heq
      exact (loop_woken (fun _ _ hok => guarded_of_eq_true hok) h hst (.inl he.closed)
        (mem_tasksOf.mpr ⟨hm, rfl⟩)).resolve_right (hn r)
    have ha := acts_of_exec hx
    refine .inr (he.advance hi hx (fun r hr => ?_) (ha.windsUp hw).2
      (ha.effort_windsUp h hm he.closed hn hw))
    simp [hr, Task.windsUp, Task.prompt, Task.looping] at hw
  have hwg : s.wg = 0 := (wg_eq h).trans (Multiset.count_eq_zero.mpr hloop)
  -- then the callers of `Close`
  by_cases hret : .closeReturn ∈ pending s.threads
  · obtain ⟨i, hd, rest, hi, ht⟩ := exists_head hret
    have hend := (winding h _ (List.mem_of_getElem? hi)).close ht hd (List.mem_cons_self ..)
    rcases Task.ending_cases hend with hp | rfl | rfl
    · exact .inr (hpromptly hi hp)
    · exact .inr (he.advance (n := { sess := s }) hi (by simp [exec, hwg]) (by simp) rfl
        (by simp [Task.effort]))
    · exact .inr (he.advance hi rfl (by simp) rfl (by simp [Task.effort]))
  · exact .inl ⟨hwg, hret⟩

/-- **`Close` can return.** Whatever state a closed session is in, and wherever its goroutines
stand, as long as `CloseWrite` has not closed a direction while the write loop was parked: the
goroutines can go on, without help of the application or the peer, until the write loops have ended
and every `Close` that was called has returned. -/
theorem close_returns (h : Reaches step Attended (new cfg) s) (hc : s.closed = true) :
    ∃ t, Reaches step Internal s t ∧ t.wg = 0 ∧ .closeReturn ∉ pending t.threads ∧
      (.closeReturn ∈ pending s.threads → .closeReturned ∈ t.log) := by
  obtain ⟨t, ht, hend, hwg, hret⟩ : ∃ t, Reaches step Internal s t ∧
      Ending cfg (.closeReturn ∈ pending s.threads) t ∧
      (t.wg = 0 ∧ .closeReturn ∉ pending t.threads) :=
    exists_reaches_of_measure (I := Ending cfg (.closeReturn ∈ pending s.threads))
      (D := fun s => s.wg = 0 ∧ .closeReturn ∉ pending s.threads)
      (fun s => effort (pending s.threads)) (fun s he => he.progress) ⟨h, hc, .inl⟩
  exact ⟨t, ht, hwg, hret, fun hw => (hend.returns hw).resolve_left hret⟩

/-- `Close` was called while a write loop is parked. -/
theorem close_returns_parked :
    ∃ s t, Reaches step Attended (new { role := .host }) s ∧
      s.threads[2]? = some [.sect 0 (.writeLoopWait 0), .wgDone] ∧ s.closed = true ∧
      Reaches step Internal s t ∧ .closeReturned ∈ t.log := by
  obtain ⟨s, hs, hp⟩ := exists_reaches_of_run step Attended (new { role := .host })
    (fun s => s.threads[2]? == some [.sect 0 (.writeLoopWait 0), .wgDone] && s.closed &&
      s.threads.flatten.contains .closeReturn)
    (opens ++ [.call .close, .run 3 .go]) (by decide)
  simp only [Bool.and_eq_true, beq_iff_eq] at hp
  obtain ⟨⟨hloop, hc⟩, hw⟩ := hp
  obtain ⟨t, ht, -, -, hret⟩ := close_returns hs hc
  exact ⟨s, t, hs, hloop, hc, ht, hret (by simpa [pending] using hw)⟩

end Session

/-! ## Stranded write loops -/

/-- The write loop is parked and was not woken; the stream has left the table, the application does
not hold it, and nobody else works on it. -/
structure View.Stranded (r : Ref) (v : View) : Prop where
  unshared : v.st.shared = false
  unlisted : v.listed = false
  parked : ∃ ticket, v.tasks = {.sect r (.writeLoopWait ticket)} ∧ v.st.cond.woken ticket = false

/-- Nothing happens to a stranded write loop. -/
theorem View.Step.stranded {r : Ref} {v v' : View} {a : Option Section} (hs : Step r v a v')
    (h : v.Stranded r) : v'.Stranded r := by
  obtain ⟨ticket, htasks, hw⟩ := h.parked
  have hhead {t : Task} {rest : Multiset Task} (ht : v.tasks = t ::ₘ rest) :
      t = .sect r (.writeLoopWait ticket) := by
    rw [htasks] at ht
    exact ((Multiset.singleton_eq_cons_iff _).mp ht).1.symm
  cases hs with
  | sect ht hf =>
    obtain rfl : _ = Section.writeLoopWait ticket := by simpa using hhead ht
    cases hf with
    | loop_woken hwoken => simp [hw] at hwoken
    | ignored h => cases h
    | refused h => cases h
  | sent ht | lost ht | detach ht => simpa using hhead ht
  | lead ht hl =>
    obtain rfl := hhead ht
    cases hl
  | arrive _ hl | fail hl => simp [h.unlisted] at hl
  | call hshared => simp [h.unshared] at hshared
  | down => exact ⟨h.unshared, h.unlisted, ticket, htasks, hw⟩

namespace Session

variable {cfg : Config} {ok : Session → Label → Prop} {s s' t u : Session} {r : Ref} {st : Stream}

/-- The write loop of the stream `r` is stranded. -/
def Stranded (s : Session) (r : Ref) : Prop :=
  ∃ st, s.heap[r]? = some st ∧ (s.view r st).Stranded r

theorem Stranded.step {l : Label} (h : s.Stranded r) (hr : Reaches Session.step ok (new cfg) s)
    (hs : s.step l = some s') : s'.Stranded r := by
  obtain ⟨st, hst, hv⟩ := h
  obtain ⟨st', hst', heq | ⟨a, hstep, -⟩⟩ :=
    (moves_of_step hs).view (reaches_table hr) (reaches_serving hr) hst
  · exact ⟨st', hst', heq ▸ hv⟩
  · exact ⟨st', hst', hstep.stranded hv⟩

/-- The wait group counts a stranded write loop. -/
theorem Stranded.wg_pos (h : s.Stranded r) (hr : Reaches Session.step ok (new cfg) s) :
    0 < s.wg := by
  obtain ⟨st, -, -, -, ticket, htasks, -⟩ := h
  have hmem : .sect r (.writeLoopWait ticket) ∈ s.tasksOf r := by
    change _ ∈ (s.view r st).tasks
    simp [htasks]
  obtain ⟨ts, hts, hm⟩ := List.mem_flatten.mp (Multiset.mem_coe.mp (mem_tasksOf.mp hmem).1)
  have hdone := (winding hr ts hts).counted ⟨_, hm, rfl⟩
  rw [wg_eq hr]
  exact Multiset.count_pos.mpr (Multiset.mem_coe.mpr (List.mem_flatten.mpr ⟨ts, hts, hdone⟩))

/-- **A stranded write loop stays parked for ever, and `Close` never returns.** Whatever the
application, the peer and the scheduler do from there. -/
theorem stranded_forever (h : Reachable cfg s) (hs : s.Stranded r) (ht : Reaches step Always s t) :
    t.Stranded r ∧ 0 < t.wg ∧ .closeReturned ∉ t.log := by
  obtain ⟨hr, hst⟩ := ht.invariant (I := fun t => Reachable cfg t ∧ t.Stranded r) ⟨h, hs⟩
    fun _ _ _ _ hok hstep ih => ⟨ih.1.tail hok hstep, ih.2.step ih.1 hstep⟩
  have hwg := hst.wg_pos hr
  exact ⟨hst, hwg, fun hl => absurd (ended_of_returned hr hl).2 (by omega)⟩

/-- A stream of the peer that ended in good order: the peer closed its direction, then the endpoint
ended and `Bridge` closed ours. `Close` waits for its write loop. -/
theorem stranded_forever_bridged :
    ∃ s, Reachable { role := .guest } s ∧ s.threads[6]? = some [.wgWait, .closeReturn] ∧
      ∀ t, Reaches step Always s t → .closeReturned ∉ t.log := by
  obtain ⟨s, hs, hp⟩ := exists_reaches_of_run step Always (new { role := .guest })
    (fun s => s.threads == [[], [], [.sect 0 (.writeLoopWait 0), .wgDone], [], [], [],
        [.wgWait, .closeReturn]] && s.streams.isEmpty &&
      s.heap[0]?.any fun st => !st.shared && !st.cond.woken 0)
    (List.flatten
      [[.recv (Outgoing.app (.appOpen 1 (text "svc") [])).frame, .run 0 .go, .run 1 .go,
          .run 1 (.handler (.accept false []))], .replicate 6 (.run 1 .go),
        [.recv (Outgoing.app (.appClose 1)).frame], .replicate 3 (.run 0 .go),
        [.run 2 .go, .run 3 (.epRead [] (some .eof))], .replicate 11 (.run 3 .go),
        .replicate 6 (.run 4 .go), .replicate 2 (.run 5 .go), [.call .close],
        .replicate 3 (.run 6 .go)])
    (by decide)
  simp only [Bool.and_eq_true, beq_iff_eq, List.isEmpty_iff, Option.any_eq_true,
    Bool.not_eq_true'] at hp
  obtain ⟨⟨hthreads, hnil⟩, st, hst, hshared, hw⟩ := hp
  have hstranded : s.Stranded 0 := by
    refine ⟨st, hst, hshared, by simp [view, viewOf, hnil], 0, ?_, hw⟩
    simp [view, viewOf, tasksOf, hthreads]
  exact ⟨s, hs, by simp [hthreads], fun t ht => (stranded_forever hs hstranded ht).2.2⟩

end Session

end Mvcp.App
