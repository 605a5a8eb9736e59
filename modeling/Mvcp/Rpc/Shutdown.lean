import Mvcp.Rpc.Calls

/-!
# Shutdown

`shutdown` ends with `wg.Wait`, and the only goroutine of the wait group is the read loop. `Close`
and the goroutine of `Start` may wait for it; the read loop runs `shutdown` too, on a read error,
and the first caller of `shutdown` is the one that waits.

## Main definitions

* `Goroutine`, `InWait`, `Owes`: who waits in `shutdown`, and whose `wg.Done` is outstanding
* `SelfWait`: a goroutine waits for nobody but itself
* `LateEnter`: the read loop runs `shutdown` on a closed client only
* `LoopAlone`: the read loop goes on, and nobody else

## Main results

* `Client.no_self_wait`: with `LateEnter`, nobody waits for itself, and the read loop exits after a
  read error
* `Client.self_wait_of_read_error`: without it, the read loop waits for itself for ever
-/

namespace Mvcp.Rpc

open Library

namespace Client

variable {s u : Client} {l : Label}

/-- The goroutines that run `shutdown`. -/
inductive Goroutine
  | readLoop
  | closer (i : ℕ)

/-- The goroutine is in `wg.Wait`. -/
def InWait (s : Client) : Goroutine → Prop
  | .readLoop => s.loop = .waiting
  | .closer i => ∃ k, s.closers[i]? = some k ∧ k.phase = .waiting

/-- The goroutine has a `wg.Done` to execute. -/
def Owes (s : Client) : Goroutine → Prop
  | .readLoop => s.wg ≠ 0
  | .closer _ => False

/-- A goroutine is blocked in `wg.Wait`, and no other goroutine can release it. -/
def SelfWait (s : Client) : Prop := ∃ g, s.InWait g ∧ s.wg ≠ 0 ∧ ∀ g', s.Owes g' → g' = g

/-- The read loop runs `shutdown` only once the client is closed. -/
def LateEnter (s : Client) (l : Label) : Prop :=
  match s.loop, l with
  | .enter, .loop .go => s.closed = true
  | _, _ => True

/-- The read loop goes on. -/
def resumes : Label → Bool
  | .loop .go => true
  | _ => false

theorem lateEnter_iff :
    s.LateEnter l ↔ (resumes l = true → s.loop = .enter → s.closed = true) := by
  cases l with
  | loop x => cases x <;> cases hl : s.loop <;> simp [LateEnter, resumes, hl]
  | _ => simp [LateEnter, resumes]

instance (s : Client) (l : Label) : Decidable (s.LateEnter l) :=
  decidable_of_iff _ lateEnter_iff.symm

/-- Only the read loop can wait for itself. -/
theorem selfWait_iff : s.SelfWait ↔ s.loop = .waiting := by
  constructor
  · rintro ⟨g, hg, hwg, hall⟩
    -- the read loop is the one that owes, so it is the one that waits
    obtain rfl := hall .readLoop hwg
    exact hg
  · intro hl
    refine ⟨.readLoop, hl, by simp [wg, hl], ?_⟩
    rintro (_ | i) ho
    · rfl
    · exact ho.elim

/-- The read loop gets into `wg.Wait` by its own `shutdown` of an open client. -/
theorem waiting_of_step (h : s.step l = some u) (hu : u.loop = .waiting) :
    s.loop = .waiting ∨ s.loop = .enter ∧ l = .loop .go ∧ s.closed = false := by
  cases moves_of_step h with
  | start =>
    split_ifs at hu
    exact .inl hu
  | spawn | miss | look | clear => simp at hu
  | loop hl hp hw => exact absurd hu hw.2
  | accept | drop =>
    simp only [afterSend] at hu
    split_ifs at hu
  | shutLoop hl hc => exact .inr ⟨hl, rfl, hc⟩
  | op => exact .inl (by simpa using hu)
  | startDone | close | shutCloser | closer | call => exact .inl hu

/-- It stays there. -/
theorem waiting_step (h : s.step l = some u) (hl : s.loop = .waiting) : u.loop = .waiting := by
  cases moves_of_step h with
  | start => simp [hl]
  | loop hl' hp hw => exact absurd hl hw.1
  | spawn hl' | shutLoop hl' | miss hl' | look hl' | accept hl' | drop hl' | clear hl' =>
    simp [hl] at hl'
  | op => simpa using hl
  | startDone | close | shutCloser | closer | call => exact hl

/-- The goroutine of the read loop after a read error. -/
def Failing (s : Client) : Prop := s.loop = .failed ∨ s.loop = .enter

/-- The read loop goes on, and nobody else. -/
def LoopAlone (s : Client) (l : Label) : Prop := s.LateEnter l ∧ resumes l = true

/-- On a closed client the read loop exits by itself. -/
theorem exits_of_closed (hf : s.Failing) (hc : s.closed = true) :
    ∃ t, Reaches step LoopAlone s t ∧ t.loop = .exited := by
  have hok {u : Client} (hu : u.loop = .failed ∨ u.loop = .enter ∧ u.closed = true) :
      u.LoopAlone (.loop .go) := by
    rcases hu with hl | ⟨hl, hc⟩ <;> simp [LoopAlone, LateEnter, resumes, *]
  have henter {u : Client} (hl : u.loop = .enter) (hc : u.closed = true) :
      u.step (.loop .go) = some { u with loop := .exited } := by simp [step, stepLoop, hl, hc]
  rcases hf with hl | hl
  · cases hx : s.cancelled with
    | true =>
      have hstep : s.step (.loop .go) = some { s with loop := .exited } := by
        simp [step, stepLoop, hl, hx]
      exact ⟨_, Reaches.refl.tail (hok (.inl hl)) hstep, rfl⟩
    | false =>
      have hstep : s.step (.loop .go) = some { s with loop := .enter } := by
        simp [step, stepLoop, hl, hx]
      exact ⟨_, (Reaches.refl.tail (hok (.inl hl)) hstep).tail (hok (.inr ⟨rfl, hc⟩))
        (henter rfl hc), rfl⟩
  · exact ⟨_, Reaches.refl.tail (hok (.inr ⟨hl, hc⟩)) (henter hl hc), rfl⟩

/-- `Close` closes an open client. -/
theorem closes (hf : s.Failing) :
    ∃ t, Reaches step LateEnter s t ∧ t.Failing ∧ t.closed = true := by
  cases hc : s.closed with
  | true => exact ⟨s, .refl, hf, hc⟩
  | false =>
    let s₁ : Client := { s with closers := s.closers ++ [{ isClose := true }] }
    let s₂ : Client := { s₁.shut with
      closers := s₁.closers.set s.closers.length ⟨true, .waiting⟩ }
    have h₁ : s.step .close = some s₁ := rfl
    have h₂ : s₁.step (.closer s.closers.length) = some s₂ := by
      simp [step, stepCloser, s₁, s₂, hc]
    refine ⟨s₂, (Reaches.refl.tail ?_ h₁).tail ?_ h₂, hf, rfl⟩
    · simp [LateEnter]
    · simp [LateEnter]

/-- **Nobody waits for itself** in a run in which the read loop runs `shutdown` on a closed client
only. No goroutine is blocked in `wg.Wait` with its own `wg.Done` the only one left. After a read
error the step into `shutdown` is the exit of the read loop, and it can get there: by itself once
the client is closed, and with a `Close` before that otherwise. -/
theorem no_self_wait (h : Reached LateEnter s) :
    ¬ s.SelfWait ∧ (s.Failing → ∃ t, Reaches step LateEnter s t ∧ t.loop = .exited) ∧
      (s.loop = .enter → s.LateEnter (.loop .go) → ∀ u, s.step (.loop .go) = some u →
        u.loop = .exited) ∧
      (s.Failing → s.closed = true → ∃ t, Reaches step LoopAlone s t ∧ t.loop = .exited) := by
  refine ⟨?_, fun hf => ?_, fun hl hok u hu => ?_, exits_of_closed⟩
  · rw [selfWait_iff]
    refine Reaches.invariant (I := fun s => s.loop ≠ .waiting) h (by simp) ?_
    intro t u l _ hok hs hne hu
    rcases waiting_of_step hs hu with hl | ⟨hl, rfl, hc⟩
    · exact hne hl
    · simp [LateEnter, hl, hc] at hok
  · obtain ⟨t, ht, hft, hct⟩ := closes hf
    obtain ⟨w, hw, hwl⟩ := exits_of_closed hft hct
    exact ⟨w, ht.trans (hw.mono fun _ _ hok => hok.1), hwl⟩
  · have hc : s.closed = true := by simpa [LateEnter, hl] using hok
    simp only [step, stepLoop, hl, hc, if_true, Option.some.injEq] at hu
    rw [← hu]

/-- `Close` and the goroutine of `Start` run while a read error is handled: `Close` waits for the
read loop, which exits. -/
theorem no_self_wait_close :
    ∃ s, Reached LateEnter s ∧ s.Failing ∧ s.InWait (.closer 0) ∧ ¬ s.SelfWait ∧
      ∃ t, Reaches step LoopAlone s t ∧ t.loop = .exited := by
  obtain ⟨s, hs, ht⟩ := exists_reaches_of_run step LateEnter {}
    (fun s => s.loop == .enter && s.closed && s.closers[0]?.any fun k => k.phase == .waiting)
    [.start, .spawn, .close, .startDone, .loop .go, .loop .error, .loop .go, .closer 0, .closer 1]
    (by decide)
  simp only [Option.any_eq_true, Bool.and_eq_true, beq_iff_eq] at ht
  obtain ⟨⟨hl, hc⟩, k, hk, hp⟩ := ht
  obtain ⟨hno, -, -, hexit⟩ := no_self_wait hs
  exact ⟨s, hs, .inr hl, ⟨k, hk, hp⟩, hno, hexit (.inr hl) hc⟩

/-- **The read loop waits for itself.** A started client reads an error: its read loop is the first
to run `shutdown`, waits for its own `wg.Done`, and never exits. -/
theorem self_wait_of_read_error :
    ∃ s, Reached Always s ∧ s.SelfWait ∧ ∀ t, Reaches step Always s t → t.loop = .waiting := by
  obtain ⟨s, hs, ht⟩ := exists_reaches_of_run step Always {} (fun s => s.loop == .waiting)
    [.start, .spawn, .loop .go, .loop .error, .loop .go, .loop .go] (by decide)
  have hl : s.loop = .waiting := by simpa using ht
  refine ⟨s, hs, selfWait_iff.mpr hl, fun t hst => ?_⟩
  exact hst.invariant hl fun _ _ _ _ _ hstep hw => waiting_step hstep hw

end Client

end Mvcp.Rpc
