import Mathlib.Tactic.Common

/-!
# Runs of a labelled machine

A machine takes a labelled step from a state to at most one state. A run is admitted when
each of its steps is, in the state it is taken from: the predicate `ok` restricts the
schedules under discussion, and `Always` admits every schedule.

## Main definitions

* `Reaches step ok s t`: some admitted run leads from `s` to `t`
* `run step ok ls s`: the state after the labels `ls`, if every step is admitted and defined

## Main results

* `Reaches.invariant`: what holds at the start and is kept by every admitted step holds
  along every admitted run
* `Reaches.mono`: a run admitted by the stronger predicate is admitted by the weaker
* `exists_reaches_of_measure`: where some admitted step lowers a measure until the goal holds,
  the goal can be reached
* `reaches_of_run`: an executed run is a run
-/

namespace Library

variable {S L : Type*}

/-- Every step is admitted. -/
def Always (_ : S) (_ : L) : Prop := True

instance (s : S) (l : L) : Decidable (Always s l) := isTrue trivial

/-- Some run of admitted steps leads from `s` to the given state. -/
inductive Reaches (step : S → L → Option S) (ok : S → L → Prop) (s : S) : S → Prop
  | refl : Reaches step ok s s
  | tail {t u : S} {l : L} :
      Reaches step ok s t → ok t l → step t l = some u → Reaches step ok s u

variable {step : S → L → Option S} {ok ok' : S → L → Prop} {s t u : S}

/-- **The invariant rule**: a predicate that holds at the start and is kept by every admitted
step from a reached state holds in every reached state. -/
theorem Reaches.invariant {I : S → Prop} (h : Reaches step ok s t) (h₀ : I s)
    (hstep : ∀ ⦃t u l⦄, Reaches step ok s t → ok t l → step t l = some u → I t → I u) : I t := by
  induction h with
  | refl => exact h₀
  | tail hr hok hs ih => exact hstep hr hok hs ih

theorem Reaches.trans (h : Reaches step ok s t) (h' : Reaches step ok t u) :
    Reaches step ok s u := by
  induction h' with
  | refl => exact h
  | tail _ hok hs ih => exact ih.tail hok hs

theorem Reaches.mono (hok : ∀ s l, ok s l → ok' s l) (h : Reaches step ok s t) :
    Reaches step ok' s t := by
  induction h with
  | refl => exact .refl
  | tail _ hl hs ih => exact ih.tail (hok _ _ hl) hs

theorem Reaches.always (h : Reaches step ok s t) : Reaches step Always s t :=
  h.mono fun _ _ _ => trivial

/-- **The progress rule**: when from every state that satisfies `I` the goal holds or an admitted
step keeps `I` and lowers the measure, an admitted run leads to the goal. -/
theorem exists_reaches_of_measure {I D : S → Prop} (μ : S → ℕ)
    (h : ∀ s, I s → D s ∨ ∃ l u, ok s l ∧ step s l = some u ∧ I u ∧ μ u < μ s) (hs : I s) :
    ∃ t, Reaches step ok s t ∧ I t ∧ D t := by
  -- the number of steps left is at most the measure
  induction hn : μ s using Nat.strongRecOn generalizing s with
  | _ n ih =>
    rcases h s hs with hd | ⟨l, u, hok, hstep, hu, hlt⟩
    · exact ⟨s, .refl, hs, hd⟩
    · obtain ⟨t, ht, hIt, hDt⟩ := ih (μ u) (hn ▸ hlt) hu rfl
      exact ⟨t, (Reaches.refl.tail hok hstep).trans ht, hIt, hDt⟩

/-- The state after the labels `ls`, if every step is admitted and defined. -/
def run (step : S → L → Option S) (ok : S → L → Prop) [∀ s l, Decidable (ok s l)] :
    List L → S → Option S
  | [], s => some s
  | l :: ls, s => if ok s l then (step s l).bind (run step ok ls) else none

variable [∀ s l, Decidable (ok s l)]

/-- An executed run is a run. -/
theorem reaches_of_run {ls : List L} (h : run step ok ls s = some t) : Reaches step ok s t := by
  induction ls generalizing s with
  | nil =>
    obtain rfl := Option.some.inj h
    exact .refl
  | cons l ls ih =>
    simp only [run] at h
    split_ifs at h with hl
    obtain ⟨u, hu, hrun⟩ := Option.bind_eq_some_iff.mp h
    exact (Reaches.refl.tail hl hu).trans (ih hrun)

/-- An executed run that ends in a state passing the test `p` reaches such a state. -/
theorem exists_reaches_of_run (step : S → L → Option S) (ok : S → L → Prop)
    [∀ s l, Decidable (ok s l)] (s : S) (p : S → Bool) (ls : List L)
    (h : (run step ok ls s).any p = true) : ∃ t, Reaches step ok s t ∧ p t = true := by
  cases hr : run step ok ls s with
  | none => simp [hr] at h
  | some t => exact ⟨t, reaches_of_run hr, by simpa [hr] using h⟩

end Library
