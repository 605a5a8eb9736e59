import Mvcp.Library.Run

/-!
# Recorded runs

Each step of a machine may record something; the record of a run is what its steps recorded, in
order. What a run did, and the state it led to does not remember, is said about the record.

## Main definitions

* `Records step ok f s es t`: some admitted run leads from `s` to `t` and records `es`
* `record step f ls s`: what the labels `ls` record

## Main results

* `Records.invariant`: the invariant rule, over the state and the record
* `records_of_run`: an executed run is a recorded run
-/

namespace Library

variable {S L E : Type*}

/-- Some run of admitted steps leads from `s` to the given state and records the given list. -/
inductive Records (step : S → L → Option S) (ok : S → L → Prop) (f : S → L → S → List E) (s : S) :
    List E → S → Prop
  | refl : Records step ok f s [] s
  | tail {es : List E} {t u : S} {l : L} :
      Records step ok f s es t → ok t l → step t l = some u →
        Records step ok f s (es ++ f t l u) u

variable {step : S → L → Option S} {ok : S → L → Prop} {f : S → L → S → List E} {s t : S}
variable {es : List E}

theorem Records.reaches (h : Records step ok f s es t) : Reaches step ok s t := by
  induction h with
  | refl => exact .refl
  | tail _ hok hs ih => exact ih.tail hok hs

/-- Every run has its record. -/
theorem Reaches.records (h : Reaches step ok s t) : ∃ es, Records step ok f s es t := by
  induction h with
  | refl => exact ⟨[], .refl⟩
  | tail _ hok hs ih =>
    obtain ⟨es, hes⟩ := ih
    exact ⟨_, hes.tail hok hs⟩

/-- **The invariant rule**, over the state and the record. -/
theorem Records.invariant {I : List E → S → Prop} (h : Records step ok f s es t) (h₀ : I [] s)
    (hstep : ∀ ⦃es t u l⦄, Reaches step ok s t → ok t l → step t l = some u → I es t →
      I (es ++ f t l u) u) : I es t := by
  induction h with
  | refl => exact h₀
  | tail hr hok hs ih => exact hstep hr.reaches hok hs ih

/-- What the labels `ls` record, from the state `s` on. -/
def record (step : S → L → Option S) (f : S → L → S → List E) : List L → S → List E
  | [], _ => []
  | l :: ls, s => (step s l).elim [] fun t => f s l t ++ record step f ls t

variable [∀ s l, Decidable (ok s l)]

/-- An executed run, after a recorded one, is a recorded run. -/
theorem Records.run {ls : List L} {u : S} (h : Records step ok f s es t)
    (hr : Library.run step ok ls t = some u) :
    Records step ok f s (es ++ record step f ls t) u := by
  induction ls generalizing es t with
  | nil =>
    obtain rfl := Option.some.inj hr
    rwa [record, List.append_nil]
  | cons l ls ih =>
    simp only [Library.run] at hr
    split_ifs at hr with hl
    obtain ⟨v, hv, hrun⟩ := Option.bind_eq_some_iff.mp hr
    rw [record, hv, Option.elim_some, ← List.append_assoc]
    exact ih (h.tail hl hv) hrun

/-- An executed run that passes the test `p` with what it recorded is a recorded run. -/
theorem exists_records_of_run (step : S → L → Option S) (ok : S → L → Prop)
    [∀ s l, Decidable (ok s l)] (f : S → L → S → List E) (s : S) (p : List E → S → Bool)
    (ls : List L) (h : (Library.run step ok ls s).any (p (record step f ls s)) = true) :
    ∃ es t, Records step ok f s es t ∧ p es t = true := by
  cases hr : Library.run step ok ls s with
  | none => simp [hr] at h
  | some t => exact ⟨_, t, by simpa using Records.refl.run hr, by simpa [hr] using h⟩

end Library
