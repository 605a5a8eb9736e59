import Mathlib.Tactic.Common

/-!
# Histories

A history is the list of what happened, in order. What concerns one part of a system is read off
a history by a partial function on its entries.

## Main results

* `eq_of_countP_filterMap_le`: what is recorded once is recorded in one place
* `filter_filterMap_drop`: entries of no interest at the beginning can be left out
-/

namespace Library

variable {α β : Type*} {f : α → Option β} {p : β → Bool} {l : List α}

theorem countP_filterMap_pos {a : α} (ha : a ∈ l) (hp : (f a).any p = true) :
    0 < (l.filterMap f).countP p := by
  obtain ⟨b, hb, hpb⟩ : ∃ b, f a = some b ∧ p b = true := by
    cases h : f a with
    | none => simp [h] at hp
    | some b => exact ⟨b, rfl, by simpa [h] using hp⟩
  exact List.countP_pos_iff.mpr ⟨b, List.mem_filterMap.mpr ⟨a, ha, hb⟩, hpb⟩

theorem countP_filterMap_two {j k : ℕ} {a b : α} (hjk : j < k) (hj : l[j]? = some a)
    (hk : l[k]? = some b) (ha : (f a).any p = true) (hb : (f b).any p = true) :
    1 < (l.filterMap f).countP p := by
  -- one of the two entries is among the first `j + 1`, the other is not
  have ha' : a ∈ l.take (j + 1) :=
    List.mem_of_getElem? (i := j) (by rw [List.getElem?_take_of_lt (Nat.lt_succ_self j), hj])
  have hb' : b ∈ l.drop (j + 1) :=
    List.mem_of_getElem? (i := k - (j + 1)) (by rw [List.getElem?_drop, ← hk]; congr 1; omega)
  have h₁ := countP_filterMap_pos ha' ha
  have h₂ := countP_filterMap_pos hb' hb
  rw [← List.take_append_drop (j + 1) l, List.filterMap_append, List.countP_append]
  omega

/-- **What is recorded once is recorded in one place.** -/
theorem eq_of_countP_filterMap_le {j k : ℕ} {a b : α} (h : (l.filterMap f).countP p ≤ 1)
    (hj : l[j]? = some a) (hk : l[k]? = some b) (ha : (f a).any p = true)
    (hb : (f b).any p = true) : j = k := by
  by_contra hne
  rcases Nat.lt_or_gt_of_ne hne with hlt | hlt
  · exact Nat.not_lt.mpr h (countP_filterMap_two hlt hj hk ha hb)
  · exact Nat.not_lt.mpr h (countP_filterMap_two hlt hk hj hb ha)

/-- **Entries of no interest at the beginning can be left out.** -/
theorem filter_filterMap_drop {k : ℕ} (h : ∀ b ∈ (l.take k).filterMap f, p b = false) :
    ((l.drop k).filterMap f).filter p = (l.filterMap f).filter p := by
  have hnil : ((l.take k).filterMap f).filter p = [] :=
    List.filter_eq_nil_iff.mpr fun b hb => by simp [h b hb]
  conv_rhs => rw [← List.take_append_drop k l, List.filterMap_append, List.filter_append, hnil]
  rfl

end Library
