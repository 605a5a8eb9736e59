import Mathlib.Algebra.BigOperators.Group.Multiset.Basic
import Mathlib.Tactic.Abel
import Mathlib.Tactic.Common

/-!
# Pools of sequential tasks

A pool is a list of goroutines, each the list of the tasks it still has to do, in order. A
scheduling step takes the first task of one goroutine, puts the tasks it leads to in front of
that goroutine's rest, and starts the goroutines it spawns. Read as a multiset, the pool loses
the task and gains what the task produced.

## Main definitions

* `pending ts`: the tasks of all goroutines
* `advance ts i next spawned`: goroutine `i` continues with `next`

## Main results

* `pending_advance`: one scheduling step on the multiset of pending tasks
* `advance_getElem?`: the goroutines after one scheduling step
* `map_set_of_eq`: the images of a list after one entry was replaced
* `sum_map_set`: the sum of a measure after one entry of a list was replaced
-/

namespace Library

variable {τ : Type*}

/-- The tasks of all goroutines of a pool. -/
def pending (ts : List (List τ)) : Multiset τ := ↑ts.flatten

/-- Goroutine `i` continues with `next`, and the goroutines `spawned` start. -/
def advance (ts : List (List τ)) (i : ℕ) (next : List τ) (spawned : List (List τ)) :
    List (List τ) :=
  ts.set i next ++ spawned

theorem pending_append (ts us : List (List τ)) : pending (ts ++ us) = pending ts + pending us := by
  simp [pending]

@[simp] theorem pending_nil : pending ([] : List (List τ)) = 0 := rfl

@[simp] theorem pending_cons (t : List τ) (ts : List (List τ)) :
    pending (t :: ts) = (t : Multiset τ) + pending ts := by
  simp [pending]

/-- The tasks of one goroutine, and those of the others. -/
theorem pending_set {ts : List (List τ)} {i : ℕ} {old : List τ} (h : ts[i]? = some old) :
    ∃ others, pending ts = (old : Multiset τ) + others ∧
      ∀ new, pending (ts.set i new) = (new : Multiset τ) + others := by
  induction ts generalizing i with
  | nil => simp at h
  | cons t ts ih =>
    cases i with
    | zero =>
      simp only [List.getElem?_cons_zero, Option.some.injEq] at h
      exact ⟨pending ts, by simp [h], fun new => by simp⟩
    | succ i =>
      obtain ⟨others, h₁, h₂⟩ := ih (by simpa using h)
      refine ⟨(t : Multiset τ) + others, ?_, fun new => ?_⟩
      · rw [pending_cons, h₁, add_left_comm]
      · rw [List.set_cons_succ, pending_cons, h₂, add_left_comm]

/-- **One scheduling step**: the pool loses the task and gains the tasks it led to and those of
the goroutines it spawned. -/
theorem pending_advance {ts : List (List τ)} {i : ℕ} {t : τ} {rest : List τ}
    (h : ts[i]? = some (t :: rest)) :
    ∃ others, pending ts = t ::ₘ others ∧ ∀ push spawned,
      pending (advance ts i (push ++ rest) spawned) =
        (push : Multiset τ) + pending spawned + others := by
  obtain ⟨others, h₁, h₂⟩ := pending_set h
  refine ⟨(rest : Multiset τ) + others, ?_, fun push spawned => ?_⟩
  · rw [h₁, ← Multiset.cons_coe, Multiset.cons_add]
  · rw [advance, pending_append, h₂, ← Multiset.coe_add]
    abel

section Goroutines

variable {ts spawned : List (List τ)} {i j : ℕ} {next us : List τ}

/-- The goroutines after a scheduling step. -/
theorem advance_getElem? (h : (advance ts i next spawned)[j]? = some us) :
    j = i ∧ us = next ∨ j ≠ i ∧ ts[j]? = some us ∨ ts.length ≤ j ∧ us ∈ spawned := by
  rw [advance] at h
  by_cases hj : j < ts.length
  · rw [List.getElem?_append_left (by simpa using hj), List.getElem?_set] at h
    split_ifs at h with hi hl
    · exact .inl ⟨hi.symm, (Option.some.inj h).symm⟩
    · exact .inr (.inl ⟨Ne.symm hi, h⟩)
  · rw [List.getElem?_append_right (by simpa using hj)] at h
    exact .inr (.inr ⟨Nat.not_lt.mp hj, List.mem_of_getElem? h⟩)

theorem advance_getElem?_self (hi : i < ts.length) :
    (advance ts i next spawned)[i]? = some next := by
  rw [advance, List.getElem?_append_left (by simpa using hi), List.getElem?_set_self hi]

theorem advance_getElem?_ne (hj : j < ts.length) (hne : i ≠ j) :
    (advance ts i next spawned)[j]? = ts[j]? := by
  rw [advance, List.getElem?_append_left (by simpa using hj), List.getElem?_set_ne hne]

end Goroutines

/-- The entries of a list after one was added. -/
theorem getElem?_concat_cases {α : Type*} {l : List α} {a b : α} {i : ℕ}
    (h : (l ++ [a])[i]? = some b) : i < l.length ∧ l[i]? = some b ∨ i = l.length ∧ b = a := by
  by_cases hi : i < l.length
  · exact .inl ⟨hi, by rwa [List.getElem?_append_left hi] at h⟩
  · rw [List.getElem?_append_right (Nat.not_lt.mp hi), List.getElem?_singleton] at h
    split_ifs at h with h0
    exact .inr ⟨by omega, (Option.some.inj h).symm⟩

/-- An entry of a list is replaced by one with the same image. -/
theorem map_set_of_eq {α β : Type*} {f : α → β} {l : List α} {i : ℕ} {a b : α}
    (h : l[i]? = some a) (hf : f b = f a) : (l.set i b).map f = l.map f := by
  obtain ⟨hlt, rfl⟩ := List.getElem?_eq_some_iff.mp h
  rw [List.map_set, hf, ← List.getElem_map f (h := by simpa using hlt), List.set_getElem_self]

/-- A measure of a list whose entry `i` was replaced. -/
theorem sum_map_set {α : Type*} (f : α → ℕ) {l : List α} {i : ℕ} {a : α} (h : l[i]? = some a)
    (b : α) : ((l.set i b).map f).sum + f a = (l.map f).sum + f b := by
  induction l generalizing i with
  | nil => simp at h
  | cons c l ih =>
    cases i with
    | zero =>
      simp only [List.getElem?_cons_zero, Option.some.injEq] at h
      subst h
      simp only [List.set_cons_zero, List.map_cons, List.sum_cons]
      omega
    | succ i =>
      have := ih (i := i) (by simpa using h)
      simp only [List.set_cons_succ, List.map_cons, List.sum_cons]
      omega

end Library
