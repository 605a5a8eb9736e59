import Mathlib.Data.List.Nodup
import Mathlib.Tactic.Common

/-!
# Maps that are iterated

A map is the function from a key to its entry. Code that iterates over a map sees its entries
one after the other, each once, in an order of the runtime's choice: an enumeration of the map
is such a list. A loop whose rounds each rewrite only the place of their own key leaves the same
map behind for every enumeration.

## Main definitions

* `Enumerates m es`: an iteration over the map `m` may see the entries `es`
* `PointwiseRounds g h`: a round of the loop rewrites the place of its key, by `h`

## Main results

* `lookup_eq_some_iff`: a list of entries with different keys is a map
* `lookup_filter_ne`: the map without a key
* `PointwiseRounds.foldl_eq`: what the loop leaves at a key
-/

namespace Library

variable {K V W : Type*}

/-- An iteration over the map `m` may see the entries `es`, in this order. -/
structure Enumerates (m : K → Option V) (es : List (K × V)) : Prop where
  keys : (es.map Prod.fst).Nodup
  mem_iff : ∀ k v, (k, v) ∈ es ↔ m k = some v

theorem lookup_of_mem [BEq K] [LawfulBEq K] {es : List (K × V)} (hkeys : (es.map Prod.fst).Nodup)
    {k : K} {v : V} (hm : (k, v) ∈ es) : es.lookup k = some v := by
  obtain ⟨l₁, l₂, hl⟩ := List.append_of_mem hm
  refine List.lookup_eq_some_iff.mpr ⟨l₁, l₂, hl, fun p hp => ?_⟩
  rw [hl, List.map_append, List.map_cons, List.nodup_append] at hkeys
  simpa using (hkeys.2.2 p.1 (List.mem_map_of_mem hp) k (by simp)).symm

theorem mem_of_lookup [BEq K] [LawfulBEq K] {es : List (K × V)} {k : K} {v : V}
    (h : es.lookup k = some v) : (k, v) ∈ es := by
  obtain ⟨l₁, l₂, hl, -⟩ := List.lookup_eq_some_iff.mp h
  simp [hl]

/-- A list of entries with different keys is a map: an entry is found exactly under its key. -/
theorem lookup_eq_some_iff [BEq K] [LawfulBEq K] {es : List (K × V)}
    (hkeys : (es.map Prod.fst).Nodup) {k : K} {v : V} : es.lookup k = some v ↔ (k, v) ∈ es :=
  ⟨mem_of_lookup, lookup_of_mem hkeys⟩

/-- The map without the key `k`. -/
theorem lookup_filter_ne [BEq K] [LawfulBEq K] [DecidableEq K] {k : K} {p : K × V → Bool}
    (hp : ∀ e, p e = true ↔ e.1 ≠ k) (es : List (K × V)) (k' : K) :
    (es.filter p).lookup k' = if k' = k then none else es.lookup k' := by
  induction es with
  | nil => simp
  | cons e es ih =>
    obtain ⟨a, v⟩ := e
    by_cases ha : a = k
    · rw [List.filter_cons_of_neg (by simp [hp, ha]), ih, List.lookup_cons]
      split_ifs with hk
      · rfl
      · rw [beq_eq_false_iff_ne.mpr (ha ▸ hk)]
    · rw [List.filter_cons_of_pos ((hp (a, v)).mpr ha), List.lookup_cons, List.lookup_cons, ih]
      by_cases hk : k' = a
      · simp [hk, ha]
      · simp [beq_eq_false_iff_ne.mpr hk]

/-- The entry of a key among those that an iteration sees. -/
theorem Enumerates.lookup [BEq K] [LawfulBEq K] {m : K → Option V} {es : List (K × V)}
    (h : Enumerates m es) (k : K) : es.lookup k = m k := by
  cases hm : m k with
  | none =>
    apply List.lookup_eq_none_iff.mpr
    intro p hp
    have hne : k ≠ p.1 := by
      rintro rfl
      simp [(h.mem_iff p.1 p.2).mp hp] at hm
    simpa using hne
  | some v => exact lookup_of_mem h.keys ((h.mem_iff k v).mpr hm)

/-- A list of entries with different keys is seen by an iteration over the map it stands for. -/
theorem enumerates_lookup [BEq K] [LawfulBEq K] {es : List (K × V)}
    (hkeys : (es.map Prod.fst).Nodup) : Enumerates (fun k => es.lookup k) es where
  keys := hkeys
  mem_iff _ _ := (lookup_eq_some_iff hkeys).symm

/-- A round of a loop over a map rewrites the place of its key, by `h`. -/
def PointwiseRounds [DecidableEq K] (g : (K → W) → K × V → K → W) (h : K → V → W → W) : Prop :=
  ∀ out e k, g out e k = if k = e.1 then h e.1 e.2 (out k) else out k

/-- **What a loop over a map leaves at a key**: the rounds of other keys pass it by. -/
theorem PointwiseRounds.foldl_eq [DecidableEq K] {g : (K → W) → K × V → K → W}
    {h : K → V → W → W} (hg : PointwiseRounds g h) {es : List (K × V)}
    (hkeys : (es.map Prod.fst).Nodup) (out : K → W) (k : K) :
    es.foldl g out k = (es.lookup k).elim (out k) fun v => h k v (out k) := by
  induction es generalizing out with
  | nil => rfl
  | cons e es ih =>
    rw [List.map_cons, List.nodup_cons] at hkeys
    rw [List.foldl_cons, ih hkeys.2, List.lookup_cons]
    by_cases hk : k = e.1
    · subst hk
      -- no later round has this key
      have hnone : es.lookup e.1 = none := by
        apply List.lookup_eq_none_iff.mpr
        intro p hp
        have hne : e.1 ≠ p.1 := fun he => hkeys.1 (he ▸ List.mem_map_of_mem hp)
        simpa using hne
      simp [hnone, hg out e e.1]
    · have hbeq : (k == e.1) = false := by simpa using hk
      rw [hbeq, hg out e k, if_neg hk]

end Library
