import Mvcp.Negotiation.Hello
import Mathlib.Data.List.Nodup

/-!
# Capability tables and negotiation

`capabilities.go`: the table a capability list stands for, the revisions two tables have in
common, and the requirements of a service. A Go map is the function from a key to its entry.
The requirements are iterated, so they are a list of entries with different keys: the order of
the list is the order the runtime picks for the iteration.

## Main definitions

* `Hello.advertised`: the table of a capability list
* `negotiate`: the highest common revision of each capability
* `Requirements`, `Requirements.check`: the requirements of a service

## Main results

* `negotiate_comm`: negotiation is symmetric
* `Hello.advertised_sorted`: a list without repeated ids has the table of its sorted form
* `Requirements.check_eq_ok`: the check passes when every requirement is met
-/

namespace Mvcp

/-- The revision range a peer supports for a capability. -/
structure CapabilitySupport where
  minRevision : UInt16
  maxRevision : UInt16
  deriving DecidableEq

/-- A peer's full capability table. -/
abbrev AdvertisedCapabilities := CapabilityID → Option CapabilitySupport

/-- The revision both peers agreed on, for each capability they agreed on. -/
abbrev NegotiatedCapabilities := CapabilityID → Option UInt16

/-! ## The table of a list -/

def Capability.support (c : Capability) : CapabilitySupport := ⟨c.minRevision, c.maxRevision⟩

/-- `out[c.ID] = …`. -/
def AdvertisedCapabilities.store (out : AdvertisedCapabilities) (c : Capability) :
    AdvertisedCapabilities :=
  Function.update out c.id (some c.support)

/-- `advertised`: the entries of the list are stored one after the other. -/
def Hello.advertised (h : Hello) : AdvertisedCapabilities :=
  h.capabilities.foldl AdvertisedCapabilities.store fun _ => none

/-- Storing entries with different keys: a key holds its entry, or what it held before. -/
theorem AdvertisedCapabilities.foldl_store_eq {cs : List Capability}
    (hids : (cs.map Capability.id).Nodup) (out : AdvertisedCapabilities) (id : CapabilityID)
    (x : Option CapabilitySupport) :
    cs.foldl store out id = x ↔
      (∃ c ∈ cs, c.id = id ∧ some c.support = x) ∨ id ∉ cs.map Capability.id ∧ out id = x := by
  induction cs generalizing out with
  | nil => simp
  | cons c cs ih =>
    rw [List.map_cons, List.nodup_cons] at hids
    rw [List.foldl_cons, ih hids.2]
    by_cases hc : c.id = id
    · subst hc
      -- no later entry has the id of this one
      have hnone : ¬ ∃ c' ∈ cs, c'.id = c.id ∧ some c'.support = x := by
        rintro ⟨c', hc', he, -⟩
        exact hids.1 (List.mem_map.mpr ⟨c', hc', he⟩)
      simp [store, hids.1, hnone]
    · simp [store, hc, Ne.symm hc]

/-- The table of a list without repeated ids does not depend on the order of the list. -/
theorem Hello.advertised_perm {h h' : Hello} (hids : (h.capabilities.map Capability.id).Nodup)
    (hp : h'.capabilities.Perm h.capabilities) : h'.advertised = h.advertised := by
  have hids' : (h'.capabilities.map Capability.id).Nodup := (hp.map _).nodup_iff.mpr hids
  funext id
  have h₀ := (AdvertisedCapabilities.foldl_store_eq hids (fun _ => none) id
    (h.advertised id)).mp rfl
  apply (AdvertisedCapabilities.foldl_store_eq hids' _ id _).mpr
  simpa [hp.mem_iff] using h₀

theorem Hello.advertised_sorted (sortSlice : SortByID) {h : Hello}
    (hids : (h.capabilities.map Capability.id).Nodup) :
    (h.sorted sortSlice).advertised = h.advertised :=
  advertised_perm hids (sortSlice.perm _)

/-! ## Negotiation -/

/-- `Negotiate`: the loop over `peer` stores at most one entry for each of its keys. -/
def negotiate (peer loc : AdvertisedCapabilities) : NegotiatedCapabilities := fun id =>
  match peer id, loc id with
  | some p, some l =>
    let lo := max p.minRevision l.minRevision
    let hi := min p.maxRevision l.maxRevision
    if lo ≤ hi then some hi else none
  | _, _ => none

theorem uint16_max_comm (a b : UInt16) : max a b = max b a := by
  show (if a ≤ b then b else a) = if b ≤ a then a else b
  split_ifs with h₁ h₂ h₂
  · exact UInt16.le_antisymm h₂ h₁
  · rfl
  · rfl
  · exact absurd ((UInt16.le_total a b).resolve_left h₁) h₂

theorem uint16_min_comm (a b : UInt16) : min a b = min b a := by
  show (if a ≤ b then a else b) = if b ≤ a then b else a
  split_ifs with h₁ h₂ h₂
  · exact UInt16.le_antisymm h₁ h₂
  · rfl
  · rfl
  · exact absurd ((UInt16.le_total a b).resolve_left h₁) h₂

/-- Negotiation is symmetric. -/
theorem negotiate_comm (a b : AdvertisedCapabilities) : negotiate a b = negotiate b a := by
  funext id
  unfold negotiate
  cases a id with
  | none => cases b id <;> rfl
  | some p =>
    cases b id with
    | none => rfl
    | some l =>
      show (if _ then _ else _) = (if _ then _ else _)
      rw [uint16_max_comm, uint16_min_comm]

/-! ## Requirements -/

/-- The minimum revision a service needs for each capability. -/
structure Requirements where
  entries : List (CapabilityID × UInt16)
  keys : (entries.map Prod.fst).Nodup

namespace Requirements

/-- The loop of `Check`. -/
def checkEntries (n : NegotiatedCapabilities) : List (CapabilityID × UInt16) → Except String Unit
  | [] => .ok ()
  | (id, minRev) :: rest =>
    match n id with
    | none => .error ("mvcp: capability 0x" ++ hex02 id ++ " not negotiated (required >= " ++
        toString minRev.toNat ++ ")")
    | some rev =>
      if rev < minRev then
        .error ("mvcp: capability 0x" ++ hex02 id ++ " negotiated at revision " ++
          toString rev.toNat ++ ", required >= " ++ toString minRev.toNat)
      else checkEntries n rest

/-- `Check`: the error of the first requirement that is not met. -/
def check (r : Requirements) (n : NegotiatedCapabilities) : Except String Unit :=
  checkEntries n r.entries

/-- Every requirement is met. -/
def Satisfied (r : Requirements) (n : NegotiatedCapabilities) : Prop :=
  ∀ e ∈ r.entries, ∃ rev, n e.1 = some rev ∧ e.2 ≤ rev

theorem checkEntries_eq_ok {n : NegotiatedCapabilities} {es : List (CapabilityID × UInt16)} :
    checkEntries n es = .ok () ↔ ∀ e ∈ es, ∃ rev, n e.1 = some rev ∧ e.2 ≤ rev := by
  induction es with
  | nil => simp [checkEntries]
  | cons e es ih =>
    obtain ⟨id, minRev⟩ := e
    simp only [checkEntries, List.forall_mem_cons]
    cases hn : n id with
    | none => simp
    | some rev =>
      dsimp only
      split_ifs with hlt
      · simp [UInt16.not_le.mpr hlt]
      · simp [ih, UInt16.not_lt.mp hlt]

theorem check_eq_ok {r : Requirements} {n : NegotiatedCapabilities} :
    r.check n = .ok () ↔ r.Satisfied n :=
  checkEntries_eq_ok

end Requirements

end Mvcp
