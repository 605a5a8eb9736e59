import Mvcp.Library.Maps
import Mvcp.Negotiation.Capabilities
import Mathlib.Order.Bounds.Basic

/-!
# The highest common revision

`Negotiate` as the source runs it: a loop over the entries of the peer's table, in the order the
runtime picks. The loop computes the table `negotiate` for every order, and that table holds, for
each capability both sides know, the greatest revision that lies in both ranges. A range may be
empty, with a minimum above its maximum.

## Main definitions

* `CapabilitySupport.revisions`: the revisions of a range
* `negotiateLoop`: the loop of `Negotiate`

## Main results

* `negotiateLoop_eq`: the loop computes `negotiate`, whatever the order
* `negotiate_eq_some_iff`: negotiation finds the greatest common revision
* `negotiate_known`: ids unknown to the other side do not matter
* `negotiate_widen`: a wider range loses no capability and lowers no revision
* `Requirements.check_eq_ok_of_enumerates`: the check does not depend on the order either
* `negotiation_highest_common`: all of these for the loop
-/

namespace Mvcp

open Library (Enumerates PointwiseRounds enumerates_lookup)

/-! ## The loop -/

/-- One round of the loop of `Negotiate`. -/
def negotiateEntry (loc : AdvertisedCapabilities) (out : NegotiatedCapabilities)
    (e : CapabilityID × CapabilitySupport) : NegotiatedCapabilities :=
  match loc e.1 with
  | none => out
  | some l =>
    let lo := max e.2.minRevision l.minRevision
    let hi := min e.2.maxRevision l.maxRevision
    if lo ≤ hi then Function.update out e.1 (some hi) else out

/-- `Negotiate`, where the loop over `peer` sees the entries in the given order. -/
def negotiateLoop (peer : List (CapabilityID × CapabilitySupport)) (loc : AdvertisedCapabilities) :
    NegotiatedCapabilities :=
  peer.foldl (negotiateEntry loc) fun _ => none

theorem negotiateEntry_rounds (loc : AdvertisedCapabilities) :
    PointwiseRounds (negotiateEntry loc) fun id p old =>
      (negotiate (fun _ => some p) loc id).or old := by
  intro out e id
  by_cases hid : id = e.1
  · subst hid
    cases hl : loc e.1 with
    | none => simp [negotiateEntry, negotiate, hl]
    | some l =>
      simp only [negotiateEntry, negotiate, hl, if_true]
      split_ifs <;> simp
  · cases hl : loc e.1 with
    | none => simp [negotiateEntry, hl, hid]
    | some l =>
      simp only [negotiateEntry, hl, hid, if_false]
      split_ifs <;> simp [hid]

/-- **The loop computes `negotiate`, in whatever order it sees the entries.** -/
theorem negotiateLoop_eq {peer loc : AdvertisedCapabilities}
    {es : List (CapabilityID × CapabilitySupport)} (h : Enumerates peer es) :
    negotiateLoop es loc = negotiate peer loc := by
  funext id
  rw [negotiateLoop, (negotiateEntry_rounds loc).foldl_eq h.keys, h.lookup]
  cases hp : peer id with
  | none => simp [negotiate, hp]
  | some p => simp [negotiate, hp]

/-! ## The greatest common revision -/

/-- The revisions of a range: none when its minimum is above its maximum. -/
def CapabilitySupport.revisions (p : CapabilitySupport) : Set UInt16 :=
  {rev | p.minRevision ≤ rev ∧ rev ≤ p.maxRevision}

theorem uint16_max_le {a b c : UInt16} : max a b ≤ c ↔ a ≤ c ∧ b ≤ c := by
  show (if a ≤ b then b else a) ≤ c ↔ _
  split_ifs with h
  · exact ⟨fun hb => ⟨UInt16.le_trans h hb, hb⟩, And.right⟩
  · have hba : b ≤ a := (UInt16.le_total a b).resolve_left h
    exact ⟨fun ha => ⟨ha, UInt16.le_trans hba ha⟩, And.left⟩

theorem uint16_le_min {a b c : UInt16} : c ≤ min a b ↔ c ≤ a ∧ c ≤ b := by
  show c ≤ (if a ≤ b then a else b) ↔ _
  split_ifs with h
  · exact ⟨fun ha => ⟨ha, UInt16.le_trans ha h⟩, And.left⟩
  · have hba : b ≤ a := (UInt16.le_total a b).resolve_left h
    exact ⟨fun hb => ⟨UInt16.le_trans hb hba, hb⟩, And.right⟩

/-- The revisions two ranges have in common form a range. -/
theorem mem_revisions_inter {p l : CapabilitySupport} {rev : UInt16} :
    rev ∈ p.revisions ∩ l.revisions ↔
      max p.minRevision l.minRevision ≤ rev ∧ rev ≤ min p.maxRevision l.maxRevision := by
  rw [uint16_max_le, uint16_le_min]
  exact and_and_and_comm

variable {a a' b : AdvertisedCapabilities} {id : CapabilityID} {rev : UInt16}

/-- **Negotiation finds the greatest common revision**, and fails where there is none. -/
theorem negotiate_eq_some_iff :
    negotiate a b id = some rev ↔ ∃ p l, a id = some p ∧ b id = some l ∧
      IsGreatest (p.revisions ∩ l.revisions) rev := by
  cases ha : a id with
  | none => simp [negotiate, ha]
  | some p =>
    cases hb : b id with
    | none => simp [negotiate, ha, hb]
    | some l =>
      simp only [negotiate, ha, hb, Option.some.injEq, exists_and_left, exists_eq_left']
      split_ifs with hle
      · -- the upper end of the common range is its greatest element
        have htop : IsGreatest (p.revisions ∩ l.revisions) (min p.maxRevision l.maxRevision) :=
          ⟨mem_revisions_inter.mpr ⟨hle, UInt16.le_refl _⟩, fun _ h => (mem_revisions_inter.mp h).2⟩
        constructor
        · intro h
          exact Option.some.inj h ▸ htop
        · intro h
          exact congrArg some (UInt16.le_antisymm (h.2 htop.1) (htop.2 h.1))
      · constructor
        · intro h
          cases h
        · intro h
          obtain ⟨hlo, hhi⟩ := mem_revisions_inter.mp h.1
          exact absurd (UInt16.le_trans hlo hhi) hle

/-- Two ranges that meet have a greatest common revision. -/
theorem exists_negotiated {p l : CapabilitySupport} (ha : a id = some p) (hb : b id = some l)
    (h : rev ∈ p.revisions ∩ l.revisions) : ∃ rev', negotiate a b id = some rev' ∧ rev ≤ rev' := by
  obtain ⟨hlo, hhi⟩ := mem_revisions_inter.mp h
  refine ⟨min p.maxRevision l.maxRevision, ?_, hhi⟩
  simp [negotiate, ha, hb, UInt16.le_trans hlo hhi]

/-- **Ids unknown to the other side do not matter.** -/
theorem negotiate_known (h : ∀ id, (b id).isSome → a' id = a id) :
    negotiate a' b = negotiate a b := by
  funext id
  cases hb : b id with
  | none => simp [negotiate, hb]
  | some l => simp [negotiate, hb, h id (by simp [hb])]

/-- **A wider range loses no capability and lowers no revision.** -/
theorem negotiate_widen
    (h : ∀ id p, a id = some p → ∃ p', a' id = some p' ∧ p.revisions ⊆ p'.revisions)
    (hn : negotiate a b id = some rev) : ∃ rev', negotiate a' b id = some rev' ∧ rev ≤ rev' := by
  obtain ⟨p, l, ha, hb, hg⟩ := negotiate_eq_some_iff.mp hn
  obtain ⟨p', ha', hsub⟩ := h id p ha
  exact exists_negotiated ha' hb ⟨hsub hg.1.1, hg.1.2⟩

/-- The check of requirements does not depend on the order in which it sees them. -/
theorem Requirements.check_eq_ok_of_enumerates {r : Requirements}
    {required : CapabilityID → Option UInt16} (h : Enumerates required r.entries)
    {n : NegotiatedCapabilities} :
    r.check n = .ok () ↔
      ∀ id minRev, required id = some minRev → ∃ rev, n id = some rev ∧ minRev ≤ rev := by
  rw [check_eq_ok]
  constructor
  · intro hs id minRev hreq
    exact hs (id, minRev) ((h.mem_iff id minRev).mpr hreq)
  · intro hs e he
    exact hs e.1 e.2 ((h.mem_iff e.1 e.2).mp he)

/-- **Negotiation computes the highest common revision**, in whatever order the runtime iterates
over the tables `a` and `b`: the loop finds exactly the greatest common revisions; the two sides
find the same; ids unknown to the other side do not matter; a wider range loses nothing; and the
requirements accept the result exactly when each is met. -/
theorem negotiation_highest_common {es fs : List (CapabilityID × CapabilitySupport)}
    (ha : Enumerates a es) (hb : Enumerates b fs) :
    (∀ id rev, negotiateLoop es b id = some rev ↔ ∃ p l, a id = some p ∧ b id = some l ∧
      IsGreatest (p.revisions ∩ l.revisions) rev) ∧
    negotiateLoop es b = negotiateLoop fs a ∧
    (∀ a' es', Enumerates a' es' → (∀ id, a' id = if (b id).isSome then a id else none) →
      negotiateLoop es' b = negotiateLoop es b ∧ negotiateLoop fs a' = negotiateLoop fs a) ∧
    (∀ a' es', Enumerates a' es' →
      (∀ id p, a id = some p → ∃ p', a' id = some p' ∧ p.revisions ⊆ p'.revisions) →
      ∀ id rev, (negotiateLoop es b id = some rev →
          ∃ rev', negotiateLoop es' b id = some rev' ∧ rev ≤ rev') ∧
        (negotiateLoop fs a id = some rev →
          ∃ rev', negotiateLoop fs a' id = some rev' ∧ rev ≤ rev')) ∧
    ∀ (r : Requirements) (required : CapabilityID → Option UInt16),
      Enumerates required r.entries →
      (r.check (negotiateLoop es b) = .ok () ↔
        ∀ id minRev, required id = some minRev →
          ∃ rev, negotiateLoop es b id = some rev ∧ minRev ≤ rev) := by
  have hab : negotiateLoop es b = negotiate a b := negotiateLoop_eq ha
  have hba (c : AdvertisedCapabilities) : negotiateLoop fs c = negotiate c b :=
    (negotiateLoop_eq hb).trans (negotiate_comm b c)
  rw [hab, hba a]
  refine ⟨fun id rev => negotiate_eq_some_iff, rfl, ?_, ?_, ?_⟩
  · intro a' es' ha' hknown
    have hsame : negotiate a' b = negotiate a b :=
      negotiate_known fun id hid => by rw [hknown id, if_pos hid]
    rw [negotiateLoop_eq ha', hba a']
    exact ⟨hsame, hsame⟩
  · intro a' es' ha' hwide id rev
    rw [negotiateLoop_eq ha', hba a']
    exact ⟨negotiate_widen hwide, negotiate_widen hwide⟩
  · intro r required hreq
    exact Requirements.check_eq_ok_of_enumerates hreq

/-- Two tables with one common revision, an empty range, and an id only one side knows. -/
theorem negotiation_highest_common_exec :
    let es : List (CapabilityID × CapabilitySupport) := [(1, ⟨1, 2⟩), (2, ⟨5, 4⟩), (3, ⟨1, 1⟩)]
    let fs : List (CapabilityID × CapabilitySupport) := [(2, ⟨1, 9⟩), (1, ⟨2, 3⟩)]
    (es.map Prod.fst).Nodup ∧ (fs.map Prod.fst).Nodup ∧
      negotiateLoop es (fun id => fs.lookup id) 1 = some 2 ∧
      negotiateLoop es (fun id => fs.lookup id) = negotiateLoop fs (fun id => es.lookup id) := by
  intro es fs
  have hes : (es.map Prod.fst).Nodup := by decide
  have hfs : (fs.map Prod.fst).Nodup := by decide
  exact ⟨hes, hfs, by decide,
    (negotiation_highest_common (enumerates_lookup hes) (enumerates_lookup hfs)).2.1⟩

end Mvcp
