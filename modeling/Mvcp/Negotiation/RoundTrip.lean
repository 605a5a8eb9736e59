import Mvcp.Negotiation.Capabilities

/-!
# The HELLO message and its bytes

A capability list without repeated ids has one sorted order, so the encoder gives the same bytes
for every order of the list, and its decoder returns the sorted message. The encoder does not look
for repeated ids, and its decoder refuses them.

## Main definitions

* `Hello.Sendable`: what the encoder needs of a message for its decoder to take it

## Main results

* `Hello.marshalBinary_perm`: the bytes do not depend on the order of the list
* `Hello.codec`: what the decoder accepts, and that decoding and encoding are inverse
* `Hello.unmarshalBinary_marshalBinary_iff`: an encoded message is decoded exactly when no id is
  repeated
-/

namespace Mvcp.Hello

variable {sortSlice sortSlice' : SortByID} {h h' : Hello} {b data : Bytes}

/-- A known role that is not `RoleUnknown`, lengths within their bounds, ids without repetition
and no empty range. -/
structure Sendable (h : Hello) : Prop extends WellFormed h where
  known : h.role ≠ roleUnknown

/-- A list without repeated ids has one sorted order. -/
theorem eq_of_perm_of_sorted {cs cs' : List Capability} (hids : (cs.map Capability.id).Nodup)
    (hp : cs.Perm cs') (hs : cs.Pairwise fun a b => a.id ≤ b.id)
    (hs' : cs'.Pairwise fun a b => a.id ≤ b.id) : cs = cs' := by
  refine hp.eq_of_pairwise ?_ hs hs'
  intro c c' hc hc' hle hle'
  exact List.inj_on_of_nodup_map hids hc (hp.mem_iff.mpr hc') (UInt8.le_antisymm hle hle')

/-- Two sorts of two orders of a list without repeated ids agree. -/
theorem sort_eq_of_perm {cs cs' : List Capability} (hids : (cs.map Capability.id).Nodup)
    (hp : cs'.Perm cs) : sortSlice'.sort cs' = sortSlice.sort cs := by
  have hperm : (sortSlice'.sort cs').Perm (sortSlice.sort cs) :=
    ((sortSlice'.perm cs').trans hp).trans (sortSlice.perm cs).symm
  refine eq_of_perm_of_sorted ?_ hperm (sortSlice'.sorted _) (sortSlice.sorted _)
  exact (((sortSlice'.perm cs').trans hp).map _).nodup_iff.mpr hids

/-- A sorted list without repeated ids is left as it is. -/
theorem sort_eq_self {cs : List Capability} (hids : (cs.map Capability.id).Nodup)
    (hs : cs.Pairwise fun a b => a.id ≤ b.id) : sortSlice.sort cs = cs := by
  exact (eq_of_perm_of_sorted hids (sortSlice.perm cs).symm hs (sortSlice.sorted cs)).symm

/-- Sorting the list keeps a message well formed. -/
theorem WellFormed.sorted (hw : h.WellFormed) : (h.sorted sortSlice).WellFormed where
  role := hw.role
  version := hw.version
  count := (sortSlice.perm h.capabilities).length_eq.trans_le hw.count
  ids := ((sortSlice.perm h.capabilities).map _).nodup_iff.mpr hw.ids
  ranges c hc := hw.ranges c ((sortSlice.perm h.capabilities).mem_iff.mp hc)

/-- A sendable message is encoded. -/
theorem Sendable.marshalBinary_eq (hs : h.Sendable) :
    h.marshalBinary sortSlice = .ok (h.sorted sortSlice).layout :=
  marshalBinary_eq_ok.mpr ⟨⟨hs.known, hs.role⟩, hs.version, hs.count, hs.ranges, rfl⟩

theorem Sendable.perm (hs : h.Sendable) (hp : h'.capabilities.Perm h.capabilities)
    (hrole : h'.role = h.role) (hver : h'.softwareVersion = h.softwareVersion) : h'.Sendable where
  role := hrole ▸ hs.role
  version := hver ▸ hs.version
  count := hp.length_eq.trans_le hs.count
  ids := (hp.map _).nodup_iff.mpr hs.ids
  ranges c hc := hs.ranges c (hp.mem_iff.mp hc)
  known := hrole ▸ hs.known

/-- **The bytes do not depend on the order of the list**, nor on the sort. -/
theorem marshalBinary_perm (hs : h.Sendable) (hp : h'.capabilities.Perm h.capabilities)
    (hrole : h'.role = h.role) (hver : h'.softwareVersion = h.softwareVersion) :
    h'.marshalBinary sortSlice' = h.marshalBinary sortSlice := by
  rw [(hs.perm hp hrole hver).marshalBinary_eq, hs.marshalBinary_eq]
  have hsort : h'.sorted sortSlice' = h.sorted sortSlice :=
    Hello.ext hrole hver (sort_eq_of_perm hs.ids hp)
  rw [hsort]

/-- **The codec of HELLO.** The decoder accepts exactly the layouts of well-formed messages and
returns their fields in wire order; a sendable message is decoded to itself with its list sorted by
id, its bytes are those of every order of the list, and the table it advertises is unchanged;
and what was decoded from a sorted list with a known role is encoded to the same bytes. -/
theorem codec (sortSlice : SortByID) :
    (∀ data h, unmarshalBinary data = .ok h ↔ h.WellFormed ∧ data = h.layout) ∧
    (∀ h : Hello, h.Sendable → ∃ b h', h.marshalBinary sortSlice = .ok b ∧
      unmarshalBinary b = .ok h' ∧
      (h'.role = h.role ∧ h'.softwareVersion = h.softwareVersion ∧
        h'.capabilities.Perm h.capabilities ∧
        h'.capabilities.Pairwise fun c c' => c.id < c'.id) ∧
      h'.advertised = h.advertised ∧
      ∀ (sortSlice' : SortByID) (cs : List Capability), cs.Perm h.capabilities →
        { h with capabilities := cs }.marshalBinary sortSlice' = .ok b) ∧
    ∀ data h, unmarshalBinary data = .ok h → h.role ≠ roleUnknown →
      (h.capabilities.Pairwise fun c c' => c.id ≤ c'.id) →
        h.marshalBinary sortSlice = .ok data := by
  refine ⟨fun data h => unmarshalBinary_eq_ok, ?_, ?_⟩
  · intro h hs
    have hw : (h.sorted sortSlice).WellFormed := hs.toWellFormed.sorted
    refine ⟨_, h.sorted sortSlice, hs.marshalBinary_eq, unmarshalBinary_eq_ok.mpr ⟨hw, rfl⟩,
      ⟨rfl, rfl, sortSlice.perm _, ?_⟩, advertised_sorted sortSlice hs.ids, ?_⟩
    · -- the ids are in order and none is repeated
      have hne : (sortSlice.sort h.capabilities).Pairwise fun c c' => c.id ≠ c'.id :=
        List.pairwise_map.mp hw.ids
      exact ((sortSlice.sorted h.capabilities).and hne).imp fun hlt =>
        UInt8.lt_iff_le_and_ne.mpr hlt
    · intro sortSlice' cs hcs
      rw [← hs.marshalBinary_eq]
      exact marshalBinary_perm hs hcs rfl rfl
  · intro data h hdec hrole hsorted
    obtain ⟨hw, rfl⟩ := unmarshalBinary_eq_ok.mp hdec
    have hs : h.Sendable := ⟨hw, hrole⟩
    have hself : h.sorted sortSlice = h := Hello.ext rfl rfl (sort_eq_self hw.ids hsorted)
    rw [hs.marshalBinary_eq, hself]

/-- **An encoded message is decoded exactly when its list repeats no id.** The encoder makes every
other check of the decoder. -/
theorem unmarshalBinary_marshalBinary_iff (hb : h.marshalBinary sortSlice = .ok b) :
    (∃ h', unmarshalBinary b = .ok h') ↔ (h.capabilities.map Capability.id).Nodup := by
  obtain ⟨⟨hknown, hrole⟩, hver, hcount, hranges, rfl⟩ := marshalBinary_eq_ok.mp hb
  have hperm := sortSlice.perm h.capabilities
  constructor
  · rintro ⟨h', hdec⟩
    obtain ⟨hw, hlay⟩ := unmarshalBinary_eq_ok.mp hdec
    -- the decoded message has the layout of the sorted one, so it is the sorted one
    have hlen : (sortSlice.sort h.capabilities).length < 2 ^ 16 := by
      have := hperm.length_eq
      simp only [maxHelloCapabilities] at hcount
      omega
    have hver' := hw.version
    have hcount' := hw.count
    simp only [maxHelloVersionLen, maxHelloCapabilities] at hver hver' hcount'
    have heq : h.sorted sortSlice = h' := by
      refine layout_injective ?_ (by omega) hlen (by omega) hlay
      show h.softwareVersion.length < 2 ^ 16
      omega
    rw [← heq] at hw
    exact (hperm.map _).nodup_iff.mp hw.ids
  · intro hids
    have hw : h.WellFormed := ⟨hrole, hver, hcount, hids, hranges⟩
    exact ⟨_, unmarshalBinary_eq_ok.mpr ⟨hw.sorted, rfl⟩⟩

/-- A message that offers two capabilities in descending order. -/
theorem unmarshalBinary_marshalBinary_two :
    ∃ h', unmarshalBinary [1, 0, 0, 0, 2, 1, 0, 1, 0, 2, 6, 0, 1, 0, 1] = .ok h' :=
  (unmarshalBinary_marshalBinary_iff
    (show (⟨roleCore, [], [⟨6, 1, 1⟩, ⟨1, 1, 2⟩]⟩ : Hello).marshalBinary insertionSortByID = _
      by decide)).mpr (by decide)

/-- The encoder takes a list that names one capability twice, and its decoder calls the body
malformed. -/
theorem unmarshalBinary_marshalBinary_duplicate :
    (⟨roleCore, [], [⟨1, 1, 1⟩, ⟨1, 1, 2⟩]⟩ : Hello).marshalBinary insertionSortByID =
        .ok [1, 0, 0, 0, 2, 1, 0, 1, 0, 1, 1, 0, 1, 0, 2] ∧
      unmarshalBinary [1, 0, 0, 0, 2, 1, 0, 1, 0, 1, 1, 0, 1, 0, 2] =
        .error "duplicate capability 0x01" := by
  decide

end Mvcp.Hello
