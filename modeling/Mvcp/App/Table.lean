import Mathlib.Data.Nat.Bitwise
import Mathlib.Data.List.Nodup
import Mvcp.App.Acts
import Mvcp.Library.Maps

/-!
# The stream table

Streams keep their id for ever, the ids a session allocates are used once, and the table maps
each id it holds to one stream with that id. The table never holds more than `AppMaxStreams`
streams.

## Main definitions

* `Session.names`: the ids of all streams of a session, and who opened them
* `Session.Table`: the table invariant

## Main results

* `Session.Moves.table`: every step keeps the table invariant
* `Session.Reachable.table`: the table invariant holds in every state reached
-/

namespace Mvcp.App

open Library (Reaches Always map_set_of_eq lookup_of_mem mem_of_lookup)

/-! ## Stream ids -/

theorem localID_toNat {k : ℕ} (role : Role) (hk : k < 2 ^ 31) :
    (localID role k).toNat = role.bit.toNat + k := by
  have hk' : k % 2 ^ 32 = k := Nat.mod_eq_of_lt (by omega)
  simp only [localID, UInt32.toNat_or, UInt32.toNat_ofNat', hk']
  cases role with
  | host => simp [Role.bit]
  | guest => simpa [Role.bit] using (Nat.two_pow_add_eq_or_of_lt hk 1).symm

theorem localID_injective {role : Role} {j k : ℕ} (hj : j < 2 ^ 31) (hk : k < 2 ^ 31)
    (h : localID role j = localID role k) : j = k := by
  have := congrArg UInt32.toNat h
  rw [localID_toNat role hj, localID_toNat role hk] at this
  omega

/-- The ids allocated here have the initiator bit of this side. -/
theorem localID_bit {role : Role} {k : ℕ} (hk : k < 2 ^ 31) :
    localID role k &&& 0x80000000 = role.bit := by
  apply UInt32.toNat_inj.mp
  rw [UInt32.toNat_and, localID_toNat role hk, show (0x80000000 : UInt32).toNat = 2 ^ 31 from rfl,
    Nat.and_two_pow, Nat.testBit_eq_decide_div_mod_eq]
  cases role with
  | host => simp [Role.bit]; omega
  | guest => simp [Role.bit]; omega

theorem Role.bit_other_ne (ρ : Role) : ρ.other.bit ≠ ρ.bit := by
  cases ρ <;> simp [Role.bit, Role.other]

/-- The ids with the initiator bit of the peer are not allocated here. -/
theorem localID_ne_of_remote {role : Role} {id : UInt32} {k : ℕ} (hk : k < 2 ^ 31)
    (h : id &&& 0x80000000 = role.other.bit) : id ≠ localID role k := by
  rintro rfl
  exact role.bit_other_ne (h.symm.trans (localID_bit hk))

/-! ## Names -/

/-- The id of a stream, and whether the peer opened it. -/
def Stream.name (st : Stream) : UInt32 × Bool := (st.id, st.inbound)

theorem Stream.Fires.name {r : Ref} {st : Stream} {x : Section} {o : Outcome}
    (h : Stream.Fires r st x o) : o.st.name = st.name := by
  cases h <;> rfl

namespace Session

/-- The names of all streams of a session. -/
def names (s : Session) : List (UInt32 × Bool) := s.heap.map Stream.name

theorem names_getElem? (s : Session) (r : Ref) : s.names[r]? = s.heap[r]?.map Stream.name :=
  List.getElem?_map

variable {s s' : Session} {t : Task} {n : Next} {l : Label}

/-- **The table invariant.** -/
structure Table (s : Session) : Prop where
  /-- No id is in the table twice. -/
  keys : (s.streams.map Prod.fst).Nodup
  /-- An id in the table is that of its stream. -/
  ids : ∀ p ∈ s.streams, ∃ b, s.names[p.2]? = some (p.1, b)
  /-- The streams opened here have the ids `1, 2, …` with the initiator bit of this side. -/
  locals : (s.names.filter fun p => !p.2).map Prod.fst =
    (List.range' 1 s.nextID).map (localID s.cfg.role)
  /-- The streams of the peer have the initiator bit of the peer. -/
  peers : ∀ p ∈ s.names, p.2 = true → p.1 &&& 0x80000000 = s.cfg.role.other.bit
  nextID_le : s.nextID ≤ maxLocalStreamID
  quota : s.streams.length ≤ appMaxStreams

theorem table_new (cfg : Config) : (new cfg).Table where
  keys := List.nodup_nil
  ids := by simp [new]
  locals := by simp [new, names]
  peers := by simp [new, names]
  nextID_le := Nat.zero_le _
  quota := Nat.zero_le _

/-- The invariant only speaks about the names, the table and the counter. -/
theorem Table.congr (h : s.Table) (hc : s'.cfg = s.cfg) (hn : s'.names = s.names)
    (hs : s'.streams.Sublist s.streams) (hi : s'.nextID = s.nextID) : s'.Table where
  keys := h.keys.sublist (hs.map _)
  ids p hp := hn ▸ h.ids p (hs.subset hp)
  locals := by rw [hn, hi, hc, h.locals]
  peers p hp := by rw [hc]; exact h.peers p (hn ▸ hp)
  nextID_le := hi ▸ h.nextID_le
  quota := hs.length_le.trans h.quota

/-- The id that `Open` allocates is new. -/
theorem Table.fresh (h : s.Table) (hid : s.nextID < maxLocalStreamID) {p : UInt32 × Bool}
    (hp : p ∈ s.names) : p.1 ≠ localID s.cfg.role (s.nextID + 1) := by
  simp only [maxLocalStreamID] at hid
  cases hb : p.2 with
  | true => exact localID_ne_of_remote (by omega) (h.peers p hp hb)
  | false =>
    have hm : p.1 ∈ (List.range' 1 s.nextID).map (localID s.cfg.role) :=
      h.locals ▸ List.mem_map_of_mem (List.mem_filter.mpr ⟨hp, by simp [hb]⟩)
    obtain ⟨k, hk, hkp⟩ := List.mem_map.mp hm
    rw [List.mem_range'_1] at hk
    intro he
    have := localID_injective (by omega) (by omega) (hkp.trans he)
    omega

/-- A stream with a new id enters the table. -/
theorem Table.insert (h : s.Table) {st : Stream} (hc : s'.cfg = s.cfg)
    (hh : s'.heap = s.heap ++ [st]) (hs : s'.streams = (st.id, s.heap.length) :: s.streams)
    (hnew : st.id ∉ s.streams.map Prod.fst) (hq : s.streams.length < appMaxStreams)
    (hl : ((s.names ++ [st.name]).filter fun p => !p.2).map Prod.fst =
      (List.range' 1 s'.nextID).map (localID s.cfg.role))
    (hp : st.inbound = true → st.id &&& 0x80000000 = s.cfg.role.other.bit)
    (hi : s'.nextID ≤ maxLocalStreamID) : s'.Table := by
  have hn : s'.names = s.names ++ [st.name] := by simp [names, hh]
  refine ⟨?_, fun p hp => ?_, by rw [hn, hc, hl], fun p hm hb => ?_, hi, ?_⟩
  · rw [hs]
    exact List.nodup_cons.mpr ⟨hnew, h.keys⟩
  · rw [hs] at hp
    rw [hn]
    rcases List.mem_cons.mp hp with rfl | hp
    · exact ⟨st.inbound, by simp [names, Stream.name]⟩
    · obtain ⟨b, hb⟩ := h.ids p hp
      exact ⟨b, by rw [List.getElem?_append_left (List.getElem?_eq_some_iff.mp hb).1, hb]⟩
  · rw [hn] at hm
    rw [hc]
    rcases List.mem_append.mp hm with hm | hm
    · exact h.peers p hm hb
    · obtain rfl := List.mem_singleton.mp hm
      exact hp hb
  · rw [hs]
    exact hq

theorem stream_eq_none_iff {id : UInt32} : s.stream id = none ↔ id ∉ s.streams.map Prod.fst := by
  simp only [stream, List.lookup_eq_none_iff, bne_iff_ne, List.mem_map, not_exists, not_and]
  exact forall₂_congr fun p _ => ne_comm

theorem mem_of_stream {id : UInt32} {r : Ref} (h : s.stream id = some r) : (id, r) ∈ s.streams :=
  mem_of_lookup h

/-- The table is a map. -/
theorem Table.stream_of_mem (h : s.Table) {id : UInt32} {r : Ref} (hm : (id, r) ∈ s.streams) :
    s.stream id = some r := lookup_of_mem h.keys hm

/-- Each stream is in the table once. -/
theorem Table.refs (h : s.Table) : (s.streams.map Prod.snd).Nodup := by
  refine List.Nodup.map_on (fun p hp q hq he => ?_) (List.Nodup.of_map _ h.keys)
  obtain ⟨b, hb⟩ := h.ids p hp
  obtain ⟨b', hb'⟩ := h.ids q hq
  rw [he, hb'] at hb
  exact Prod.ext (congrArg Prod.fst (Option.some.inj hb)).symm he

/-- The table after a deletion. -/
theorem delete_sublist (s : Session) (r : Ref) (id : UInt32) :
    (s.delete r id).streams.Sublist s.streams := by
  unfold delete
  split_ifs
  · exact List.filter_sublist
  · exact List.Sublist.refl _

theorem delete_heap (s : Session) (r : Ref) (id : UInt32) : (s.delete r id).heap = s.heap := by
  unfold delete; split_ifs <;> rfl

/-- The streams left in the table after `detach`. -/
theorem Table.mem_delete (h : s.Table) {r r' : Ref} {st' : Stream} (hst' : s.heap[r']? = some st') :
    r ∈ (s.delete r' st'.id).streams.map Prod.snd ↔ r ∈ s.streams.map Prod.snd ∧ r ≠ r' := by
  have hid {id : UInt32} (hm : (id, r') ∈ s.streams) : id = st'.id := by
    obtain ⟨b, hb⟩ := h.ids _ hm
    simp only [names_getElem?, hst', Option.map_some, Option.some.injEq] at hb
    exact (congrArg Prod.fst hb).symm
  unfold delete
  split_ifs with hs
  · simp only [List.mem_map, List.mem_filter, Prod.exists, exists_eq_right, decide_eq_true_eq]
    constructor
    · rintro ⟨id, hm, hne⟩
      exact ⟨⟨id, hm⟩, fun he => hne (hid (he ▸ hm))⟩
    · rintro ⟨⟨id, hm⟩, hne⟩
      refine ⟨id, hm, fun he => hne ?_⟩
      exact Option.some.inj ((h.stream_of_mem (he ▸ hm)).symm.trans hs)
  · refine ⟨fun hm => ⟨hm, fun he => ?_⟩, And.left⟩
    obtain ⟨⟨id, r₁⟩, hp, rfl⟩ := List.mem_map.mp hm
    obtain rfl : r₁ = r' := he
    exact hs (hid hp ▸ h.stream_of_mem hp)

theorem Acts.table (ha : Acts s t n) (h : s.Table) : n.sess.Table := by
  cases ha with
  | sect hst hf ho => exact h.congr rfl (map_set_of_eq hst hf.name) (.refl _) rfl
  | detach hst =>
    refine h.congr ?_ ?_ (delete_sublist _ _ _) ?_
    all_goals unfold delete; split_ifs <;> rfl
  | fail_now hc hrefs => exact h.congr rfl rfl (List.nil_sublist _) rfl
  | open_admitted h₀ hid hv hm hc hnew hq =>
    refine h.insert rfl rfl rfl (stream_eq_none_iff.mp hnew) hq ?_ (fun _ => hid) h.nextID_le
    simpa [List.filter_append, Stream.name] using h.locals
  | open_created hv hm hc hq hid =>
    refine h.insert rfl rfl rfl (fun hmem => ?_) hq ?_ (by simp) hid
    · obtain ⟨p, hp, hpid⟩ := List.mem_map.mp hmem
      obtain ⟨b, hb⟩ := h.ids p hp
      exact h.fresh hid (List.mem_of_getElem? hb) hpid
    · simp [List.filter_append, Stream.name, h.locals, List.range'_concat, Nat.add_comm 1]
  | _ => exact h.congr rfl rfl (.refl _) rfl

/-- **Every step keeps the table invariant.** -/
theorem Moves.table (hm : Moves s l s') (h : s.Table) : s'.Table := by
  cases hm with
  | run ht ha => exact (ha.table h).congr rfl rfl (.refl _) rfl
  | _ => exact h.congr rfl rfl (.refl _) rfl

theorem Reachable.table {cfg : Config} (h : Reachable cfg s) : s.Table :=
  Reaches.invariant h (table_new cfg) fun _ _ _ _ _ hs ht => (moves_of_step hs).table ht

end Session

end Mvcp.App
