import Mvcp.Wire.Protocol
import Mathlib.Data.List.Sort

/-!
# The HELLO message

`hello.go`: the first frame after the wire prefix, with the role, the software version and the
capability list of a peer. The encoder sorts the list with `sort.Slice`, which promises a sorted
permutation and no order among equal ids; it is a parameter with exactly these properties. The
decoder is strict, and what it accepts is described without it: it accepts the layout of a
well-formed `Hello` and nothing else.

## Main definitions

* `Hello`, `Capability`: the message
* `SortByID`: `sort.Slice` by capability id
* `Hello.marshalBinary`, `Hello.unmarshalBinary`: the codec
* `Hello.layout`, `Hello.WellFormed`: the body of a message, and what a received one satisfies

## Main results

* `Hello.unmarshalBinary_eq_ok`: a body decodes to `h` exactly when it is the layout of `h` and
  `h` is well formed
* `Hello.marshalBinary_eq_ok`: what is encoded is the layout of the sorted message
-/

namespace Mvcp

/-- `PeerRole`: any byte may stand in a local `Hello`. -/
abbrev PeerRole := UInt8

def roleUnknown : PeerRole := 0
def roleCore : PeerRole := 1
def roleVHandler : PeerRole := 2

/-- `CapabilityID`. -/
abbrev CapabilityID := UInt8

def maxHelloCapabilities : ℕ := 64
def maxHelloVersionLen : ℕ := 128

/-- One entry in the wire HELLO list. -/
@[ext]
structure Capability where
  id : CapabilityID
  minRevision : UInt16
  maxRevision : UInt16
  deriving DecidableEq

/-- The first MVCP frame after the wire prefix. -/
@[ext]
structure Hello where
  role : PeerRole
  softwareVersion : Bytes
  capabilities : List Capability
  deriving DecidableEq

/-- `sort.Slice` by id: a permutation in ascending order. It is not stable, so nothing is said
about entries with the same id. -/
structure SortByID where
  sort : List Capability → List Capability
  perm : ∀ cs, (sort cs).Perm cs
  sorted : ∀ cs, (sort cs).Pairwise fun a b => a.id ≤ b.id

instance : Std.Total fun a b : Capability => a.id ≤ b.id := ⟨fun a b => UInt8.le_total a.id b.id⟩

instance : IsTrans Capability fun a b => a.id ≤ b.id := ⟨fun _ _ _ => UInt8.le_trans⟩

/-- Insertion sort, which `sort.Slice` uses on short lists. -/
def insertionSortByID : SortByID where
  sort := List.insertionSort fun a b => a.id ≤ b.id
  perm := List.perm_insertionSort _
  sorted := List.pairwise_insertionSort _

namespace Hello

/-! ## Encoding -/

/-- The loop of `MarshalBinary` over the sorted list. -/
def writeCapabilities : List Capability → Except String Bytes
  | [] => .ok []
  | c :: cs => do
    if c.maxRevision < c.minRevision then
      throw ("mvcp: hello: capability 0x" ++ hex02 c.id ++ " min > max")
    let rest ← writeCapabilities cs
    return c.id :: (writeUint16 c.minRevision ++ writeUint16 c.maxRevision ++ rest)

/-- `MarshalBinary`. -/
def marshalBinary (sortSlice : SortByID) (h : Hello) : Except String Bytes := do
  if h.role = roleUnknown ∨ roleVHandler < h.role then
    throw ("mvcp: hello: invalid role " ++ toString h.role.toNat)
  if maxHelloVersionLen < h.softwareVersion.length then
    throw ("mvcp: hello: software version too long (" ++ toString h.softwareVersion.length ++
      " bytes, max " ++ toString maxHelloVersionLen ++ ")")
  if maxHelloCapabilities < h.capabilities.length then
    throw ("mvcp: hello: too many capabilities (" ++ toString h.capabilities.length ++ ", max " ++
      toString maxHelloCapabilities ++ ")")
  let cs := sortSlice.sort h.capabilities
  let entries ← writeCapabilities cs
  return h.role :: (writeString h.softwareVersion ++ writeUint16 (UInt16.ofNat cs.length) ++
    entries)

/-! ## Decoding -/

/-- A read of the body, its error as the text behind `errMalformedHello`. -/
def malformed {α : Type} (r : Except ReadError (α × Bytes)) : Except String (α × Bytes) :=
  r.mapError ReadError.text

/-- The loop of `UnmarshalBinary`: `n` entries are left, `seen` holds the ids so far. -/
def readCapabilities : ℕ → List CapabilityID → Bytes → Except String (List Capability × Bytes)
  | 0, _, r => .ok ([], r)
  | n + 1, seen, r => do
    let (id, r) ← malformed (readUint8 r)
    let (minRev, r) ← malformed (readUint16 r)
    let (maxRev, r) ← malformed (readUint16 r)
    if id ∈ seen then throw ("duplicate capability 0x" ++ hex02 id)
    if maxRev < minRev then throw ("capability 0x" ++ hex02 id ++ " min > max")
    let (cs, r) ← readCapabilities n (id :: seen) r
    return (⟨id, minRev, maxRev⟩ :: cs, r)

/-- `UnmarshalBinary`: the error is the text behind `errMalformedHello`. -/
def unmarshalBinary (data : Bytes) : Except String Hello := do
  let (role, r) ← malformed (readUint8 data)
  if roleVHandler < role then throw ("invalid role " ++ toString role.toNat)
  let (verLen, r) ← malformed (readUint16 r)
  if maxHelloVersionLen < verLen.toNat then
    throw ("software version too long (" ++ toString verLen.toNat ++ " bytes, max " ++
      toString maxHelloVersionLen ++ ")")
  let (verBuf, r) ← malformed (readFull verLen.toNat r)
  let (count, r) ← malformed (readUint16 r)
  if maxHelloCapabilities < count.toNat then
    throw ("too many capabilities (" ++ toString count.toNat ++ ", max " ++
      toString maxHelloCapabilities ++ ")")
  let (cs, r) ← readCapabilities count.toNat [] r
  if r.length ≠ 0 then throw (toString r.length ++ " trailing bytes")
  return ⟨role, verBuf, cs⟩

/-! ## What a body stands for -/

/-- The wire layout of one entry. -/
def entry (c : Capability) : Bytes :=
  c.id :: (writeUint16 c.minRevision ++ writeUint16 c.maxRevision)

/-- The wire layout of a message. -/
def layout (h : Hello) : Bytes :=
  h.role :: (writeString h.softwareVersion ++
    (writeUint16 (UInt16.ofNat h.capabilities.length) ++ h.capabilities.flatMap entry))

/-- What a received message satisfies: a known role, a version and a list within their bounds,
ids without repetition, and no empty revision range. -/
structure WellFormed (h : Hello) : Prop where
  role : h.role ≤ roleVHandler
  version : h.softwareVersion.length ≤ maxHelloVersionLen
  count : h.capabilities.length ≤ maxHelloCapabilities
  ids : (h.capabilities.map Capability.id).Nodup
  ranges : ∀ c ∈ h.capabilities, c.minRevision ≤ c.maxRevision

theorem malformed_eq_ok {α : Type} {r : Except ReadError (α × Bytes)} {p : α × Bytes} :
    malformed r = .ok p ↔ r = .ok p := by
  cases r <;> simp [malformed, Except.mapError]

/-- A step of a decoder succeeds when the read does and the rest of the decoder does. -/
theorem bind_eq_ok {ε α β : Type} {x : Except ε α} {f : α → Except ε β} {b : β} :
    (x >>= f) = .ok b ↔ ∃ a, x = .ok a ∧ f a = .ok b := by
  cases x <;> simp [bind, Except.bind]

/-- A check of a codec succeeds when its test fails and the rest of the codec does. -/
theorem check_eq_ok {ε α β : Type} {p : Prop} [Decidable p] {e : ε} {f : α → Except ε β}
    {x : Except ε β} {b : β} :
    (if p then throw e >>= f else x) = .ok b ↔ ¬ p ∧ x = .ok b := by
  split_ifs with h
  · simp [h, bind, Except.bind, throw, throwThe, MonadExceptOf.throw]
  · simp [h]

theorem pure_eq_ok {ε α : Type} {a b : α} : (pure a : Except ε α) = .ok b ↔ a = b := by
  simp [pure, Except.pure]

/-- The loop of the decoder reads `n` entries with new ids and non-empty ranges. -/
theorem readCapabilities_eq_ok {n : ℕ} {seen : List CapabilityID} {b r : Bytes}
    {cs : List Capability} : readCapabilities n seen b = .ok (cs, r) ↔
      cs.length = n ∧ b = cs.flatMap entry ++ r ∧ (cs.map Capability.id).Nodup ∧
        (∀ c ∈ cs, c.id ∉ seen) ∧ ∀ c ∈ cs, c.minRevision ≤ c.maxRevision := by
  induction n generalizing seen b r cs with
  | zero =>
    simp only [readCapabilities, Except.ok.injEq, Prod.mk.injEq, List.length_eq_zero_iff]
    constructor
    · rintro ⟨rfl, rfl⟩
      simp
    · rintro ⟨rfl, rfl, -⟩
      simp
  | succ n ih =>
    simp only [readCapabilities, bind_eq_ok, check_eq_ok, malformed_eq_ok, pure_eq_ok,
      Prod.exists, readUint8_eq_ok, readUint16_eq_ok, ih, Prod.mk.injEq]
    constructor
    · rintro ⟨id, _, rfl, minRev, _, rfl, maxRev, _, rfl, hseen, hrange, cs, _,
        ⟨rfl, rfl, hids, hnew, hranges⟩, rfl, rfl⟩
      -- the id of the first entry is among the ids seen when the others are read
      have hid : id ∉ cs.map Capability.id := by
        intro hm
        obtain ⟨c, hc, rfl⟩ := List.mem_map.mp hm
        exact hnew c hc List.mem_cons_self
      refine ⟨rfl, by simp [entry], by simpa using ⟨by simpa using hid, hids⟩, ?_, ?_⟩
      · rintro c (_ | ⟨_, hc⟩)
        · exact hseen
        · exact fun hm => hnew c hc (List.mem_cons_of_mem _ hm)
      · rintro c (_ | ⟨_, hc⟩)
        · exact UInt16.not_lt.mp hrange
        · exact hranges c hc
    · rintro ⟨hlen, rfl, hids, hnew, hranges⟩
      obtain ⟨c, cs, rfl⟩ := List.exists_cons_of_length_eq_add_one hlen
      rw [List.map_cons, List.nodup_cons] at hids
      refine ⟨c.id, _, by simp [entry], c.minRevision, _, rfl, c.maxRevision, _, rfl,
        hnew c List.mem_cons_self, ?_, cs, r, ⟨by simpa using hlen, rfl, hids.2, ?_, ?_⟩, rfl, rfl⟩
      · exact UInt16.not_lt.mpr (hranges c List.mem_cons_self)
      · intro c' hc' hm
        rcases List.mem_cons.mp hm with he | hm
        · exact hids.1 (List.mem_map.mpr ⟨c', hc', he⟩)
        · exact hnew c' (List.mem_cons_of_mem _ hc') hm
      · exact fun c' hc' => hranges c' (List.mem_cons_of_mem _ hc')

/-- **The decoder accepts exactly the layouts of well-formed messages.** -/
theorem unmarshalBinary_eq_ok {b : Bytes} {h : Hello} :
    unmarshalBinary b = .ok h ↔ h.WellFormed ∧ b = h.layout := by
  simp only [unmarshalBinary, bind_eq_ok, check_eq_ok, malformed_eq_ok, pure_eq_ok, Prod.exists,
    readUint8_eq_ok, readUint16_eq_ok, readFull_eq_ok, readCapabilities_eq_ok]
  constructor
  · rintro ⟨role, _, rfl, hrole, verLen, _, rfl, hver, verBuf, _, ⟨hlen, rfl⟩, count, _, rfl,
      hcount, cs, r, ⟨hcs, rfl, hids, -, hranges⟩, htrail, rfl⟩
    obtain rfl : r = [] := by simpa using htrail
    refine ⟨⟨UInt8.not_lt.mp hrole, hlen.le.trans (Nat.not_lt.mp hver),
      hcs.le.trans (Nat.not_lt.mp hcount), hids, hranges⟩, ?_⟩
    have h₁ : UInt16.ofNat verBuf.length = verLen := by rw [hlen]; exact UInt16.ofNat_toNat
    have h₂ : UInt16.ofNat cs.length = count := by rw [hcs]; exact UInt16.ofNat_toNat
    simp [layout, writeString, h₁, h₂]
  · rintro ⟨hw, rfl⟩
    have hver := hw.version
    have hcount := hw.count
    simp only [maxHelloVersionLen, maxHelloCapabilities] at hver hcount
    -- both lengths fit their 16-bit prefixes
    have h₁ : (UInt16.ofNat h.softwareVersion.length).toNat = h.softwareVersion.length :=
      UInt16.toNat_ofNat_of_lt' (by show _ < 65536; omega)
    have h₂ : (UInt16.ofNat h.capabilities.length).toNat = h.capabilities.length :=
      UInt16.toNat_ofNat_of_lt' (by show _ < 65536; omega)
    refine ⟨h.role, _, rfl, UInt8.not_lt.mpr hw.role, UInt16.ofNat h.softwareVersion.length, _,
      by rw [writeString, List.append_assoc], ?_, h.softwareVersion, _, ⟨h₁.symm, rfl⟩,
      UInt16.ofNat h.capabilities.length, _, rfl, ?_, h.capabilities, [],
      ⟨h₂.symm, by simp, hw.ids, by simp, hw.ranges⟩, by simp, rfl⟩
    · rw [h₁]
      exact Nat.not_lt.mpr hw.version
    · rw [h₂]
      exact Nat.not_lt.mpr hw.count

theorem entry_length (c : Capability) : (entry c).length = 5 := by
  simp [entry, writeUint16]

theorem entry_injective {c c' : Capability} (h : entry c = entry c') : c = c' := by
  obtain ⟨hid, h⟩ := List.cons.inj h
  have hlen : (writeUint16 c.minRevision).length = (writeUint16 c'.minRevision).length := by
    simp [writeUint16]
  obtain ⟨hmin, hmax⟩ := List.append_inj h hlen
  have hread (v w : UInt16) (h : writeUint16 v = writeUint16 w) : v = w := by
    have := readUint16_append v []
    rw [h, readUint16_append] at this
    exact (Prod.mk.inj (Except.ok.inj this)).1.symm
  exact Capability.ext hid (hread _ _ hmin) (hread _ _ hmax)

/-- The entries of a list can be told apart. -/
theorem flatMap_entry_injective {cs cs' : List Capability} (hlen : cs.length = cs'.length)
    (h : cs.flatMap entry = cs'.flatMap entry) : cs = cs' := by
  induction cs generalizing cs' with
  | nil => exact (List.length_eq_zero_iff.mp hlen.symm).symm
  | cons c cs ih =>
    cases cs' with
    | nil => simp at hlen
    | cons c' cs' =>
      rw [List.flatMap_cons, List.flatMap_cons] at h
      obtain ⟨h₁, h₂⟩ := List.append_inj h (by rw [entry_length, entry_length])
      rw [entry_injective h₁, ih (by simpa using hlen) h₂]

/-- Messages whose lengths fit their prefixes can be told apart by their layouts. -/
theorem layout_injective {h h' : Hello} (hv : h.softwareVersion.length < 2 ^ 16)
    (hv' : h'.softwareVersion.length < 2 ^ 16) (hc : h.capabilities.length < 2 ^ 16)
    (hc' : h'.capabilities.length < 2 ^ 16) (he : h.layout = h'.layout) : h = h' := by
  obtain ⟨hrole, he⟩ := List.cons.inj he
  -- the version is read back from both layouts
  have hver := readString_append hv
    (writeUint16 (UInt16.ofNat h.capabilities.length) ++ h.capabilities.flatMap entry)
  rw [he, readString_append hv'] at hver
  obtain ⟨hver, htail⟩ := Prod.mk.inj (Except.ok.inj hver)
  have hcount := readUint16_append (UInt16.ofNat h.capabilities.length)
    (h.capabilities.flatMap entry)
  rw [← htail, readUint16_append] at hcount
  obtain ⟨hcount, hcaps⟩ := Prod.mk.inj (Except.ok.inj hcount)
  have hlen : h'.capabilities.length = h.capabilities.length := by
    have := congrArg UInt16.toNat hcount
    rwa [UInt16.toNat_ofNat', UInt16.toNat_ofNat', Nat.mod_eq_of_lt hc, Nat.mod_eq_of_lt hc']
      at this
  exact Hello.ext hrole hver.symm (flatMap_entry_injective hlen hcaps).symm

/-- The loop of the encoder writes the entries when no range is empty. -/
theorem writeCapabilities_eq_ok {cs : List Capability} {b : Bytes} :
    writeCapabilities cs = .ok b ↔
      (∀ c ∈ cs, c.minRevision ≤ c.maxRevision) ∧ b = cs.flatMap entry := by
  induction cs generalizing b with
  | nil => simp [writeCapabilities, eq_comm]
  | cons c cs ih =>
    simp only [writeCapabilities, bind_eq_ok, check_eq_ok, pure_eq_ok, ih]
    constructor
    · rintro ⟨hc, _, ⟨hcs, rfl⟩, rfl⟩
      refine ⟨?_, by simp [entry]⟩
      rintro c' (_ | ⟨_, hc'⟩)
      · exact UInt16.not_lt.mp hc
      · exact hcs c' hc'
    · rintro ⟨hcs, rfl⟩
      exact ⟨UInt16.not_lt.mpr (hcs c List.mem_cons_self), _,
        ⟨fun c' hc' => hcs c' (List.mem_cons_of_mem _ hc'), rfl⟩, by simp [entry]⟩

/-- The message as it is sent. -/
def sorted (sortSlice : SortByID) (h : Hello) : Hello :=
  { h with capabilities := sortSlice.sort h.capabilities }

/-- **What is encoded is the layout of the sorted message**, and the encoder refuses only what it
checks: it lets a repeated id pass. -/
theorem marshalBinary_eq_ok {sortSlice : SortByID} {h : Hello} {b : Bytes} :
    h.marshalBinary sortSlice = .ok b ↔
      (h.role ≠ roleUnknown ∧ h.role ≤ roleVHandler) ∧
        h.softwareVersion.length ≤ maxHelloVersionLen ∧
        h.capabilities.length ≤ maxHelloCapabilities ∧
        (∀ c ∈ h.capabilities, c.minRevision ≤ c.maxRevision) ∧
        b = (h.sorted sortSlice).layout := by
  have hmem (c : Capability) : c ∈ sortSlice.sort h.capabilities ↔ c ∈ h.capabilities :=
    (sortSlice.perm _).mem_iff
  simp only [marshalBinary, bind_eq_ok, check_eq_ok, pure_eq_ok, writeCapabilities_eq_ok, hmem,
    not_or, UInt8.not_lt, Nat.not_lt]
  constructor
  · rintro ⟨hrole, hver, hcount, _, ⟨hranges, rfl⟩, rfl⟩
    exact ⟨hrole, hver, hcount, hranges, by simp [layout, sorted]⟩
  · rintro ⟨hrole, hver, hcount, hranges, rfl⟩
    exact ⟨hrole, hver, hcount, _, ⟨hranges, rfl⟩, by simp [layout, sorted]⟩

end Hello

end Mvcp
