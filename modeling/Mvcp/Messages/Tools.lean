import Mvcp.Messages.Records

/-!
# The list of tools

`ListToolsResult` of `messages/tools.go`: a count, and for each tool three strings, two lists of
strings and a schema. `UnmarshalBinary` allocates the receiver's list before it reads the entries
and fills it entry by entry, so a body that is cut short leaves a receiver with zero entries where
the others were; every other method of the catalogue assigns its receiver at the end.

## Main definitions

* `ToolEntry`, `ListToolsResult`: the message
* `ListToolsResult.unmarshalBinary`, `ListToolsResult.decode`: the method, and the registered
  decoder

## Main results

* `ListToolsResult.agrees`: the method succeeds as the registered decoder does
* `ListToolsResult.reads`: a list that fits its prefixes is read back
* `ListToolsResult.intact_iff`: a failed call leaves every receiver as it was exactly when the body
  holds no count
-/

namespace Mvcp.Messages

open Library (Decoder Method Alike Agrees Reads beBytes_length)
open Library.Method (assign)

/-- One tool of the list. -/
structure ToolEntry where
  name : Bytes := []
  description : Bytes := []
  version : Bytes := []
  capabilities : List Bytes := []
  permissions : List Bytes := []
  schema : Bytes := []
  deriving DecidableEq

/-- The zero value of an entry. -/
def ToolEntry.zero : ToolEntry := {}

/-- The lengths and counts of the entry fit their prefixes. -/
structure ToolEntry.Fits (e : ToolEntry) : Prop where
  name : e.name.length < 2 ^ 16
  description : e.description.length < 2 ^ 16
  version : e.version.length < 2 ^ 16
  capabilities : e.capabilities.length < 2 ^ 16
  capability : ∀ s ∈ e.capabilities, s.length < 2 ^ 16
  permissions : e.permissions.length < 2 ^ 16
  permission : ∀ s ∈ e.permissions, s.length < 2 ^ 16
  schema : e.schema.length < 2 ^ 32

structure ListToolsResult where
  entries : List ToolEntry := []
  deriving DecidableEq

namespace ListToolsResult

/-! ## The codec -/

/-- One round of the loop of `MarshalBinary`. -/
def writeEntry (e : ToolEntry) : Bytes :=
  writeString e.name ++ writeString e.description ++ writeString e.version ++
    writeStringSlice e.capabilities ++ writeStringSlice e.permissions ++ writeBytes e.schema

def marshalBinary (m : ListToolsResult) : Bytes :=
  writeUint16 (UInt16.ofNat m.entries.length) ++ m.entries.flatMap writeEntry

/-- The reads of one round of the loop of `UnmarshalBinary`. -/
def readEntry : Decode ToolEntry := do
  let name ← decodeField "list_tools_result: read name" readString
  let description ← decodeField "list_tools_result: read description" readString
  let version ← decodeField "list_tools_result: read version" readString
  let capabilities ← decodeField "list_tools_result: read capabilities" readStringSlice
  let permissions ← decodeField "list_tools_result: read permissions" readStringSlice
  let schema ← decodeField "list_tools_result: read schema" readBytes
  return { name, description, version, capabilities, permissions, schema }

/-- The loop of `UnmarshalBinary`: `n` entries are left, the next one goes to index `i`. -/
def readEntries : ℕ → ℕ → Unmarshal ListToolsResult Unit
  | 0, _ => pure ()
  | n + 1, i => do
    let e ← Method.field readEntry
    assign fun m => { m with entries := m.entries.set i e }
    readEntries n (i + 1)

/-- `UnmarshalBinary`: the list is allocated before the entries are read. -/
def unmarshalBinary : Unmarshal ListToolsResult Unit := do
  let count ← readField "list_tools_result: read count" readUint16
  assign fun m => { m with entries := List.replicate count.toNat .zero }
  readEntries count.toNat 0

/-- The reads of one round of the registered decoder. -/
def decodeEntry : Decode ToolEntry := do
  let name ← decodeField "list_tools_result" readString
  let description ← decodeField "list_tools_result" readString
  let version ← decodeField "list_tools_result" readString
  let capabilities ← decodeField "list_tools_result" readStringSlice
  let permissions ← decodeField "list_tools_result" readStringSlice
  let schema ← decodeField "list_tools_result" readBytes
  return { name, description, version, capabilities, permissions, schema }

/-- The decoder in the registry. -/
def decode : Decode ListToolsResult := do
  let count ← decodeField "list_tools_result" readUint16
  let entries ← decodeEntry.many count.toNat
  return { entries }

/-! ## The method and the registered decoder -/

theorem alike_entry : Alike readEntry decodeEntry :=
  .bind .label fun _ => .bind .label fun _ => .bind .label fun _ => .bind .label fun _ =>
    .bind .label fun _ => .bind .label fun _ => .pure _

/-- The loop fills the places behind the entries read so far. -/
theorem readEntries_cases (n : ℕ) (es : List ToolEntry) (b : Bytes) :
    (∃ as r, decodeEntry.many n b = .ok (as, r) ∧
      readEntries n es.length b ⟨es ++ List.replicate n .zero⟩ = (.ok ((), r), ⟨es ++ as⟩)) ∨
    ∃ e e' m, decodeEntry.many n b = .error e ∧
      readEntries n es.length b ⟨es ++ List.replicate n .zero⟩ = (.error e', m) := by
  induction n generalizing es b with
  | zero => exact .inl ⟨[], b, rfl, by simp [readEntries, pure]⟩
  | succ n ih =>
    simp only [readEntries, Decoder.many, Method.field_bind, Method.assign_bind]
    rcases alike_entry.cases b with ⟨e, r, hr, hd⟩ | ⟨e, e', hr, hd⟩
    · -- the entry goes to the first of the free places
      have hset : (es ++ List.replicate (n + 1) ToolEntry.zero).set es.length e =
          (es ++ [e]) ++ List.replicate n ToolEntry.zero := by
        simp [List.replicate_succ]
      have hstep := ih (es ++ [e]) r
      simp only [List.length_append, List.length_singleton] at hstep
      simp only [hr, hset, Decoder.bind_ok hd]
      rcases hstep with ⟨as, r', hm, hs⟩ | ⟨x, x', m, hm, hs⟩
      · refine .inl ⟨e :: as, r', ?_, ?_⟩
        · rw [Decoder.bind_ok hm]
          rfl
        · rw [hs]
          simp
      · exact .inr ⟨x, x', m, Decoder.bind_error hm, hs⟩
    · simp only [hr]
      exact .inr ⟨e', e, _, Decoder.bind_error hd, rfl⟩

/-- **The method succeeds exactly as the registered decoder does**, with the same list. -/
theorem agrees : Agrees unmarshalBinary decode := by
  refine Agrees.field .label fun count b m => ?_
  rw [Method.assign_bind]
  rcases readEntries_cases count.toNat [] b with ⟨as, r, hm, hs⟩ | ⟨e, e', m', hm, hs⟩
  · refine .inl ⟨⟨as⟩, r, ?_, hs⟩
    rw [Decoder.bind_ok hm]
    rfl
  · exact .inr ⟨e, e', m', Decoder.bind_error hm, hs⟩

/-! ## Reading back -/

/-- The count and the entries fit their prefixes. -/
def Fits (m : ListToolsResult) : Prop := m.entries.length < 2 ^ 16 ∧ ∀ e ∈ m.entries, e.Fits

theorem reads_entry {e : ToolEntry} (h : e.Fits) : Reads decodeEntry (writeEntry e) e := by
  simp only [writeEntry, List.append_assoc]
  exact (reads_string h.name).label.bind <| (reads_string h.description).label.bind <|
    (reads_string h.version).label.bind <|
    (reads_stringSlice h.capabilities h.capability).label.bind <|
    (reads_stringSlice h.permissions h.permission).label.bind <| (reads_bytes h.schema).label.map

theorem reads {m : ListToolsResult} (h : m.Fits) : Reads decode m.marshalBinary m := by
  have hcount : (UInt16.ofNat m.entries.length).toNat = m.entries.length :=
    UInt16.toNat_ofNat_of_lt' h.1
  refine (reads_uint16 _).label.bind ?_
  rw [hcount]
  exact (Reads.many fun e he => reads_entry (h.2 e he)).map

/-! ## Failed calls -/

/-- The loop keeps the length of the list. -/
theorem readEntries_length (n i : ℕ) (b : Bytes) (m : ListToolsResult) :
    (readEntries n i b m).2.entries.length = m.entries.length := by
  induction n generalizing i b m with
  | zero => rfl
  | succ n ih =>
    simp only [readEntries, Method.field_bind, Method.assign_bind]
    split
    · rw [ih]
      simp
    · rfl

/-- **A failed call leaves every receiver as it was exactly when the body is too short for the
count.** With a count, the receiver has lost its entries before the first of the body is read. -/
theorem intact_iff {data : Bytes} {e : String} {m₀ : ListToolsResult}
    (hfail : (unmarshalBinary.call data m₀).1 = .error e) :
    (∀ m, (unmarshalBinary.call data m).2 = m) ↔ data.length < 2 := by
  cases hcount : readUint16 data with
  | error x =>
    -- without a count nothing was assigned
    have hkeep (m : ListToolsResult) : (unmarshalBinary.call data m).2 = m := by
      simp only [Method.call, unmarshalBinary, Method.field_bind, Decoder.label_error hcount]
    refine iff_of_true hkeep (Nat.lt_of_not_le fun hlen => ?_)
    simp [readUint16, readFull, hlen, bind, Except.bind, pure, Except.pure] at hcount
  | ok p =>
    obtain ⟨count, r⟩ := p
    have hlen : ¬ data.length < 2 := by
      rw [readUint16_eq_ok.mp hcount, List.length_append, writeUint16, beBytes_length]
      omega
    refine iff_of_false (fun hkeep => ?_) hlen
    -- an empty receiver would be left with as many entries as the count says, that is none
    have hzero := congrArg (fun m => m.entries.length) (hkeep ⟨[]⟩)
    simp only [Method.call, unmarshalBinary, Method.field_bind, Decoder.label_ok hcount,
      Method.assign_bind, readEntries_length, List.length_replicate, List.length_nil] at hzero
    simp only [Method.call, unmarshalBinary, Method.field_bind, Decoder.label_ok hcount,
      Method.assign_bind, hzero, readEntries] at hfail
    simp [pure, Except.map] at hfail

end ListToolsResult

end Mvcp.Messages
