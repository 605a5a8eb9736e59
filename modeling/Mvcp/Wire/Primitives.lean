import Mvcp.Library.BigEndian
import Mvcp.Library.Decoder

/-!
# The field encoders and decoders

`encode.go` and `decode.go`: the positional fields every message body is made of. A reader
takes the bytes still unread and returns a value with the bytes after it, or the error of
`io.ReadFull`: `EOF` when nothing was left, `unexpected EOF` when the field was cut.

## Main definitions

* `readFull`, `readUint8`, `readUint16`, `readUint32`, `readUint64`, `readInt32`, `readBool`,
  `readString`, `readBytes`, `readStringSlice`: the decoders
* `writeUint8`, `writeUint16`, …, `writeStringSlice`: the encoders

## Main results

* `readUint16_append`, `readUint32_append`, `readBytes_append`: a written field is read back
* `readString_append`: a written string is read back when its length fits its prefix
* `readUint8_eq_ok`, `readUint16_eq_ok`, …, `readBytes_eq_ok`: a field is read exactly from the
  bytes written for it
* `reads_uint8`, …, `reads_stringSlice`: the same as a law of decoders
-/

namespace Mvcp

open Library (beBytes beNat beNat_beBytes beBytes_beNat beNat_lt beBytes_length Decoder Reads)

/-- A Go byte slice, or the bytes of a Go string. -/
abbrev Bytes := List UInt8

/-- The bytes of a text of the source. -/
def text (s : String) : Bytes := s.toUTF8.data.toList

/-- One hexadecimal digit, upper case. -/
def hexDigit (n : ℕ) : Char := if n < 10 then Char.ofNat (48 + n) else Char.ofNat (55 + n)

/-- `%02X` of a byte. -/
def hex02 (b : UInt8) : String :=
  String.ofList [hexDigit (b.toNat / 16), hexDigit (b.toNat % 16)]

/-- The errors of `io.ReadFull`. -/
inductive ReadError
  | eof
  | unexpectedEOF
  deriving DecidableEq

/-- The text of a read error. -/
def ReadError.text : ReadError → String
  | .eof => "EOF"
  | .unexpectedEOF => "unexpected EOF"

/-- A decoder of the bytes still unread. -/
abbrev Reader (α : Type) := Bytes → Except ReadError (α × Bytes)

/-- `io.ReadFull`: exactly `n` bytes, or the error of a short input. -/
def readFull (n : ℕ) : Reader Bytes := fun b =>
  if n ≤ b.length then .ok (b.take n, b.drop n)
  else .error (if b = [] then .eof else .unexpectedEOF)

def readUint8 : Reader UInt8 := fun b => do
  let (buf, r) ← readFull 1 b
  return (UInt8.ofNat (beNat buf), r)

def readUint16 : Reader UInt16 := fun b => do
  let (buf, r) ← readFull 2 b
  return (UInt16.ofNat (beNat buf), r)

def readUint32 : Reader UInt32 := fun b => do
  let (buf, r) ← readFull 4 b
  return (UInt32.ofNat (beNat buf), r)

def readUint64 : Reader UInt64 := fun b => do
  let (buf, r) ← readFull 8 b
  return (UInt64.ofNat (beNat buf), r)

def readInt32 : Reader Int32 := fun b => do
  let (v, r) ← readUint32 b
  return (v.toInt32, r)

/-- `ReadBool`: every byte but zero is true. -/
def readBool : Reader Bool := fun b => do
  let (v, r) ← readUint8 b
  return (v != 0, r)

/-- A string with its `uint16` length. -/
def readString : Reader Bytes := fun b => do
  let (length, r) ← readUint16 b
  if length.toNat = 0 then return ([], r) else readFull length.toNat r

/-- A byte slice with its `uint32` length. -/
def readBytes : Reader Bytes := fun b => do
  let (length, r) ← readUint32 b
  if length.toNat = 0 then return ([], r) else readFull length.toNat r

/-- The loop of `ReadStringSlice`. -/
def readStrings : ℕ → Decoder UInt8 ReadError (List Bytes) := Decoder.many readString

/-- A list of strings with its `uint16` count. -/
def readStringSlice : Decoder UInt8 ReadError (List Bytes) := do
  let count ← readUint16
  if count.toNat = 0 then return [] else readStrings count.toNat

def writeUint8 (v : UInt8) : Bytes := [v]

def writeUint16 (v : UInt16) : Bytes := beBytes 2 v.toNat

def writeUint32 (v : UInt32) : Bytes := beBytes 4 v.toNat

def writeUint64 (v : UInt64) : Bytes := beBytes 8 v.toNat

def writeInt32 (v : Int32) : Bytes := writeUint32 v.toUInt32

def writeBool (v : Bool) : Bytes := if v then writeUint8 1 else writeUint8 0

/-- `WriteString`: the length is converted to `uint16` without a check. -/
def writeString (s : Bytes) : Bytes := writeUint16 (UInt16.ofNat s.length) ++ s

/-- `WriteBytes`: the length is converted to `uint32` without a check. -/
def writeBytes (b : Bytes) : Bytes := writeUint32 (UInt32.ofNat b.length) ++ b

/-- `WriteStringSlice`: the count is converted to `uint16` without a check. -/
def writeStringSlice (s : List Bytes) : Bytes :=
  writeUint16 (UInt16.ofNat s.length) ++ s.flatMap writeString

/-! ## Reading back what was written -/

theorem readFull_append {n : ℕ} {a : Bytes} (h : a.length = n) (rest : Bytes) :
    readFull n (a ++ rest) = .ok (a, rest) := by
  subst h
  simp [readFull]

/-! ## What a field was read from -/

theorem readFull_eq_ok {n : ℕ} {b a r : Bytes} :
    readFull n b = .ok (a, r) ↔ a.length = n ∧ b = a ++ r := by
  constructor
  · intro h
    unfold readFull at h
    split_ifs at h with hn
    obtain ⟨rfl, rfl⟩ := Prod.mk.inj (Except.ok.inj h)
    exact ⟨List.length_take_of_le hn, (List.take_append_drop n b).symm⟩
  · rintro ⟨hn, rfl⟩
    exact readFull_append hn r

/-- A fixed-width field is read exactly from the `w` bytes of its value. -/
theorem readInt_eq_ok {α : Type} {w : ℕ} {toNat : α → ℕ} {ofNat : ℕ → α}
    (hto : ∀ v, toNat v < 256 ^ w) (hof : ∀ v, ofNat (toNat v) = v)
    (hnat : ∀ n < 256 ^ w, toNat (ofNat n) = n) {b r : Bytes} {v : α} :
    (do let (buf, r) ← readFull w b; return (ofNat (beNat buf), r)) = Except.ok (v, r) ↔
      b = beBytes w (toNat v) ++ r := by
  constructor
  · intro h
    cases hr : readFull w b with
    | error e => simp [hr, bind, Except.bind] at h
    | ok p =>
      obtain ⟨buf, r'⟩ := p
      obtain ⟨hlen, rfl⟩ := readFull_eq_ok.mp hr
      rw [hr] at h
      obtain ⟨rfl, rfl⟩ := Prod.mk.inj (Except.ok.inj h)
      subst hlen
      rw [hnat _ (beNat_lt buf), beBytes_beNat]
  · rintro rfl
    rw [readFull_append (beBytes_length w _)]
    show Except.ok (ofNat (beNat (beBytes w (toNat v))), r) = _
    rw [beNat_beBytes, Nat.mod_eq_of_lt (hto v), hof]

theorem readUint8_eq_ok {b r : Bytes} {v : UInt8} :
    readUint8 b = .ok (v, r) ↔ b = v :: r := by
  have h := readInt_eq_ok (w := 1) (fun v : UInt8 => v.toNat_lt) (fun _ => UInt8.ofNat_toNat)
    (fun _ hn => UInt8.toNat_ofNat_of_lt' hn) (b := b) (r := r) (v := v)
  refine h.trans ?_
  simp [beBytes]

theorem readUint16_eq_ok {b r : Bytes} {v : UInt16} :
    readUint16 b = .ok (v, r) ↔ b = writeUint16 v ++ r :=
  readInt_eq_ok (fun v => v.toNat_lt) (fun _ => UInt16.ofNat_toNat) fun _ hn =>
    UInt16.toNat_ofNat_of_lt' hn

theorem readUint32_eq_ok {b r : Bytes} {v : UInt32} :
    readUint32 b = .ok (v, r) ↔ b = writeUint32 v ++ r :=
  readInt_eq_ok (fun v => v.toNat_lt) (fun _ => UInt32.ofNat_toNat) fun _ hn =>
    UInt32.toNat_ofNat_of_lt' hn

theorem readUint64_eq_ok {b r : Bytes} {v : UInt64} :
    readUint64 b = .ok (v, r) ↔ b = writeUint64 v ++ r :=
  readInt_eq_ok (fun v => v.toNat_lt) (fun _ => UInt64.ofNat_toNat) fun _ hn =>
    UInt64.toNat_ofNat_of_lt' hn

@[simp] theorem readUint16_append (v : UInt16) (rest : Bytes) :
    readUint16 (writeUint16 v ++ rest) = .ok (v, rest) :=
  readUint16_eq_ok.mpr rfl

@[simp] theorem readUint32_append (v : UInt32) (rest : Bytes) :
    readUint32 (writeUint32 v ++ rest) = .ok (v, rest) :=
  readUint32_eq_ok.mpr rfl

theorem ofNat_beNat_writeUint32 (v : UInt32) : UInt32.ofNat (beNat (writeUint32 v)) = v := by
  rw [writeUint32, beNat_beBytes, Nat.mod_eq_of_lt (show v.toNat < 256 ^ 4 from v.toNat_lt)]
  exact UInt32.ofNat_toNat

theorem writeUint32_ofNat_beNat {bs : Bytes} (h : bs.length = 4) :
    writeUint32 (UInt32.ofNat (beNat bs)) = bs := by
  have hlt : beNat bs < 2 ^ 32 := by
    have := beNat_lt bs
    rwa [h] at this
  rw [writeUint32, UInt32.toNat_ofNat', Nat.mod_eq_of_lt hlt, ← h, beBytes_beNat]

/-! ## Strings and byte slices -/

/-- What follows the length prefix of a written string, whatever the length. -/
theorem readString_writeString (s rest : Bytes) :
    readString (writeString s ++ rest) =
      .ok ((s ++ rest).take (s.length % 2 ^ 16), (s ++ rest).drop (s.length % 2 ^ 16)) := by
  have hle : s.length % 2 ^ 16 ≤ (s ++ rest).length :=
    (Nat.mod_le _ _).trans (by simp)
  simp only [readString, writeString, List.append_assoc, readUint16_append]
  show (if (UInt16.ofNat s.length).toNat = 0 then _ else _) = _
  rw [UInt16.toNat_ofNat']
  split_ifs with h
  · simp only [h, List.take_zero, List.drop_zero]
    rfl
  · simp only [readFull, hle, if_true]

/-- A string whose length fits the prefix is read back. -/
theorem readString_append {s : Bytes} (h : s.length < 2 ^ 16) (rest : Bytes) :
    readString (writeString s ++ rest) = .ok (s, rest) := by
  rw [readString_writeString, Nat.mod_eq_of_lt h]
  simp

/-- A byte slice whose length fits the prefix is read back. -/
theorem readBytes_append {b : Bytes} (h : b.length < 2 ^ 32) (rest : Bytes) :
    readBytes (writeBytes b ++ rest) = .ok (b, rest) := by
  simp only [readBytes, writeBytes, List.append_assoc, readUint32_append]
  show (if (UInt32.ofNat b.length).toNat = 0 then _ else _) = _
  rw [UInt32.toNat_ofNat', Nat.mod_eq_of_lt h]
  split_ifs with h₀
  · rw [List.length_eq_zero_iff.mp h₀]
    rfl
  · exact readFull_append rfl rest

/-! ## Exact fields -/

/-- A field behind its length is read exactly from the bytes written for it. -/
theorem readPrefixed_eq_ok {b r a : Bytes} {n : ℕ} :
    (if n = 0 then return ([], b) else readFull n b : Except ReadError (Bytes × Bytes)) =
        .ok (a, r) ↔ a.length = n ∧ b = a ++ r := by
  split_ifs with hn
  · subst hn
    simp only [pure, Except.pure, Except.ok.injEq, Prod.mk.injEq, List.length_eq_zero_iff]
    constructor
    · rintro ⟨rfl, rfl⟩
      simp
    · rintro ⟨rfl, rfl⟩
      simp
  · exact readFull_eq_ok

/-- A string is read exactly from the bytes written for one that fits its prefix. -/
theorem readString_eq_ok {b r s : Bytes} :
    readString b = .ok (s, r) ↔ s.length < 2 ^ 16 ∧ b = writeString s ++ r := by
  constructor
  · intro h
    cases hl : readUint16 b with
    | error e => simp [readString, hl, bind, Except.bind] at h
    | ok p =>
      obtain ⟨length, rest⟩ := p
      simp only [readString, hl, bind, Except.bind, readPrefixed_eq_ok] at h
      obtain ⟨hlen, rfl⟩ := h
      obtain rfl := readUint16_eq_ok.mp hl
      have hof : UInt16.ofNat s.length = length := by rw [hlen]; exact UInt16.ofNat_toNat
      exact ⟨hlen ▸ length.toNat_lt, by simp [writeString, hof]⟩
  · rintro ⟨hs, rfl⟩
    exact readString_append hs r

/-- A byte slice is read exactly from the bytes written for one that fits its prefix. -/
theorem readBytes_eq_ok {b r s : Bytes} :
    readBytes b = .ok (s, r) ↔ s.length < 2 ^ 32 ∧ b = writeBytes s ++ r := by
  constructor
  · intro h
    cases hl : readUint32 b with
    | error e => simp [readBytes, hl, bind, Except.bind] at h
    | ok p =>
      obtain ⟨length, rest⟩ := p
      simp only [readBytes, hl, bind, Except.bind, readPrefixed_eq_ok] at h
      obtain ⟨hlen, rfl⟩ := h
      obtain rfl := readUint32_eq_ok.mp hl
      have hof : UInt32.ofNat s.length = length := by rw [hlen]; exact UInt32.ofNat_toNat
      exact ⟨hlen ▸ length.toNat_lt, by simp [writeBytes, hof]⟩
  · rintro ⟨hs, rfl⟩
    exact readBytes_append hs r

theorem readInt32_eq_ok {b r : Bytes} {v : Int32} :
    readInt32 b = .ok (v, r) ↔ b = writeInt32 v ++ r := by
  rw [writeInt32, ← readUint32_eq_ok]
  cases hb : readUint32 b with
  | error e => simp [readInt32, hb, bind, Except.bind]
  | ok p =>
    obtain ⟨u, rest⟩ := p
    simp only [readInt32, hb, bind, Except.bind, pure, Except.pure, Except.ok.injEq,
      Prod.mk.injEq]
    constructor
    · rintro ⟨rfl, rfl⟩
      simp
    · rintro ⟨rfl, rfl⟩
      simp

/-! ## The fields as decoders -/

theorem reads_uint8 (v : UInt8) : Reads readUint8 (writeUint8 v) v :=
  .of_total fun _ _ _ => readUint8_eq_ok

theorem reads_uint16 (v : UInt16) : Reads readUint16 (writeUint16 v) v :=
  .of_total fun _ _ _ => readUint16_eq_ok

theorem reads_uint32 (v : UInt32) : Reads readUint32 (writeUint32 v) v :=
  .of_total fun _ _ _ => readUint32_eq_ok

theorem reads_uint64 (v : UInt64) : Reads readUint64 (writeUint64 v) v :=
  .of_total fun _ _ _ => readUint64_eq_ok

theorem reads_int32 (v : Int32) : Reads readInt32 (writeInt32 v) v :=
  .of_total fun _ _ _ => readInt32_eq_ok

/-- A written boolean is read back; its one byte may not be missing. -/
theorem reads_bool (v : Bool) : Reads readBool (writeBool v) v where
  append t := by cases v <;> rfl
  cut c t hct ht := by
    have hlen : (writeBool v).length = 1 := by cases v <;> rfl
    obtain rfl : c = [] := by
      have h₁ := congrArg List.length hct
      have h₂ := List.length_pos_iff.mpr ht
      rw [List.length_append] at h₁
      exact List.length_eq_zero_iff.mp (by omega)
    exact ⟨.eof, rfl⟩

theorem reads_string {s : Bytes} (h : s.length < 2 ^ 16) : Reads readString (writeString s) s :=
  .of_exact (fun _ _ _ => readString_eq_ok) h

theorem reads_bytes {s : Bytes} (h : s.length < 2 ^ 32) : Reads readBytes (writeBytes s) s :=
  .of_exact (fun _ _ _ => readBytes_eq_ok) h

/-- A written list of strings is read back when its count and its strings fit their prefixes. -/
theorem reads_stringSlice {ss : List Bytes} (hlen : ss.length < 2 ^ 16)
    (h : ∀ s ∈ ss, s.length < 2 ^ 16) : Reads readStringSlice (writeStringSlice ss) ss := by
  have hcount : (UInt16.ofNat ss.length).toNat = ss.length := UInt16.toNat_ofNat_of_lt' hlen
  refine (reads_uint16 _).bind ?_
  rw [hcount]
  split_ifs with h₀
  · rw [List.length_eq_zero_iff.mp h₀]
    exact Reads.pure []
  · exact Reads.many fun s hs => reads_string (h s hs)

end Mvcp
