import Mvcp.Messages.Records
import Mathlib.Data.List.Count

/-!
# The heartbeat

`HeartbeatMsg` of `messages/status.go`: a fixed header and a list of extensions, each a type, a
length and a value. The health and the failure reason of a message are fields of the struct that
travel as extensions: the encoder puts them into the list, and `UnmarshalBinary` takes them out of
it again, the last one of a kind winning. The registered decoder does not take them out, and
`UnmarshalBinary` takes a reason out whatever the state is.

## Main definitions

* `HeartbeatMsg`, `HeartbeatExtension`: the message
* `HeartbeatMsg.materializedExtensions`, `HeartbeatMsg.marshalBinary`: the encoder
* `HeartbeatMsg.unmarshalBinary`, `HeartbeatMsg.decode`: the method, and the registered decoder
* `healths`, `reasons`: what the extensions say about health and reason, in order
* `Carries`: the extensions a body carries, without the decoder

## Main results

* `HeartbeatMsg.decode_eq_ok`: what the decoder accepts
* `HeartbeatMsg.mirrors`: the method decodes as the registered decoder does and derives the fields
* `HeartbeatMsg.round_trip`: what a message becomes on the way, and that its bytes do not change
* `HeartbeatMsg.failureReason_eq_nil_iff`: when a message that is not a failure report has no reason
-/

namespace Mvcp.Messages

open Library (Decoder Method Mirrors Reads beNat beNat_beBytes beBytes_beNat beNat_lt)
open Library.Method (assign)

def heartbeatStateFailed : UInt8 := 5

def healthHealthy : UInt8 := 0

def extHealth : UInt16 := 4
def extFailureReason : UInt16 := 5

structure HeartbeatExtension where
  typ : UInt16
  value : Bytes
  deriving DecidableEq

@[ext]
structure HeartbeatMsg where
  bootID : UInt64 := 0
  seq : UInt64 := 0
  state : UInt8 := 0
  flags : UInt8 := 0
  health : UInt8 := 0
  failureReason : Bytes := []
  extensions : List HeartbeatExtension := []
  deriving DecidableEq

/-! ## Encoding -/

namespace HeartbeatMsg

/-- One round of the loop of `materializedExtensions`: the value of a health extension is replaced,
that of a reason extension only by a reason that is not empty. -/
def project (m : HeartbeatMsg) (e : HeartbeatExtension) : HeartbeatExtension :=
  if e.typ = extHealth then { e with value := [m.health] }
  else if e.typ = extFailureReason then
    if m.failureReason ≠ [] then { e with value := m.failureReason } else e
  else e

/-- `materializedExtensions`. -/
def materializedExtensions (m : HeartbeatMsg) : List HeartbeatExtension :=
  let seenHealth := m.extensions.any fun e => e.typ = extHealth
  let seenReason := m.extensions.any fun e => e.typ = extFailureReason
  m.extensions.map m.project ++
    (if seenHealth then [] else [⟨extHealth, [m.health]⟩]) ++
    (if m.state = heartbeatStateFailed ∧ m.failureReason ≠ [] ∧ seenReason = false then
      [⟨extFailureReason, m.failureReason⟩] else [])

end HeartbeatMsg

/-- One round of `writeHeartbeatExtensions`: the length is converted to `uint16` without a
check. -/
def writeExtension (e : HeartbeatExtension) : Bytes :=
  writeUint16 e.typ ++ writeUint16 (UInt16.ofNat e.value.length) ++ e.value

namespace HeartbeatMsg

/-- The extensions of a message on the wire. -/
def extensionBytes (m : HeartbeatMsg) : Bytes := m.materializedExtensions.flatMap writeExtension

/-- The body of a heartbeat with the given bytes behind its header. -/
def body (m : HeartbeatMsg) (payload : Bytes) : Bytes :=
  writeUint64 m.bootID ++ (writeUint64 m.seq ++ (writeUint8 m.state ++ (writeUint8 m.flags ++
    (writeUint16 (UInt16.ofNat payload.length) ++ payload))))

/-- `MarshalBinary`: the length of the extensions is converted to `uint16` without a check. -/
def marshalBinary (m : HeartbeatMsg) : Bytes := m.body m.extensionBytes

end HeartbeatMsg

/-! ## Decoding -/

/-- The loop of `readHeartbeatExtensions`. It ends when fewer than four bytes are left, so that its
reads do not fail. -/
def readExtensions : Bytes → Except String (List HeartbeatExtension)
  | t₁ :: t₀ :: l₁ :: l₀ :: r =>
    let extType := UInt16.ofNat (beNat [t₁, t₀])
    let extLen := UInt16.ofNat (beNat [l₁, l₀])
    if r.length < extLen.toNat then
      .error ("heartbeat: extension type=" ++ toString extType.toNat ++ " declared len=" ++
        toString extLen.toNat ++ " but only " ++ toString r.length ++ " bytes remain")
    else do
      let exts ← readExtensions (r.drop extLen.toNat)
      return ⟨extType, r.take extLen.toNat⟩ :: exts
  | _ => .ok []
termination_by b => b.length
decreasing_by simp only [List.length_drop, List.length_cons]; omega

/-- `readHeartbeatExtensions`. -/
def readHeartbeatExtensions (payloadLen : UInt16) : Decode (List HeartbeatExtension) :=
  if payloadLen.toNat = 0 then pure []
  else do
    let raw ← decodeField "read extension data" (readFull payloadLen.toNat)
    Decoder.ofExcept (readExtensions raw)

namespace HeartbeatMsg

/-- One round of the last loop of `UnmarshalBinary`. -/
def absorb (m : HeartbeatMsg) (e : HeartbeatExtension) : HeartbeatMsg :=
  if e.typ = extHealth then
    match e.value with
    | [] => m
    | v :: _ => { m with health := v }
  else if e.typ = extFailureReason then { m with failureReason := e.value }
  else m

def unmarshalBinary : Unmarshal HeartbeatMsg Unit := do
  let bootID ← readField "heartbeat: read boot_id" readUint64
  let seq ← readField "heartbeat: read seq" readUint64
  let state ← readField "heartbeat: read state" readUint8
  let flags ← readField "heartbeat: read flags" readUint8
  let payloadLen ← readField "heartbeat: read payload_length" readUint16
  let extensions ← Method.field
    ((readHeartbeatExtensions payloadLen).label fun e => "heartbeat: read extensions: " ++ e)
  assign fun m => { m with
    bootID, seq, state, flags, health := healthHealthy, failureReason := [], extensions }
  assign fun m => extensions.foldl absorb m

/-- The decoder in the registry: it derives nothing from the extensions. -/
def decode : Decode HeartbeatMsg := do
  let bootID ← decodeField "heartbeat: read boot_id" readUint64
  let seq ← decodeField "heartbeat: read seq" readUint64
  let state ← decodeField "heartbeat: read state" readUint8
  let flags ← decodeField "heartbeat: read flags" readUint8
  let payloadLen ← decodeField "heartbeat: read payload_length" readUint16
  let extensions ←
    (readHeartbeatExtensions payloadLen).label fun e => "heartbeat: read extensions: " ++ e
  return { bootID, seq, state, flags, extensions }

end HeartbeatMsg

/-! ## What the extensions say -/

/-- The health bytes of the extensions, in order. -/
def healths (exts : List HeartbeatExtension) : List UInt8 :=
  exts.filterMap fun e => if e.typ = extHealth then e.value.head? else none

/-- The failure reasons of the extensions, in order. -/
def reasons (exts : List HeartbeatExtension) : List Bytes :=
  exts.filterMap fun e => if e.typ = extFailureReason then some e.value else none

theorem mem_healths {exts : List HeartbeatExtension} {v : UInt8} :
    v ∈ healths exts ↔ ∃ e ∈ exts, e.typ = extHealth ∧ e.value.head? = some v := by
  simp [healths]

theorem mem_reasons {exts : List HeartbeatExtension} {v : Bytes} :
    v ∈ reasons exts ↔ ∃ e ∈ exts, e.typ = extFailureReason ∧ e.value = v := by
  simp [reasons]

namespace HeartbeatMsg

/-- The message with its health and its reason taken from its extensions. -/
def derived (m : HeartbeatMsg) : HeartbeatMsg :=
  { m with
    health := (healths m.extensions).getLastD healthHealthy
    failureReason := (reasons m.extensions).getLastD [] }

/-- **The last extension of a kind wins.** -/
theorem foldl_absorb (exts : List HeartbeatExtension) (m : HeartbeatMsg) :
    exts.foldl absorb m =
      { m with
        health := (healths exts).getLastD m.health
        failureReason := (reasons exts).getLastD m.failureReason } := by
  induction exts generalizing m with
  | nil => rfl
  | cons e exts ih =>
    rw [List.foldl_cons, ih]
    -- at most one of the two fields changes, to what is now the first of its list
    by_cases hh : e.typ = extHealth
    · have hr : e.typ ≠ extFailureReason := by rw [hh]; decide
      cases hv : e.value with
      | nil => simp only [absorb, healths, reasons, List.filterMap_cons, if_pos hh, if_neg hr, hv,
          List.head?_nil]
      | cons v _ => simp only [absorb, healths, reasons, List.filterMap_cons, if_pos hh, if_neg hr,
          hv, List.head?_cons, List.getLastD_cons]
    · by_cases hr : e.typ = extFailureReason
      · simp only [absorb, healths, reasons, List.filterMap_cons, if_neg hh, if_pos hr,
          List.getLastD_cons]
      · simp only [absorb, healths, reasons, List.filterMap_cons, if_neg hh, if_neg hr]

/-- **The method decodes as the registered decoder does and derives the two fields**, and it assigns
its receiver only when it succeeds. -/
theorem mirrors : Mirrors unmarshalBinary (decode >>= fun m => pure m.derived) := by
  simp only [decode, bind_assoc, pure_bind]
  refine .field fun bootID => .field fun seq => .field fun state => .field fun flags =>
    .field fun payloadLen => .field fun exts => ?_
  exact .assign fun m => foldl_absorb exts _

end HeartbeatMsg

/-! ## What the decoder accepts -/

theorem exists_writeUint16 (v : UInt16) : ∃ a b, writeUint16 v = [a, b] :=
  ⟨_, _, rfl⟩

theorem ofNat_beNat_writeUint16 (v : UInt16) : UInt16.ofNat (beNat (writeUint16 v)) = v := by
  rw [writeUint16, beNat_beBytes, Nat.mod_eq_of_lt (show v.toNat < 256 ^ 2 from v.toNat_lt)]
  exact UInt16.ofNat_toNat

theorem writeUint16_ofNat_beNat {bs : Bytes} (h : bs.length = 2) :
    writeUint16 (UInt16.ofNat (beNat bs)) = bs := by
  have hlt : beNat bs < 2 ^ 16 := by
    have := beNat_lt bs
    rwa [h] at this
  rw [writeUint16, UInt16.toNat_ofNat', Nat.mod_eq_of_lt hlt, ← h, beBytes_beNat]

theorem writeExtension_length (e : HeartbeatExtension) :
    (writeExtension e).length = 4 + e.value.length := by
  simp [writeExtension, writeUint16]
  omega

theorem readExtensions_of_length_lt {b : Bytes} (h : b.length < 4) : readExtensions b = .ok [] := by
  unfold readExtensions
  split
  · simp at h
    omega
  · rfl

/-- An extension that fits is read, and the loop goes on behind it. -/
theorem readExtensions_append {e : HeartbeatExtension} (he : e.value.length < 2 ^ 16)
    (rest : Bytes) :
    readExtensions (writeExtension e ++ rest) = (readExtensions rest).map (e :: ·) := by
  have hlen : (UInt16.ofNat e.value.length).toNat = e.value.length :=
    UInt16.toNat_ofNat_of_lt' he
  obtain ⟨t₁, t₀, ht⟩ := exists_writeUint16 e.typ
  obtain ⟨l₁, l₀, hl⟩ := exists_writeUint16 (UInt16.ofNat e.value.length)
  have htyp := ofNat_beNat_writeUint16 e.typ
  have hext := ofNat_beNat_writeUint16 (UInt16.ofNat e.value.length)
  rw [ht] at htyp
  rw [hl] at hext
  simp only [writeExtension, ht, hl, List.cons_append, List.nil_append, readExtensions, htyp, hext,
    hlen]
  rw [if_neg (by simp), List.take_left, List.drop_left]
  cases readExtensions rest <;> rfl

/-- **The loop reads a list of extensions and ignores up to three bytes behind it.** -/
theorem readExtensions_eq_ok {b : Bytes} {exts : List HeartbeatExtension} :
    readExtensions b = .ok exts ↔
      (∀ e ∈ exts, e.value.length < 2 ^ 16) ∧
        ∃ junk, junk.length < 4 ∧ b = exts.flatMap writeExtension ++ junk := by
  constructor
  · intro h
    fun_induction readExtensions b generalizing exts with
    | case1 => simp at h
    | case2 t₁ t₀ l₁ l₀ r extType extLen hlt =>
      rename_i ih
      cases hr : readExtensions (r.drop extLen.toNat) with
      | error e => simp [hr, bind, Except.bind] at h
      | ok exts' =>
        simp only [hr, bind, Except.bind, pure, Except.pure, Except.ok.injEq] at h
        subst h
        obtain ⟨hfits, junk, hjunk, hrest⟩ := ih hr
        have hvalue : (r.take extLen.toNat).length = extLen.toNat :=
          List.length_take_of_le (Nat.not_lt.mp hlt)
        refine ⟨?_, junk, hjunk, ?_⟩
        · rintro e (_ | ⟨_, he⟩)
          · exact hvalue.trans_lt extLen.toNat_lt
          · exact hfits e he
        · rw [List.flatMap_cons, List.append_assoc, ← hrest, writeExtension, hvalue,
            UInt16.ofNat_toNat, writeUint16_ofNat_beNat rfl, writeUint16_ofNat_beNat rfl]
          simp
    | case3 b hb =>
      obtain rfl : [] = exts := Except.ok.inj h
      refine ⟨by simp, b, ?_, by simp⟩
      rcases b with _ | ⟨a, _ | ⟨b, _ | ⟨c, _ | ⟨d, r⟩⟩⟩⟩
      · simp
      · simp
      · simp
      · simp
      · exact absurd rfl (hb a b c d r)
  · rintro ⟨hfits, junk, hjunk, rfl⟩
    induction exts with
    | nil => exact readExtensions_of_length_lt hjunk
    | cons e exts ih =>
      have hexts := ih fun e' he' => hfits e' (List.mem_cons_of_mem _ he')
      rw [List.flatMap_cons, List.append_assoc, readExtensions_append (hfits e List.mem_cons_self),
        hexts]
      rfl

/-- The extensions, and up to three bytes that hold none, are read from the length before them. -/
theorem readHeartbeatExtensions_eq_ok {n : UInt16} {b r : Bytes}
    {exts : List HeartbeatExtension} :
    readHeartbeatExtensions n b = .ok (exts, r) ↔
      (∀ e ∈ exts, e.value.length < 2 ^ 16) ∧ ∃ junk, junk.length < 4 ∧
        (exts.flatMap writeExtension ++ junk).length = n.toNat ∧
        b = exts.flatMap writeExtension ++ junk ++ r := by
  unfold readHeartbeatExtensions
  split_ifs with hn
  · rw [Decoder.pure_eq_ok, hn]
    constructor
    · rintro ⟨rfl, rfl⟩
      exact ⟨by simp, [], by simp, by simp, by simp⟩
    · rintro ⟨-, junk, -, hlen, rfl⟩
      -- nothing was written, and an extension is never empty
      obtain ⟨hnil, rfl⟩ := List.append_eq_nil_iff.mp (List.length_eq_zero_iff.mp hlen)
      cases exts with
      | nil => simp
      | cons e exts =>
        have := congrArg List.length hnil
        simp [writeExtension_length] at this
  · simp only [Decoder.bind_eq_ok, decodeField_eq_ok, readFull_eq_ok, Decoder.ofExcept_eq_ok,
      readExtensions_eq_ok]
    constructor
    · rintro ⟨raw, _, ⟨hlen, rfl⟩, ⟨hfits, junk, hjunk, rfl⟩, rfl⟩
      exact ⟨hfits, junk, hjunk, hlen, rfl⟩
    · rintro ⟨hfits, junk, hjunk, hlen, rfl⟩
      exact ⟨_, r, ⟨hlen, rfl⟩, ⟨hfits, junk, hjunk, rfl⟩, rfl⟩

namespace HeartbeatMsg

/-- **What the registered decoder accepts**: a header, the length of what follows, extensions, and
up to three bytes that hold none. -/
theorem decode_eq_ok {b r : Bytes} {m : HeartbeatMsg} :
    decode b = .ok (m, r) ↔
      (m.health = 0 ∧ m.failureReason = []) ∧ (∀ e ∈ m.extensions, e.value.length < 2 ^ 16) ∧
        ∃ junk, junk.length < 4 ∧ (m.extensions.flatMap writeExtension ++ junk).length < 2 ^ 16 ∧
          b = m.body (m.extensions.flatMap writeExtension ++ junk) ++ r := by
  simp only [decode, Decoder.bind_eq_ok, decodeField_eq_ok, Decoder.label_eq_ok,
    Decoder.pure_eq_ok, readUint64_eq_ok, readUint8_eq_ok, readUint16_eq_ok,
    readHeartbeatExtensions_eq_ok]
  constructor
  · rintro ⟨bootID, _, rfl, seq, _, rfl, state, _, rfl, flags, _, rfl, n, _, rfl, exts, _,
      ⟨hfits, junk, hjunk, hlen, rfl⟩, rfl, rfl⟩
    refine ⟨⟨rfl, rfl⟩, hfits, junk, hjunk, hlen ▸ n.toNat_lt, ?_⟩
    have hn : UInt16.ofNat (exts.flatMap writeExtension ++ junk).length = n := by
      rw [hlen]
      exact UInt16.ofNat_toNat
    simp only [body, hn, writeUint8, List.append_assoc, List.cons_append, List.nil_append]
  · rintro ⟨⟨hh, hr⟩, hfits, junk, hjunk, hlen, rfl⟩
    refine ⟨m.bootID, _, by simp only [body, List.append_assoc]; rfl, m.seq, _, rfl, m.state, _,
      by simp only [writeUint8, List.cons_append, List.nil_append]; rfl, m.flags, _, rfl, _, _, rfl,
      m.extensions, r, ⟨hfits, junk, hjunk, ?_, by simp⟩, ?_, rfl⟩
    · exact (UInt16.toNat_ofNat_of_lt' hlen).symm
    · exact HeartbeatMsg.ext rfl rfl rfl rfl hh.symm hr.symm rfl

end HeartbeatMsg

/-- The body carries the extensions: they stand behind a header and the length of what follows,
with up to three bytes behind them that hold none. -/
def Carries (data : Bytes) (exts : List HeartbeatExtension) : Prop :=
  (∀ e ∈ exts, e.value.length < 2 ^ 16) ∧ ∃ (header : HeartbeatMsg) (junk rest : Bytes),
    junk.length < 4 ∧ (exts.flatMap writeExtension ++ junk).length < 2 ^ 16 ∧
    data = header.body (exts.flatMap writeExtension ++ junk) ++ rest

namespace HeartbeatMsg

theorem carries_of_decode {b r : Bytes} {m : HeartbeatMsg} (h : decode b = .ok (m, r)) :
    Carries b m.extensions := by
  obtain ⟨-, hfits, junk, hjunk, hlen, hb⟩ := decode_eq_ok.mp h
  exact ⟨hfits, m, junk, r, hjunk, hlen, hb⟩

/-- A body carries at most one list of extensions, the one that is decoded. -/
theorem extensions_of_carries {b : Bytes} {exts : List HeartbeatExtension} (h : Carries b exts) :
    ∃ m r, decode b = .ok (m, r) ∧ m.extensions = exts := by
  obtain ⟨hfits, header, junk, rest, hjunk, hlen, hb⟩ := h
  exact ⟨{ header with health := 0, failureReason := [], extensions := exts }, rest,
    decode_eq_ok.mpr ⟨⟨rfl, rfl⟩, hfits, junk, hjunk, hlen, hb⟩, rfl⟩

/-- The method succeeds on the bodies that carry extensions, with the fields derived from them. -/
theorem call_eq_ok {b : Bytes} {m₀ d : HeartbeatMsg}
    (h : unmarshalBinary.call b m₀ = (.ok (), d)) :
    ∃ m r, decode b = .ok (m, r) ∧ d = m.derived := by
  rcases mirrors.agrees b m₀ with ⟨v, r, hd, hm⟩ | ⟨e, e', s, hd, hm⟩
  · obtain ⟨m, r', hm', hp⟩ := Decoder.bind_eq_ok.mp hd
    obtain ⟨rfl, rfl⟩ := Decoder.pure_eq_ok.mp hp
    simp only [Method.call, hm, Except.map, Prod.mk.injEq, true_and] at h
    exact ⟨m, r', hm', h.symm⟩
  · simp [Method.call, hm, Except.map] at h

theorem call_of_decode {b r : Bytes} {m : HeartbeatMsg} (h : decode b = .ok (m, r))
    (m₀ : HeartbeatMsg) : unmarshalBinary.call b m₀ = (.ok (), m.derived) := by
  rcases mirrors.agrees b m₀ with ⟨v, r', hd, hm⟩ | ⟨e, e', s, hd, hm⟩
  · rw [Decoder.bind_ok h] at hd
    obtain ⟨rfl, rfl⟩ := Decoder.pure_eq_ok.mp hd
    simp [Method.call, hm, Except.map]
  · rw [Decoder.bind_ok h] at hd
    simp [pure] at hd

/-! ## The way of a message -/

variable {m : HeartbeatMsg}

/-- The encoded message as the decoder sees it. -/
def sent (m : HeartbeatMsg) : HeartbeatMsg :=
  { m with health := 0, failureReason := [], extensions := m.materializedExtensions }

/-- The values of the materialized extensions fit their prefix when all of them fit the header. -/
theorem length_lt_of_mem (hfit : m.extensionBytes.length ≤ 65535) {e : HeartbeatExtension}
    (he : e ∈ m.materializedExtensions) : e.value.length < 2 ^ 16 := by
  obtain ⟨before, after, heq⟩ := List.append_of_mem he
  rw [extensionBytes, heq, List.flatMap_append, List.flatMap_cons, List.length_append,
    List.length_append, writeExtension_length] at hfit
  omega

theorem decode_marshalBinary (hfit : m.extensionBytes.length ≤ 65535) :
    decode m.marshalBinary = .ok (m.sent, []) := by
  refine decode_eq_ok.mpr ⟨⟨rfl, rfl⟩, fun e he => length_lt_of_mem hfit he, [], by simp, ?_, ?_⟩
  · rw [List.append_nil]
    exact Nat.lt_succ_of_le hfit
  · simp only [List.append_nil]
    rfl

/-! ## The materialized extensions -/

@[simp] theorem project_typ (e : HeartbeatExtension) : (m.project e).typ = e.typ := by
  unfold project
  split_ifs <;> rfl

theorem project_of_health {e : HeartbeatExtension} (h : e.typ = extHealth) :
    m.project e = ⟨extHealth, [m.health]⟩ := by
  simp [project, h]

theorem project_of_reason {e : HeartbeatExtension} (h : e.typ = extFailureReason) :
    m.project e =
      ⟨extFailureReason, if m.failureReason = [] then e.value else m.failureReason⟩ := by
  obtain ⟨typ, value⟩ := e
  subst h
  unfold project
  rw [if_neg (show extFailureReason ≠ extHealth by decide), if_pos rfl]
  split_ifs <;> simp_all

/-- Where a materialized extension comes from. -/
theorem mem_materializedExtensions {e : HeartbeatExtension} :
    e ∈ m.materializedExtensions ↔
      (∃ e' ∈ m.extensions, m.project e' = e) ∨
      ((∀ e' ∈ m.extensions, e'.typ ≠ extHealth) ∧ e = ⟨extHealth, [m.health]⟩) ∨
      ((m.state = heartbeatStateFailed ∧ m.failureReason ≠ [] ∧
        ∀ e' ∈ m.extensions, e'.typ ≠ extFailureReason) ∧
          e = ⟨extFailureReason, m.failureReason⟩) := by
  have hhealth : (m.extensions.any fun e => e.typ = extHealth) = false ↔
      ∀ e' ∈ m.extensions, e'.typ ≠ extHealth := by simp
  have hreason : (m.extensions.any fun e => e.typ = extFailureReason) = false ↔
      ∀ e' ∈ m.extensions, e'.typ ≠ extFailureReason := by simp
  simp only [materializedExtensions, List.mem_append, List.mem_map, or_assoc, ← hhealth, ← hreason]
  refine or_congr Iff.rfl (or_congr ?_ ?_)
  · split_ifs with h <;> simp [h]
  · split_ifs with h
    · rw [List.mem_singleton, and_iff_right h]
    · exact iff_of_false List.not_mem_nil fun hall => h hall.1

/-- A materialized health extension holds the health of the message. -/
theorem value_of_health {e : HeartbeatExtension} (he : e ∈ m.materializedExtensions)
    (ht : e.typ = extHealth) : e.value = [m.health] := by
  rcases mem_materializedExtensions.mp he with ⟨e', -, rfl⟩ | ⟨-, rfl⟩ | ⟨-, rfl⟩
  · rw [project_typ] at ht
    rw [project_of_health ht]
  · rfl
  · exact absurd ht (show extFailureReason ≠ extHealth by decide)

/-- There is a materialized health extension. -/
theorem exists_health (m : HeartbeatMsg) : ∃ e ∈ m.materializedExtensions, e.typ = extHealth := by
  by_cases h : ∃ e ∈ m.extensions, e.typ = extHealth
  · obtain ⟨e, he, ht⟩ := h
    exact ⟨m.project e, mem_materializedExtensions.mpr (.inl ⟨e, he, rfl⟩), by simpa using ht⟩
  · have hnone : ∀ e ∈ m.extensions, e.typ ≠ extHealth := fun e he ht => h ⟨e, he, ht⟩
    exact ⟨_, mem_materializedExtensions.mpr (.inr (.inl ⟨hnone, rfl⟩)), rfl⟩

/-- A list whose elements are all equal ends with that element. -/
theorem getLastD_eq_of_forall {α : Type} {l : List α} {a d : α} (hne : l ≠ [])
    (h : ∀ x ∈ l, x = a) : l.getLastD d = a := by
  rw [List.getLastD_eq_getLast?, List.getLast?_eq_some_getLast hne, Option.getD_some]
  exact h _ (List.getLast_mem hne)

/-- The health of the message is what its extensions say. -/
theorem getLastD_healths (m : HeartbeatMsg) :
    (healths m.materializedExtensions).getLastD healthHealthy = m.health := by
  apply getLastD_eq_of_forall
  · obtain ⟨e, he, ht⟩ := exists_health m
    have hv := value_of_health he ht
    exact List.ne_nil_of_mem (mem_healths.mpr ⟨e, he, ht, by rw [hv]; rfl⟩)
  · intro v hv
    obtain ⟨e, he, ht, hhead⟩ := mem_healths.mp hv
    rw [value_of_health he ht] at hhead
    exact (Option.some.inj hhead).symm

theorem reasons_append (exts exts' : List HeartbeatExtension) :
    reasons (exts ++ exts') = reasons exts ++ reasons exts' :=
  List.filterMap_append

theorem reasons_eq_nil {exts : List HeartbeatExtension} :
    reasons exts = [] ↔ ∀ e ∈ exts, e.typ ≠ extFailureReason := by
  simp [reasons, List.filterMap_eq_nil_iff]

/-- A reason that is not empty replaces the reasons of the list, an empty one does not. -/
theorem reasons_map_project (m : HeartbeatMsg) (exts : List HeartbeatExtension) :
    reasons (exts.map m.project) =
      (reasons exts).map fun v => if m.failureReason = [] then v else m.failureReason := by
  induction exts with
  | nil => rfl
  | cons e exts ih =>
    by_cases h : e.typ = extFailureReason
    · rw [List.map_cons, project_of_reason h]
      simpa [reasons, h] using ih
    · simpa [reasons, h] using ih

/-- The reasons of the materialized extensions. -/
theorem reasons_materializedExtensions (m : HeartbeatMsg) :
    reasons m.materializedExtensions =
      ((reasons m.extensions).map fun v => if m.failureReason = [] then v else m.failureReason) ++
        if m.state = heartbeatStateFailed ∧ m.failureReason ≠ [] ∧ reasons m.extensions = [] then
          [m.failureReason] else [] := by
  have hseen : (m.extensions.any fun e => e.typ = extFailureReason) = false ↔
      reasons m.extensions = [] := by
    rw [reasons_eq_nil]
    simp
  have hhealth : reasons (if m.extensions.any fun e => e.typ = extHealth then []
      else [⟨extHealth, [m.health]⟩]) = [] := by
    split_ifs <;> rfl
  simp only [materializedExtensions, reasons_append, reasons_map_project, hhealth, hseen,
    List.append_nil]
  split_ifs <;> rfl

/-- The reason of a failure report is what its extensions say. -/
theorem getLastD_reasons (hs : m.state = heartbeatStateFailed) (hr : m.failureReason ≠ []) :
    (reasons m.materializedExtensions).getLastD [] = m.failureReason := by
  rw [reasons_materializedExtensions]
  apply getLastD_eq_of_forall
  · by_cases hnone : reasons m.extensions = []
    · simp [hs, hr, hnone]
    · simp [hnone]
  · intro v hv
    rcases List.mem_append.mp hv with hv | hv
    · obtain ⟨w, -, rfl⟩ := List.mem_map.mp hv
      rw [if_neg hr]
    · split_ifs at hv
      · exact List.mem_singleton.mp hv
      · simp at hv

/-- With at most one reason in the list, there is at most one when it is materialized. -/
theorem length_reasons_le (h : (reasons m.extensions).length ≤ 1) :
    (reasons m.materializedExtensions).length ≤ 1 := by
  rw [reasons_materializedExtensions, List.length_append, List.length_map]
  split_ifs with hadd
  · simp [hadd.2.2]
  · simpa using h

/-- **Materializing the received message changes nothing**, with at most one reason in the list. -/
theorem materializedExtensions_derived (h : (reasons m.extensions).length ≤ 1) :
    m.sent.derived.materializedExtensions = m.materializedExtensions := by
  have hhealth : m.sent.derived.health = m.health := getLastD_healths m
  have hone := length_reasons_le h
  -- an extension of the list is projected to itself
  have hproject : ∀ e ∈ m.materializedExtensions, m.sent.derived.project e = e := by
    intro e he
    by_cases hh : e.typ = extHealth
    · rw [project_of_health hh, hhealth, ← value_of_health he hh, ← hh]
    · by_cases hr : e.typ = extFailureReason
      · -- the only reason there is
        have hmem : e.value ∈ reasons m.materializedExtensions := mem_reasons.mpr ⟨e, he, hr, rfl⟩
        have hlast : m.sent.derived.failureReason = e.value := by
          refine getLastD_eq_of_forall (List.ne_nil_of_mem hmem) fun v hv => ?_
          replace hv : v ∈ reasons m.materializedExtensions := hv
          obtain ⟨w, hw⟩ := List.length_eq_one_iff.mp
            (le_antisymm hone (List.length_pos_of_mem hmem))
          rw [hw, List.mem_singleton] at hv hmem
          rw [hv, hmem]
        rw [project_of_reason hr, hlast, ite_self, ← hr]
      · unfold project
        rw [if_neg hh, if_neg hr]
  have hmap : m.materializedExtensions.map m.sent.derived.project = m.materializedExtensions :=
    (List.map_congr_left hproject).trans (List.map_id _)
  have hseen : (m.materializedExtensions.any fun e => e.typ = extHealth) = true := by
    obtain ⟨e, he, ht⟩ := exists_health m
    exact List.any_eq_true.mpr ⟨e, he, by simpa using ht⟩
  -- a derived reason that is not empty stands in the list
  have hadd : ¬ (m.sent.derived.state = heartbeatStateFailed ∧ m.sent.derived.failureReason ≠ [] ∧
      (m.materializedExtensions.any fun e => e.typ = extFailureReason) = false) := by
    rintro ⟨-, hne, hnone⟩
    have hnil : reasons m.materializedExtensions = [] := reasons_eq_nil.mpr (by simpa using hnone)
    exact hne (by show (reasons m.materializedExtensions).getLastD [] = []; rw [hnil]; rfl)
  have hexts : m.sent.derived.extensions = m.materializedExtensions := rfl
  rw [materializedExtensions, hexts, hmap, if_pos hseen, if_neg hadd, List.append_nil,
    List.append_nil]

/-- **The way of a heartbeat.** When its materialized extensions fit their length field, a message
is received with its header, its health and its materialized extensions, with its reason when it is
a failure report that has one; and with at most one reason in its list the received message is
encoded to the same bytes. -/
theorem round_trip (m m₀ : HeartbeatMsg) (hfit : m.extensionBytes.length ≤ 65535) :
    ∃ d, unmarshalBinary.call m.marshalBinary m₀ = (.ok (), d) ∧
      d.bootID = m.bootID ∧ d.seq = m.seq ∧ d.state = m.state ∧ d.flags = m.flags ∧
      d.health = m.health ∧ d.extensions = m.materializedExtensions ∧
      (m.state = heartbeatStateFailed → m.failureReason ≠ [] →
        d.failureReason = m.failureReason) ∧
      ((reasons m.extensions).length ≤ 1 → d.marshalBinary = m.marshalBinary) := by
  refine ⟨m.sent.derived, call_of_decode (decode_marshalBinary hfit) m₀, rfl, rfl, rfl, rfl,
    getLastD_healths m, rfl, getLastD_reasons, ?_⟩
  intro hone
  have hext : m.sent.derived.extensionBytes = m.extensionBytes := by
    rw [extensionBytes, materializedExtensions_derived hone, extensionBytes]
  show m.sent.derived.body m.sent.derived.extensionBytes = m.body m.extensionBytes
  rw [hext]
  rfl

/-- A failure report with two health extensions, one of them malformed, and an unknown extension. -/
theorem round_trip_failed : ∃ d : HeartbeatMsg,
    unmarshalBinary.call
      (⟨1, 2, 5, 0, 1, [105], [⟨4, []⟩, ⟨9, [7]⟩, ⟨4, [3, 3]⟩]⟩ : HeartbeatMsg).marshalBinary {} =
        (.ok (), d) ∧ d.health = 1 ∧ d.failureReason = [105] := by
  obtain ⟨d, hd, -, -, -, -, hh, -, hr, -⟩ :=
    round_trip ⟨1, 2, 5, 0, 1, [105], [⟨4, []⟩, ⟨9, [7]⟩, ⟨4, [3, 3]⟩]⟩ {} (by decide)
  exact ⟨d, hd, hh, hr rfl (by decide)⟩

/-! ## Reasons of messages that are no failure reports -/

/-- The reason that is received for a message that is no failure report. -/
theorem derived_failureReason_eq_nil_iff (hs : m.state ≠ heartbeatStateFailed) :
    m.sent.derived.failureReason = [] ↔
      (∀ e ∈ m.extensions, e.typ ≠ extFailureReason) ∨
        m.failureReason = [] ∧ (reasons m.extensions).getLastD [] = [] := by
  show (reasons m.materializedExtensions).getLastD [] = [] ↔ _
  rw [reasons_materializedExtensions, if_neg (fun h => hs h.1), List.append_nil, ← reasons_eq_nil]
  by_cases hr : m.failureReason = []
  · have hid : ((reasons m.extensions).map fun v =>
        if m.failureReason = [] then v else m.failureReason) = reasons m.extensions := by
      simp [hr]
    rw [hid]
    constructor
    · exact fun h => .inr ⟨hr, h⟩
    · rintro (h | h)
      · rw [h]
        rfl
      · exact h.2
  · -- every reason of the list was replaced by one that is not empty
    by_cases hnone : reasons m.extensions = []
    · simp [hnone]
    · have hlast : ((reasons m.extensions).map fun v =>
          if m.failureReason = [] then v else m.failureReason).getLastD [] = m.failureReason := by
        refine getLastD_eq_of_forall (by simpa using hnone) fun v hv => ?_
        obtain ⟨w, -, rfl⟩ := List.mem_map.mp hv
        rw [if_neg hr]
      rw [hlast]
      simp [hr, hnone]

/-- **When a message that is no failure report has no reason.** On the way from a message that fits
its length fields: when its list holds no reason extension, or its own reason is empty and so is the
last of its list. From any bytes: when the last reason extension they carry, if any, is empty. The
decoder does not look at the state. -/
theorem failureReason_eq_nil_iff (m m₀ : HeartbeatMsg) (data : Bytes) :
    (m.state ≠ heartbeatStateFailed → m.extensionBytes.length ≤ 65535 →
      ∃ d, unmarshalBinary.call m.marshalBinary m₀ = (.ok (), d) ∧
        (d.failureReason = [] ↔ (∀ e ∈ m.extensions, e.typ ≠ extFailureReason) ∨
          m.failureReason = [] ∧ (reasons m.extensions).getLastD [] = [])) ∧
    ∀ d, unmarshalBinary.call data m₀ = (.ok (), d) → d.state ≠ heartbeatStateFailed →
      (d.failureReason = [] ↔ ∃ exts, Carries data exts ∧ (reasons exts).getLastD [] = []) := by
  constructor
  · intro hs hfit
    exact ⟨m.sent.derived, call_of_decode (decode_marshalBinary hfit) m₀,
      derived_failureReason_eq_nil_iff hs⟩
  · intro d hd _
    obtain ⟨m, r, hm, rfl⟩ := call_eq_ok hd
    constructor
    · intro hnil
      exact ⟨m.extensions, carries_of_decode hm, hnil⟩
    · rintro ⟨exts, hcar, hnil⟩
      obtain ⟨m', r', hm', rfl⟩ := extensions_of_carries hcar
      rw [hm] at hm'
      obtain ⟨rfl, -⟩ := Prod.mk.inj (Except.ok.inj hm')
      exact hnil

/-- A running guest whose list still holds the reason of an earlier failure: the receiver sees a
reason beside a state that is not `Failed`. -/
theorem failureReason_of_running :
    ∃ d : HeartbeatMsg,
      unmarshalBinary.call (⟨1, 2, 2, 0, 0, [], [⟨5, [105]⟩]⟩ : HeartbeatMsg).marshalBinary {} =
        (.ok (), d) ∧ d.state ≠ heartbeatStateFailed ∧ d.failureReason = [105] :=
  ⟨_, call_of_decode (decode_marshalBinary (by decide)) _, by decide, by decide⟩

end HeartbeatMsg

end Mvcp.Messages
