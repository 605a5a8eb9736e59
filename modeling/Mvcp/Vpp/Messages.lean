import Mvcp.Messages.Records

/-!
# The console messages

`vpp/types.go`: the messages of the console attach. They are decoded by a method only; no registry
knows them. The session id of `AttachMsg` was added behind the other fields, so its decoder takes
it when four bytes are left, and zero otherwise.

## Main definitions

* `AttachMsg`, `SessionMsg`, `WinchMsg`, `DetachMsg`: the messages, each with `encode` and `decode`
* `Format`, `Kind`: the data of a message type with its laws, and the four types

## Main results

* `SessionMsg.fills`, `WinchMsg.fills`, `DetachMsg.fills`: an encoded message is decoded, and no
  part of it that is cut short
* `AttachMsg.decode_append`, `AttachMsg.decode_cut`: the same for the optional tail
* `AttachMsg.intact`, …: a failed call leaves the receiver as it was
-/

namespace Mvcp.Vpp

open Library (Decoder Method Fills Intact beBytes_length)
open Library.Method (assign unread)
open Messages (Unmarshal readField)

structure AttachMsg where
  term : Bytes := []
  cols : UInt16 := 0
  rows : UInt16 := 0
  sessionID : UInt32 := 0
  deriving DecidableEq

namespace AttachMsg

def encode (m : AttachMsg) : Bytes :=
  writeString m.term ++ writeUint16 m.cols ++ writeUint16 m.rows ++ writeUint32 m.sessionID

/-- `Decode` up to the assignments: the session id is set to zero with the other fields. -/
def decodeFixed : Unmarshal AttachMsg Unit := do
  let term ← readField "vpp attach: read term" readString
  let cols ← readField "vpp attach: read cols" readUint16
  let rows ← readField "vpp attach: read rows" readUint16
  assign fun m => { m with term, cols, rows, sessionID := 0 }

/-- The rest of `Decode`. -/
def decodeTail : Unmarshal AttachMsg Unit := do
  let r ← unread
  if 4 ≤ r.length then
    let sid ← readField "vpp attach: read session_id" readUint32
    assign fun m => { m with sessionID := sid }

def decode : Unmarshal AttachMsg Unit := do
  decodeFixed
  decodeTail

end AttachMsg

structure SessionMsg where
  sessionID : UInt32 := 0
  pid : UInt32 := 0
  cols : UInt16 := 0
  rows : UInt16 := 0
  deriving DecidableEq

namespace SessionMsg

def encode (m : SessionMsg) : Bytes :=
  writeUint32 m.sessionID ++ writeUint32 m.pid ++ writeUint16 m.cols ++ writeUint16 m.rows

def decode : Unmarshal SessionMsg Unit := do
  let sessionID ← readField "vpp session: read session_id" readUint32
  let pid ← readField "vpp session: read pid" readUint32
  let cols ← readField "vpp session: read cols" readUint16
  let rows ← readField "vpp session: read rows" readUint16
  assign fun m => { m with sessionID, pid, cols, rows }

theorem fills (m : SessionMsg) : Fills decode m.encode m := by
  simp only [encode, List.append_assoc]
  exact .field (reads_uint32 _).label <| .field (reads_uint32 _).label <|
    .field (reads_uint16 _).label <| .last (reads_uint16 _).label fun _ => rfl

theorem intact : Intact decode :=
  .field fun _ => .field fun _ => .field fun _ => .field fun _ => .assign

end SessionMsg

structure WinchMsg where
  cols : UInt16 := 0
  rows : UInt16 := 0
  deriving DecidableEq

namespace WinchMsg

def encode (m : WinchMsg) : Bytes := writeUint16 m.cols ++ writeUint16 m.rows

def decode : Unmarshal WinchMsg Unit := do
  let cols ← readField "vpp winch: read cols" readUint16
  let rows ← readField "vpp winch: read rows" readUint16
  assign fun m => { m with cols, rows }

theorem fills (m : WinchMsg) : Fills decode m.encode m :=
  .field (reads_uint16 _).label <| .last (reads_uint16 _).label fun _ => rfl

theorem intact : Intact decode := .field fun _ => .field fun _ => .assign

end WinchMsg

structure DetachMsg where
  exitCode : UInt32 := 0
  deriving DecidableEq

namespace DetachMsg

def encode (m : DetachMsg) : Bytes := writeUint32 m.exitCode

def decode : Unmarshal DetachMsg Unit := do
  let exitCode ← readField "vpp detach: read exit_code" readUint32
  assign fun m => { m with exitCode }

theorem fills (m : DetachMsg) : Fills decode m.encode m :=
  .last (reads_uint32 _).label fun _ => rfl

theorem intact : Intact decode := .field fun _ => .assign

end DetachMsg

/-! ## The optional tail -/

namespace AttachMsg

variable {m : AttachMsg}

/-- The lengths fit their prefixes. -/
def Fits (m : AttachMsg) : Prop := m.term.length < 2 ^ 16

/-- The fields before the session id on the wire. -/
def fixed (m : AttachMsg) : Bytes :=
  writeString m.term ++ (writeUint16 m.cols ++ writeUint16 m.rows)

theorem encode_eq (m : AttachMsg) : m.encode = m.fixed ++ writeUint32 m.sessionID := by
  simp [encode, fixed]

theorem fills_fixed (h : m.Fits) : Fills decodeFixed m.fixed { m with sessionID := 0 } :=
  .field (reads_string h).label <| .field (reads_uint16 _).label <|
    .last (reads_uint16 _).label fun _ => rfl

theorem decodeTail_append (v : UInt32) (t : Bytes) (s : AttachMsg) :
    decodeTail (writeUint32 v ++ t) s = (.ok ((), t), { s with sessionID := v }) := by
  have hlen : 4 ≤ (writeUint32 v ++ t).length := by simp [writeUint32]
  simp only [decodeTail, Method.unread_bind, if_pos hlen, Method.field_bind,
    Decoder.label_ok (readUint32_append v t)]
  rfl

theorem decodeTail_short {b : Bytes} (h : b.length < 4) (s : AttachMsg) :
    decodeTail b s = (.ok ((), b), s) := by
  simp only [decodeTail, Method.unread_bind, if_neg (Nat.not_le.mpr h)]
  rfl

/-- The tail does not fail: it reads when there is enough to read. -/
theorem decodeTail_ok (b : Bytes) (s : AttachMsg) :
    ∃ r s', decodeTail b s = (.ok ((), r), s') := by
  rcases Nat.lt_or_ge b.length 4 with h | h
  · exact ⟨_, _, decodeTail_short h s⟩
  · cases hr : readUint32 b with
    | error e => simp [readUint32, readFull, h, bind, Except.bind, pure, Except.pure] at hr
    | ok p =>
      obtain rfl := readUint32_eq_ok.mp hr
      exact ⟨_, _, decodeTail_append p.1 p.2 s⟩

/-- The method assigns before its last read, which does not fail. -/
theorem intact : Intact decode := by
  have hfixed : Intact decodeFixed := .field fun _ => .field fun _ => .field fun _ => .assign
  exact hfixed.seq decodeTail_ok

/-- **An encoded message is decoded**, whatever follows it. -/
theorem decode_append (h : m.Fits) (t : Bytes) (s : AttachMsg) :
    decode.call (m.encode ++ t) s = (.ok (), m) := by
  have hdec : decode (m.encode ++ t) s = (.ok ((), t), m) := by
    rw [encode_eq, List.append_assoc]
    simp only [decode, bind, (fills_fixed h).append, decodeTail_append]
  rw [Method.call, hdec]
  rfl

/-- **A message that is cut short is decoded when only its tail is missing**, to a message without
a session id. -/
theorem decode_cut (h : m.Fits) {c t : Bytes} (hct : m.encode = c ++ t) (ht : t ≠ [])
    (s : AttachMsg) :
    if t.length ≤ 4 then decode.call c s = (.ok (), { m with sessionID := 0 })
    else ∃ e, (decode.call c s).1 = .error e := by
  rw [encode_eq] at hct
  have hlen : (m.fixed ++ writeUint32 m.sessionID).length = (c ++ t).length := congrArg _ hct
  rw [List.length_append, List.length_append, writeUint32, beBytes_length] at hlen
  split_ifs with htail
  · -- the fixed fields are whole, and fewer than four bytes follow them
    obtain ⟨y, rfl⟩ : m.fixed <+: c :=
      List.prefix_of_prefix_length_le (List.prefix_append _ _) ⟨t, hct.symm⟩ (by omega)
    have hshort : y.length < 4 := by
      have := List.length_pos_iff.mpr ht
      rw [List.length_append] at hlen
      omega
    have hdec : decode (m.fixed ++ y) s = (.ok ((), y), { m with sessionID := 0 }) := by
      simp only [decode, bind, (fills_fixed h).append, decodeTail_short hshort]
    rw [Method.call, hdec]
    rfl
  · -- a fixed field is cut
    obtain ⟨y, hy⟩ : c <+: m.fixed :=
      List.prefix_of_prefix_length_le ⟨t, hct.symm⟩ (List.prefix_append _ _) (by omega)
    have hne : y ≠ [] := by
      rintro rfl
      rw [← hy, List.append_nil] at hlen
      omega
    obtain ⟨e, s', he⟩ := (fills_fixed h).cut c y hy.symm hne s
    exact ⟨e, by simp only [Method.call, decode, bind, he, Except.map]⟩

end AttachMsg

/-! ## The four messages -/

/-- A console message type: the struct, the lengths its encoder is made for, the encoder and the
decoding method. -/
structure Format where
  Msg : Type
  Fits : Msg → Prop
  encode : Msg → Bytes
  decode : Unmarshal Msg Unit
  decode_append : ∀ {m : Msg}, Fits m → ∀ t s, decode.call (encode m ++ t) s = (.ok (), m)
  intact : Intact decode

inductive Kind
  | attach | session | winch | detach
  deriving DecidableEq

def Kind.format : Kind → Format
  | attach => ⟨AttachMsg, AttachMsg.Fits, AttachMsg.encode, AttachMsg.decode,
      AttachMsg.decode_append, AttachMsg.intact⟩
  | session => ⟨SessionMsg, fun _ => True, SessionMsg.encode, SessionMsg.decode,
      fun _ => (SessionMsg.fills _).call_append, SessionMsg.intact⟩
  | winch => ⟨WinchMsg, fun _ => True, WinchMsg.encode, WinchMsg.decode,
      fun _ => (WinchMsg.fills _).call_append, WinchMsg.intact⟩
  | detach => ⟨DetachMsg, fun _ => True, DetachMsg.encode, DetachMsg.decode,
      fun _ => (DetachMsg.fills _).call_append, DetachMsg.intact⟩

/-- Only `AttachMsg` has a tail that may be missing. -/
theorem Kind.decode_cut {k : Kind} (hk : k ≠ .attach) {m : k.format.Msg} {c t : Bytes}
    (hct : k.format.encode m = c ++ t) (ht : t ≠ []) (s : k.format.Msg) :
    ∃ e, (k.format.decode.call c s).1 = .error e := by
  cases k with
  | attach => exact absurd rfl hk
  | session => exact (SessionMsg.fills m).call_cut hct ht s
  | winch => exact (WinchMsg.fills m).call_cut hct ht s
  | detach => exact (DetachMsg.fills m).call_cut hct ht s

end Mvcp.Vpp
