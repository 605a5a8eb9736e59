import Mvcp.Wire.Protocol

/-!
# The messages of the app channel

`messages/app.go`: the seven `APP_*` bodies, their strict codecs, and the decoder registry of
`message.go` as the app session uses it. The decoders of the other message types are not
embedded here: a session treats whatever they accept as an unexpected message, so the registry
is a parameter that tells for each other type whether a body decodes.

## Main definitions

* `AppMessage`: the seven messages
* `AppMessage.marshalBinary`, `unmarshalBinary`: the encoder, and the strict decoder of a type
* `decodeMessage`: the registry

## Main results

* `unmarshalBinary_marshalBinary`: decoding undoes encoding when the strings fit their prefix
* `unmarshalBinary_marshalBinary_or_error`: an encoded message with a valid service decodes to
  itself or to no message at all
-/

namespace Mvcp

/-- The messages of the app channel. -/
inductive AppMessage
  | appOpen (streamID : UInt32) (service metadata : Bytes)
  | appAccept (streamID : UInt32) (metadata : Bytes) (grant : UInt32)
  | appReject (streamID : UInt32) (code : UInt16) (message : Bytes)
  | appData (streamID : UInt32) (data : Bytes)
  | appCredit (streamID : UInt32) (bytes : UInt32)
  | appClose (streamID : UInt32)
  | appReset (streamID : UInt32) (code : UInt16) (message : Bytes)
  deriving DecidableEq

namespace AppMessage

/-- The stream a message is about. -/
def streamID : AppMessage → UInt32
  | appOpen id _ _ | appAccept id _ _ | appReject id _ _ | appData id _ | appCredit id _
  | appClose id | appReset id _ _ => id

/-- The message asks for a stream. -/
def isOpen : AppMessage → Bool
  | appOpen .. => true
  | _ => false

/-- `appMessageType`. -/
def typ : AppMessage → UInt8
  | appOpen .. => typeAPPOPEN
  | appAccept .. => typeAPPACCEPT
  | appReject .. => typeAPPREJECT
  | appData .. => typeAPPDATA
  | appCredit .. => typeAPPCREDIT
  | appClose .. => typeAPPCLOSE
  | appReset .. => typeAPPRESET

/-- `MarshalBinary`: the body of a message, or the error of an oversized field. -/
def marshalBinary : AppMessage → Except String Bytes
  | appOpen id service metadata =>
    if appMaxMetaBytes < metadata.length then
      .error ("app_open: meta too large (" ++ toString metadata.length ++ " bytes)")
    else .ok (writeUint32 id ++ writeString service ++ writeBytes metadata)
  | appAccept id metadata grant =>
    if appMaxMetaBytes < metadata.length then
      .error ("app_accept: meta too large (" ++ toString metadata.length ++ " bytes)")
    else .ok (writeUint32 id ++ writeBytes metadata ++ writeUint32 grant)
  | appReject id code message => .ok (writeUint32 id ++ writeUint16 code ++ writeString message)
  | appData id data =>
    if appMaxDataBytes < data.length then
      .error ("app_data: data too large (" ++ toString data.length ++ " bytes)")
    else .ok (writeUint32 id ++ writeBytes data)
  | appCredit id bytes => .ok (writeUint32 id ++ writeUint32 bytes)
  | appClose id => .ok (writeUint32 id)
  | appReset id code message => .ok (writeUint32 id ++ writeUint16 code ++ writeString message)

end AppMessage

/-- A field read, with the name the decoder puts before a read error. -/
def field {α : Type} (name : String) (r : Except ReadError (α × Bytes)) :
    Except String (α × Bytes) :=
  r.mapError fun e => name ++ ": " ++ e.text

/-- The strict end of a body: no byte may be left. -/
def noTrailing (name : String) (r : Bytes) (m : AppMessage) : Except String AppMessage :=
  if r.length ≠ 0 then .error (name ++ ": " ++ toString r.length ++ " trailing bytes") else .ok m

namespace AppOpen

def unmarshalBinary (data : Bytes) : Except String AppMessage := do
  let (id, r) ← field "app_open: read stream_id" (readUint32 data)
  let (service, r) ← field "app_open: read service" (readString r)
  let (metadata, r) ← field "app_open: read meta" (readBytes r)
  noTrailing "app_open" r (.appOpen id service metadata)

end AppOpen

namespace AppAccept

def unmarshalBinary (data : Bytes) : Except String AppMessage := do
  let (id, r) ← field "app_accept: read stream_id" (readUint32 data)
  let (metadata, r) ← field "app_accept: read meta" (readBytes r)
  let (grant, r) ← field "app_accept: read grant" (readUint32 r)
  noTrailing "app_accept" r (.appAccept id metadata grant)

end AppAccept

/-- The common layout of `APP_REJECT` and `APP_RESET`. -/
def unmarshalCoded (name : String) (make : UInt32 → UInt16 → Bytes → AppMessage) (data : Bytes) :
    Except String AppMessage := do
  let (id, r) ← field (name ++ ": read stream_id") (readUint32 data)
  let (code, r) ← field (name ++ ": read code") (readUint16 r)
  let (message, r) ← field (name ++ ": read message") (readString r)
  noTrailing name r (make id code message)

namespace AppReject

def unmarshalBinary : Bytes → Except String AppMessage :=
  unmarshalCoded "app_reject" AppMessage.appReject

end AppReject

namespace AppData

def unmarshalBinary (data : Bytes) : Except String AppMessage := do
  let (id, r) ← field "app_data: read stream_id" (readUint32 data)
  let (d, r) ← field "app_data: read data" (readBytes r)
  noTrailing "app_data" r (.appData id d)

end AppData

namespace AppCredit

def unmarshalBinary (data : Bytes) : Except String AppMessage := do
  let (id, r) ← field "app_credit: read stream_id" (readUint32 data)
  let (n, r) ← field "app_credit: read bytes" (readUint32 r)
  noTrailing "app_credit" r (.appCredit id n)

end AppCredit

namespace AppClose

def unmarshalBinary (data : Bytes) : Except String AppMessage := do
  let (id, r) ← field "app_close: read stream_id" (readUint32 data)
  noTrailing "app_close" r (.appClose id)

end AppClose

namespace AppReset

def unmarshalBinary : Bytes → Except String AppMessage :=
  unmarshalCoded "app_reset" AppMessage.appReset

end AppReset

/-! ## The registry -/

/-- What the registry decodes a body to. -/
inductive Message
  | app (m : AppMessage)
  /-- A registered message of another service. -/
  | other
  deriving DecidableEq

/-- The registered decoders of the other services: `none` for an unknown type, else whether a
body decodes. -/
abbrev Registry := UInt8 → Option (Bytes → Except String Unit)

/-- The app decoder registered for a frame type. -/
def appDecoder (typ : UInt8) : Option (Bytes → Except String AppMessage) :=
  if typ = typeAPPOPEN then some AppOpen.unmarshalBinary
  else if typ = typeAPPACCEPT then some AppAccept.unmarshalBinary
  else if typ = typeAPPREJECT then some AppReject.unmarshalBinary
  else if typ = typeAPPDATA then some AppData.unmarshalBinary
  else if typ = typeAPPCREDIT then some AppCredit.unmarshalBinary
  else if typ = typeAPPCLOSE then some AppClose.unmarshalBinary
  else if typ = typeAPPRESET then some AppReset.unmarshalBinary
  else none

/-- `DecodeMessage`. -/
def decodeMessage (registry : Registry) (typ : UInt8) (body : Bytes) : Except String Message :=
  match appDecoder typ with
  | some unmarshal => (unmarshal body).map Message.app
  | none =>
    match registry typ with
    | some decode => (decode body).map fun _ => Message.other
    | none => .error ("mvcp: unknown message type 0x" ++ hex02 typ)

/-! ## Decoding undoes encoding -/

-- Not proved by `rfl`: used as a definitional step, the kernel would compare the two readers
-- around the bind by running them.
@[simp] theorem ok_bind {ε α β : Type} (a : α) (f : α → Except ε β) :
    (Except.ok a >>= f) = f a := by
  simp only [bind, Except.bind]

@[simp] theorem noTrailing_nil (name : String) (m : AppMessage) :
    noTrailing name [] m = .ok m := rfl

@[simp] theorem field_ok {α : Type} (name : String) (a : α) (r : Bytes) :
    field name (.ok (a, r)) = .ok (a, r) := rfl

/-- The strings of the message fit their `uint16` prefix. -/
def AppMessage.StringsFit : AppMessage → Prop
  | appOpen _ service _ => service.length < 2 ^ 16
  | appReject _ _ message | appReset _ _ message => message.length < 2 ^ 16
  | _ => True

/-- The decoder of a message's own type. -/
def AppMessage.unmarshal (m : AppMessage) : Bytes → Except String AppMessage :=
  match m with
  | appOpen .. => AppOpen.unmarshalBinary
  | appAccept .. => AppAccept.unmarshalBinary
  | appReject .. => AppReject.unmarshalBinary
  | appData .. => AppData.unmarshalBinary
  | appCredit .. => AppCredit.unmarshalBinary
  | appClose .. => AppClose.unmarshalBinary
  | appReset .. => AppReset.unmarshalBinary

theorem appDecoder_typ (m : AppMessage) : appDecoder m.typ = some m.unmarshal := by
  cases m <;> rfl

/-- The layout of `APP_REJECT` and `APP_RESET` is read back, or refused for its trailing bytes
when the message overflows its length prefix. -/
theorem unmarshalCoded_append (name : String) (make : UInt32 → UInt16 → Bytes → AppMessage)
    (id : UInt32) (code : UInt16) (message : Bytes) :
    unmarshalCoded name make (writeUint32 id ++ writeUint16 code ++ writeString message) =
      noTrailing name (message.drop (message.length % 2 ^ 16))
        (make id code (message.take (message.length % 2 ^ 16))) := by
  have h := readString_writeString message []
  simp only [List.append_nil] at h
  simp only [unmarshalCoded, List.append_assoc, readUint32_append, readUint16_append, h, field_ok,
    ok_bind]

theorem unmarshalCoded_append_fit {name : String} {make : UInt32 → UInt16 → Bytes → AppMessage}
    {id : UInt32} {code : UInt16} {message : Bytes} (h : message.length < 2 ^ 16) :
    unmarshalCoded name make (writeUint32 id ++ writeUint16 code ++ writeString message) =
      .ok (make id code message) := by
  rw [unmarshalCoded_append, Nat.mod_eq_of_lt h, List.drop_length, List.take_length, noTrailing_nil]

theorem readUint32_writeUint32 (v : UInt32) : readUint32 (writeUint32 v) = .ok (v, []) := by
  simpa using readUint32_append v []

theorem readBytes_writeBytes {b : Bytes} (h : b.length < 2 ^ 32) :
    readBytes (writeBytes b) = .ok (b, []) := by
  simpa using readBytes_append h []

/-- **Decoding undoes encoding** for a message whose strings fit their prefix. -/
theorem unmarshalBinary_marshalBinary {m : AppMessage} {body : Bytes}
    (h : m.marshalBinary = .ok body) (hfit : m.StringsFit) : m.unmarshal body = .ok m := by
  cases m with
  | appOpen id service metadata =>
    simp only [AppMessage.marshalBinary] at h
    split_ifs at h with hm
    obtain rfl := Except.ok.inj h
    have hlen : metadata.length < 2 ^ 32 := by rw [appMaxMetaBytes_eq] at hm; omega
    have hserv : service.length < 2 ^ 16 := hfit
    simp only [AppMessage.unmarshal, AppOpen.unmarshalBinary, List.append_assoc,
      readUint32_append, readString_append hserv, readBytes_writeBytes hlen, field_ok, ok_bind,
      noTrailing_nil]
  | appAccept id metadata grant =>
    simp only [AppMessage.marshalBinary] at h
    split_ifs at h with hm
    obtain rfl := Except.ok.inj h
    have hlen : metadata.length < 2 ^ 32 := by rw [appMaxMetaBytes_eq] at hm; omega
    simp only [AppMessage.unmarshal, AppAccept.unmarshalBinary, List.append_assoc,
      readUint32_append, readBytes_append hlen, readUint32_writeUint32, field_ok, ok_bind,
      noTrailing_nil]
  | appReject id code message =>
    obtain rfl := Except.ok.inj h
    exact unmarshalCoded_append_fit hfit
  | appData id data =>
    simp only [AppMessage.marshalBinary] at h
    split_ifs at h with hd
    obtain rfl := Except.ok.inj h
    have hlen : data.length < 2 ^ 32 := by rw [appMaxDataBytes_eq] at hd; omega
    simp only [AppMessage.unmarshal, AppData.unmarshalBinary, readUint32_append,
      readBytes_writeBytes hlen, field_ok, ok_bind, noTrailing_nil]
  | appCredit id bytes =>
    obtain rfl := Except.ok.inj h
    simp only [AppMessage.unmarshal, AppCredit.unmarshalBinary, readUint32_append,
      readUint32_writeUint32, field_ok, ok_bind, noTrailing_nil]
  | appClose id =>
    obtain rfl := Except.ok.inj h
    simp only [AppMessage.unmarshal, AppClose.unmarshalBinary, readUint32_writeUint32, field_ok,
      ok_bind, noTrailing_nil]
  | appReset id code message =>
    obtain rfl := Except.ok.inj h
    exact unmarshalCoded_append_fit hfit

/-- A message the session may send: an `APP_OPEN` names a valid service. -/
def AppMessage.ServiceValid : AppMessage → Prop
  | appOpen _ service _ => validAppService service = true
  | _ => True

/-- **No encoded message is taken for another one**: it decodes to itself, or, with an
overlong error text, to no message. -/
theorem unmarshalBinary_marshalBinary_or_error {m : AppMessage} {body : Bytes}
    (h : m.marshalBinary = .ok body) (hs : m.ServiceValid) :
    m.unmarshal body = .ok m ∨ ∃ e, m.unmarshal body = .error e := by
  have overlong : ∀ name make (id : UInt32) (code : UInt16) (message : Bytes),
      2 ^ 16 ≤ message.length →
      ∃ e, unmarshalCoded name make (writeUint32 id ++ writeUint16 code ++ writeString message) =
        .error e := by
    intro name make id code message hlen
    rw [unmarshalCoded_append]
    refine ⟨_, if_pos ?_⟩
    have := Nat.mod_lt message.length (show 0 < 2 ^ 16 by decide)
    rw [List.length_drop]
    omega
  cases m with
  | appReject id code message =>
    rcases Nat.lt_or_ge message.length (2 ^ 16) with hl | hl
    · exact Or.inl (unmarshalBinary_marshalBinary h hl)
    · cases h
      exact Or.inr (overlong _ _ id code message hl)
  | appReset id code message =>
    rcases Nat.lt_or_ge message.length (2 ^ 16) with hl | hl
    · exact Or.inl (unmarshalBinary_marshalBinary h hl)
    · cases h
      exact Or.inr (overlong _ _ id code message hl)
  | appOpen id service metadata =>
    refine Or.inl (unmarshalBinary_marshalBinary h ?_)
    have := length_le_of_validAppService hs
    show service.length < 2 ^ 16
    omega
  | appAccept => exact Or.inl (unmarshalBinary_marshalBinary h trivial)
  | appData => exact Or.inl (unmarshalBinary_marshalBinary h trivial)
  | appCredit => exact Or.inl (unmarshalBinary_marshalBinary h trivial)
  | appClose => exact Or.inl (unmarshalBinary_marshalBinary h trivial)

end Mvcp
