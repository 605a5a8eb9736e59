import Mvcp.Messages.Receivers
import Mvcp.Messages.Tools
import Mvcp.Messages.Heartbeat
import Mvcp.Messages.Exec

/-!
# The decoder registry

`message.go`: a decoder is registered for every message type, and `DecodeMessageBody` looks it up by
the type of a frame. Some of the registered functions read the fields of their type themselves,
beside `UnmarshalBinary` which does the same; the others read the whole body and call
`UnmarshalBinary` on a zero value. The app session sees this registry through what it needs of it.

## Main definitions

* `Format`, `AppFormat`: the data of a message type with its laws, for the types whose registered
  decoder reads the fields and for those of the app channel
* `Kind`, `Kind.type`: the registered types, and what is registered for them
* `decodeMessageBody`: the registry
* `SameMeaning`: the registered decoder and `UnmarshalBinary` say the same about a body

## Main results

* `sameMeaning_iff`: they do, but for a heartbeat whose extensions say something of its health or
  of a failure
* `decodeMessage_registry`: the registry as the app session sees it
-/

namespace Mvcp.Messages

open Library (Decoder Method Agrees Reads Computes)

/-! ## Types with two decoders -/

/-- A message type with a registered decoder of its own: the struct and its zero value, the encoder
and the lengths it is made for, the method, and the registered decoder. -/
structure Format where
  Msg : Type
  zero : Msg
  Fits : Msg → Prop
  marshalBinary : Msg → Bytes
  unmarshalBinary : Unmarshal Msg Unit
  decode : Decode Msg
  agrees : Agrees unmarshalBinary decode
  reads : ∀ {m : Msg}, Fits m → Reads decode (marshalBinary m) m

inductive RecordKind
  | status | execStream | execResult | xferInit | xferChunk | xferDone | toolCall | toolResult
  | listToolsResult | eventReady | eventFileReceived | eventMount | eventError | eventLog
  | eventInitFailed | started | error
  deriving DecidableEq

def RecordKind.format : RecordKind → Format
  | status => ⟨StatusMsg, {}, StatusMsg.Fits, StatusMsg.marshalBinary, StatusMsg.unmarshalBinary,
      StatusMsg.decode, StatusMsg.mirrors.agrees, StatusMsg.reads⟩
  | execStream => ⟨ExecStream, {}, ExecStream.Fits, ExecStream.marshalBinary,
      ExecStream.unmarshalBinary, ExecStream.decode, ExecStream.mirrors.agrees, ExecStream.reads⟩
  | execResult => ⟨ExecResult, {}, ExecResult.Fits, ExecResult.marshalBinary,
      ExecResult.unmarshalBinary, ExecResult.decode, ExecResult.mirrors.agrees, ExecResult.reads⟩
  | xferInit => ⟨XferInit, {}, XferInit.Fits, XferInit.marshalBinary, XferInit.unmarshalBinary,
      XferInit.decode, XferInit.mirrors.agrees, XferInit.reads⟩
  | xferChunk => ⟨XferChunk, {}, XferChunk.Fits, XferChunk.marshalBinary,
      XferChunk.unmarshalBinary, XferChunk.decode, XferChunk.mirrors.agrees, XferChunk.reads⟩
  | xferDone => ⟨XferDone, {}, fun _ => True, XferDone.marshalBinary, XferDone.unmarshalBinary,
      XferDone.decode, XferDone.mirrors.agrees, fun _ => XferDone.reads _⟩
  | toolCall => ⟨ToolCall, {}, ToolCall.Fits, ToolCall.marshalBinary, ToolCall.unmarshalBinary,
      ToolCall.decode, ToolCall.mirrors.agrees, ToolCall.reads⟩
  | toolResult => ⟨ToolResult, {}, ToolResult.Fits, ToolResult.marshalBinary,
      ToolResult.unmarshalBinary, ToolResult.decode, ToolResult.mirrors.agrees, ToolResult.reads⟩
  | listToolsResult => ⟨ListToolsResult, {}, ListToolsResult.Fits, ListToolsResult.marshalBinary,
      ListToolsResult.unmarshalBinary, ListToolsResult.decode, ListToolsResult.agrees,
      ListToolsResult.reads⟩
  | eventReady => ⟨EventReady, {}, EventReady.Fits, EventReady.marshalBinary,
      EventReady.unmarshalBinary, EventReady.decode, EventReady.mirrors.agrees, EventReady.reads⟩
  | eventFileReceived => ⟨EventFileReceived, {}, EventFileReceived.Fits,
      EventFileReceived.marshalBinary, EventFileReceived.unmarshalBinary, EventFileReceived.decode,
      EventFileReceived.mirrors.agrees, EventFileReceived.reads⟩
  | eventMount => ⟨EventMount, {}, EventMount.Fits, EventMount.marshalBinary,
      EventMount.unmarshalBinary, EventMount.decode, EventMount.mirrors.agrees, EventMount.reads⟩
  | eventError => ⟨EventErrorMsg, {}, EventErrorMsg.Fits, EventErrorMsg.marshalBinary,
      EventErrorMsg.unmarshalBinary, EventErrorMsg.decode, EventErrorMsg.mirrors.agrees,
      EventErrorMsg.reads⟩
  | eventLog => ⟨EventLog, {}, EventLog.Fits, EventLog.marshalBinary, EventLog.unmarshalBinary,
      EventLog.decode, EventLog.mirrors.agrees, EventLog.reads⟩
  | eventInitFailed => ⟨EventInitFailed, {}, EventInitFailed.Fits, EventInitFailed.marshalBinary,
      EventInitFailed.unmarshalBinary, EventInitFailed.decode, EventInitFailed.mirrors.agrees,
      EventInitFailed.reads⟩
  | started => ⟨StartedMsg, {}, fun _ => True, StartedMsg.marshalBinary,
      StartedMsg.unmarshalBinary, StartedMsg.decode, StartedMsg.mirrors.agrees,
      fun _ => StartedMsg.reads _⟩
  | error => ⟨ErrorMsg, {}, ErrorMsg.Fits, ErrorMsg.marshalBinary, ErrorMsg.unmarshalBinary,
      ErrorMsg.decode, ErrorMsg.mirrors.agrees, ErrorMsg.reads⟩

/-! ## The app channel -/

/-- A message type of the app channel: the struct and its zero value, the message it stands for, the
method, and the function of the body that the method computes. -/
structure AppFormat where
  Msg : Type
  zero : Msg
  toMessage : Msg → AppMessage
  unmarshalBinary : Unmarshal Msg Unit
  decoder : Bytes → Except String AppMessage
  computes : Computes unmarshalBinary toMessage decoder id
  injective : Function.Injective toMessage
  unmarshal_toMessage : ∀ m, (toMessage m).unmarshal = decoder

inductive AppKind
  | appOpen | appAccept | appReject | appData | appCredit | appClose | appReset
  deriving DecidableEq

def AppKind.format : AppKind → AppFormat
  | appOpen => ⟨AppOpen, {}, AppOpen.toMessage, AppOpen.unmarshalBinary,
      Mvcp.AppOpen.unmarshalBinary, AppOpen.computes, AppOpen.injective, fun _ => rfl⟩
  | appAccept => ⟨AppAccept, {}, AppAccept.toMessage, AppAccept.unmarshalBinary,
      Mvcp.AppAccept.unmarshalBinary, AppAccept.computes, AppAccept.injective, fun _ => rfl⟩
  | appReject => ⟨AppReject, {}, AppReject.toMessage, AppReject.unmarshalBinary,
      Mvcp.AppReject.unmarshalBinary, AppReject.computes, AppReject.injective, fun _ => rfl⟩
  | appData => ⟨AppData, {}, AppData.toMessage, AppData.unmarshalBinary,
      Mvcp.AppData.unmarshalBinary, AppData.computes, AppData.injective, fun _ => rfl⟩
  | appCredit => ⟨AppCredit, {}, AppCredit.toMessage, AppCredit.unmarshalBinary,
      Mvcp.AppCredit.unmarshalBinary, AppCredit.computes, AppCredit.injective, fun _ => rfl⟩
  | appClose => ⟨AppClose, {}, AppClose.toMessage, AppClose.unmarshalBinary,
      Mvcp.AppClose.unmarshalBinary, AppClose.computes, AppClose.injective, fun _ => rfl⟩
  | appReset => ⟨AppReset, {}, AppReset.toMessage, AppReset.unmarshalBinary,
      Mvcp.AppReset.unmarshalBinary, AppReset.computes, AppReset.injective, fun _ => rfl⟩

/-! ## Messages without fields -/

inductive EmptyKind
  | ping | pong | shutdown | shutdownAck | getStatus | listTools | syncFilesystems
  | syncFilesystemsAck
  deriving DecidableEq

/-- A method that takes no body. -/
abbrev noPayload (name : String) : Unmarshal Unit Unit :=
  Method.field (Decoder.refuse (fun b => b.length ≠ 0) fun _ => name ++ ": unexpected payload")

/-- `UnmarshalBinary`: the sync messages refuse a payload, the others ignore it. -/
def EmptyKind.unmarshalBinary : EmptyKind → Unmarshal Unit Unit
  | syncFilesystems => noPayload "sync_filesystems"
  | syncFilesystemsAck => noPayload "sync_filesystems_ack"
  | ping | pong | shutdown | shutdownAck | getStatus | listTools => pure ()

/-! ## The registered types -/

inductive Kind
  | hello
  | heartbeat
  | exec
  | empty (k : EmptyKind)
  | record (k : RecordKind)
  | app (k : AppKind)
  deriving DecidableEq

/-- What the source has of a message type: the struct and its zero value, the method, and the
registered function. -/
structure MessageType where
  Msg : Type
  zero : Msg
  unmarshalBinary : Unmarshal Msg Unit
  decode : Bytes → Except String Msg

/-- A registered function that reads the fields. It does not look at what follows them. -/
def byFields {σ : Type} (d : Decode σ) (body : Bytes) : Except String σ := (d body).map Prod.fst

/-- A registered function that reads the whole body and calls `UnmarshalBinary` on a zero value, as
`decodeApp` and `decodeEmptyControlMessage` do. -/
def byMethod {σ : Type} (m : Unmarshal σ Unit) (zero : σ) (body : Bytes) : Except String σ :=
  match m.call body zero with
  | (.ok _, v) => .ok v
  | (.error e, _) => .error e

section

variable (json : JsonDecoder)

namespace Kind

def type : Kind → MessageType
  | hello => ⟨Hello, Hello.zero, Hello.unmarshal, byMethod Hello.unmarshal Hello.zero⟩
  | heartbeat => ⟨HeartbeatMsg, {}, HeartbeatMsg.unmarshalBinary, byFields HeartbeatMsg.decode⟩
  | exec => ⟨ExecCmd, {}, ExecCmd.unmarshalBinary json, byMethod (ExecCmd.unmarshalBinary json) {}⟩
  | empty .syncFilesystems => ⟨Unit, (), EmptyKind.syncFilesystems.unmarshalBinary,
      byMethod EmptyKind.syncFilesystems.unmarshalBinary ()⟩
  | empty .syncFilesystemsAck => ⟨Unit, (), EmptyKind.syncFilesystemsAck.unmarshalBinary,
      byMethod EmptyKind.syncFilesystemsAck.unmarshalBinary ()⟩
  | empty k => ⟨Unit, (), k.unmarshalBinary, fun _ => .ok ()⟩
  | record k => ⟨k.format.Msg, k.format.zero, k.format.unmarshalBinary, byFields k.format.decode⟩
  | app k => ⟨k.format.Msg, k.format.zero, k.format.unmarshalBinary,
      byMethod k.format.unmarshalBinary k.format.zero⟩

/-- The type of a frame that carries such a message. -/
def typ : Kind → UInt8
  | hello => typeHELLO
  | heartbeat => typeHEARTBEAT
  | exec => typeEXEC
  | empty .ping => typePING
  | empty .pong => typePONG
  | empty .shutdown => typeSHUTDOWN
  | empty .shutdownAck => typeSHUTDOWNACK
  | empty .getStatus => typeGETSTATUS
  | empty .listTools => typeLISTTOOLS
  | empty .syncFilesystems => typeSYNCFILESYSTEMS
  | empty .syncFilesystemsAck => typeSYNCFILESYSTEMSACK
  | record .status => typeSTATUS
  | record .execStream => typeEXECSTREAM
  | record .execResult => typeEXECRESULT
  | record .xferInit => typeXFERINIT
  | record .xferChunk => typeXFERCHUNK
  | record .xferDone => typeXFERDONE
  | record .toolCall => typeTOOLCALL
  | record .toolResult => typeTOOLRESULT
  | record .listToolsResult => typeLISTTOOLSRESULT
  | record .eventReady => typeEVENTREADY
  | record .eventFileReceived => typeEVENTFILERECEIVED
  | record .eventMount => typeEVENTMOUNT
  | record .eventError => typeEVENTERROR
  | record .eventLog => typeEVENTLOG
  | record .eventInitFailed => typeEVENTINITFAILED
  | record .started => typeSTARTED
  | record .error => typeERROR
  | app .appOpen => typeAPPOPEN
  | app .appAccept => typeAPPACCEPT
  | app .appReject => typeAPPREJECT
  | app .appData => typeAPPDATA
  | app .appCredit => typeAPPCREDIT
  | app .appClose => typeAPPCLOSE
  | app .appReset => typeAPPRESET

end Kind

/-- The registered types. -/
def registrations : List Kind :=
  [.hello, .empty .ping, .empty .pong, .empty .shutdown, .empty .shutdownAck, .empty .getStatus,
    .record .status, .heartbeat, .exec, .record .execStream, .record .execResult, .record .xferInit,
    .record .xferChunk, .record .xferDone, .record .toolCall, .record .toolResult,
    .empty .listTools, .record .listToolsResult, .empty .syncFilesystems,
    .empty .syncFilesystemsAck, .app .appOpen, .app .appAccept, .app .appReject, .app .appData,
    .app .appCredit, .app .appClose, .app .appReset, .record .eventReady,
    .record .eventFileReceived, .record .eventMount, .record .eventError, .record .eventLog,
    .record .eventInitFailed, .record .started, .record .error]

/-- `decodeRegistry`: the kind registered for a frame type. -/
def registered (typ : UInt8) : Option Kind := registrations.find? fun k => k.typ = typ

/-- A decoded message, with its type. -/
abbrev AnyMessage := (k : Kind) × (k.type json).Msg

/-- `DecodeMessageBody`. -/
def decodeMessageBody (typ : UInt8) (body : Bytes) : Except String (AnyMessage json) :=
  match registered typ with
  | none => .error ("mvcp: unknown message type 0x" ++ hex02 typ)
  | some k => ((k.type json).decode body).map fun m => ⟨k, m⟩

/-- **No two kinds share a frame type**, and every kind is registered. -/
theorem registered_eq_some {typ : UInt8} {k : Kind} : registered typ = some k ↔ k.typ = typ := by
  constructor
  · intro h
    simpa using List.find?_some h
  · rintro rfl
    rcases k with _ | _ | _ | k | k | k
    iterate 3 rfl
    all_goals cases k <;> rfl

theorem decodeMessageBody_typ (k : Kind) (body : Bytes) :
    decodeMessageBody json k.typ body = ((k.type json).decode body).map fun m => ⟨k, m⟩ := by
  rw [decodeMessageBody, registered_eq_some.mpr rfl]

/-! ## Two decoders, one meaning -/

/-- `DecodeMessageBody` succeeds on a body exactly when `UnmarshalBinary` on a zero value does, and
then the two messages are equal. -/
structure SameMeaning (k : Kind) (body : Bytes) : Prop where
  succeeds : (∃ msg, decodeMessageBody json k.typ body = .ok msg) ↔
    ∃ m, (k.type json).unmarshalBinary.call body (k.type json).zero = (.ok (), m)
  equal : ∀ msg m, decodeMessageBody json k.typ body = .ok msg →
    (k.type json).unmarshalBinary.call body (k.type json).zero = (.ok (), m) → msg = ⟨k, m⟩

theorem byMethod_eq_ok {σ : Type} {m : Unmarshal σ Unit} {zero v : σ} {body : Bytes} :
    byMethod m zero body = .ok v ↔ m.call body zero = (.ok (), v) := by
  unfold byMethod
  rcases m.call body zero with ⟨_ | _, s⟩ <;> simp

theorem byFields_eq_ok {σ : Type} {d : Decode σ} {v : σ} {body : Bytes} :
    byFields d body = .ok v ↔ ∃ r, d body = .ok (v, r) := by
  unfold byFields
  rcases d body with _ | ⟨v', r⟩ <;> simp [Except.map]

/-- A method that agrees with a decoder succeeds as it does. -/
theorem call_eq_ok_of_agrees {σ : Type} {m : Unmarshal σ Unit} {d : Decode σ} (h : Agrees m d)
    {v zero : σ} {body : Bytes} : m.call body zero = (.ok (), v) ↔ byFields d body = .ok v := by
  rw [byFields_eq_ok]
  rcases h body zero with ⟨v', r, hd, hm⟩ | ⟨e, e', s', hd, hm⟩
  · simp [Method.call, hd, hm, Except.map]
  · simp [Method.call, hd, hm, Except.map]

/-- What the two decoders say, without the registry. -/
theorem sameMeaning_iff_decode {k : Kind} {body : Bytes} :
    SameMeaning json k body ↔ ∀ m, (k.type json).decode body = .ok m ↔
      (k.type json).unmarshalBinary.call body (k.type json).zero = (.ok (), m) := by
  have hmsg (msg : AnyMessage json) : decodeMessageBody json k.typ body = .ok msg ↔
      ∃ m, (k.type json).decode body = .ok m ∧ msg = ⟨k, m⟩ := by
    rw [decodeMessageBody_typ]
    cases (k.type json).decode body <;> simp [Except.map, eq_comm]
  constructor
  · intro ⟨hs, he⟩ m
    constructor
    · intro hd
      obtain ⟨m', hm'⟩ := hs.mp ⟨⟨k, m⟩, (hmsg _).mpr ⟨m, hd, rfl⟩⟩
      obtain rfl : m = m' := by simpa using he _ _ ((hmsg _).mpr ⟨m, hd, rfl⟩) hm'
      exact hm'
    · intro hm
      obtain ⟨msg, hok⟩ := hs.mpr ⟨m, hm⟩
      obtain ⟨m', hd, rfl⟩ := (hmsg msg).mp hok
      obtain rfl : m' = m := by simpa using he _ _ hok hm
      exact hd
  · intro h
    refine ⟨⟨?_, ?_⟩, ?_⟩
    · rintro ⟨msg, hok⟩
      obtain ⟨m, hd, rfl⟩ := (hmsg msg).mp hok
      exact ⟨m, (h m).mp hd⟩
    · rintro ⟨m, hm⟩
      exact ⟨⟨k, m⟩, (hmsg _).mpr ⟨m, (h m).mpr hm, rfl⟩⟩
    · intro msg m hok hm
      obtain ⟨m', hd, rfl⟩ := (hmsg msg).mp hok
      rw [(h m).mpr hm] at hd
      rw [Except.ok.inj hd]

/-- Every registered decoder but that of the heartbeat does what the method does. -/
theorem sameMeaning_of_ne {k : Kind} (hk : k ≠ .heartbeat) (body : Bytes) :
    SameMeaning json k body := by
  rw [sameMeaning_iff_decode]
  intro m
  cases k with
  | heartbeat => exact absurd rfl hk
  | hello => exact byMethod_eq_ok
  | exec => exact byMethod_eq_ok
  | app k => exact byMethod_eq_ok
  | record k => exact (call_eq_ok_of_agrees k.format.agrees).symm
  | empty k =>
    cases k with
    | syncFilesystems => exact byMethod_eq_ok
    | syncFilesystemsAck => exact byMethod_eq_ok
    | _ => exact iff_of_true rfl rfl

/-- The last extension of each kind says what an absent one would. -/
def Unremarkable (exts : List HeartbeatExtension) : Prop :=
  (healths exts).getLastD healthHealthy = healthHealthy ∧ (reasons exts).getLastD [] = []

theorem derived_eq_self_iff {m : HeartbeatMsg} (h : m.health = 0 ∧ m.failureReason = []) :
    m.derived = m ↔ Unremarkable m.extensions := by
  rw [HeartbeatMsg.ext_iff, h.1, h.2]
  simp [HeartbeatMsg.derived, Unremarkable, healthHealthy]

/-- **The registered decoder of the heartbeat agrees with the method exactly on the bodies whose
extensions say nothing**, since it leaves the fields it would take from them at zero. -/
theorem sameMeaning_heartbeat_iff (body : Bytes) :
    SameMeaning json .heartbeat body ↔ ∀ exts, Carries body exts → Unremarkable exts := by
  rw [sameMeaning_iff_decode]
  show (∀ m, byFields HeartbeatMsg.decode body = .ok m ↔
    HeartbeatMsg.unmarshalBinary.call body {} = (.ok (), m)) ↔ _
  constructor
  · intro h exts hc
    obtain ⟨m, r, hd, rfl⟩ := HeartbeatMsg.extensions_of_carries hc
    have hcall := (h m).mp (byFields_eq_ok.mpr ⟨r, hd⟩)
    rw [HeartbeatMsg.call_of_decode hd] at hcall
    exact (derived_eq_self_iff (HeartbeatMsg.decode_eq_ok.mp hd).1).mp (Prod.mk.inj hcall).2
  · intro h m
    have hself {m' : HeartbeatMsg} {r : Bytes} (hd : HeartbeatMsg.decode body = .ok (m', r)) :
        m'.derived = m' :=
      (derived_eq_self_iff (HeartbeatMsg.decode_eq_ok.mp hd).1).mpr
        (h _ (HeartbeatMsg.carries_of_decode hd))
    constructor
    · intro hm
      obtain ⟨r, hd⟩ := byFields_eq_ok.mp hm
      rw [HeartbeatMsg.call_of_decode hd, hself hd]
    · intro hcall
      obtain ⟨m', r, hd, rfl⟩ := HeartbeatMsg.call_eq_ok hcall
      rw [hself hd]
      exact byFields_eq_ok.mpr ⟨r, hd⟩

/-- **Two decoders, one meaning**, for every registered type and every body, but for a heartbeat
whose extensions say something of its health or of a failure. -/
theorem sameMeaning_iff (k : Kind) (body : Bytes) :
    SameMeaning json k body ↔ (k = .heartbeat → ∀ exts, Carries body exts → Unremarkable exts) := by
  by_cases hk : k = .heartbeat
  · subst hk
    rw [sameMeaning_heartbeat_iff]
    exact (imp_iff_right rfl).symm
  · exact iff_of_true (sameMeaning_of_ne json hk body) fun h => absurd h hk

/-- A heartbeat that reports health 1: `UnmarshalBinary` takes it out of the extensions, and the
message that is dispatched says healthy. -/
theorem heartbeat_two_meanings :
    (∀ json, decodeMessageBody json typeHEARTBEAT
      [0, 0, 0, 0, 0, 0, 0, 0, 0, 0, 0, 0, 0, 0, 0, 0, 2, 0, 0, 5, 0, 4, 0, 1, 1] =
        .ok ⟨.heartbeat, { state := 2, extensions := [⟨extHealth, [1]⟩] : HeartbeatMsg }⟩) ∧
    HeartbeatMsg.unmarshalBinary.call
      [0, 0, 0, 0, 0, 0, 0, 0, 0, 0, 0, 0, 0, 0, 0, 0, 2, 0, 0, 5, 0, 4, 0, 1, 1] {} =
        (.ok (), { state := 2, health := 1, extensions := [⟨extHealth, [1]⟩] }) := by
  have hdec : HeartbeatMsg.decode
      [0, 0, 0, 0, 0, 0, 0, 0, 0, 0, 0, 0, 0, 0, 0, 0, 2, 0, 0, 5, 0, 4, 0, 1, 1] =
        .ok ({ state := 2, extensions := [⟨extHealth, [1]⟩] }, []) :=
    HeartbeatMsg.decode_eq_ok.mpr ⟨⟨rfl, rfl⟩, by simp, [], by simp, by decide, by decide⟩
  constructor
  · intro json
    rw [show typeHEARTBEAT = Kind.heartbeat.typ from rfl, decodeMessageBody_typ]
    show (byFields HeartbeatMsg.decode _).map _ = _
    rw [byFields_eq_ok.mpr ⟨[], hdec⟩]
    rfl
  · rw [HeartbeatMsg.call_of_decode hdec]
    rfl

/-! ## The registry of the app session -/

/-- The message as the app session sees it. -/
def AnyMessage.seen : AnyMessage json → Message
  | ⟨.app k, m⟩ => .app (k.format.toMessage m)
  | ⟨.hello, _⟩ | ⟨.heartbeat, _⟩ | ⟨.exec, _⟩ | ⟨.empty _, _⟩ | ⟨.record _, _⟩ => .other

theorem seen_eq_other {k : Kind} (h : ¬ ∃ k', k = .app k') (m : (k.type json).Msg) :
    AnyMessage.seen json ⟨k, m⟩ = .other := by
  cases k with
  | app k => exact absurd ⟨k, rfl⟩ h
  | _ => rfl

/-- The registered decoders of the other services. -/
def registry : Registry := fun typ =>
  (registered typ).map fun k body => ((k.type json).decode body).map fun _ => ()

theorem appDecoder_typ_app (k : AppKind) : appDecoder (Kind.app k).typ = some k.format.decoder := by
  cases k <;> rfl

/-- A frame type that is not one of the app channel has no app decoder. -/
theorem appDecoder_eq_none {typ : UInt8} (h : ∀ k, (Kind.app k).typ ≠ typ) :
    appDecoder typ = none := by
  rw [appDecoder, if_neg (show typ ≠ typeAPPOPEN from (h .appOpen).symm),
    if_neg (show typ ≠ typeAPPACCEPT from (h .appAccept).symm),
    if_neg (show typ ≠ typeAPPREJECT from (h .appReject).symm),
    if_neg (show typ ≠ typeAPPDATA from (h .appData).symm),
    if_neg (show typ ≠ typeAPPCREDIT from (h .appCredit).symm),
    if_neg (show typ ≠ typeAPPCLOSE from (h .appClose).symm),
    if_neg (show typ ≠ typeAPPRESET from (h .appReset).symm)]

/-- The registered decoder of an app message gives what the function of its body gives. -/
theorem byMethod_app (k : AppKind) (body : Bytes) :
    (byMethod k.format.unmarshalBinary k.format.zero body).map k.format.toMessage =
      k.format.decoder body := by
  rcases k.format.computes body k.format.zero with ⟨v, r, hf, hm⟩ | ⟨e, hf, hm⟩
  · simp [byMethod, Method.call, hm, hf, Except.map]
  · simp [byMethod, Method.call, hm, hf, Except.map]

/-- **What the app session decodes is what the registry decodes**, seen as it sees it. -/
theorem decodeMessage_registry (typ : UInt8) (body : Bytes) :
    decodeMessage (registry json) typ body =
      (decodeMessageBody json typ body).map (AnyMessage.seen json) := by
  unfold decodeMessage decodeMessageBody
  cases hk : registered typ with
  | none =>
    have hnone : appDecoder typ = none := appDecoder_eq_none fun k h => by
      rw [registered_eq_some.mpr h] at hk
      simp at hk
    simp [hnone, registry, hk, Except.map]
  | some k =>
    obtain rfl := registered_eq_some.mp hk
    by_cases happ : ∃ k', k = .app k'
    · obtain ⟨k', rfl⟩ := happ
      rw [appDecoder_typ_app]
      simp only
      rw [← byMethod_app]
      show _ = Except.map _ (Except.map _ (byMethod k'.format.unmarshalBinary k'.format.zero body))
      cases byMethod k'.format.unmarshalBinary k'.format.zero body <;> rfl
    · have hne (k' : AppKind) : (Kind.app k').typ ≠ k.typ := fun h => by
        rw [registered_eq_some.mpr h] at hk
        exact happ ⟨k', (Option.some.inj hk).symm⟩
      simp only [appDecoder_eq_none hne, registry, hk, Option.map_some]
      cases (k.type json).decode body with
      | error e => rfl
      | ok m => exact congrArg _ (seen_eq_other json happ m).symm

end

end Mvcp.Messages
