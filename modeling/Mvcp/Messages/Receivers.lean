import Mvcp.Messages.AppCodec
import Mvcp.Negotiation.Hello

/-!
# HELLO and the app messages on their receivers

The strict decoders of `hello.go` and `messages/app.go` are functions of the body where the session
and the handshake use them. In the source they are methods: every read and every check comes first,
and the receiver is assigned behind the last of them.

## Main definitions

* `Hello.unmarshal`: the method of a HELLO
* `AppOpen`, …, `AppReset`: the structs of the app channel, each with its message and its method

## Main results

* `Hello.computes`, `AppOpen.computes`, …: the method is given by the function, and a failed call
  leaves the receiver as it was
-/

namespace Mvcp

open Library (Decoder Method Computes)
open Library.Method (assign)
open Messages (Unmarshal readField)

theorem mapError_mapError {ε ε' ε'' α : Type} (x : Except ε α) (f : ε → ε') (g : ε' → ε'') :
    (x.mapError f).mapError g = x.mapError fun e => g (f e) := by
  cases x <;> rfl

theorem mapError_id {ε α : Type} (x : Except ε α) : x.mapError id = x := by
  cases x <;> rfl

/-! ## HELLO -/

namespace Hello

/-- The zero value. -/
def zero : Hello := ⟨0, [], []⟩

/-- An error behind `errMalformedHello`. -/
def malformedText (e : String) : String := "mvcp: malformed hello: " ++ e

/-- A field of the body. -/
abbrev helloField {α : Type} (r : Decoder UInt8 ReadError α) : Unmarshal Hello α :=
  Method.field (r.label fun e => malformedText e.text)

/-- A check of the bytes that are left. -/
abbrev helloCheck (p : Bytes → Prop) [DecidablePred p] (e : Bytes → String) :
    Unmarshal Hello Unit :=
  Method.field (Decoder.refuse p fun b => malformedText (e b))

/-- `UnmarshalBinary` on a receiver. -/
def unmarshal : Unmarshal Hello Unit := do
  let role ← helloField readUint8
  helloCheck (fun _ => roleVHandler < role) fun _ => "invalid role " ++ toString role.toNat
  let verLen ← helloField readUint16
  helloCheck (fun _ => maxHelloVersionLen < verLen.toNat) fun _ =>
    "software version too long (" ++ toString verLen.toNat ++ " bytes, max " ++
      toString maxHelloVersionLen ++ ")"
  let verBuf ← helloField (readFull verLen.toNat)
  let count ← helloField readUint16
  helloCheck (fun _ => maxHelloCapabilities < count.toNat) fun _ =>
    "too many capabilities (" ++ toString count.toNat ++ ", max " ++
      toString maxHelloCapabilities ++ ")"
  -- the loop keeps the ids and the entries in local variables
  let cs ← Method.field (Decoder.label malformedText (readCapabilities count.toNat []))
  helloCheck (fun r => r.length ≠ 0) fun r => toString r.length ++ " trailing bytes"
  assign fun h => { h with role, softwareVersion := verBuf, capabilities := cs }

/-- **The method is given by the function**, and it assigns its receiver only when it succeeds. -/
theorem computes : Computes unmarshal id unmarshalBinary malformedText := by
  have hread {α : Type} (r : Reader α) (b : Bytes) :
      (r b).mapError (fun e => malformedText e.text) = (malformed (r b)).mapError malformedText :=
    (mapError_mapError _ _ _).symm
  refine .field (hread _) fun role => .refuse (fun _ => rfl) (fun _ => rfl) ?_
  refine .field (hread _) fun verLen => .refuse (fun _ => rfl) (fun _ => rfl) ?_
  refine .field (hread _) fun verBuf => ?_
  refine .field (hread _) fun count => .refuse (fun _ => rfl) (fun _ => rfl) ?_
  refine .field (fun _ => rfl) fun cs => .refuse (fun _ => rfl) (fun _ => rfl) ?_
  exact .assign fun _ => rfl

end Hello

namespace Messages

/-! ## The app channel -/

/-- The strict end of a method. -/
abbrev strictEnd {σ : Type} (name : String) : Unmarshal σ Unit :=
  Method.field (Decoder.refuse (fun r => r.length ≠ 0) fun r =>
    name ++ ": " ++ toString r.length ++ " trailing bytes")

/-- A read of a strict method is that of the function. -/
theorem appField {σ α : Type} {view : σ → AppMessage} {name : String} {r : Reader α}
    {m : α → Unmarshal σ Unit} {k : α × Bytes → Except String AppMessage}
    (h : ∀ a, Computes (m a) view (fun b => k (a, b)) id) :
    Computes (readField name r >>= m) view (fun b => field name (r b) >>= k) id :=
  .field (fun _ => (mapError_id _).symm) h

/-- A strict method ends as the function does. -/
theorem appEnd {σ : Type} {view : σ → AppMessage} {name : String} {g : σ → σ} {v : σ}
    (h : ∀ s, g s = v) :
    Computes (strictEnd name >>= fun _ => (assign g : Unmarshal σ Unit)) view
      (fun b => noTrailing name b (view v)) id :=
  .refuse (fun _ => rfl) (fun _ => rfl) (.assign h)

@[ext]
structure AppOpen where
  streamID : UInt32 := 0
  service : Bytes := []
  metadata : Bytes := []
  deriving DecidableEq

namespace AppOpen

def toMessage (m : AppOpen) : AppMessage := .appOpen m.streamID m.service m.metadata

def unmarshalBinary : Unmarshal AppOpen Unit := do
  let streamID ← readField "app_open: read stream_id" readUint32
  let service ← readField "app_open: read service" readString
  let metadata ← readField "app_open: read meta" readBytes
  strictEnd "app_open"
  assign fun m => { m with streamID, service, metadata }

theorem computes : Computes unmarshalBinary toMessage Mvcp.AppOpen.unmarshalBinary id :=
  appField fun _ => appField fun _ => appField fun _ => appEnd fun _ => rfl

theorem injective : Function.Injective toMessage := by
  intro a b h
  injection h with h₁ h₂ h₃
  exact AppOpen.ext h₁ h₂ h₃

end AppOpen

@[ext]
structure AppAccept where
  streamID : UInt32 := 0
  metadata : Bytes := []
  grant : UInt32 := 0
  deriving DecidableEq

namespace AppAccept

def toMessage (m : AppAccept) : AppMessage := .appAccept m.streamID m.metadata m.grant

def unmarshalBinary : Unmarshal AppAccept Unit := do
  let streamID ← readField "app_accept: read stream_id" readUint32
  let metadata ← readField "app_accept: read meta" readBytes
  let grant ← readField "app_accept: read grant" readUint32
  strictEnd "app_accept"
  assign fun m => { m with streamID, metadata, grant }

theorem computes : Computes unmarshalBinary toMessage Mvcp.AppAccept.unmarshalBinary id :=
  appField fun _ => appField fun _ => appField fun _ => appEnd fun _ => rfl

theorem injective : Function.Injective toMessage := by
  intro a b h
  injection h with h₁ h₂ h₃
  exact AppAccept.ext h₁ h₂ h₃

end AppAccept

@[ext]
structure AppReject where
  streamID : UInt32 := 0
  code : UInt16 := 0
  message : Bytes := []
  deriving DecidableEq

namespace AppReject

def toMessage (m : AppReject) : AppMessage := .appReject m.streamID m.code m.message

def unmarshalBinary : Unmarshal AppReject Unit := do
  let streamID ← readField "app_reject: read stream_id" readUint32
  let code ← readField "app_reject: read code" readUint16
  let message ← readField "app_reject: read message" readString
  strictEnd "app_reject"
  assign fun m => { m with streamID, code, message }

theorem computes : Computes unmarshalBinary toMessage Mvcp.AppReject.unmarshalBinary id :=
  appField fun _ => appField fun _ => appField fun _ => appEnd fun _ => rfl

theorem injective : Function.Injective toMessage := by
  intro a b h
  injection h with h₁ h₂ h₃
  exact AppReject.ext h₁ h₂ h₃

end AppReject

@[ext]
structure AppData where
  streamID : UInt32 := 0
  data : Bytes := []
  deriving DecidableEq

namespace AppData

def toMessage (m : AppData) : AppMessage := .appData m.streamID m.data

def unmarshalBinary : Unmarshal AppData Unit := do
  let streamID ← readField "app_data: read stream_id" readUint32
  let data ← readField "app_data: read data" readBytes
  strictEnd "app_data"
  assign fun m => { m with streamID, data }

theorem computes : Computes unmarshalBinary toMessage Mvcp.AppData.unmarshalBinary id :=
  appField fun _ => appField fun _ => appEnd fun _ => rfl

theorem injective : Function.Injective toMessage := by
  intro a b h
  injection h with h₁ h₂
  exact AppData.ext h₁ h₂

end AppData

@[ext]
structure AppCredit where
  streamID : UInt32 := 0
  bytes : UInt32 := 0
  deriving DecidableEq

namespace AppCredit

def toMessage (m : AppCredit) : AppMessage := .appCredit m.streamID m.bytes

def unmarshalBinary : Unmarshal AppCredit Unit := do
  let streamID ← readField "app_credit: read stream_id" readUint32
  let bytes ← readField "app_credit: read bytes" readUint32
  strictEnd "app_credit"
  assign fun m => { m with streamID, bytes }

theorem computes : Computes unmarshalBinary toMessage Mvcp.AppCredit.unmarshalBinary id :=
  appField fun _ => appField fun _ => appEnd fun _ => rfl

theorem injective : Function.Injective toMessage := by
  intro a b h
  injection h with h₁ h₂
  exact AppCredit.ext h₁ h₂

end AppCredit

@[ext]
structure AppClose where
  streamID : UInt32 := 0
  deriving DecidableEq

namespace AppClose

def toMessage (m : AppClose) : AppMessage := .appClose m.streamID

def unmarshalBinary : Unmarshal AppClose Unit := do
  let streamID ← readField "app_close: read stream_id" readUint32
  strictEnd "app_close"
  assign fun m => { m with streamID }

theorem computes : Computes unmarshalBinary toMessage Mvcp.AppClose.unmarshalBinary id :=
  appField fun _ => appEnd fun _ => rfl

theorem injective : Function.Injective toMessage := by
  intro a b h
  injection h with h
  exact AppClose.ext h

end AppClose

@[ext]
structure AppReset where
  streamID : UInt32 := 0
  code : UInt16 := 0
  message : Bytes := []
  deriving DecidableEq

namespace AppReset

def toMessage (m : AppReset) : AppMessage := .appReset m.streamID m.code m.message

def unmarshalBinary : Unmarshal AppReset Unit := do
  let streamID ← readField "app_reset: read stream_id" readUint32
  let code ← readField "app_reset: read code" readUint16
  let message ← readField "app_reset: read message" readString
  strictEnd "app_reset"
  assign fun m => { m with streamID, code, message }

theorem computes : Computes unmarshalBinary toMessage Mvcp.AppReset.unmarshalBinary id :=
  appField fun _ => appField fun _ => appField fun _ => appEnd fun _ => rfl

theorem injective : Function.Injective toMessage := by
  intro a b h
  injection h with h₁ h₂ h₃
  exact AppReset.ext h₁ h₂ h₃

end AppReset

end Messages

end Mvcp
