import Mvcp.Library.Cond
import Mvcp.Messages.App

/-!
# The atomic steps of the app channel

Every function of `session.go`, `stream.go` and `bridge.go` runs as a sequence of atomic steps:
the critical sections under a lock, the frame writes, and the calls that may block. A goroutine
is the list of the steps it still has to take. This module names the steps and the data they
carry; what they do is defined in `Mvcp.App.Stream` and `Mvcp.App.Session`.

## Main definitions

* `Cause`: why a stream is reset, with the code and the text the source gives
* `Event`: what calls returned and callbacks saw
* `Section`: the critical sections of a stream
* `Emission`: the frame writes of a stream
* `Task`: the steps of a session's goroutines
-/

namespace Mvcp.App

/-- The identity of a `*Stream`. -/
abbrev Ref := ℕ

/-- The identity of an `Endpoint`. -/
abbrev EpRef := ℕ

structure RejectError where
  code : UInt16
  message : Bytes
  deriving DecidableEq

structure ResetError where
  code : UInt16
  message : Bytes
  deriving DecidableEq

/-- Why a stream is reset. -/
inductive Cause
  /-- `fail`: the session ended. -/
  | peerGone
  /-- An `APP_RESET` of the peer. -/
  | peer (code : UInt16) (message : Bytes)
  /-- `Stream.Reset`, called by the application. -/
  | app (code : UInt16) (message : Bytes)
  /-- `Stream.Reset`, called by `Bridge` with the error of a copy loop. -/
  | bridge (err : Bytes)
  | sendOverflow
  | writeQuota
  | dataTooLarge
  | dataBeforeAccept
  | dataAfterClose
  | creditExceeded
  | deliverQuota
  | creditCap
  | acceptMetaTooLarge
  | invalidGrant
  | openTimeout
  deriving DecidableEq

/-- The code and the text of a reset. -/
def Cause.toError : Cause → ResetError
  | .peerGone => ⟨errorCodeAppPeerGone, text "connection closed"⟩
  | .peer code message => ⟨code, message⟩
  | .app code message => ⟨code, message⟩
  | .bridge err => ⟨errorCodeAppLocalError, err⟩
  | .sendOverflow => ⟨errorCodeAppOverflow, text "send queue overflow"⟩
  | .writeQuota => ⟨errorCodeAppQuotaExceeded, text "session buffer exceeded"⟩
  | .dataTooLarge => ⟨errorCodeAppProtocolError, text "data frame too large"⟩
  | .dataBeforeAccept => ⟨errorCodeAppProtocolError, text "data before accept"⟩
  | .dataAfterClose => ⟨errorCodeAppProtocolError, text "data after close"⟩
  | .creditExceeded => ⟨errorCodeAppProtocolError, text "credit exceeded"⟩
  | .deliverQuota => ⟨errorCodeAppQuotaExceeded, text "session buffer exceeded"⟩
  | .creditCap => ⟨errorCodeAppProtocolError, text "credit cap exceeded"⟩
  | .acceptMetaTooLarge => ⟨errorCodeAppProtocolError, text "accept meta too large"⟩
  | .invalidGrant => ⟨errorCodeAppProtocolError, text "invalid accept grant"⟩
  | .openTimeout => ⟨errorCodeAppTimeout, text "open context done"⟩

/-- `%04X` of a code. -/
def hex04 (c : UInt16) : Bytes :=
  text (String.ofList [hexDigit (c.toNat / 4096), hexDigit (c.toNat / 256 % 16),
    hexDigit (c.toNat / 16 % 16), hexDigit (c.toNat % 16)])

/-- `ResetError.Error`. -/
def ResetError.error (e : ResetError) : Bytes :=
  text "app: reset 0x" ++ hex04 e.code ++ text ": " ++ e.message

/-- The errors of a stream's calls. -/
inductive StreamError
  | reset (cause : Option Cause)
  | streamClosed
  | eof
  deriving DecidableEq

/-- The text of a stream error, as `Bridge` passes it on. -/
def StreamError.text : StreamError → Bytes
  | .reset (some c) => c.toError.error
  | .reset none => Mvcp.text "<nil>"
  | .streamClosed => Mvcp.text "app: stream closed"
  | .eof => Mvcp.text "EOF"

/-- The errors of `Session.Open`. -/
inductive OpenError
  | invalidService
  | metaTooLarge
  | sessionClosed
  | quotaExceeded
  | idExhausted
  | sendFailed
  | contextDone
  | reject (e : RejectError)
  | reset (cause : Cause)
  deriving DecidableEq

/-- The errors of an endpoint's `Read` and `Write`. -/
inductive EpError
  | eof
  | other (text : Bytes) (isEOF : Bool)
  deriving DecidableEq

/-- The text `Bridge` resets the stream with: nothing for an error that is `io.EOF`. -/
def EpError.resets : EpError → Option Bytes
  | .eof => none
  | .other text isEOF => if isEOF then none else some text

/-- What `Handler.Open` returned: an endpoint, which may support half-close, with the metadata
of the accept; or an error with its text, and the code when it is a `*RejectError`. -/
inductive HandlerResult
  | accept (halfClose : Bool) (metadata : Bytes)
  | refuse (code : Option UInt16) (text : Bytes)
  deriving DecidableEq

/-- What calls returned, and what callbacks saw, in the order the deciding steps were taken. -/
inductive Event
  /-- `Write(p)` returned `len(p)`. -/
  | wrote (r : Ref) (p : Bytes)
  | writeFailed (r : Ref) (err : StreamError)
  /-- `Read` returned the bytes `p`. -/
  | read (r : Ref) (p : Bytes)
  | readFailed (r : Ref) (err : StreamError)
  /-- `Observer.StreamOpened` and `Observer.StreamClosed`. -/
  | streamOpened (r : Ref)
  | streamClosed (r : Ref)
  | openReturned (r : Ref)
  | openFailed (r : Option Ref) (err : OpenError)
  | handlerCalled (r : Ref) (service metadata : Bytes)
  | handlerReturned (r : Ref) (res : HandlerResult)
  | closeReturned
  deriving DecidableEq

/-- The goroutine that waits for the result of a stream call: the application, or a copy loop
of `Bridge`, with the error its endpoint's `Read` returned beside the data being written. -/
inductive Caller
  | app
  | bridge (e : EpRef) (err : Option EpError)
  deriving DecidableEq

/-- The critical sections of a stream: under `Stream.mu`, under `lifeMu` (`markOpened`,
`finish`), and the steps on its `ready` channel and its condition variable. -/
inductive Section
  | write (p : Bytes) (k : Caller)
  | read (n : ℕ) (k : Caller)
  | readWait (n : ℕ) (k : Caller) (ticket : ℕ)
  | closeWrite
  | writeLoop
  | writeLoopWait (ticket : ℕ)
  | deliver (data : Bytes)
  | addCredit (n : ℕ)
  | remoteClose
  | handleAccept (metadata : Bytes) (grant : ℕ)
  | handleReject (code : UInt16) (message : Bytes)
  | closeReady
  | setReset (cause : Cause)
  | broadcast
  | maybeFinish
  | finish
  | detachBytes
  | closeEndpoint
  | acceptWindow (e : EpRef) (metadata : Bytes)
  | attachEndpoint (e : EpRef)
  | markOpened
  | openResult
  | openReturn
  deriving DecidableEq

/-- The frame writes of a stream. -/
inductive Emission
  | «open» (metadata : Bytes)
  | accept (e : EpRef) (metadata : Bytes)
  | reject (code : UInt16) (message : Bytes)
  | data (p : Bytes)
  | credit (n : ℕ)
  | close
  | reset (cause : Cause)
  deriving DecidableEq

/-- The steps of the copy loops of `Bridge`. -/
inductive Pump
  /-- `go Bridge(st, ep)`. -/
  | start
  /-- `io.Copy(st, ep)` reads the endpoint. -/
  | readEp
  /-- `io.Copy(st, ep)` got the result of `Write`; `er` came with the data. -/
  | wrote (err : Option StreamError) (er : Option EpError)
  /-- `io.Copy(st, ep)` returned, with the text of the error to reset the stream with. -/
  | inDone (err : Option Bytes)
  /-- `io.Copy(ep, st)` writes what it read to the endpoint. -/
  | writeEp (p : Bytes)
  | outDone (err : Option Bytes)
  deriving DecidableEq

/-- The atomic steps of the goroutines of a session. -/
inductive Task
  | sect (r : Ref) (x : Section)
  | emit (r : Ref) (x : Emission)
  | pump (r : Ref) (e : EpRef) (x : Pump)
  /-- `detach`: the section under `Session.mu`. -/
  | detach (r : Ref)
  | startWriteLoop (r : Ref)
  | «open» (service metadata : Bytes)
  /-- The `select` of `Open`. -/
  | openWait (r : Ref)
  | handleOpen (id : UInt32) (service metadata : Bytes)
  /-- `s.stream(id)`, and the handler of the message on the stream found. -/
  | lookup (m : AppMessage)
  | acceptOpen (r : Ref) (metadata : Bytes)
  /-- `Handler.Open` is running. -/
  | handlerOpen (r : Ref) (metadata : Bytes)
  /-- `fail`, called after a frame write for the stream failed. -/
  | fail (caller : Option Ref)
  /-- `fail`: `s.buffered = 0`. -/
  | clearBuffered
  | closeConn
  | releaseBuffer (n : ℕ)
  | sendReject (id : UInt32) (code : UInt16) (message : Bytes)
  | sendError (code : UInt16) (message : Bytes)
  | stopServe
  | epClose (e : EpRef)
  | epCloseWrite (e : EpRef)
  /-- `wg.Done` and `wg.Wait` of `Bridge`. -/
  | bridgeDone (e : EpRef)
  | bridgeWait (e : EpRef)
  /-- `wg.Done` of a write loop, and `wg.Wait` of `Session.Close`. -/
  | wgDone
  | wgWait
  /-- `Open` returns an error. -/
  | openFail (r : Option Ref) (err : OpenError)
  /-- `Session.Close` returns. -/
  | closeReturn
  deriving DecidableEq

/-- The stream a step works on. -/
def Task.ref? : Task → Option Ref
  | .sect r _ | .emit r _ | .pump r _ _ | .detach r | .startWriteLoop r | .openWait r
  | .acceptOpen r _ | .handlerOpen r _ => some r
  | .fail caller => caller
  | _ => none

section Ref

variable (r : Ref) (e : EpRef) (metadata : Bytes)

@[simp] theorem Task.ref?_sect (x : Section) : (Task.sect r x).ref? = some r := rfl
@[simp] theorem Task.ref?_emit (x : Emission) : (Task.emit r x).ref? = some r := rfl
@[simp] theorem Task.ref?_pump (x : Pump) : (Task.pump r e x).ref? = some r := rfl
@[simp] theorem Task.ref?_detach : (Task.detach r).ref? = some r := rfl
@[simp] theorem Task.ref?_startWriteLoop : (Task.startWriteLoop r).ref? = some r := rfl
@[simp] theorem Task.ref?_openWait : (Task.openWait r).ref? = some r := rfl
@[simp] theorem Task.ref?_acceptOpen : (Task.acceptOpen r metadata).ref? = some r := rfl
@[simp] theorem Task.ref?_handlerOpen : (Task.handlerOpen r metadata).ref? = some r := rfl
@[simp] theorem Task.ref?_fail (caller : Option Ref) : (Task.fail caller).ref? = caller := rfl
@[simp] theorem Task.ref?_open (service : Bytes) : (Task.open service metadata).ref? = none := rfl
@[simp] theorem Task.ref?_handleOpen (id : UInt32) (service : Bytes) :
    (Task.handleOpen id service metadata).ref? = none := rfl
@[simp] theorem Task.ref?_lookup (m : AppMessage) : (Task.lookup m).ref? = none := rfl
@[simp] theorem Task.ref?_clearBuffered : Task.clearBuffered.ref? = none := rfl
@[simp] theorem Task.ref?_closeConn : Task.closeConn.ref? = none := rfl
@[simp] theorem Task.ref?_releaseBuffer (n : ℕ) : (Task.releaseBuffer n).ref? = none := rfl
@[simp] theorem Task.ref?_sendReject (id : UInt32) (code : UInt16) (message : Bytes) :
    (Task.sendReject id code message).ref? = none := rfl
@[simp] theorem Task.ref?_sendError (code : UInt16) (message : Bytes) :
    (Task.sendError code message).ref? = none := rfl
@[simp] theorem Task.ref?_stopServe : Task.stopServe.ref? = none := rfl
@[simp] theorem Task.ref?_epClose : (Task.epClose e).ref? = none := rfl
@[simp] theorem Task.ref?_epCloseWrite : (Task.epCloseWrite e).ref? = none := rfl
@[simp] theorem Task.ref?_bridgeDone : (Task.bridgeDone e).ref? = none := rfl
@[simp] theorem Task.ref?_bridgeWait : (Task.bridgeWait e).ref? = none := rfl
@[simp] theorem Task.ref?_wgDone : Task.wgDone.ref? = none := rfl
@[simp] theorem Task.ref?_wgWait : Task.wgWait.ref? = none := rfl
@[simp] theorem Task.ref?_openFail (caller : Option Ref) (err : OpenError) :
    (Task.openFail caller err).ref? = none := rfl
@[simp] theorem Task.ref?_closeReturn : Task.closeReturn.ref? = none := rfl

end Ref

/-- What the caller of `Write` does with its result. -/
def Caller.wrote (r : Ref) (err : Option StreamError) : Caller → List Task
  | .app => []
  | .bridge e er => [.pump r e (.wrote err er)]

/-- What the caller of `Read` does with the bytes it returned. -/
def Caller.read (r : Ref) (p : Bytes) : Caller → List Task
  | .app => []
  | .bridge e _ => [.pump r e (.writeEp p)]

/-- What the caller of `Read` does with the error it returned: `io.Copy` takes `io.EOF` for the
end of the stream. -/
def Caller.readFailed (r : Ref) (err : StreamError) : Caller → List Task
  | .app => []
  | .bridge e _ => [.pump r e (.outDone (if err = .eof then none else some err.text))]

section Callers

variable {r : Ref} {k : Caller} {P : Task → Prop}

@[simp] theorem Caller.forall_wrote {err : Option StreamError} :
    (∀ t ∈ k.wrote r err, P t) ↔ ∀ e er, k = .bridge e er → P (.pump r e (.wrote err er)) := by
  cases k <;> simp [Caller.wrote]

@[simp] theorem Caller.forall_read {p : Bytes} :
    (∀ t ∈ k.read r p, P t) ↔ ∀ e er, k = .bridge e er → P (.pump r e (.writeEp p)) := by
  cases k <;> simp [Caller.read]

@[simp] theorem Caller.forall_readFailed {err : StreamError} :
    (∀ t ∈ k.readFailed r err, P t) ↔ ∀ e er, k = .bridge e er →
      P (.pump r e (.outDone (if err = .eof then none else some err.text))) := by
  cases k <;> simp [Caller.readFailed]

end Callers

end Mvcp.App
