import Mvcp.App.Task

/-!
# Streams and their critical sections

`stream.go`, and the parts of `session.go` that run under a stream's lock. Each critical
section is a function of the stream: it gives the stream after the section, the steps the
calling goroutine takes next, and what the section decided. The counters are natural numbers
with the wrapping arithmetic of the source's `uint32` and `uint64` where a sum or a difference
could leave the range.

## Main definitions

* `Stream`: the stream record
* `Outcome`: what a critical section does
* `Stream.write`, `Stream.read`, `Stream.closeWrite`, `Stream.writeLoop`, `Stream.deliver`, …:
  the critical sections
* `Stream.enter`: the critical section a `Section` names
* `Emission.message`, `Emission.sent`, `Emission.failed`: a frame write, and what follows it
-/

namespace Mvcp.App

open Library (Cond)

/-! ## Machine arithmetic -/

/-- `uint32` addition. -/
def add32 (a b : ℕ) : ℕ := (a + b) % 2 ^ 32

/-- `uint32` subtraction. -/
def sub32 (a b : ℕ) : ℕ := (a + (2 ^ 32 - b % 2 ^ 32)) % 2 ^ 32

/-- `uint64` subtraction. -/
def sub64 (a b : ℕ) : ℕ := (a + (2 ^ 64 - b % 2 ^ 64)) % 2 ^ 64

theorem add32_of_lt {a b : ℕ} (h : a + b < 2 ^ 32) : add32 a b = a + b := Nat.mod_eq_of_lt h

theorem sub32_of_le {a b : ℕ} (h : b ≤ a) (ha : a < 2 ^ 32) : sub32 a b = a - b := by
  simp only [sub32]; omega

theorem sub64_of_le {a b : ℕ} (h : b ≤ a) (ha : a < 2 ^ 64) : sub64 a b = a - b := by
  simp only [sub64]; omega

/-! ## The stream record -/

/-- One stream of a session. -/
structure Stream where
  id : UInt32
  service : Bytes
  inbound : Bool
  opening : Bool := false
  accepting : Bool := false
  localClosed : Bool := false
  remoteClosed : Bool := false
  reset : Bool := false
  resetErr : Option Cause := none
  /-- How often the channel `ready` was closed. -/
  readyClosed : ℕ := 0
  openErr : Option RejectError := none
  opened : Bool := false
  finished : Bool := false
  sndCredit : ℕ := 0
  rcvWindow : ℕ := 0
  sendQ : List Bytes := []
  sendBytes : ℕ := 0
  inQ : List Bytes := []
  inBytes : ℕ := 0
  closeAfterFlush : Bool := false
  bytesIn : ℕ := 0
  bytesOut : ℕ := 0
  acceptMeta : Bytes := []
  ep : Option EpRef := none
  cond : Cond := {}
  /-- The application holds the stream: `Open` returned it, or a callback passed it on. -/
  shared : Bool := false
  /-- How many frames the session had received when the stream was created. -/
  born : ℕ := 0
  deriving DecidableEq

/-- What a critical section does: the stream it leaves, the steps that follow, what it decided,
and the bytes it reserved in the session's ledger. -/
structure Outcome where
  st : Stream
  push : List Task := []
  log : List Event := []
  reserve : ℕ := 0

namespace Stream

/-! ## The application's calls -/

/-- The error a call on a reset stream returns. -/
def resetError (st : Stream) : StreamError := .reset st.resetErr

/-- `Write` queues `p`. -/
def enqueue (st : Stream) (p : Bytes) : Stream :=
  { st with sendQ := st.sendQ ++ [p], sendBytes := st.sendBytes + p.length,
            cond := st.cond.broadcast }

/-- `Write(p)`. -/
def write (r : Ref) (buffered : ℕ) (st : Stream) (p : Bytes) (k : Caller) : Outcome :=
  if p = [] then { st, push := k.wrote r none }
  else if st.reset then
    { st, push := k.wrote r (some st.resetError), log := [.writeFailed r st.resetError] }
  else if st.localClosed || st.closeAfterFlush then
    { st, push := k.wrote r (some .streamClosed), log := [.writeFailed r .streamClosed] }
  else if appMaxSendQueue < st.sendBytes + p.length then
    { st, push := .emit r (.reset .sendOverflow) :: k.wrote r (some (.reset (some .sendOverflow))),
          log := [.writeFailed r (.reset (some .sendOverflow))] }
  else if appMaxBuffered < buffered + p.length then
    { st, push := .emit r (.reset .writeQuota) :: k.wrote r (some (.reset (some .writeQuota))),
          log := [.writeFailed r (.reset (some .writeQuota))] }
  else
    { st := st.enqueue p, push := k.wrote r none, log := [.wrote r p], reserve := p.length }

/-- `Read` takes the first `n` bytes of the first chunk `c` of `inQ`; `q` are the others. -/
def consume (st : Stream) (n : ℕ) (c : Bytes) (q : List Bytes) : Stream :=
  let m := min n c.length
  { st with inQ := if c.drop m = [] then q else c.drop m :: q, inBytes := sub64 st.inBytes m,
            bytesIn := st.bytesIn + m, rcvWindow := add32 st.rcvWindow m }

/-- `Read(p)` with `len(p) = n`. -/
def read (r : Ref) (st : Stream) (n : ℕ) (k : Caller) : Outcome :=
  if n = 0 then { st }
  else if st.reset then
    { st, push := k.readFailed r st.resetError, log := [.readFailed r st.resetError] }
  else
    match st.inQ with
    | c :: q =>
      { st := st.consume n c q,
        push := [.releaseBuffer (min n c.length), .emit r (.credit (min n c.length))] ++
          k.read r (c.take n),
        log := [.read r (c.take n)] }
    | [] =>
      if st.remoteClosed then
        { st, push := .sect r .maybeFinish :: k.readFailed r .eof, log := [.readFailed r .eof] }
      else
        { st := { st with cond := st.cond.enqueue },
          push := [.sect r (.readWait n k st.cond.wait)] }

/-- `CloseWrite`. -/
def closeWrite (r : Ref) (st : Stream) : Outcome :=
  if st.reset then { st }
  else if st.localClosed || st.closeAfterFlush then { st }
  else if st.sendQ = [] then
    { st := { st with closeAfterFlush := true, localClosed := true }, push := [.emit r .close] }
  else { st := { st with closeAfterFlush := true, cond := st.cond.broadcast } }

/-! ## The write loop -/

/-- The bytes the write loop may take from the chunk `c`: as credit and the frame limit allow.
A chunk has at most `AppMaxSendQueue` bytes, so its length fits `uint32`. -/
def quantum (st : Stream) (c : Bytes) : ℕ := min (min c.length st.sndCredit) appMaxDataBytes

/-- The write loop takes a part of the first chunk `c` of `sendQ`; `q` are the others. -/
def dequeue (st : Stream) (c : Bytes) (q : List Bytes) : Stream :=
  let n := st.quantum c
  { st with sndCredit := sub32 st.sndCredit n, sendBytes := sub64 st.sendBytes n,
            bytesOut := st.bytesOut + n,
            sendQ := if c.length = n then q else c.drop n :: q }

/-- `cond.Wait` in the write loop. -/
def park (r : Ref) (st : Stream) : Outcome :=
  { st := { st with cond := st.cond.enqueue }, push := [.sect r (.writeLoopWait st.cond.wait)] }

/-- One round of the write loop. -/
def writeLoop (r : Ref) (st : Stream) : Outcome :=
  if st.reset then { st }
  else
    match st.sendQ with
    | c :: q =>
      if 0 < st.sndCredit then
        { st := st.dequeue c q,
          push := [.releaseBuffer (st.quantum c), .emit r (.data (c.take (st.quantum c)))] }
      else st.park r
    | [] =>
      if st.closeAfterFlush then
        { st := { st with localClosed := true }, push := [.emit r .close] }
      else st.park r

/-! ## The frames of the peer -/

/-- `resetRemote`, from the goroutine that found the violation. -/
def refuse (r : Ref) (st : Stream) (cause : Cause) : Outcome :=
  { st, push := [.emit r (.reset cause)] }

/-- `deliver` accepts the data. -/
def accept (st : Stream) (data : Bytes) : Stream :=
  { st with rcvWindow := sub32 st.rcvWindow data.length, inQ := st.inQ ++ [data],
            inBytes := st.inBytes + data.length, cond := st.cond.broadcast }

/-- `deliver`. -/
def deliver (r : Ref) (buffered : ℕ) (st : Stream) (data : Bytes) : Outcome :=
  if data = [] then { st }
  else if appMaxDataBytes < data.length then st.refuse r .dataTooLarge
  else if st.accepting || st.opening then st.refuse r .dataBeforeAccept
  else if st.remoteClosed || st.reset then st.refuse r .dataAfterClose
  else if st.rcvWindow < data.length then st.refuse r .creditExceeded
  else if appMaxBuffered < buffered + data.length then st.refuse r .deliverQuota
  else { st := st.accept data, reserve := data.length }

/-- `addCredit`: the sum is compared after it wrapped. -/
def addCredit (r : Ref) (st : Stream) (n : ℕ) : Outcome :=
  if n = 0 then { st }
  else if st.reset then { st }
  else if appMaxCredit < add32 st.sndCredit n then st.refuse r .creditCap
  else { st := { st with sndCredit := add32 st.sndCredit n, cond := st.cond.broadcast } }

/-- `remoteClose`. -/
def remoteClose (r : Ref) (st : Stream) : Outcome :=
  if st.reset || st.remoteClosed then { st }
  else
    { st := { st with remoteClosed := true, cond := st.cond.broadcast },
      push := [.sect r .maybeFinish] }

/-- `handleAccept`, on the stream found. -/
def handleAccept (r : Ref) (st : Stream) (metadata : Bytes) (grant : ℕ) : Outcome :=
  if appMaxMetaBytes < metadata.length then st.refuse r .acceptMetaTooLarge
  else if grant = 0 ∨ appMaxCredit < grant then st.refuse r .invalidGrant
  else if st.opening then
    { st := { st with opening := false, sndCredit := grant, acceptMeta := metadata },
      push := [.sect r .closeReady] }
  else { st }

/-- `handleReject`, on the stream found. -/
def handleReject (r : Ref) (st : Stream) (code : UInt16) (message : Bytes) : Outcome :=
  if st.opening then
    { st := { st with opening := false, openErr := some ⟨code, message⟩ },
      push := [.detach r, .sect r .closeReady] }
  else { st }

/-- `close(st.ready)`. -/
def closeReady (st : Stream) : Outcome := { st := { st with readyClosed := st.readyClosed + 1 } }

/-! ## Teardown -/

/-- `setReset`: the section under the lock. The broadcast comes after the unlock. -/
def setReset (r : Ref) (st : Stream) (cause : Cause) : Outcome :=
  if st.reset then { st, push := [.sect r .broadcast] }
  else
    { st := { st with reset := true, resetErr := some cause, opening := false,
                      readyClosed := if st.opening then st.readyClosed + 1 else st.readyClosed },
      push := [.sect r .broadcast] }

/-- The broadcast of `setReset`; every caller of `setReset` calls `finish` next. -/
def broadcast (r : Ref) (st : Stream) : Outcome :=
  { st := { st with cond := st.cond.broadcast }, push := [.sect r .finish] }

/-- Both directions have ended and no byte is queued. -/
def done (st : Stream) : Bool :=
  st.localClosed && st.remoteClosed && decide (st.sendQ = []) && decide (st.inQ = [])

/-- `maybeFinish`. -/
def maybeFinish (r : Ref) (st : Stream) : Outcome :=
  { st, push := if st.done then [.sect r .finish] else [] }

/-- `finish`: the section under `lifeMu`. -/
def finish (r : Ref) (observer : Bool) (st : Stream) : Outcome :=
  if st.finished then { st }
  else
    { st := { st with finished := true }, push := [.detach r, .sect r .closeEndpoint],
      log := if st.opened && observer then [.streamClosed r] else [] }

/-- `detach`: the section under `Stream.mu`. -/
def detachBytes (st : Stream) : Outcome :=
  { st := { st with sendBytes := 0, inBytes := 0 },
    push := if 0 < st.sendBytes + st.inBytes then [.releaseBuffer (st.sendBytes + st.inBytes)]
      else [] }

/-- `closeEndpoint`. -/
def closeEndpoint (st : Stream) : Outcome :=
  { st := { st with ep := none }, push := (st.ep.map Task.epClose).toList }

/-! ## Opening -/

/-- The accept section of `acceptOpen`. -/
def acceptWindow (r : Ref) (st : Stream) (e : EpRef) (metadata : Bytes) : Outcome :=
  { st := { st with accepting := false, sndCredit := appInitialWindow,
                    rcvWindow := appInitialWindow, cond := st.cond.broadcast },
    push := [.sect r .markOpened, .emit r (.accept e metadata)] }

/-- `attachEndpoint`. -/
def attachEndpoint (st : Stream) (e : EpRef) : Outcome := { st := { st with ep := some e } }

/-- `markOpened`: an observer receives the stream. -/
def markOpened (r : Ref) (observer : Bool) (st : Stream) : Outcome :=
  if st.finished || st.opened then { st }
  else
    { st := { st with opened := true, shared := st.shared || observer },
      log := if observer then [.streamOpened r] else [] }

/-- `Open` examines the result of the handshake. -/
def openResult (r : Ref) (st : Stream) : Outcome :=
  match st.openErr, st.resetErr with
  | some e, _ => { st, push := [.openFail (some r) (.reject e)] }
  | none, some c => { st, push := [.openFail (some r) (.reset c)] }
  | none, none => { st, push := [.startWriteLoop r, .sect r .markOpened, .sect r .openReturn] }

/-- `Open` returns the stream. -/
def openReturn (r : Ref) (st : Stream) : Outcome :=
  { st := { st with shared := true }, log := [.openReturned r] }

/-- The critical section a `Section` names; `none` while the goroutine is parked. -/
def enter (r : Ref) (observer : Bool) (buffered : ℕ) (st : Stream) : Section → Option Outcome
  | .write p k => some (st.write r buffered p k)
  | .read n k => some (st.read r n k)
  | .readWait n k ticket =>
    if st.cond.woken ticket then some { st, push := [.sect r (.read n k)] } else none
  | .closeWrite => some (st.closeWrite r)
  | .writeLoop => some (st.writeLoop r)
  | .writeLoopWait ticket =>
    if st.cond.woken ticket then some { st, push := [.sect r .writeLoop] } else none
  | .deliver data => some (st.deliver r buffered data)
  | .addCredit n => some (st.addCredit r n)
  | .remoteClose => some (st.remoteClose r)
  | .handleAccept metadata grant => some (st.handleAccept r metadata grant)
  | .handleReject code message => some (st.handleReject r code message)
  | .closeReady => some st.closeReady
  | .setReset cause => some (st.setReset r cause)
  | .broadcast => some (st.broadcast r)
  | .maybeFinish => some (st.maybeFinish r)
  | .finish => some (st.finish r observer)
  | .detachBytes => some st.detachBytes
  | .closeEndpoint => some st.closeEndpoint
  | .acceptWindow e metadata => some (st.acceptWindow r e metadata)
  | .attachEndpoint e => some (st.attachEndpoint e)
  | .markOpened => some (st.markOpened r observer)
  | .openResult => some (st.openResult r)
  | .openReturn => some (st.openReturn r)

end Stream

/-! ## Frame writes -/

namespace Emission

/-- The message a frame write carries. -/
def message (st : Stream) : Emission → AppMessage
  | .open metadata => .appOpen st.id st.service metadata
  | .accept _ metadata => .appAccept st.id metadata (UInt32.ofNat appInitialWindow)
  | .reject code message => .appReject st.id code message
  | .data p => .appData st.id p
  | .credit n => .appCredit st.id (UInt32.ofNat n)
  | .close => .appClose st.id
  | .reset cause => .appReset st.id cause.toError.code cause.toError.message

/-- What the goroutine does after the frame was written. -/
def sent (r : Ref) : Emission → List Task
  | .open _ => [.openWait r]
  | .accept e _ => [.sect r (.attachEndpoint e), .startWriteLoop r, .pump r e .start]
  | .reject .. => []
  | .data _ => [.sect r .writeLoop]
  | .credit _ => []
  | .close => [.sect r .maybeFinish]
  | .reset cause => [.sect r (.setReset cause)]

/-- What the goroutine does after the write failed. -/
def failed (r : Ref) : Emission → List Task
  | .open _ => [.detach r, .openFail (some r) .sendFailed]
  | .accept e _ => [.epClose e, .fail (some r)]
  | .reject .. => []
  | .data _ => [.fail (some r)]
  | .credit _ => [.fail (some r)]
  | .close => [.fail (some r)]
  | .reset cause => [.fail (some r), .sect r (.setReset cause)]

end Emission

end Mvcp.App
