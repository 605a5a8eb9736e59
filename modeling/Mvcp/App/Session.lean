import Mvcp.Library.Pool
import Mvcp.Library.Run
import Mvcp.App.Stream

/-!
# Sessions

`session.go` and `bridge.go`: a session with its stream table, its buffer ledger, the streams
and endpoints it has created, and the pool of its goroutines. Goroutine `0` is the `Serve`
loop. One step of a session is one atomic step of one goroutine, a frame that arrives, a call
that the application starts, or the loss of the connection; what a goroutine may choose (the
result of the handler, the arm of a `select`, what an endpoint returns, the order in which
`fail` ranges over the table) is part of the step's label.

The fields `out`, `lost`, `inbox`, `heard` and `log` record the frames written, the frames whose
write failed, the frames read, the messages handed to streams, and the results of calls. No step
reads them, but that a stream remembers how many frames had been read when it was created.

## Main definitions

* `Session`: the state of a session
* `Session.exec`: one atomic step of a goroutine
* `Session.step`: one step of the session
* `Session.new`: the initial state
* `Session.Reachable`: the states of every schedule against every peer
-/

namespace Mvcp.App

open Library (advance pending Reaches Always)

/-- Which side of the VM boundary a session runs on. -/
inductive Role
  | host
  | guest
  deriving DecidableEq

/-- The initiator bit of the ids that `role` allocates. -/
def Role.bit : Role → UInt32
  | .host => 0
  | .guest => 0x80000000

/-- The other side. -/
def Role.other : Role → Role
  | .host => .guest
  | .guest => .host

/-- The configuration of a session: its role, whether it has a handler and an observer, whether its
connection is an `io.Closer`, and the decoders of the other services. -/
structure Config where
  role : Role
  handler : Bool := true
  observer : Bool := false
  closer : Bool := true
  registry : Registry := fun _ => none

/-- The largest low part of a local stream id. -/
def maxLocalStreamID : ℕ := 0x7FFFFFFF

/-- The local side of a stream. -/
structure Endpoint where
  /-- It has a `CloseWrite` of its own. -/
  halfClose : Bool
  /-- `CloseWrite` was called, and `Close`. -/
  writeClosed : Bool := false
  closed : Bool := false
  /-- The bytes its `Write`, or its `ReadFrom`, took. -/
  written : Bytes := []
  /-- The copy loops of its `Bridge` that have not ended. -/
  running : ℕ := 0
  deriving DecidableEq

/-- A frame a session writes. -/
inductive Outgoing
  | app (m : AppMessage)
  | error (code : UInt16) (message : Bytes)
  deriving DecidableEq

/-- The frame on the wire, as `send` and `sendError` write it. -/
def Outgoing.frame : Outgoing → Frame
  | .app m => { typ := m.typ, flags := 0, msgID := 0, body := m.marshalBinary.toOption.getD [] }
  | .error code message =>
    { typ := typeERROR, flags := flagResponse, msgID := 0,
      body := writeUint16 code ++ writeString message }

/-- A frame written, and the stream it was written for. -/
structure Sent where
  ref : Option Ref
  msg : Outgoing
  deriving DecidableEq

/-- The state of a session. -/
structure Session where
  cfg : Config
  /-- The connection still takes what this side writes. -/
  connUp : Bool := true
  streams : List (UInt32 × Ref) := []
  nextID : ℕ := 0
  closed : Bool := false
  buffered : ℕ := 0
  wg : ℕ := 0
  heap : List Stream := []
  eps : List Endpoint := []
  threads : List (List Task) := [[]]
  /-- `Serve` returned. -/
  served : Bool := false
  out : List Sent := []
  lost : List Sent := []
  inbox : List Frame := []
  heard : List (Ref × AppMessage) := []
  log : List Event := []

/-- What a step of a goroutine leads to: the session after it, the steps the goroutine takes
next, and the goroutines it starts. -/
structure Next where
  sess : Session
  push : List Task := []
  spawn : List (List Task) := []

/-- The arms of the `select` in `Open`. -/
inductive Arm
  | ready
  | closeCh
  | ctxDone
  deriving DecidableEq

/-- What is left to chance, or to code outside the package, in a step. -/
inductive Choice
  | go
  | handler (res : HandlerResult)
  | select (arm : Arm)
  | epRead (data : Bytes) (err : Option EpError)
  | epWrite (n : ℕ) (err : Option EpError)
  /-- The endpoint has a `ReadFrom`, which goes on to read into a buffer of `n + 1` bytes. -/
  | epReadFrom (n : ℕ)
  | order (refs : List Ref)
  deriving DecidableEq

/-- The calls of the application. -/
inductive Call
  | «open» (service metadata : Bytes)
  | write (r : Ref) (p : Bytes)
  | read (r : Ref) (n : ℕ)
  | closeWrite (r : Ref)
  | reset (r : Ref) (code : UInt16) (message : Bytes)
  /-- `Bridge(st, ep)` with an endpoint of the application. -/
  | bridge (r : Ref) (halfClose : Bool)
  | close
  deriving DecidableEq

/-- One step of a session. -/
inductive Label
  /-- Goroutine `i` takes its next step. -/
  | run (i : ℕ) (c : Choice)
  /-- The application starts a call. -/
  | call (c : Call)
  /-- `Serve` reads a frame. -/
  | recv (f : Frame)
  /-- `Serve` fails to read a frame. -/
  | readError
  /-- From now on the connection takes nothing that this side writes. -/
  | connLost
  deriving DecidableEq

/-- The buffer of `io.Copy`. -/
def copyBuffer : ℕ := 32 * 1024

/-- `releaseBuffer`: the ledger after `n` bytes were released. -/
def releaseBuffer (buffered n : ℕ) : ℕ := if buffered ≤ n then 0 else buffered - n

namespace Session

/-- `NewSession`, with `Serve` running. -/
def new (cfg : Config) : Session := { cfg }

/-- `s.streams[id]`. -/
def stream (s : Session) (id : UInt32) : Option Ref := s.streams.lookup id

/-- `sendApp`: the frame is written, or lost when the message does not marshal or the
connection failed. -/
def sendApp (s : Session) (ref : Option Ref) (m : AppMessage) (ok err : List Task) : Next :=
  if m.marshalBinary.isOk && s.connUp then
    { sess := { s with out := s.out ++ [⟨ref, .app m⟩] }, push := ok }
  else { sess := { s with lost := s.lost ++ [⟨ref, .app m⟩] }, push := err }

/-- `sendError`: the result of the write is dropped. -/
def sendError (s : Session) (code : UInt16) (message : Bytes) : Next :=
  if s.connUp then { sess := { s with out := s.out ++ [⟨none, .error code message⟩] } }
  else { sess := { s with lost := s.lost ++ [⟨none, .error code message⟩] } }

/-- The stream `r` leaves the table, unless its id names another stream there. -/
def delete (s : Session) (r : Ref) (id : UInt32) : Session :=
  if s.stream id = some r then { s with streams := s.streams.filter fun p => p.1 ≠ id } else s

/-- A critical section of stream `r`. -/
def enter (s : Session) (r : Ref) (x : Section) : Option Next := do
  let st ← s.heap[r]?
  let o ← st.enter r s.cfg.observer s.buffered x
  return { sess := { s with heap := s.heap.set r o.st, buffered := s.buffered + o.reserve,
                            log := s.log ++ o.log },
           push := o.push }

/-- `handleOpen`. -/
def handleOpen (s : Session) (id : UInt32) (service metadata : Bytes) : Next :=
  if id = 0 ∨ id &&& 0x80000000 ≠ s.cfg.role.other.bit ∨ validAppService service = false ∨
      appMaxMetaBytes < metadata.length then
    { sess := s, push := [.sendReject id errorCodeAppProtocolError (text "invalid APP_OPEN")] }
  else if s.closed then { sess := s }
  else if (s.stream id).isSome then
    { sess := s, push := [.sendReject id errorCodeAppProtocolError (text "duplicate stream_id")] }
  else if appMaxStreams ≤ s.streams.length then
    { sess := s, push := [.sendReject id errorCodeAppQuotaExceeded (text "stream quota exceeded")] }
  else
    { sess := { s with
        heap := s.heap ++ [{ id, service, inbound := true, accepting := true,
                             born := s.inbox.length }],
        streams := (id, s.heap.length) :: s.streams },
      spawn := [[.acceptOpen s.heap.length metadata]] }

/-- `Open`, up to the write of the `APP_OPEN`. -/
def «open» (s : Session) (service metadata : Bytes) : Next :=
  if validAppService service = false then
    { sess := s, push := [.openFail none .invalidService] }
  else if appMaxMetaBytes < metadata.length then
    { sess := s, push := [.openFail none .metaTooLarge] }
  else if s.closed then { sess := s, push := [.openFail none .sessionClosed] }
  else if appMaxStreams ≤ s.streams.length then
    { sess := s, push := [.openFail none .quotaExceeded] }
  else if maxLocalStreamID ≤ s.nextID then
    { sess := s, push := [.openFail none .idExhausted] }
  else
    let id := s.cfg.role.bit ||| UInt32.ofNat (s.nextID + 1)
    { sess := { s with
        nextID := s.nextID + 1,
        heap := s.heap ++ [{ id, service, inbound := false, opening := true,
                             rcvWindow := appInitialWindow, born := s.inbox.length }],
        streams := (id, s.heap.length) :: s.streams },
      push := [.emit s.heap.length (.open metadata)] }

/-- The `select` of `Open`. -/
def openWait (s : Session) (r : Ref) : Arm → Option Next
  | .ready => do
    let st ← s.heap[r]?
    if 0 < st.readyClosed then some { sess := s, push := [.sect r .openResult] } else none
  | .closeCh =>
    if s.closed then
      some { sess := s, push := [.openFail (some r) .sessionClosed] }
    else none
  | .ctxDone =>
    some { sess := s, push := [.emit r (.reset .openTimeout),
      .openFail (some r) .contextDone] }

/-- The handler of a message on the stream `r` that its id names. -/
def dispatch (r : Ref) : AppMessage → List Task
  | .appOpen .. => []
  | .appAccept _ metadata grant => [.sect r (.handleAccept metadata grant.toNat)]
  | .appReject _ code message => [.sect r (.handleReject code message)]
  | .appData _ data => [.sect r (.deliver data)]
  | .appCredit _ bytes => [.sect r (.addCredit bytes.toNat)]
  | .appClose _ => [.sect r .remoteClose]
  | .appReset _ code message => [.sect r (.setReset (.peer code message))]

/-- A message that is no `APP_OPEN` goes to the stream its id names, if there is one. -/
def lookup (s : Session) (m : AppMessage) : Next :=
  match s.stream m.streamID with
  | some r => { sess := { s with heard := s.heard ++ [(r, m)] }, push := dispatch r m }
  | none => { sess := s }

/-- `acceptOpen`, up to the call of the handler. -/
def acceptOpen (s : Session) (r : Ref) (metadata : Bytes) : Option Next := do
  let st ← s.heap[r]?
  if s.cfg.handler then
    return { sess := { s with log := s.log ++ [.handlerCalled r st.service metadata] },
             push := [.handlerOpen r metadata] }
  else
    return { sess := s,
             push := [.detach r,
               .emit r (.reject errorCodeAppLocalError (text "no handler configured"))] }

/-- `acceptOpen`, from the return of the handler to the accept section. -/
def handlerReturn (s : Session) (r : Ref) (res : HandlerResult) : Next :=
  let s' := { s with log := s.log ++ [.handlerReturned r res] }
  match res with
  | .refuse code message =>
    { sess := s',
      push := [.detach r, .emit r (.reject (code.getD errorCodeAppLocalError) message)] }
  | .accept halfClose metadata =>
    { sess := { s' with eps := s.eps ++ [{ halfClose }] },
      push :=
        if appMaxMetaBytes < metadata.length then
          [.epClose s.eps.length, .detach r,
            .emit r (.reject errorCodeAppProtocolError (text "accept meta too large"))]
        else [.sect r (.acceptWindow s.eps.length metadata)] }

/-- `fail`: the section under `Session.mu`, and the steps after it, in the order `refs` in which
the source ranges over the table. -/
def fail (s : Session) (refs : List Ref) : Option Next :=
  if s.closed then some { sess := s }
  else if refs.isPerm (s.streams.map Prod.snd) then
    some { sess := { s with closed := true, streams := [] },
           push := .clearBuffered :: refs.map (fun r => .sect r (.setReset .peerGone)) ++
             [.closeConn] }
  else none

/-- `io.Copy(st, ep)` goes on after a round, or ends with the endpoint's error. `ep.WriteTo`, which
`io.Copy` calls if there is one, does the same: what it writes next is what the endpoint gives. -/
def copyIn (r : Ref) (e : EpRef) : Option EpError → Task
  | none => .pump r e .readEp
  | some err => .pump r e (.inDone err.resets)

/-- `io.Copy(ep, st)` goes on with a `Read` of the stream, or ends with the endpoint's error.
`ep.ReadFrom`, which `io.Copy` calls if there is one, chooses its own buffers; a `Read` into no
buffer does nothing and is left out. -/
def copyOut (r : Ref) (e : EpRef) : Choice → Task
  | .epReadFrom n => .sect r (.read (n + 1) (.bridge e none))
  | .epWrite _ (some err) => .pump r e (.outDone err.resets)
  | _ => .sect r (.read copyBuffer (.bridge e none))

/-- The steps of `Bridge`. The endpoint may give chunks of any size, and may take bytes after
`CloseWrite` and `Close`. -/
def pump (s : Session) (r : Ref) (e : EpRef) (x : Pump) (c : Choice) : Option Next := do
  let ep ← s.eps[e]?
  match x with
  | .start =>
    -- `wg.Add(2)`, the two copy loops, and `wg.Wait` before `ep.Close`
    return { sess := { s with eps := s.eps.set e { ep with running := 2 } },
             spawn := [[.pump r e .readEp], [copyOut r e c], [.bridgeWait e, .epClose e]] }
  | .readEp =>
    match c with
    | .epRead data err =>
      -- `io.Copy` writes what it read before it looks at the error of the read
      return { sess := s,
               push := [if data = [] then copyIn r e err
                 else .sect r (.write data (.bridge e err))] }
    | _ => none
  | .wrote (some err) _ => return { sess := s, push := [.pump r e (.inDone (some err.text))] }
  | .wrote none er => return { sess := s, push := [copyIn r e er] }
  | .inDone err =>
    -- an error other than `io.EOF` resets the stream before it is closed
    return { sess := s,
             push := (err.map fun m => Task.emit r (.reset (.bridge m))).toList ++
               [.sect r .closeWrite, .epCloseWrite e, .bridgeDone e] }
  | .writeEp p =>
    match c with
    | .epWrite n err =>
      -- a `Write` that takes less than the chunk returns an error
      if (err = none → n = p.length) ∧ n ≤ p.length then
        return { sess := { s with
                   eps := s.eps.set e { ep with written := ep.written ++ p.take n } },
                 push := [copyOut r e c] }
      else none
    | .epReadFrom _ =>
      return { sess := { s with eps := s.eps.set e { ep with written := ep.written ++ p } },
               push := [copyOut r e c] }
    | _ => none
  | .outDone err =>
    return { sess := s,
             push := (err.map fun m => Task.emit r (.reset (.bridge m))).toList ++
               [.epCloseWrite e, .bridgeDone e] }

/-- An update of endpoint `e`. -/
def onEndpoint (s : Session) (e : EpRef) (f : Endpoint → Endpoint) : Option Next := do
  let ep ← s.eps[e]?
  return { sess := { s with eps := s.eps.set e (f ep) } }

/-- `closeWrite(ep)`: half-close, or a full close when the endpoint has none. -/
def epCloseWrite (ep : Endpoint) : Endpoint :=
  if ep.halfClose then { ep with writeClosed := true } else { ep with closed := true }

/-- **One atomic step of a goroutine**; `none` while it is blocked. -/
def exec (s : Session) (t : Task) (c : Choice) : Option Next :=
  match t with
  | .sect r x => s.enter r x
  | .emit r x => do
    let st ← s.heap[r]?
    return s.sendApp (some r) (x.message st) (x.sent r) (x.failed r)
  | .pump r e x => s.pump r e x c
  | .detach r => do
    let st ← s.heap[r]?
    return { sess := s.delete r st.id, push := [.sect r .detachBytes] }
  | .startWriteLoop r =>
    -- `startWriteLoop` under `Session.mu`: no write loop starts in a closed session
    if s.closed then some { sess := s }
    else some { sess := { s with wg := s.wg + 1 }, spawn := [[.sect r .writeLoop, .wgDone]] }
  | .open service metadata => some (s.open service metadata)
  | .openWait r =>
    match c with
    | .select arm => s.openWait r arm
    | _ => none
  | .handleOpen id service metadata => some (s.handleOpen id service metadata)
  | .lookup m => some (s.lookup m)
  | .acceptOpen r metadata => s.acceptOpen r metadata
  | .handlerOpen r _ =>
    match c with
    | .handler res => some (s.handlerReturn r res)
    | _ => none
  | .fail _ =>
    match c with
    | .order refs => s.fail refs
    -- in the order of the table, unless another is chosen
    | _ => s.fail (s.streams.map Prod.snd)
  | .clearBuffered => some { sess := { s with buffered := 0 } }
  | .closeConn => some { sess := if s.cfg.closer then { s with connUp := false } else s }
  | .releaseBuffer n => some { sess := { s with buffered := releaseBuffer s.buffered n } }
  | .sendReject id code message => some (s.sendApp none (.appReject id code message) [] [])
  | .sendError code message => some (s.sendError code message)
  | .stopServe => some { sess := { s with served := true } }
  | .epClose e => s.onEndpoint e fun ep => { ep with closed := true }
  | .epCloseWrite e => s.onEndpoint e epCloseWrite
  | .bridgeDone e => s.onEndpoint e fun ep => { ep with running := ep.running - 1 }
  | .bridgeWait e => do
    let ep ← s.eps[e]?
    -- `wg.Wait` of `Bridge`
    if ep.running = 0 then some { sess := s } else none
  | .wgDone => some { sess := { s with wg := s.wg - 1 } }
  | .wgWait => if s.wg = 0 then some { sess := s } else none
  | .openFail r err => some { sess := { s with log := s.log ++ [.openFailed r err] } }
  | .closeReturn => some { sess := { s with log := s.log ++ [.closeReturned] } }

/-- `handleFrame`: the steps `Serve` takes on a frame. -/
def handleFrame (registry : Registry) (f : Frame) : List Task :=
  if f.flags ≠ 0 ∨ f.msgID ≠ 0 then
    [.sendError errorCodeBadPayload (text "app: flags and msg_id must be zero"), .fail none,
      .stopServe]
  else
    match decodeMessage registry f.typ f.body with
    | .error err =>
      [.sendError errorCodeBadPayload (text "app: decode: " ++ text err), .fail none, .stopServe]
    | .ok .other =>
      [.sendError errorCodeBadPayload (text "app: unexpected message type"), .fail none, .stopServe]
    | .ok (.app (.appOpen id service metadata)) => [.handleOpen id service metadata]
    | .ok (.app m) => [.lookup m]

/-- The application holds the stream `r`. -/
def shares (s : Session) (r : Ref) : Bool := (s.heap[r]?.map Stream.shared).getD false

/-- The steps of a call on the stream `r`. -/
def callOn (s : Session) (r : Ref) (ts : List Task) : Option Session :=
  if s.shares r then some { s with threads := s.threads ++ [ts] } else none

/-- The application starts a call. -/
def call (s : Session) : Call → Option Session
  | .open service metadata => some { s with threads := s.threads ++ [[.open service metadata]] }
  | .write r p => s.callOn r [.sect r (.write p .app)]
  | .read r n => s.callOn r [.sect r (.read n .app)]
  | .closeWrite r => s.callOn r [.sect r .closeWrite]
  | .reset r code message => s.callOn r [.emit r (.reset (.app code message))]
  | .bridge r halfClose =>
    (s.callOn r [.pump r s.eps.length .start]).map fun s' =>
      { s' with eps := s.eps ++ [{ halfClose }] }
  | .close => some { s with threads := s.threads ++ [[.fail none, .wgWait, .closeReturn]] }

/-- `Serve` waits for the next frame. -/
def serving (s : Session) : Bool := s.threads[0]? = some [] && !s.served

/-- The size of a frame is within what `ReadFrame` accepts. -/
def readable (f : Frame) : Bool := frameHeaderSize + f.body.length ≤ maxFrameSize

/-- **One step of a session.** -/
def step (s : Session) : Label → Option Session
  | .run i c =>
    match s.threads[i]? with
    | some (t :: rest) =>
      (s.exec t c).map fun n =>
        { n.sess with threads := advance s.threads i (n.push ++ rest) n.spawn }
    | _ => none
  | .call c => s.call c
  | .recv f =>
    if s.serving && readable f then
      some { s with inbox := s.inbox ++ [f],
                    threads := s.threads.set 0 (handleFrame s.cfg.registry f) }
    else none
  | .readError =>
    if s.serving then some { s with threads := s.threads.set 0 [.fail none, .stopServe] } else none
  | .connLost => some { s with connUp := false }

/-- The states of a session under every schedule, against a peer that sends any frames. -/
def Reachable (cfg : Config) (s : Session) : Prop := Reaches step Always (new cfg) s

end Session

end Mvcp.App
