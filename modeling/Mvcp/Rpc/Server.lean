import Mvcp.Rpc.Ids

/-!
# The RPC server, and a client and a server on one connection

`rpc/server.go` and `rpc/types.go`: `Serve` reads one frame after another and starts a goroutine
for each request whose type has a handler; a handler answers with any sequence of frames, each
written atomically. The requests the client has written are the input of the server, and the
frames the server has written are the input of the client's read loop.

A frame is one unit on the wire. The transport writes its length as a `uint32`, so the bodies here
are those whose frame has a length that fits; a frame over the maximum size is a read error.

## Main definitions

* `Request`, `Answer`: what a handler gets, and what it may write
* `Server`, `Server.step`: the server
* `Net`, `Net.step`: a client and a server, joined by a connection

The fields `origin` and `written` of a job and the positions on the wire record what happened and
are read by no step.
-/

namespace Mvcp.Rpc

open Library

/-! ## Requests and answers -/

structure Request where
  typ : UInt8
  msgID : UInt32
  flags : UInt8
  body : Bytes
  deriving DecidableEq

/-- `EncodeStarted`. -/
def encodeStarted (stream : Bool) : Bytes := [if stream then 1 else 0]

namespace Request

def respond (r : Request) (typ : UInt8) (body : Bytes) : Frame := ⟨typ, flagResponse, r.msgID, body⟩

def stream (r : Request) (typ : UInt8) (body : Bytes) : Frame :=
  ⟨typ, flagStreamMore, r.msgID, body⟩

def streamEnd (r : Request) (typ : UInt8) (body : Bytes) : Frame :=
  ⟨typ, flagResponse, r.msgID, body⟩

def error (r : Request) (code : UInt16) (message : Bytes) : Frame :=
  ⟨typeERROR, flagResponse, r.msgID, writeUint16 code ++ writeString message⟩

def started (r : Request) (stream : Bool) : Frame := ⟨typeSTARTED, 0, r.msgID, encodeStarted stream⟩

end Request

/-- What a handler writes. -/
inductive Answer
  | started (stream : Bool)
  | stream (typ : UInt8) (body : Bytes)
  | respond (typ : UInt8) (body : Bytes)
  | streamEnd (typ : UInt8) (body : Bytes)
  | error (code : UInt16) (message : Bytes)
  deriving DecidableEq

def Answer.frame (r : Request) : Answer → Frame
  | .started isStream => r.started isStream
  | .stream typ body => r.stream typ body
  | .respond typ body => r.respond typ body
  | .streamEnd typ body => r.streamEnd typ body
  | .error code message => r.error code message

theorem Answer.frame_msgID (r : Request) (a : Answer) : (a.frame r).msgID = r.msgID := by
  cases a <;> rfl

/-! ## The server -/

/-- A goroutine that runs a handler. -/
structure Job where
  /-- The position of its request among the frames the client wrote. -/
  origin : ℕ
  req : Request
  written : List Frame := []
  deriving DecidableEq

/-- Where `Serve` stands. -/
inductive Serving
  | reading
  /-- In `sendError` for the request at the position `k`. -/
  | replying (k : ℕ) (msgID : UInt32)
  | ended
  deriving DecidableEq

structure Server where
  /-- The types with a handler. -/
  handlers : List UInt8 := []
  serving : Serving := .reading
  jobs : List Job := []
  /-- How many frames `Serve` has read. -/
  read : ℕ := 0

/-- The request that `sendError` answers. -/
def unknownRequest (msgID : UInt32) : Request := ⟨0, msgID, 0, []⟩

/-- The frame of `sendError` for a type without a handler. -/
def unknownType (msgID : UInt32) : Frame :=
  (unknownRequest msgID).error errorCodeUnknownType (text "unknown message type")

namespace Server

/-- `Serve` has read the frame `f`. -/
def handleFrame (s : Server) (f : Frame) : Server :=
  let s' := { s with read := s.read + 1 }
  if isResponse f then s'
  else if s.handlers.contains f.typ then
    { s' with jobs := s.jobs ++ [⟨s.read, ⟨f.typ, f.msgID, f.flags, f.body⟩, []⟩] }
  else { s' with serving := .replying s.read f.msgID }

end Server

/-- The length of the frame fits its prefix. -/
def fits (body : Bytes) : Bool := frameHeaderSize + body.length < 2 ^ 32

/-! ## The connection -/

structure Net where
  client : Client := {}
  server : Server := {}
  /-- The frames written to the client, each with the position of the request it answers. -/
  toClient : List (ℕ × Frame) := []
  /-- How many of them the client has read. -/
  taken : ℕ := 0

inductive NetLabel
  /-- A step of the client that reads no frame. -/
  | client (l : Label)
  /-- The client reads the next frame. -/
  | deliver
  /-- `Handle`. -/
  | handle (typ : UInt8)
  /-- `Serve` reads the next frame. -/
  | serve
  /-- `Serve` writes its error. -/
  | reply
  /-- `Serve` returns. -/
  | stop
  /-- The handler `j` writes a frame. -/
  | write (j : ℕ) (a : Answer)

namespace Net

/-- The steps of the client that read no frame and whose request fits. -/
def clientLabel : Label → Bool
  | .loop (.frame _) => false
  | .call _ _ _ body => fits body
  | _ => true

def step (n : Net) : NetLabel → Option Net
  | .client l =>
    if clientLabel l then (n.client.step l).map fun c => { n with client := c } else none
  | .deliver => do
    -- the next frame on the wire
    let e ← n.toClient[n.taken]?
    let c ← n.client.step (.loop (.frame e.2))
    return { n with client := c, taken := n.taken + 1 }
  | .handle typ => some { n with server := { n.server with handlers := typ :: n.server.handlers } }
  | .serve => do
    let e ← n.client.sent[n.server.read]?
    if n.server.serving = .reading ∧ frameHeaderSize + e.2.body.length ≤ maxFrameSize then
      return { n with server := n.server.handleFrame e.2 }
    else none
  | .reply =>
    match n.server.serving with
    | .replying k msgID => some { n with
        server := { n.server with serving := .reading }
        toClient := n.toClient ++ [(k, unknownType msgID)] }
    | _ => none
  | .stop =>
    if n.server.serving = .reading then
      some { n with server := { n.server with serving := .ended } }
    else none
  | .write j a => do
    -- each handler writes under the mutex of the connection, one frame at a time
    let job ← n.server.jobs[j]?
    let f := a.frame job.req
    if fits f.body then
      return { n with
        server := { n.server with
          jobs := n.server.jobs.set j { job with written := job.written ++ [f] } }
        toClient := n.toClient ++ [(job.origin, f)] }
    else none

/-- The states that a new client and a new server reach. -/
def Reached : Net → Prop := Reaches step Always {}

/-- The frames written for the request at the position `k`. -/
def writtenFor (n : Net) (k : ℕ) : List Frame := (n.toClient.filter fun e => e.1 == k).map Prod.snd

end Net

end Mvcp.Rpc
