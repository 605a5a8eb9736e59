import Mvcp.Wire.Protocol
import Mvcp.Library.Run

/-!
# The RPC client

`rpc/client.go`: requests are multiplexed over one connection by their `msg_id`. A read loop
routes each frame to the call that is pending under its id; every call has a forwarder between
its `inbox` and its `out` channel, and a goroutine of the caller (or a watcher, for a stream) that
abandons it. Every critical section, channel operation and frame is one step, and where a `select`
has several ready branches the step says which one is taken.

`closeCh` is closed in the critical section that sets `closed`, and read nowhere before, so the
field `closed` stands for both. The error texts of the connection and of a context are not
embedded: no step reads them.

## Main definitions

* `Call`: one `pendingCall` with its goroutines, and `Call.step`
* `Loop`: where the read loop stands
* `Client`, `Client.step`: the client

The fields `read`, `received`, `delivered`, `lost`, `born`, `heard` and `sent` record what happened
and are read by no step.
-/

namespace Mvcp.Rpc

/-- A frame as a call sees it. -/
structure StreamFrame where
  typ : UInt8
  body : Bytes
  more : Bool
  deriving DecidableEq

/-- The frame carries `IS_RESPONSE`. -/
def isResponse (f : Frame) : Bool := f.flags &&& flagResponse != 0

/-- What the read loop makes of a frame. -/
def streamFrame (f : Frame) : StreamFrame := ⟨f.typ, f.body, !isResponse f⟩

structure Response where
  typ : UInt8
  body : Bytes
  deriving DecidableEq

/-- The errors of `Call`. -/
inductive CallError
  /-- The error of the write. -/
  | write
  /-- `ctx.Err()`. -/
  | context
  /-- The text is `mvcp rpc: call closed`. -/
  | callClosed
  /-- The text is `mvcp rpc: client closed`. -/
  | clientClosed
  deriving DecidableEq

abbrev Result := Except CallError Response

instance : DecidableEq Result
  | .ok a, .ok b => decidable_of_iff (a = b) (by simp)
  | .error a, .error b => decidable_of_iff (a = b) (by simp)
  | .ok _, .error _ | .error _, .ok _ => isFalse (by simp)

/-- The capacity of `inbox` and `out`. -/
def chanSize : ℕ := 16

/-! ## One call -/

/-- Where the goroutine of `newPendingCall` stands. -/
inductive Forwarder
  | idle
  | holding (f : StreamFrame)
  | exited
  deriving DecidableEq

/-- Where the goroutine of `CallFlags` or `StreamFlags` stands: the next step it takes. -/
inductive Phase
  | add
  | write
  | receive
  | receiveAgain
  | finish (r : Result)
  | remove (r : Result)
  | returned (r : Result)
  /-- `StreamFlags` has returned the channel. -/
  | streaming
  deriving DecidableEq

/-- Where the goroutine that watches a stream stands. -/
inductive Watcher
  | none
  | waiting
  | finish
  | remove
  | ended
  deriving DecidableEq

structure Call where
  id : UInt32
  isStream : Bool
  typ : UInt8
  flags : UInt8
  body : Bytes
  phase : Phase := .add
  watcher : Watcher := .none
  ctxDone : Bool := false
  /-- `addPending` has run. -/
  registered : Bool := false
  inbox : List StreamFrame := []
  out : List StreamFrame := []
  outClosed : Bool := false
  done : Bool := false
  forwarder : Forwarder := .idle
  /-- The frames the read loop found the call pending for. -/
  read : List StreamFrame := []
  /-- The frames put on `out`. -/
  delivered : List StreamFrame := []
  /-- The frames taken from `out`. -/
  received : List StreamFrame := []
  /-- `send` has discarded a frame. -/
  lost : Bool := false
  /-- How many frames the read loop had handled when the call was registered. -/
  born : ℕ := 0
  deriving DecidableEq

/-- The branch that is taken where several may be ready. -/
inductive Choice
  | go
  | ctx
  | closed
  | done
  | fail
  deriving DecidableEq

/-- A step of one of the goroutines of a call. -/
inductive Op
  | run (x : Choice)
  | watch (x : Choice)
  | forward (x : Choice)
  /-- The consumer of a stream takes a frame from the channel. -/
  | consume
  /-- The context of the call is cancelled. -/
  | cancel
  deriving DecidableEq

/-- What a step of a call does to the client. -/
inductive Effect
  | none
  | insert
  | delete
  | send
  deriving DecidableEq

namespace Call

def request (c : Call) : Frame := ⟨c.typ, c.flags, c.id, c.body⟩

/-- The branches of the `select` in `receive` that give no frame. -/
def interrupt (closed : Bool) (c : Call) : Choice → Option (Call × Effect)
  | .ctx => if c.ctxDone then some ({ c with phase := .finish (.error .context) }, .none) else none
  | .closed =>
    if closed then some ({ c with phase := .finish (.error .clientClosed) }, .none) else none
  | _ => none

/-- The goroutine of `CallFlags` and `StreamFlags`. -/
def run (closed : Bool) (c : Call) (x : Choice) : Option (Call × Effect) :=
  match c.phase, x with
  | .add, .go => some ({ c with phase := .write, registered := true }, .insert)
  | .write, .go =>
    -- `StreamFlags` leaves the call to its watcher, `CallFlags` waits for the response
    if c.isStream then some ({ c with phase := .streaming, watcher := .waiting }, .send)
    else some ({ c with phase := .receive }, .send)
  | .write, .fail => some ({ c with phase := .finish (.error .write) }, .none)
  | .receive, .go =>
    match c.out with
    | f :: rest =>
      some ({ c with
        out := rest
        received := c.received ++ [f]
        phase :=
          if f.typ = typeSTARTED then .receiveAgain else .finish (.ok ⟨f.typ, f.body⟩) }, .none)
    | [] =>
      if c.outClosed then some ({ c with phase := .finish (.error .callClosed) }, .none) else none
  | .receiveAgain, .go =>
    match c.out with
    | f :: rest =>
      some ({ c with
        out := rest
        received := c.received ++ [f]
        phase := .finish (.ok ⟨f.typ, f.body⟩) }, .none)
    | [] =>
      if c.outClosed then some ({ c with phase := .finish (.error .callClosed) }, .none) else none
  -- the other branches of the `select`
  | .receive, x => c.interrupt closed x
  | .receiveAgain, x => c.interrupt closed x
  | .finish r, .go => some ({ c with done := true, phase := .remove r }, .none)
  | .remove r, .go => some ({ c with phase := .returned r }, .delete)
  | _, _ => none

/-- The goroutine of `StreamFlags` that waits for the context or the client. -/
def watch (closed : Bool) (c : Call) (x : Choice) : Option (Call × Effect) :=
  match c.watcher, x with
  | .waiting, .ctx => if c.ctxDone then some ({ c with watcher := .finish }, .none) else none
  | .waiting, .closed => if closed then some ({ c with watcher := .finish }, .none) else none
  | .finish, .go => some ({ c with done := true, watcher := .remove }, .none)
  | .remove, .go => some ({ c with watcher := .ended }, .delete)
  | _, _ => none

/-- The forwarder. `out` is closed when it returns. -/
def forward (c : Call) (x : Choice) : Option (Call × Effect) :=
  match c.forwarder, x with
  | .idle, .go =>
    match c.inbox with
    | f :: rest => some ({ c with forwarder := .holding f, inbox := rest }, .none)
    | [] => none
  | .holding f, .go =>
    if c.out.length < chanSize then
      some ({ c with
        out := c.out ++ [f]
        delivered := c.delivered ++ [f]
        forwarder := if f.more then .idle else .exited
        outClosed := !f.more }, .none)
    else none
  -- both `select`s of the forwarder have a branch for `done`
  | .idle, .done | .holding _, .done =>
    if c.done then some ({ c with forwarder := .exited, outClosed := true }, .none) else none
  | _, _ => none

/-- A consumer takes the next frame of a stream. -/
def consume (c : Call) : Option (Call × Effect) :=
  match c.phase, c.out with
  | .streaming, f :: rest => some ({ c with out := rest, received := c.received ++ [f] }, .none)
  | _, _ => none

/-- A step of one of the goroutines of a call. -/
def step (closed : Bool) (c : Call) : Op → Option (Call × Effect)
  | .run x => c.run closed x
  | .watch x => c.watch closed x
  | .forward x => if c.registered then c.forward x else none
  | .consume => c.consume
  | .cancel => some ({ c with ctxDone := true }, .none)

end Call

/-! ## The client -/

/-- Where the read loop stands. -/
inductive Loop
  | notStarted
  /-- `Start` has not yet called `wg.Add`. -/
  | starting
  | top
  | reading
  | failed
  | got (f : Frame)
  /-- `send` of the frame `f` to the call `c`, pending under `id`. -/
  | sending (c : ℕ) (id : UInt32) (f : StreamFrame)
  | removing (c : ℕ) (id : UInt32)
  /-- In the error path, before the critical section of `shutdown`. -/
  | enter
  /-- In `wg.Wait` of its own `shutdown`. -/
  | waiting
  | exited
  deriving DecidableEq

/-- Where a goroutine that shuts the client down stands. -/
inductive Closing
  | enter
  | waiting
  | closeConn
  | ended
  deriving DecidableEq

/-- A call of `Close`, or the goroutine of `Start` once its context is done. -/
structure Closer where
  isClose : Bool
  phase : Closing := .enter
  deriving DecidableEq

structure Client where
  msgID : UInt32 := 0
  pending : List (UInt32 × ℕ) := []
  closed : Bool := false
  /-- The context of the read loop is cancelled. -/
  cancelled : Bool := false
  loop : Loop := .notStarted
  /-- The context of `Start` is done. -/
  startDone : Bool := false
  closers : List Closer := []
  calls : List Call := []
  /-- The frames the read loop handled while the client was open. -/
  heard : List Frame := []
  /-- The requests written, each with its call. -/
  sent : List (ℕ × Frame) := []

/-- What the connection gives the read loop, and the branch of `send`. -/
inductive LoopChoice
  | go
  | done
  | frame (f : Frame)
  | error

inductive Label
  | start
  | spawn
  | startDone
  | close
  | closer (i : ℕ)
  /-- `CallFlags` or `StreamFlags` allocates its id. -/
  | call (isStream : Bool) (typ flags : UInt8) (body : Bytes)
  | op (c : ℕ) (o : Op)
  | loop (x : LoopChoice)

/-- `allocMsgID`: the id after `msgID`; zero is skipped. -/
def nextMsgID (msgID : UInt32) : UInt32 := if msgID + 1 = 0 then 1 else msgID + 1

namespace Client

/-- `pending[id]`. -/
def lookup (s : Client) (id : UInt32) : Option ℕ := s.pending.lookup id

/-- `pending` without `id`. -/
def without (s : Client) (id : UInt32) : List (UInt32 × ℕ) := s.pending.filter fun e => e.1 != id

/-- `pending[id] = c`. -/
def insert (s : Client) (id : UInt32) (c : ℕ) : Client :=
  { s with pending := (id, c) :: s.without id }

/-- `delete(pending, id)`. -/
def delete (s : Client) (id : UInt32) : Client := { s with pending := s.without id }

/-- The counter of the wait group: the read loop, from `wg.Add` until it returns. -/
def wg (s : Client) : ℕ :=
  match s.loop with
  | .notStarted | .starting | .exited => 0
  | _ => 1

/-- The critical section of `shutdown` on an open client. -/
def shut (s : Client) : Client :=
  { s with
    closed := true
    cancelled := s.cancelled || s.loop != .notStarted
    -- `finish` of every pending call
    calls := s.calls.mapIdx fun i c =>
      if (s.pending.map Prod.snd).contains i then { c with done := true } else c
    pending := [] }

/-- What a step of the call `c` with the id `id` does to the client. -/
def effect (s : Client) (c : ℕ) (call : Call) : Effect → Client
  | .none => s
  | .insert =>
    { s.insert call.id c with calls := s.calls.set c { call with born := s.heard.length } }
  | .delete => s.delete call.id
  | .send => { s with sent := s.sent ++ [(c, call.request)] }

/-- A step of a goroutine of the call `c`. -/
def stepOp (s : Client) (c : ℕ) (o : Op) : Option Client := do
  let call ← s.calls[c]?
  let (call', e) ← call.step s.closed o
  return { s with calls := s.calls.set c call' }.effect c call' e

/-- Where the read loop goes after `send`. -/
def afterSend (c : ℕ) (id : UInt32) (f : StreamFrame) : Loop :=
  if f.more then .top else .removing c id

/-- The read loop. -/
def stepLoop (s : Client) (x : LoopChoice) : Option Client :=
  match s.loop, x with
  | .top, .go => some { s with loop := if s.cancelled then .exited else .reading }
  | .reading, .frame f =>
    -- `ReadMVCPFrame` returns no larger frame
    if frameHeaderSize + f.body.length ≤ maxFrameSize then some { s with loop := .got f } else none
  | .reading, .error => some { s with loop := .failed }
  | .failed, .go => some { s with loop := if s.cancelled then .exited else .enter }
  | .enter, .go =>
    if s.closed then some { s with loop := .exited } else some { s.shut with loop := .waiting }
  -- the read loop waits for itself: its own `wg.Done` is missing
  | .waiting, .go => if s.wg = 0 then some { s with loop := .exited } else none
  | .got f, .go =>
    -- under `mu`: a closed client handles no frame
    if s.closed then some { s with loop := .exited }
    else
      match s.lookup f.msgID with
      | none => some { s with loop := .top, heard := s.heard ++ [f] }
      | some c => do
        let call ← s.calls[c]?
        return { s with
          loop := .sending c f.msgID (streamFrame f)
          heard := s.heard ++ [f]
          calls := s.calls.set c { call with read := call.read ++ [streamFrame f] } }
  | .sending c id f, .go => do
    let call ← s.calls[c]?
    -- blocked while the inbox is full
    if call.inbox.length < chanSize then
      return { s with
        loop := afterSend c id f
        calls := s.calls.set c { call with inbox := call.inbox ++ [f] } }
    else none
  | .sending c id f, .done => do
    let call ← s.calls[c]?
    -- the other branch of the `select` in `send`: the frame is discarded
    if call.done then
      return { s with
        loop := afterSend c id f
        calls := s.calls.set c { call with lost := true } }
    else none
  | .removing _ id, .go => some { s.delete id with loop := .top }
  | _, _ => none

/-- A goroutine in `shutdown`, and in `Close` after it. -/
def stepCloser (s : Client) (i : ℕ) : Option Client := do
  let k ← s.closers[i]?
  let after : Closing := if k.isClose then .closeConn else .ended
  match k.phase with
  | .enter =>
    -- `shutdown` of a closed client returns at once
    if s.closed then some { s with closers := s.closers.set i { k with phase := after } }
    else some { s.shut with closers := s.closers.set i { k with phase := .waiting } }
  | .waiting =>
    -- `wg.Wait`
    if s.wg = 0 then some { s with closers := s.closers.set i { k with phase := after } } else none
  | .closeConn => some { s with closers := s.closers.set i { k with phase := .ended } }
  | .ended => none

def step (s : Client) : Label → Option Client
  | .start => some (if s.loop = .notStarted then { s with loop := .starting } else s)
  | .spawn => if s.loop = .starting then some { s with loop := .top } else none
  | .startDone =>
    if s.loop ≠ .notStarted ∧ s.loop ≠ .starting ∧ s.startDone = false then
      some { s with startDone := true, closers := s.closers ++ [{ isClose := false }] }
    else none
  | .close => some { s with closers := s.closers ++ [{ isClose := true }] }
  | .closer i => s.stepCloser i
  | .call isStream typ flags body =>
    some { s with
      msgID := nextMsgID s.msgID
      calls := s.calls ++ [{ id := nextMsgID s.msgID, isStream, typ, flags, body }] }
  | .op c o => s.stepOp c o
  | .loop x => s.stepLoop x

/-- The states a new client reaches, every step being admitted by `ok`. -/
def Reached (ok : Client → Label → Prop) : Client → Prop := Library.Reaches step ok {}

end Client

end Mvcp.Rpc
