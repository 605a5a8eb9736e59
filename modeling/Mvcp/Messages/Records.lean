import Mvcp.Wire.Protocol

/-!
# The flat messages

The bodies of `messages/status.go`, `exec.go`, `file.go`, `tools.go`, `events.go`, `error.go` and
`started.go` that are a fixed sequence of fields. The encoder writes them to a `bytes.Buffer`, whose
writes do not fail. Each type is decoded twice in the source: by `UnmarshalBinary`, which assigns
its receiver after the last read, and by a function in the decoder registry. Both are embedded, with
the names each gives to a read error; bytes after the last field are ignored by both.

## Main definitions

* `Unmarshal`, `readField`: a method of a receiver, and a read of it
* `Decode`, `decodeField`: a decoder of the registry, and a read of it
* `StatusMsg`, `ExecResult`, …, `StartedMsg`: the messages, each with `marshalBinary`,
  `unmarshalBinary` and `decode`

## Main results

* `StatusMsg.mirrors`, …: the method does what the registered decoder does, and assigns its
  receiver only when it succeeds
* `StatusMsg.reads`, …: the decoder reads a message whose lengths fit their prefixes
-/

namespace Mvcp.Messages

open Library (Decoder Method Mirrors Reads)
open Library.Method (assign)

/-- `UnmarshalBinary` of a message type. -/
abbrev Unmarshal (σ : Type) : Type → Type := Method UInt8 String σ

/-- A decoder of the registry. -/
abbrev Decode : Type → Type := Decoder UInt8 String

/-- The text of a read error behind the name of its field. -/
def named (name : String) (e : ReadError) : String := name ++ ": " ++ e.text

/-- A field read by a registered decoder. -/
abbrev decodeField {α : Type} (name : String) (r : Decoder UInt8 ReadError α) : Decode α :=
  r.label (named name)

theorem decodeField_eq_ok {α : Type} {name : String} {r : Reader α} {b : Bytes} {p : α × Bytes} :
    decodeField name r b = .ok p ↔ r b = .ok p :=
  Decoder.label_eq_ok

/-- A field read by `UnmarshalBinary`. -/
abbrev readField {σ α : Type} (name : String) (r : Decoder UInt8 ReadError α) :
    Unmarshal σ α :=
  Method.field (r.label (named name))

/-! ## `status.go` -/

/-- The answer to `GETSTATUS`. -/
structure StatusMsg where
  version : Bytes := []
  pid : UInt32 := 0
  shuttingDown : Bool := false
  deriving DecidableEq

namespace StatusMsg

def marshalBinary (m : StatusMsg) : Bytes :=
  writeString m.version ++ writeUint32 m.pid ++ writeBool m.shuttingDown

def unmarshalBinary : Unmarshal StatusMsg Unit := do
  let version ← readField "status: read version" readString
  let pid ← readField "status: read pid" readUint32
  let shuttingDown ← readField "status: read shutting_down" readBool
  assign fun m => { m with version, pid, shuttingDown }

/-- The decoder in the registry. -/
def decode : Decode StatusMsg := do
  let version ← decodeField "status: read version" readString
  let pid ← decodeField "status: read pid" readUint32
  let shuttingDown ← decodeField "status: read shutting_down" readBool
  return { version, pid, shuttingDown }

/-- The lengths fit their prefixes. -/
def Fits (m : StatusMsg) : Prop := m.version.length < 2 ^ 16

theorem mirrors : Mirrors unmarshalBinary decode :=
  .field fun _ => .field fun _ => .field fun _ => .assign fun _ => rfl

theorem reads {m : StatusMsg} (h : m.Fits) : Reads decode m.marshalBinary m := by
  simp only [marshalBinary, List.append_assoc]
  exact (reads_string h).label.bind <| (reads_uint32 _).label.bind <| (reads_bool _).label.map

end StatusMsg

/-! ## `exec.go` -/

/-- The result of a command. -/
structure ExecResult where
  exitCode : Int32 := 0
  stdout : Bytes := []
  stderr : Bytes := []
  durationMs : UInt32 := 0
  deriving DecidableEq

namespace ExecResult

def marshalBinary (m : ExecResult) : Bytes :=
  writeInt32 m.exitCode ++ writeBytes m.stdout ++ writeBytes m.stderr ++ writeUint32 m.durationMs

def unmarshalBinary : Unmarshal ExecResult Unit := do
  let exitCode ← readField "exec_result: read exit_code" readInt32
  let stdout ← readField "exec_result: read stdout" readBytes
  let stderr ← readField "exec_result: read stderr" readBytes
  let durationMs ← readField "exec_result: read duration" readUint32
  assign fun m => { m with exitCode, stdout, stderr, durationMs }

/-- The decoder in the registry. -/
def decode : Decode ExecResult := do
  let exitCode ← decodeField "exec_result: read exit_code" readInt32
  let stdout ← decodeField "exec_result: read stdout" readBytes
  let stderr ← decodeField "exec_result: read stderr" readBytes
  let durationMs ← decodeField "exec_result: read duration" readUint32
  return { exitCode, stdout, stderr, durationMs }

/-- The lengths fit their prefixes. -/
def Fits (m : ExecResult) : Prop := m.stdout.length < 2 ^ 32 ∧ m.stderr.length < 2 ^ 32

theorem mirrors : Mirrors unmarshalBinary decode :=
  .field fun _ => .field fun _ => .field fun _ => .field fun _ => .assign fun _ => rfl

theorem reads {m : ExecResult} (h : m.Fits) : Reads decode m.marshalBinary m := by
  simp only [marshalBinary, List.append_assoc]
  exact (reads_int32 _).label.bind <| (reads_bytes h.1).label.bind <|
    (reads_bytes h.2).label.bind <| (reads_uint32 _).label.map

end ExecResult

/-- A chunk of the output of a command. -/
structure ExecStream where
  channel : UInt8 := 0
  sequence : UInt32 := 0
  data : Bytes := []
  deriving DecidableEq

namespace ExecStream

def marshalBinary (m : ExecStream) : Bytes :=
  writeUint8 m.channel ++ writeUint32 m.sequence ++ writeBytes m.data

def unmarshalBinary : Unmarshal ExecStream Unit := do
  let channel ← readField "exec_stream: read channel" readUint8
  let sequence ← readField "exec_stream: read sequence" readUint32
  let data ← readField "exec_stream: read data" readBytes
  assign fun m => { m with channel, sequence, data }

/-- The decoder in the registry. -/
def decode : Decode ExecStream := do
  let channel ← decodeField "exec_stream: read channel" readUint8
  let sequence ← decodeField "exec_stream: read sequence" readUint32
  let data ← decodeField "exec_stream: read data" readBytes
  return { channel, sequence, data }

/-- The lengths fit their prefixes. -/
def Fits (m : ExecStream) : Prop := m.data.length < 2 ^ 32

theorem mirrors : Mirrors unmarshalBinary decode :=
  .field fun _ => .field fun _ => .field fun _ => .assign fun _ => rfl

theorem reads {m : ExecStream} (h : m.Fits) : Reads decode m.marshalBinary m := by
  simp only [marshalBinary, List.append_assoc]
  exact (reads_uint8 _).label.bind <| (reads_uint32 _).label.bind <| (reads_bytes h).label.map

end ExecStream

/-! ## `file.go` -/

/-- The start of a file transfer. -/
structure XferInit where
  path : Bytes := []
  totalSize : UInt32 := 0
  dir : UInt8 := 0
  deriving DecidableEq

namespace XferInit

def marshalBinary (m : XferInit) : Bytes :=
  writeString m.path ++ writeUint32 m.totalSize ++ writeUint8 m.dir

def unmarshalBinary : Unmarshal XferInit Unit := do
  let path ← readField "xfer_init: read path" readString
  let totalSize ← readField "xfer_init: read total_size" readUint32
  let dir ← readField "xfer_init: read dir" readUint8
  assign fun m => { m with path, totalSize, dir }

/-- The decoder in the registry. -/
def decode : Decode XferInit := do
  let path ← decodeField "xfer_init" readString
  let totalSize ← decodeField "xfer_init" readUint32
  let dir ← decodeField "xfer_init" readUint8
  return { path, totalSize, dir }

/-- The lengths fit their prefixes. -/
def Fits (m : XferInit) : Prop := m.path.length < 2 ^ 16

theorem mirrors : Mirrors unmarshalBinary decode :=
  .field fun _ => .field fun _ => .field fun _ => .assign fun _ => rfl

theorem reads {m : XferInit} (h : m.Fits) : Reads decode m.marshalBinary m := by
  simp only [marshalBinary, List.append_assoc]
  exact (reads_string h).label.bind <| (reads_uint32 _).label.bind <| (reads_uint8 _).label.map

end XferInit

/-- A chunk of a file. -/
structure XferChunk where
  seq : UInt32 := 0
  data : Bytes := []
  deriving DecidableEq

namespace XferChunk

def marshalBinary (m : XferChunk) : Bytes := writeUint32 m.seq ++ writeBytes m.data

def unmarshalBinary : Unmarshal XferChunk Unit := do
  let seq ← readField "xfer_chunk: read seq" readUint32
  let data ← readField "xfer_chunk: read data" readBytes
  assign fun m => { m with seq, data }

/-- The decoder in the registry. -/
def decode : Decode XferChunk := do
  let seq ← decodeField "xfer_chunk" readUint32
  let data ← decodeField "xfer_chunk" readBytes
  return { seq, data }

/-- The lengths fit their prefixes. -/
def Fits (m : XferChunk) : Prop := m.data.length < 2 ^ 32

theorem mirrors : Mirrors unmarshalBinary decode :=
  .field fun _ => .field fun _ => .assign fun _ => rfl

theorem reads {m : XferChunk} (h : m.Fits) : Reads decode m.marshalBinary m :=
  (reads_uint32 _).label.bind (reads_bytes h).label.map

end XferChunk

/-- The end of a file transfer. -/
structure XferDone where
  ok : Bool := false
  chunksReceived : UInt32 := 0
  bytesWritten : UInt64 := 0
  deriving DecidableEq

namespace XferDone

def marshalBinary (m : XferDone) : Bytes :=
  writeBool m.ok ++ writeUint32 m.chunksReceived ++ writeUint64 m.bytesWritten

def unmarshalBinary : Unmarshal XferDone Unit := do
  let ok ← readField "xfer_done: read ok" readBool
  let chunksReceived ← readField "xfer_done: read chunks_received" readUint32
  let bytesWritten ← readField "xfer_done: read bytes_written" readUint64
  assign fun m => { m with ok, chunksReceived, bytesWritten }

/-- The decoder in the registry. -/
def decode : Decode XferDone := do
  let ok ← decodeField "xfer_done" readBool
  let chunksReceived ← decodeField "xfer_done" readUint32
  let bytesWritten ← decodeField "xfer_done" readUint64
  return { ok, chunksReceived, bytesWritten }

theorem mirrors : Mirrors unmarshalBinary decode :=
  .field fun _ => .field fun _ => .field fun _ => .assign fun _ => rfl

theorem reads (m : XferDone) : Reads decode m.marshalBinary m := by
  simp only [marshalBinary, List.append_assoc]
  exact (reads_bool _).label.bind <| (reads_uint32 _).label.bind <| (reads_uint64 _).label.map

end XferDone

/-! ## `tools.go` -/

/-- The call of a tool. -/
structure ToolCall where
  toolName : Bytes := []
  params : Bytes := []
  deriving DecidableEq

namespace ToolCall

def marshalBinary (m : ToolCall) : Bytes := writeString m.toolName ++ writeBytes m.params

def unmarshalBinary : Unmarshal ToolCall Unit := do
  let toolName ← readField "tool_call: read tool_name" readString
  let params ← readField "tool_call: read params" readBytes
  assign fun m => { m with toolName, params }

/-- The decoder in the registry. -/
def decode : Decode ToolCall := do
  let toolName ← decodeField "tool_call" readString
  let params ← decodeField "tool_call" readBytes
  return { toolName, params }

/-- The lengths fit their prefixes. -/
def Fits (m : ToolCall) : Prop := m.toolName.length < 2 ^ 16 ∧ m.params.length < 2 ^ 32

theorem mirrors : Mirrors unmarshalBinary decode :=
  .field fun _ => .field fun _ => .assign fun _ => rfl

theorem reads {m : ToolCall} (h : m.Fits) : Reads decode m.marshalBinary m :=
  (reads_string h.1).label.bind (reads_bytes h.2).label.map

end ToolCall

/-- The result of a tool. -/
structure ToolResult where
  result : Bytes := []
  ok : Bool := false
  errorMsg : Bytes := []
  deriving DecidableEq

namespace ToolResult

def marshalBinary (m : ToolResult) : Bytes :=
  writeBytes m.result ++ writeBool m.ok ++ writeString m.errorMsg

def unmarshalBinary : Unmarshal ToolResult Unit := do
  let result ← readField "tool_result: read result" readBytes
  let ok ← readField "tool_result: read ok" readBool
  let errorMsg ← readField "tool_result: read error_msg" readString
  assign fun m => { m with result, ok, errorMsg }

/-- The decoder in the registry. -/
def decode : Decode ToolResult := do
  let result ← decodeField "tool_result" readBytes
  let ok ← decodeField "tool_result" readBool
  let errorMsg ← decodeField "tool_result" readString
  return { result, ok, errorMsg }

/-- The lengths fit their prefixes. -/
def Fits (m : ToolResult) : Prop := m.result.length < 2 ^ 32 ∧ m.errorMsg.length < 2 ^ 16

theorem mirrors : Mirrors unmarshalBinary decode :=
  .field fun _ => .field fun _ => .field fun _ => .assign fun _ => rfl

theorem reads {m : ToolResult} (h : m.Fits) : Reads decode m.marshalBinary m := by
  simp only [marshalBinary, List.append_assoc]
  exact (reads_bytes h.1).label.bind <| (reads_bool _).label.bind <| (reads_string h.2).label.map

end ToolResult

/-! ## `events.go` -/

structure EventReady where
  version : Bytes := []
  deriving DecidableEq

namespace EventReady

def marshalBinary (m : EventReady) : Bytes := writeString m.version

def unmarshalBinary : Unmarshal EventReady Unit := do
  let version ← readField "event_ready: read version" readString
  assign fun m => { m with version }

/-- The decoder in the registry. -/
def decode : Decode EventReady := do
  let version ← decodeField "event_ready" readString
  return { version }

/-- The lengths fit their prefixes. -/
def Fits (m : EventReady) : Prop := m.version.length < 2 ^ 16

theorem mirrors : Mirrors unmarshalBinary decode :=
  .field fun _ => .assign fun _ => rfl

theorem reads {m : EventReady} (h : m.Fits) : Reads decode m.marshalBinary m :=
  (reads_string h).label.map

end EventReady

structure EventFileReceived where
  path : Bytes := []
  size : UInt64 := 0
  deriving DecidableEq

namespace EventFileReceived

def marshalBinary (m : EventFileReceived) : Bytes := writeString m.path ++ writeUint64 m.size

def unmarshalBinary : Unmarshal EventFileReceived Unit := do
  let path ← readField "event_file_received: read path" readString
  let size ← readField "event_file_received: read size" readUint64
  assign fun m => { m with path, size }

/-- The decoder in the registry. -/
def decode : Decode EventFileReceived := do
  let path ← decodeField "event_file_received" readString
  let size ← decodeField "event_file_received" readUint64
  return { path, size }

/-- The lengths fit their prefixes. -/
def Fits (m : EventFileReceived) : Prop := m.path.length < 2 ^ 16

theorem mirrors : Mirrors unmarshalBinary decode :=
  .field fun _ => .field fun _ => .assign fun _ => rfl

theorem reads {m : EventFileReceived} (h : m.Fits) : Reads decode m.marshalBinary m :=
  (reads_string h).label.bind (reads_uint64 _).label.map

end EventFileReceived

structure EventMount where
  path : Bytes := []
  fsType : Bytes := []
  deriving DecidableEq

namespace EventMount

def marshalBinary (m : EventMount) : Bytes := writeString m.path ++ writeString m.fsType

def unmarshalBinary : Unmarshal EventMount Unit := do
  let path ← readField "event_mount: read path" readString
  let fsType ← readField "event_mount: read fstype" readString
  assign fun m => { m with path, fsType }

/-- The decoder in the registry. -/
def decode : Decode EventMount := do
  let path ← decodeField "event_mount" readString
  let fsType ← decodeField "event_mount" readString
  return { path, fsType }

/-- The lengths fit their prefixes. -/
def Fits (m : EventMount) : Prop := m.path.length < 2 ^ 16 ∧ m.fsType.length < 2 ^ 16

theorem mirrors : Mirrors unmarshalBinary decode :=
  .field fun _ => .field fun _ => .assign fun _ => rfl

theorem reads {m : EventMount} (h : m.Fits) : Reads decode m.marshalBinary m :=
  (reads_string h.1).label.bind (reads_string h.2).label.map

end EventMount

structure EventErrorMsg where
  code : UInt16 := 0
  message : Bytes := []
  deriving DecidableEq

namespace EventErrorMsg

def marshalBinary (m : EventErrorMsg) : Bytes := writeUint16 m.code ++ writeString m.message

def unmarshalBinary : Unmarshal EventErrorMsg Unit := do
  let code ← readField "event_error: read code" readUint16
  let message ← readField "event_error: read message" readString
  assign fun m => { m with code, message }

/-- The decoder in the registry. -/
def decode : Decode EventErrorMsg := do
  let code ← decodeField "event_error" readUint16
  let message ← decodeField "event_error" readString
  return { code, message }

/-- The lengths fit their prefixes. -/
def Fits (m : EventErrorMsg) : Prop := m.message.length < 2 ^ 16

theorem mirrors : Mirrors unmarshalBinary decode :=
  .field fun _ => .field fun _ => .assign fun _ => rfl

theorem reads {m : EventErrorMsg} (h : m.Fits) : Reads decode m.marshalBinary m :=
  (reads_uint16 _).label.bind (reads_string h).label.map

end EventErrorMsg

structure EventLog where
  level : UInt8 := 0
  message : Bytes := []
  tsNs : UInt64 := 0
  deriving DecidableEq

namespace EventLog

def marshalBinary (m : EventLog) : Bytes :=
  writeUint8 m.level ++ writeString m.message ++ writeUint64 m.tsNs

def unmarshalBinary : Unmarshal EventLog Unit := do
  let level ← readField "event_log: read level" readUint8
  let message ← readField "event_log: read message" readString
  let tsNs ← readField "event_log: read ts_ns" readUint64
  assign fun m => { m with level, message, tsNs }

/-- The decoder in the registry. -/
def decode : Decode EventLog := do
  let level ← decodeField "event_log" readUint8
  let message ← decodeField "event_log" readString
  let tsNs ← decodeField "event_log" readUint64
  return { level, message, tsNs }

/-- The lengths fit their prefixes. -/
def Fits (m : EventLog) : Prop := m.message.length < 2 ^ 16

theorem mirrors : Mirrors unmarshalBinary decode :=
  .field fun _ => .field fun _ => .field fun _ => .assign fun _ => rfl

theorem reads {m : EventLog} (h : m.Fits) : Reads decode m.marshalBinary m := by
  simp only [marshalBinary, List.append_assoc]
  exact (reads_uint8 _).label.bind <| (reads_string h).label.bind <| (reads_uint64 _).label.map

end EventLog

/-- The guest's initialisation failed. -/
structure EventInitFailed where
  version : Bytes := []
  reason : Bytes := []
  deriving DecidableEq

namespace EventInitFailed

def marshalBinary (m : EventInitFailed) : Bytes := writeString m.version ++ writeString m.reason

def unmarshalBinary : Unmarshal EventInitFailed Unit := do
  let version ← readField "event_init_failed: read version" readString
  let reason ← readField "event_init_failed: read reason" readString
  assign fun m => { m with version, reason }

/-- The decoder in the registry. -/
def decode : Decode EventInitFailed := do
  let version ← decodeField "event_init_failed: read version" readString
  let reason ← decodeField "event_init_failed: read reason" readString
  return { version, reason }

/-- The lengths fit their prefixes. -/
def Fits (m : EventInitFailed) : Prop := m.version.length < 2 ^ 16 ∧ m.reason.length < 2 ^ 16

theorem mirrors : Mirrors unmarshalBinary decode :=
  .field fun _ => .field fun _ => .assign fun _ => rfl

theorem reads {m : EventInitFailed} (h : m.Fits) : Reads decode m.marshalBinary m :=
  (reads_string h.1).label.bind (reads_string h.2).label.map

end EventInitFailed

/-! ## `error.go` and `started.go` -/

/-- The universal error envelope. -/
structure ErrorMsg where
  code : UInt16 := 0
  message : Bytes := []
  deriving DecidableEq

namespace ErrorMsg

def marshalBinary (m : ErrorMsg) : Bytes := writeUint16 m.code ++ writeString m.message

def unmarshalBinary : Unmarshal ErrorMsg Unit := do
  let code ← readField "error: read code" readUint16
  let message ← readField "error: read message" readString
  assign fun m => { m with code, message }

/-- The decoder in the registry. -/
def decode : Decode ErrorMsg := do
  let code ← decodeField "error: read code" readUint16
  let message ← decodeField "error: read message" readString
  return { code, message }

/-- The lengths fit their prefixes. -/
def Fits (m : ErrorMsg) : Prop := m.message.length < 2 ^ 16

theorem mirrors : Mirrors unmarshalBinary decode :=
  .field fun _ => .field fun _ => .assign fun _ => rfl

theorem reads {m : ErrorMsg} (h : m.Fits) : Reads decode m.marshalBinary m :=
  (reads_uint16 _).label.bind (reads_string h).label.map

end ErrorMsg

/-- A request was accepted. -/
structure StartedMsg where
  stream : Bool := false
  deriving DecidableEq

namespace StartedMsg

def marshalBinary (m : StartedMsg) : Bytes := writeBool m.stream

def unmarshalBinary : Unmarshal StartedMsg Unit := do
  let stream ← readField "started: read stream" readBool
  assign fun m => { m with stream }

/-- The decoder in the registry. -/
def decode : Decode StartedMsg := do
  let stream ← decodeField "started: read stream" readBool
  return { stream }

theorem mirrors : Mirrors unmarshalBinary decode :=
  .field fun _ => .assign fun _ => rfl

theorem reads (m : StartedMsg) : Reads decode m.marshalBinary m :=
  (reads_bool _).label.map

end StartedMsg

end Mvcp.Messages
