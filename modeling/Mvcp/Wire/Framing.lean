import Mvcp.Wire.Protocol
import Mvcp.Library.Link

/-!
# Frames on the byte stream

`frame.go`, the framing of `mvcp.go` and that of `vpp/vpp.go`. The transport frame is a payload
behind its `uint32` length. An MVCP frame puts a header of six bytes before its body, a VPP frame
one byte. Both readers take exactly the bytes of one frame, so they read a stream of frames back
however the connection cuts it; the VPP writer checks the size its reader admits, and the MVCP
writer does not.

## Main definitions

* `Conn`: a process on the connection
* `readFrame`, `writeFrame`: the transport frame
* `encodeMVCPFrame`, `writeMVCPFrame`, `readMVCPFrame`: the MVCP frame
* `Vpp.Frame`, `Vpp.writeFrame`, `Vpp.readFrame`: the VPP frame
* `StreamCodec`: a reader and an encoder of frames are inverse to each other on streams

## Main results

* `run_readMVCPFrame`: what `ReadMVCPFrame` does on any stream
* `framing_mvcp`, `framing_vpp`: both readers are framings
* `delimits_mvcp`: `ReadMVCPFrame` takes no frame for another, oversized ones included
* `framing_bijection`: lists of frames and their byte streams determine each other
* `readMVCPFrame_written_iff`: a frame is read back where it was written exactly when it is not too
  large for the reader
-/

namespace Mvcp

open Library (beNat Proc Framing Delimits)

/-! ## The transport frame -/

/-- The errors of a connection: the end of the stream, or any other failure, by its text. -/
inductive ConnError
  | short (e : ReadError)
  | other (message : String)

def ConnError.text : ConnError → String
  | .short e => e.text
  | .other message => message

/-- A process on the connection. -/
abbrev Conn := Proc ConnError

/-- The error of `io.ReadFull` on the last bytes of a stream. -/
def atEOF (rest : Bytes) : ConnError := .short (if rest = [] then .eof else .unexpectedEOF)

/-- `io.ReadFull` on the connection. -/
def Conn.readFull (n : ℕ) : Conn (Except ConnError Bytes) := Proc.read n .done

/-- `Write` on the connection. -/
def Conn.write (bs : Bytes) : Conn (Except ConnError Unit) := Proc.write bs .done

/-- `WriteFrame`: header and payload in one write, the length converted to `uint32` without a
check. -/
def writeFrame (payload : Bytes) : Conn (Except ConnError Unit) :=
  Conn.write (writeUint32 (UInt32.ofNat payload.length) ++ payload)

/-- `EncodeMVCPFrame`: the length is converted to `uint32` without a check. -/
def encodeMVCPFrame (f : Frame) : Bytes :=
  let inner := f.typ :: f.flags :: (writeUint32 f.msgID ++ f.body)
  writeUint32 (UInt32.ofNat inner.length) ++ inner

/-- `WriteMVCPFrame`: one write. -/
def writeMVCPFrame (f : Frame) : Conn (Except ConnError Unit) := Conn.write (encodeMVCPFrame f)

/-- Why no frame could be read. -/
inductive FrameError
  | conn (e : ConnError)
  /-- `ErrFrameTooLarge`. -/
  | frameTooLarge
  /-- `io.ErrUnexpectedEOF`, for a payload that has no header. -/
  | shortPayload

def FrameError.text : FrameError → String
  | .conn e => e.text
  | .frameTooLarge => "mvcp: frame exceeds maximum size"
  | .shortPayload => "unexpected EOF"

/-- `ReadFrame`. -/
def readFrame : Conn (Except FrameError Bytes) := do
  match ← Conn.readFull 4 with
  | .error e => return .error (.conn e)
  | .ok header =>
    let length := (UInt32.ofNat (beNat header)).toNat
    if maxFrameSize < length then return .error .frameTooLarge
    else
      match ← Conn.readFull length with
      | .error e => return .error (.conn e)
      | .ok payload => return .ok payload

/-- The header of a payload; a payload shorter than `frameHeaderSize` has none. -/
def parsePayload : Bytes → Except FrameError Frame
  | t :: fl :: a :: b :: c :: d :: body => .ok ⟨t, fl, UInt32.ofNat (beNat [a, b, c, d]), body⟩
  | _ => .error .shortPayload

/-- `ReadMVCPFrame`. -/
def readMVCPFrame : Conn (Except FrameError Frame) := do
  match ← readFrame with
  | .error e => return .error e
  | .ok payload => return parsePayload payload

theorem Conn.run_readFull (n : ℕ) (input : Bytes) :
    (Conn.readFull n).run atEOF input =
      if n ≤ input.length then ⟨.ok (input.take n), [], input.drop n⟩
      else ⟨.error (atEOF input), [], []⟩ := rfl

@[simp] theorem Conn.run_write (bs input : Bytes) :
    (Conn.write bs).run atEOF input = ⟨.ok (), bs, input⟩ := by
  simp [Conn.write, Proc.run]

/-! ## One frame -/

/-- A payload with a header is the inner part of the frame parsed from it. -/
theorem parsePayload_eq_ok {payload : Bytes} {f : Frame} :
    parsePayload payload = .ok f ↔
      payload = f.typ :: f.flags :: (writeUint32 f.msgID ++ f.body) := by
  constructor
  · intro h
    unfold parsePayload at h
    split at h
    · next t fl a b c d body =>
      obtain rfl := Except.ok.inj h
      have hid := writeUint32_ofNat_beNat (show [a, b, c, d].length = 4 from rfl)
      simp [hid]
    · simp at h
  · rintro rfl
    exact congrArg (fun id => Except.ok (⟨f.typ, f.flags, id, f.body⟩ : Frame))
      (ofNat_beNat_writeUint32 f.msgID)

/-- What `ReadFrame` does behind a length field. -/
theorem run_readFrame_length (v : UInt32) (rest : Bytes) :
    readFrame.run atEOF (writeUint32 v ++ rest) =
      if maxFrameSize < v.toNat then ⟨.error .frameTooLarge, [], rest⟩
      else if v.toNat ≤ rest.length then ⟨.ok (rest.take v.toNat), [], rest.drop v.toNat⟩
      else ⟨.error (.conn (atEOF rest)), [], []⟩ := by
  have h₄ : (writeUint32 v).length = 4 := by simp [writeUint32]
  simp only [readFrame, Proc.run_bind, Conn.run_readFull]
  rw [if_pos (by simp [h₄]), List.take_left' h₄, List.drop_left' h₄]
  dsimp only
  rw [ofNat_beNat_writeUint32]
  split_ifs with hmax hlen
  · rfl
  · simp [Conn.run_readFull, hlen]
  · simp [Conn.run_readFull, hlen]

/-- A payload of admissible size is read back. -/
theorem run_readFrame_append {payload : Bytes} (hsize : payload.length ≤ maxFrameSize)
    (rest : Bytes) :
    readFrame.run atEOF (writeUint32 (UInt32.ofNat payload.length) ++ (payload ++ rest)) =
      ⟨.ok payload, [], rest⟩ := by
  have hlen : (UInt32.ofNat payload.length).toNat = payload.length := by
    rw [UInt32.toNat_ofNat', Nat.mod_eq_of_lt (hsize.trans_lt (by decide))]
  rw [run_readFrame_length, hlen, if_neg (Nat.not_lt.mpr hsize), if_pos (by simp)]
  simp

/-- The size of an MVCP frame, as its length field counts it. -/
theorem inner_length (f : Frame) :
    (f.typ :: f.flags :: (writeUint32 f.msgID ++ f.body)).length =
      frameHeaderSize + f.body.length := by
  simp [writeUint32, frameHeaderSize]
  omega

/-- A frame of admissible size is read back. -/
theorem run_readMVCPFrame_append {f : Frame}
    (hsize : frameHeaderSize + f.body.length ≤ maxFrameSize) (rest : Bytes) :
    readMVCPFrame.run atEOF (encodeMVCPFrame f ++ rest) = ⟨.ok f, [], rest⟩ := by
  have hread := run_readFrame_append ((inner_length f).trans_le hsize) rest
  simp only [readMVCPFrame, encodeMVCPFrame, List.append_assoc, Proc.run_bind, hread]
  rw [parsePayload_eq_ok.mpr rfl]
  simp

/-- What `ReadFrame` accepts is a payload behind its length. -/
theorem run_readFrame (input : Bytes) :
    (∃ payload rest, input = writeUint32 (UInt32.ofNat payload.length) ++ (payload ++ rest) ∧
      payload.length ≤ maxFrameSize ∧ readFrame.run atEOF input = ⟨.ok payload, [], rest⟩) ∨
    ∃ e unread, readFrame.run atEOF input = ⟨.error e, [], unread⟩ := by
  simp only [readFrame, Proc.run_bind, Conn.run_readFull]
  by_cases h₄ : 4 ≤ input.length
  swap
  · rw [if_neg h₄]
    exact .inr ⟨_, _, rfl⟩
  rw [if_pos h₄]
  dsimp only
  set length := UInt32.ofNat (beNat (input.take 4)) with hl
  by_cases hmax : maxFrameSize < length.toNat
  · rw [if_pos hmax]
    exact .inr ⟨_, _, rfl⟩
  rw [if_neg hmax]
  simp only [Proc.run_bind, Conn.run_readFull]
  by_cases hn : length.toNat ≤ (input.drop 4).length
  swap
  · rw [if_neg hn]
    exact .inr ⟨_, _, rfl⟩
  rw [if_pos hn]
  have hp : ((input.drop 4).take length.toNat).length = length.toNat := List.length_take_of_le hn
  refine .inl ⟨(input.drop 4).take length.toNat, (input.drop 4).drop length.toNat, ?_, ?_, rfl⟩
  · rw [hp, UInt32.ofNat_toNat, hl, writeUint32_ofNat_beNat (List.length_take_of_le h₄),
      List.take_append_drop, List.take_append_drop]
  · rw [hp]
    exact Nat.not_lt.mp hmax

theorem run_readMVCPFrame (input : Bytes) :
    (∃ f rest, input = encodeMVCPFrame f ++ rest ∧
      frameHeaderSize + f.body.length ≤ maxFrameSize ∧
      readMVCPFrame.run atEOF input = ⟨.ok f, [], rest⟩) ∨
    (∀ f rest, input = encodeMVCPFrame f ++ rest →
      ¬ frameHeaderSize + f.body.length ≤ maxFrameSize) ∧
      ∃ e unread, readMVCPFrame.run atEOF input = ⟨.error e, [], unread⟩ := by
  -- no error is returned for a frame of admissible size
  have hnone {e : FrameError} {unread : Bytes}
      (h : readMVCPFrame.run atEOF input = ⟨.error e, [], unread⟩) (f : Frame) (rest : Bytes)
      (he : input = encodeMVCPFrame f ++ rest) :
      ¬ frameHeaderSize + f.body.length ≤ maxFrameSize := by
    intro hsize
    rw [he, run_readMVCPFrame_append hsize] at h
    simp at h
  rcases run_readFrame input with ⟨payload, rest, he, hle, hr⟩ | ⟨e, unread, hr⟩
  · have hrun : readMVCPFrame.run atEOF input = ⟨parsePayload payload, [], rest⟩ := by
      simp [readMVCPFrame, hr]
    cases hp : parsePayload payload with
    | ok f =>
      have hpay := parsePayload_eq_ok.mp hp
      refine .inl ⟨f, rest, ?_, ?_, hp ▸ hrun⟩
      · rw [he, hpay, encodeMVCPFrame]
        simp
      · rw [← inner_length, ← hpay]
        exact hle
    | error e =>
      rw [hp] at hrun
      exact .inr ⟨hnone hrun, e, rest, hrun⟩
  · have hrun : readMVCPFrame.run atEOF input = ⟨.error e, [], unread⟩ := by
      simp [readMVCPFrame, hr]
    exact .inr ⟨hnone hrun, e, unread, hrun⟩

/-- An oversized frame is refused, as long as its size fits the length field. -/
theorem run_readMVCPFrame_oversized {f : Frame}
    (hsize : maxFrameSize < frameHeaderSize + f.body.length)
    (hfield : frameHeaderSize + f.body.length < 2 ^ 32) (rest : Bytes) :
    (readMVCPFrame.run atEOF (encodeMVCPFrame f ++ rest)).result = .error .frameTooLarge := by
  set inner := f.typ :: f.flags :: (writeUint32 f.msgID ++ f.body) with hi
  have hlen : (UInt32.ofNat inner.length).toNat = frameHeaderSize + f.body.length := by
    rw [hi, inner_length, UInt32.toNat_ofNat', Nat.mod_eq_of_lt hfield]
  simp only [readMVCPFrame, encodeMVCPFrame, ← hi, List.append_assoc, Proc.run_bind,
    run_readFrame_length, hlen, if_pos hsize, Proc.run_pure]

/-! ## The VPP frame -/

namespace Vpp

/-- The largest VPP payload, type byte included. -/
def maxFrameSize : ℕ := 64 * 1024

/-- One VPP frame. -/
structure Frame where
  typ : UInt8
  body : Bytes
  deriving DecidableEq

/-- The errors of the VPP framing. -/
inductive FrameError
  /-- An error of `protocol.ReadFrame`. -/
  | wire (e : Mvcp.FrameError)
  /-- An error of the write. -/
  | conn (e : ConnError)
  /-- `io.ErrUnexpectedEOF`, for a payload without a type byte. -/
  | shortPayload
  /-- `ErrFrameTooLarge`. -/
  | frameTooLarge

/-- `vpp.ReadFrame`. -/
def readFrame : Conn (Except FrameError Frame) := do
  match ← Mvcp.readFrame with
  | .error e => return .error (.wire e)
  | .ok [] => return .error .shortPayload
  | .ok (typ :: body) =>
    if maxFrameSize < (typ :: body).length then return .error .frameTooLarge
    else return .ok ⟨typ, body⟩

/-- `vpp.WriteFrame`. -/
def writeFrame (f : Frame) : Conn (Except FrameError Unit) := do
  if maxFrameSize < f.body.length + 1 then return .error .frameTooLarge
  else
    match ← Mvcp.writeFrame (f.typ :: f.body) with
    | .error e => return .error (.conn e)
    | .ok () => return .ok ()

/-- The bytes `WriteFrame` writes for a frame it accepts. -/
def encodeFrame (f : Frame) : Bytes :=
  writeUint32 (UInt32.ofNat (f.typ :: f.body).length) ++ (f.typ :: f.body)

theorem run_writeFrame (f : Frame) (input : Bytes) :
    (writeFrame f).run atEOF input =
      if maxFrameSize < f.body.length + 1 then ⟨.error .frameTooLarge, [], input⟩
      else ⟨.ok (), encodeFrame f, input⟩ := by
  unfold writeFrame
  split_ifs with h
  · rfl
  · simp [Mvcp.writeFrame, encodeFrame]

theorem run_readFrame_append {f : Frame} (hsize : f.body.length + 1 ≤ maxFrameSize)
    (rest : Bytes) : readFrame.run atEOF (encodeFrame f ++ rest) = ⟨.ok f, [], rest⟩ := by
  have hle : (f.typ :: f.body).length ≤ Mvcp.maxFrameSize := hsize.trans (by decide)
  have hread := Mvcp.run_readFrame_append hle rest
  have hmax : ¬ maxFrameSize < (f.typ :: f.body).length := Nat.not_lt.mpr hsize
  simp only [readFrame, encodeFrame, List.append_assoc, Proc.run_bind, hread, if_neg hmax,
    Proc.run_pure, List.append_nil]

end Vpp

/-! ## Streams of frames -/

/-- A reader of frames and an encoder are inverse to each other on streams: frames that fit are
read back from any segmentation of their encodings, with nothing left; the bytes that reads
consumed are the encodings of what they returned; and a stream that was read to its end is
determined by the frames. -/
structure StreamCodec {F α : Type} (read : Conn (Except F α)) (encode : α → Bytes)
    (fits : α → Prop) : Prop where
  decode : ∀ (fs : List α) (segs : List Bytes), (∀ f ∈ fs, fits f) →
    segs.flatten = fs.flatMap encode →
    (read.times fs.length).runSegments atEOF segs = ⟨.ok fs, [], []⟩
  consumed : ∀ (k : ℕ) (segs : List Bytes) (fs : List α) (written rest : Bytes),
    (read.times k).runSegments atEOF segs = ⟨.ok fs, written, rest⟩ →
    fs.length = k ∧ (∀ f ∈ fs, fits f) ∧ segs.flatten = fs.flatMap encode ++ rest
  injective : ∀ (k k' : ℕ) (segs segs' : List Bytes) (fs : List α),
    (read.times k).runSegments atEOF segs = ⟨.ok fs, [], []⟩ →
    (read.times k').runSegments atEOF segs' = ⟨.ok fs, [], []⟩ → segs.flatten = segs'.flatten

/-- A framing reads streams of frames. -/
theorem streamCodec_of_framing {F α : Type} {read : Conn (Except F α)} {encode : α → Bytes}
    {fits : α → Prop} (h : Framing atEOF read encode fits) : StreamCodec read encode fits where
  decode fs segs hfits hsegs := by
    rw [Proc.runSegments_eq, hsegs]
    simpa using h.run_times_append hfits []
  consumed k segs fs written rest hrun := by
    rw [Proc.runSegments_eq] at hrun
    obtain ⟨hlen, hfits, hinput, -⟩ := h.eq_of_run_times hrun
    exact ⟨hlen, hfits, hinput⟩
  injective k k' segs segs' fs hrun hrun' := by
    rw [Proc.runSegments_eq] at hrun hrun'
    obtain ⟨-, -, hinput, -⟩ := h.eq_of_run_times hrun
    obtain ⟨-, -, hinput', -⟩ := h.eq_of_run_times hrun'
    rw [hinput, hinput']

/-- A frame is admissible when the reader takes it. -/
def Frame.Admissible (f : Frame) : Prop := frameHeaderSize + f.body.length ≤ maxFrameSize

/-- A VPP frame is admissible when the reader takes it. -/
def Vpp.Frame.Admissible (f : Vpp.Frame) : Prop := 1 + f.body.length ≤ Vpp.maxFrameSize

theorem framing_mvcp : Framing atEOF readMVCPFrame encodeMVCPFrame Frame.Admissible where
  run_append _ hf rest := run_readMVCPFrame_append hf rest
  eq_of_run input f written rest hrun := by
    rcases run_readMVCPFrame input with ⟨f', rest', rfl, hsize, hr⟩ | ⟨-, e, unread, hr⟩
    · rw [hr] at hrun
      obtain ⟨rfl, rfl, rfl⟩ : f' = f ∧ written = [] ∧ rest' = rest := by
        simpa [eq_comm] using hrun
      exact ⟨hsize, rfl, rfl⟩
    · rw [hr] at hrun
      simp at hrun

/-- The size of the frame fits the length field. -/
def Frame.Writable (f : Frame) : Prop := frameHeaderSize + f.body.length < 2 ^ 32

theorem delimits_mvcp :
    Delimits atEOF readMVCPFrame encodeMVCPFrame Frame.Admissible Frame.Writable where
  toFraming := framing_mvcp
  ne_nil f := by simp [encodeMVCPFrame]
  refuses f hw hf rest g := by
    rw [run_readMVCPFrame_oversized (Nat.not_le.mp hf) hw]
    simp

theorem framing_vpp : Framing atEOF Vpp.readFrame Vpp.encodeFrame Vpp.Frame.Admissible where
  run_append f hf rest := Vpp.run_readFrame_append (by rwa [Nat.add_comm]) rest
  eq_of_run input f written rest hrun := by
    rcases run_readFrame input with ⟨payload, rest', rfl, -, hr⟩ | ⟨e, unread, hr⟩
    · simp only [Vpp.readFrame, Proc.run_bind, hr] at hrun
      cases payload with
      | nil => simp at hrun
      | cons typ body =>
        dsimp only at hrun
        split_ifs at hrun with hsize
        · simp at hrun
        · obtain ⟨rfl, rfl, rfl⟩ : (⟨typ, body⟩ : Vpp.Frame) = f ∧ written = [] ∧ rest' = rest := by
            simpa [eq_comm] using hrun
          refine ⟨?_, by simp [Vpp.encodeFrame], rfl⟩
          have : body.length + 1 ≤ Vpp.maxFrameSize := Nat.not_lt.mp hsize
          show 1 + body.length ≤ Vpp.maxFrameSize
          omega
    · simp [Vpp.readFrame, hr] at hrun

/-- **Framing is a bijection.** Lists of admissible frames and their byte streams determine each
other, however the stream is cut, for MVCP frames and for VPP frames; and the VPP writer refuses
exactly the frames its reader does not admit. -/
theorem framing_bijection :
    StreamCodec readMVCPFrame encodeMVCPFrame
        (fun f => frameHeaderSize + f.body.length ≤ maxFrameSize) ∧
      StreamCodec Vpp.readFrame Vpp.encodeFrame (fun f => 1 + f.body.length ≤ 64 * 1024) ∧
      ∀ (f : Vpp.Frame) (input : Bytes), (Vpp.writeFrame f).run atEOF input =
        if 64 * 1024 < 1 + f.body.length then ⟨.error .frameTooLarge, [], input⟩
        else ⟨.ok (), Vpp.encodeFrame f, input⟩ := by
  refine ⟨streamCodec_of_framing framing_mvcp, streamCodec_of_framing framing_vpp, ?_⟩
  intro f input
  rw [Vpp.run_writeFrame, Nat.add_comm]
  rfl

/-- **A frame is read back where it was written exactly when the reader admits its size.** The
writer itself never fails: behind any well-formed frames, an oversized frame goes out and is not
what the reader finds there. -/
theorem readMVCPFrame_written_iff (before : List Frame) (f : Frame) (rest : Bytes)
    (segs : List Bytes) (hbefore : ∀ g ∈ before, frameHeaderSize + g.body.length ≤ maxFrameSize)
    (hsegs : segs.flatten = before.flatMap encodeMVCPFrame ++
      (((writeMVCPFrame f).run atEOF []).written ++ rest)) :
    ((writeMVCPFrame f).run atEOF []).result = .ok () ∧
      ((readMVCPFrame.times (before.length + 1)).runSegments atEOF segs =
          ⟨.ok (before ++ [f]), [], rest⟩ ↔
        frameHeaderSize + f.body.length ≤ maxFrameSize) := by
  refine ⟨rfl, ?_⟩
  have hflat : segs.flatten = (before ++ [f]).flatMap encodeMVCPFrame ++ rest := by
    rw [hsegs]
    simp [writeMVCPFrame]
  rw [Proc.runSegments_eq]
  constructor
  · intro hrun
    obtain ⟨-, hfits, -⟩ := framing_mvcp.eq_of_run_times hrun
    exact hfits f (by simp)
  · intro hsize
    have hfits : ∀ g ∈ before ++ [f], g.Admissible := by
      intro g hg
      rcases List.mem_append.mp hg with hg | hg
      · exact hbefore g hg
      · rw [List.mem_singleton.mp hg]
        exact hsize
    simpa [hflat] using framing_mvcp.run_times_append hfits rest

/-- A PING and a PONG, cut into four segments and followed by one more byte. -/
theorem readMVCPFrame_written_pong :
    (readMVCPFrame.times 2).runSegments atEOF
        [[0, 0], [0], [6, 1, 0, 0, 0, 0, 7, 0, 0, 0, 6, 2, 1, 0, 0, 0], [7, 9]] =
      ⟨.ok [⟨1, 0, 7, []⟩, ⟨2, 1, 7, []⟩], [], [9]⟩ :=
  (readMVCPFrame_written_iff [⟨1, 0, 7, []⟩] ⟨2, 1, 7, []⟩ [9] _ (by decide) (by decide)).2.mpr
    (by decide)

/-- `WriteMVCPFrame` reports success for a frame of one byte more than `ReadMVCPFrame` takes. -/
theorem readMVCPFrame_refuses_written : ∃ f : Frame,
    frameHeaderSize + f.body.length = maxFrameSize + 1 ∧
      ((writeMVCPFrame f).run atEOF []).result = .ok () ∧
      (readMVCPFrame.run atEOF ((writeMVCPFrame f).run atEOF []).written).result =
        .error .frameTooLarge := by
  obtain ⟨body, hbody⟩ : ∃ body : Bytes, body.length = maxFrameSize - 5 :=
    ⟨List.replicate (maxFrameSize - 5) 0, List.length_replicate⟩
  have hsize : frameHeaderSize + body.length = maxFrameSize + 1 := by
    rw [hbody]
    rfl
  refine ⟨⟨0x12, flagResponse, 1, body⟩, hsize, rfl, ?_⟩
  have hread := run_readMVCPFrame_oversized (f := ⟨0x12, flagResponse, 1, body⟩)
    (by rw [hsize]; exact Nat.lt_succ_self _) (by rw [hsize]; decide) []
  simpa [writeMVCPFrame] using hread

end Mvcp
