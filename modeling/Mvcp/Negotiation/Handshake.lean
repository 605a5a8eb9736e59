import Mvcp.Negotiation.Capabilities
import Mvcp.Wire.Framing

/-!
# The handshake

`handshake.go`: each side sends the wire prefix and its HELLO, reads those of the other,
negotiates and enforces its requirements.
The two sides are processes on a byte connection; they differ in who writes first and in when an
ERROR frame may be sent.

## Main definitions

* `readPeerHello`: the peer's prefix and HELLO
* `serverHandshake`, `clientHandshake`: the two sides
* `Framed`, `Sends`, `Unusable`: what a byte stream holds, without the reader

## Main results

* `run_readPeerHello`: the reader accepts the streams that send a well-formed HELLO, and reports a
  malformed one exactly for the other framed streams
* `run_serverHandshake`, `run_clientHandshake`: the bytes written and the result on any stream
* `handshake_outcome`: when each side writes an ERROR frame, and when it succeeds
-/

namespace Mvcp

open Library (beNat Proc)

/-! ## The two sides -/

def mvcpVersion : UInt8 := 0x01

def mvcpMagic : Bytes := [77, 86, 67, 80]

def mvcpPrefix : Bytes := mvcpMagic ++ [mvcpVersion]

/-- `writeMVCPPrefix`. -/
def writeMVCPPrefix : Conn (Except ConnError Unit) := Conn.write mvcpPrefix

/-- Why no HELLO could be read from the peer. -/
inductive PeerHelloError
  | conn (e : ConnError)
  | badMagic
  | unsupportedVersion
  | frame (e : FrameError)
  /-- `errMalformedHello`, with the text behind it. -/
  | malformed (detail : String)

def PeerHelloError.text : PeerHelloError → String
  | .conn e => e.text
  | .badMagic => "mvcp: bad handshake magic"
  | .unsupportedVersion => "mvcp: unsupported wire version"
  | .frame e => e.text
  | .malformed detail => "mvcp: malformed hello: " ++ detail

/-- The error leaves the peer without a reply: it may not be able to parse one. -/
def PeerHelloError.isWire : PeerHelloError → Bool
  | .malformed _ => false
  | _ => true

/-- `validateMVCPPrefix`. -/
def validateMVCPPrefix : Conn (Except PeerHelloError Unit) := do
  match ← Conn.readFull 5 with
  | .error e => return .error (.conn e)
  | .ok buf =>
    if buf.take 4 ≠ mvcpMagic then return .error .badMagic
    else if buf.drop 4 ≠ [mvcpVersion] then return .error .unsupportedVersion
    else return .ok ()

/-- The ERROR frame of a rejected handshake. -/
def errorFrame (code : UInt16) (message : String) : Frame where
  typ := typeERROR
  flags := flagResponse
  msgID := 0
  body := writeUint16 code ++ writeString (text message)

/-- `writeHandshakeError`; its callers ignore the result. -/
def writeHandshakeError (code : UInt16) (message : String) : Conn (Except ConnError Unit) :=
  writeMVCPFrame (errorFrame code message)

/-- `readPeerHello`. -/
def readPeerHello : Conn (Except PeerHelloError Hello) := do
  match ← validateMVCPPrefix with
  | .error e => return .error e
  | .ok () =>
    match ← readMVCPFrame with
    | .error e => return .error (.frame e)
    | .ok frame =>
      if frame.typ ≠ typeHELLO then
        return .error (.malformed ("expected HELLO, got 0x" ++ hex02 frame.typ))
      else return (Hello.unmarshalBinary frame.body).mapError .malformed

/-- `roleAccepted`. -/
def roleAccepted (role : PeerRole) (roles : List PeerRole) : Bool := roles.any fun r => role == r

/-- What `SetDeadline` does on the connection. -/
inductive Deadline
  | unsupported
  | refused (message : String)
  | armed

/-- Why a handshake returned an error. -/
inductive HandshakeFailure
  | deadlineRequired
  /-- `fmt.Errorf` with a context before the text of the cause. -/
  | wrapped (context cause : String)
  /-- `HandshakeError`. -/
  | rejected (code : UInt16) (message : String)

/-- What a handshake returns: the peer and the negotiated capabilities, or an error. -/
abbrev HandshakeResult := Except HandshakeFailure (Hello × NegotiatedCapabilities)

/-- `withHandshakeDeadline`. -/
def withHandshakeDeadline : Deadline → Except HandshakeFailure Unit
  | .unsupported => .error .deadlineRequired
  | .refused message => .error (.wrapped "mvcp: set handshake deadline" message)
  | .armed => .ok ()

def unexpectedRole (role : PeerRole) : String := "unexpected peer role " ++ toString role.toNat

/-- The frame of a local HELLO. -/
def helloFrame (body : Bytes) : Frame := ⟨typeHELLO, 0, 0, body⟩

/-- The prefix and the HELLO of one side, and why they could not be sent. -/
def sendHello (side : String) (sortSlice : SortByID) (loc : Hello) :
    Conn (Except HandshakeFailure Unit) := do
  match ← writeMVCPPrefix with
  | .error e => return .error (.wrapped (side ++ ": write prefix") e.text)
  | .ok () =>
    match loc.marshalBinary sortSlice with
    | .error e => return .error (.wrapped (side ++ ": encode hello") e)
    | .ok body =>
      match ← writeMVCPFrame (helloFrame body) with
      | .error e => return .error (.wrapped (side ++ ": write hello") e.text)
      | .ok () => return .ok ()

/-- The end of both sides: negotiate and enforce the requirements. -/
def settle (peer loc : Hello) (reqs : Requirements) : Conn HandshakeResult := do
  let negotiated := negotiate peer.advertised loc.advertised
  match reqs.check negotiated with
  | .error e =>
    let _ ← writeHandshakeError errorCodeNoCommonCapability e
    return .error (.rejected errorCodeNoCommonCapability e)
  | .ok () => return .ok (peer, negotiated)

/-- `ServerHandshake`. -/
def serverHandshake (sortSlice : SortByID) (deadline : Deadline) (loc : Hello)
    (acceptRoles : List PeerRole) (reqs : Requirements) : Conn HandshakeResult := do
  match withHandshakeDeadline deadline with
  | .error e => return .error e
  | .ok () =>
    match ← sendHello "mvcp: server handshake" sortSlice loc with
    | .error e => return .error e
    | .ok () =>
      match ← readPeerHello with
      | .error e =>
        match e with
        | .malformed _ =>
          let _ ← writeHandshakeError errorCodeBadPayload e.text
          return .error (.wrapped "mvcp: server handshake: read peer hello" e.text)
        | _ => return .error (.wrapped "mvcp: server handshake: read peer hello" e.text)
      | .ok peer =>
        if roleAccepted peer.role acceptRoles then settle peer loc reqs
        else do
          let _ ← writeHandshakeError errorCodeUnexpectedRole (unexpectedRole peer.role)
          return .error (.rejected errorCodeUnexpectedRole (unexpectedRole peer.role))

/-- `ClientHandshake`. Until it has written its own prefix it replies nothing. -/
def clientHandshake (sortSlice : SortByID) (deadline : Deadline) (loc : Hello)
    (expectRoles : List PeerRole) (reqs : Requirements) : Conn HandshakeResult := do
  match withHandshakeDeadline deadline with
  | .error e => return .error e
  | .ok () =>
    match ← readPeerHello with
    | .error e => return .error (.wrapped "mvcp: client handshake: read peer hello" e.text)
    | .ok peer =>
      if roleAccepted peer.role expectRoles then do
        match ← sendHello "mvcp: client handshake" sortSlice loc with
        | .error e => return .error e
        | .ok () => settle peer loc reqs
      else return .error (.rejected errorCodeUnexpectedRole (unexpectedRole peer.role))

/-! ## What a byte stream holds -/

/-- The stream starts with the wire prefix and a frame of admissible size. -/
def Framed (input : Bytes) (f : Frame) (rest : Bytes) : Prop :=
  input = mvcpPrefix ++ (encodeMVCPFrame f ++ rest) ∧
    frameHeaderSize + f.body.length ≤ maxFrameSize

/-- The first frame of the stream is a well-formed HELLO. -/
def Sends (input : Bytes) (h : Hello) : Prop :=
  ∃ f rest, Framed input f rest ∧ f.typ = typeHELLO ∧ h.WellFormed ∧ f.body = h.layout

/-- The first frame of the stream is not a HELLO, or its body is malformed. -/
def Unusable (input : Bytes) : Prop :=
  ∃ f rest, Framed input f rest ∧
    (f.typ ≠ typeHELLO ∨ ¬ ∃ h : Hello, h.WellFormed ∧ f.body = h.layout)

/-! ## Reading the prefix and the frame -/

theorem run_validateMVCPPrefix (input : Bytes) :
    (∃ rest, input = mvcpPrefix ++ rest ∧
      validateMVCPPrefix.run atEOF input = ⟨.ok (), [], rest⟩) ∨
    (∀ rest, input ≠ mvcpPrefix ++ rest) ∧ ∃ e unread, e.isWire = true ∧
      validateMVCPPrefix.run atEOF input = ⟨.error e, [], unread⟩ := by
  simp only [validateMVCPPrefix, Proc.run_bind, Conn.run_readFull]
  by_cases hlen : 5 ≤ input.length
  · rw [if_pos hlen]
    dsimp only
    split_ifs with hm hv
    · refine .inr ⟨fun rest he => hm ?_, _, _, rfl, rfl⟩
      simp [he, mvcpPrefix, mvcpMagic]
    · refine .inr ⟨fun rest he => hv ?_, _, _, rfl, rfl⟩
      simp [he, mvcpPrefix, mvcpMagic]
    · refine .inl ⟨input.drop 5, ?_, rfl⟩
      have h₅ : input.take 5 = mvcpPrefix := by
        rw [← List.take_append_drop 4 (input.take 5), not_not.mp hm, not_not.mp hv, mvcpPrefix]
      rw [← h₅, List.take_append_drop]
  · rw [if_neg hlen]
    refine .inr ⟨?_, _, _, rfl, rfl⟩
    rintro rest rfl
    simp [mvcpPrefix, mvcpMagic] at hlen

/-- The frame a stream starts with is determined by the stream. -/
theorem Framed.unique {input : Bytes} {f f' : Frame} {rest rest' : Bytes}
    (h : Framed input f rest) (h' : Framed input f' rest') : f = f' := by
  have he : encodeMVCPFrame f ++ rest = encodeMVCPFrame f' ++ rest' :=
    List.append_cancel_left (h.1.symm.trans h'.1)
  have hr := run_readMVCPFrame_append h.2 rest
  rw [he, run_readMVCPFrame_append h'.2] at hr
  injection hr with hf
  exact (Except.ok.inj hf).symm

/-! ## Reading the peer's HELLO -/

/-- **What `readPeerHello` does on any stream**: it returns the HELLO the stream sends, reports a
malformed one for any other framed stream, and fails without one otherwise. -/
theorem run_readPeerHello (input : Bytes) :
    (∃ h unread, Sends input h ∧ readPeerHello.run atEOF input = ⟨.ok h, [], unread⟩) ∨
    (Unusable input ∧ ∃ detail unread,
      readPeerHello.run atEOF input = ⟨.error (.malformed detail), [], unread⟩) ∨
    (∀ f rest, ¬ Framed input f rest) ∧ ∃ e unread, e.isWire = true ∧
      readPeerHello.run atEOF input = ⟨.error e, [], unread⟩ := by
  rcases run_validateMVCPPrefix input with ⟨rest, rfl, hv⟩ | ⟨hno, e, unread, hw, hv⟩
  swap
  · refine .inr (.inr ⟨fun f rest hf => hno _ hf.1, e, unread, hw, ?_⟩)
    simp [readPeerHello, hv]
  rcases run_readMVCPFrame rest with ⟨f, rest', rfl, hsize, hr⟩ | ⟨hno, e, unread, hr⟩
  swap
  · refine .inr (.inr ⟨fun f rest' hf => ?_, .frame e, unread, rfl, ?_⟩)
    · exact hno f rest' (List.append_cancel_left hf.1) hf.2
    · simp [readPeerHello, hv, hr]
  have hf : Framed (mvcpPrefix ++ (encodeMVCPFrame f ++ rest')) f rest' := ⟨rfl, hsize⟩
  by_cases ht : f.typ = typeHELLO
  swap
  · refine .inr (.inl ⟨⟨f, rest', hf, .inl ht⟩, "expected HELLO, got 0x" ++ hex02 f.typ, rest', ?_⟩)
    simp [readPeerHello, hv, hr, ht]
  cases hu : Hello.unmarshalBinary f.body with
  | ok h =>
    obtain ⟨hw, hb⟩ := Hello.unmarshalBinary_eq_ok.mp hu
    refine .inl ⟨h, rest', ⟨f, rest', hf, ht, hw, hb⟩, ?_⟩
    simp [readPeerHello, hv, hr, ht, hu, Except.mapError]
  | error detail =>
    refine .inr (.inl ⟨⟨f, rest', hf, .inr ?_⟩, detail, rest', ?_⟩)
    · rintro ⟨h, hh⟩
      simp [Hello.unmarshalBinary_eq_ok.mpr hh] at hu
    · simp [readPeerHello, hv, hr, ht, hu, Except.mapError]

/-- A stream sends at most one HELLO. -/
theorem Sends.unique {input : Bytes} {h h' : Hello} (hs : Sends input h) (hs' : Sends input h') :
    h = h' := by
  obtain ⟨f, rest, hf, -, hw, hb⟩ := hs
  obtain ⟨f', rest', hf', -, hw', hb'⟩ := hs'
  obtain rfl := hf.unique hf'
  have hu := Hello.unmarshalBinary_eq_ok.mpr ⟨hw, hb⟩
  rw [Hello.unmarshalBinary_eq_ok.mpr ⟨hw', hb'⟩] at hu
  exact (Except.ok.inj hu).symm

theorem Sends.not_unusable {input : Bytes} {h : Hello} (hs : Sends input h) : ¬ Unusable input := by
  obtain ⟨f, rest, hf, ht, hw⟩ := hs
  rintro ⟨f', rest', hf', hbad⟩
  obtain rfl := hf.unique hf'
  exact hbad.elim (fun hn => hn ht) fun hn => hn ⟨h, hw⟩

/-! ## The outcome of a handshake -/

/-- The prefix and the HELLO a side sends. -/
def greeting (body : Bytes) : Bytes := mvcpPrefix ++ encodeMVCPFrame (helloFrame body)

section

variable {sortSlice : SortByID} {loc : Hello} {body : Bytes}

theorem run_sendHello (side : String) (hloc : loc.marshalBinary sortSlice = .ok body)
    (input : Bytes) :
    (sendHello side sortSlice loc).run atEOF input = ⟨.ok (), greeting body, input⟩ := by
  simp [sendHello, writeMVCPPrefix, writeMVCPFrame, hloc, greeting]

/-- The requirements decide the end of a handshake. -/
theorem run_settle (peer loc : Hello) (reqs : Requirements) (input : Bytes) :
    reqs.Satisfied (negotiate peer.advertised loc.advertised) ∧
      (settle peer loc reqs).run atEOF input =
        ⟨.ok (peer, negotiate peer.advertised loc.advertised), [], input⟩ ∨
    ¬ reqs.Satisfied (negotiate peer.advertised loc.advertised) ∧ ∃ e message,
      (settle peer loc reqs).run atEOF input = ⟨.error e,
        encodeMVCPFrame (errorFrame errorCodeNoCommonCapability message), input⟩ := by
  rw [← Requirements.check_eq_ok]
  cases hc : reqs.check (negotiate peer.advertised loc.advertised) with
  | ok u => exact .inl ⟨rfl, by simp [settle, hc]⟩
  | error message =>
    refine .inr ⟨by simp, .rejected errorCodeNoCommonCapability message, message, ?_⟩
    simp [settle, hc, writeHandshakeError, writeMVCPFrame]

theorem roleAccepted_iff {role : PeerRole} {roles : List PeerRole} :
    roleAccepted role roles = true ↔ role ∈ roles := by
  simp [roleAccepted]

/-- How a stream is judged. -/
inductive Verdict
  /-- There is no frame to answer. -/
  | silent
  | rejected (code : UInt16)
  | accepted (peer : Hello) (negotiated : NegotiatedCapabilities)

/-- The verdict of a side with the HELLO `loc` on a stream, the first reason that applies. -/
inductive Judged (loc : Hello) (roles : List PeerRole) (reqs : Requirements) (input : Bytes) :
    Verdict → Prop
  | unframed (h : ∀ f rest, ¬ Framed input f rest) : Judged loc roles reqs input .silent
  | unusable (h : Unusable input) : Judged loc roles reqs input (.rejected errorCodeBadPayload)
  | role {peer : Hello} (hs : Sends input peer) (hr : peer.role ∉ roles) :
      Judged loc roles reqs input (.rejected errorCodeUnexpectedRole)
  | requirements {peer : Hello} (hs : Sends input peer) (hr : peer.role ∈ roles)
      (hn : ¬ reqs.Satisfied (negotiate peer.advertised loc.advertised)) :
      Judged loc roles reqs input (.rejected errorCodeNoCommonCapability)
  | accepted {peer : Hello} (hs : Sends input peer) (hr : peer.role ∈ roles)
      (hn : reqs.Satisfied (negotiate peer.advertised loc.advertised)) :
      Judged loc roles reqs input (.accepted peer (negotiate peer.advertised loc.advertised))

/-- What the server wrote and returned carries out the verdict. -/
def ServerReports (e : Proc.Ended HandshakeResult) (hello : Bytes) : Verdict → Prop
  | .silent => e.written = hello ∧ ∃ err, e.result = .error err
  | .rejected code => (∃ message, e.written = hello ++ encodeMVCPFrame (errorFrame code message)) ∧
      ∃ err, e.result = .error err
  | .accepted peer negotiated => e.written = hello ∧ e.result = .ok (peer, negotiated)

/-- What the client wrote and returned carries out the verdict: it has greeted nobody it refuses
by its role. -/
def ClientReports (e : Proc.Ended HandshakeResult) (hello : Bytes) : Verdict → Prop
  | .silent => e.written = [] ∧ ∃ err, e.result = .error err
  | .rejected code =>
    (if code = errorCodeNoCommonCapability then
      ∃ message, e.written = hello ++ encodeMVCPFrame (errorFrame code message)
    else e.written = []) ∧ ∃ err, e.result = .error err
  | .accepted peer negotiated => e.written = hello ∧ e.result = .ok (peer, negotiated)

/-- **`ServerHandshake` on any stream.** -/
theorem run_serverHandshake (hloc : loc.marshalBinary sortSlice = .ok body)
    (roles : List PeerRole) (reqs : Requirements) (input : Bytes) :
    ∃ v, Judged loc roles reqs input v ∧ ServerReports
      ((serverHandshake sortSlice .armed loc roles reqs).run atEOF input) (greeting body) v := by
  rcases run_readPeerHello input with ⟨h, unread, hs, hr⟩ | ⟨hu, detail, unread, hr⟩ |
    ⟨hno, e, unread, hw, hr⟩
  · by_cases hrole : h.role ∈ roles
    · rcases run_settle h loc reqs unread with ⟨hsat, hrun⟩ | ⟨hsat, e, message, hrun⟩
      · refine ⟨_, .accepted hs hrole hsat, ?_⟩
        simp [ServerReports, serverHandshake, withHandshakeDeadline, run_sendHello _ hloc, hr,
          roleAccepted_iff.mpr hrole, hrun]
      · refine ⟨_, .requirements hs hrole hsat, ?_⟩
        simp [ServerReports, serverHandshake, withHandshakeDeadline, run_sendHello _ hloc, hr,
          roleAccepted_iff.mpr hrole, hrun]
        exact ⟨_, rfl⟩
    · have hacc : roleAccepted h.role roles = false := by
        simpa using mt roleAccepted_iff.mp hrole
      refine ⟨_, .role hs hrole, ?_⟩
      simp [ServerReports, serverHandshake, withHandshakeDeadline, run_sendHello _ hloc, hr, hacc,
        writeHandshakeError, writeMVCPFrame]
      exact ⟨_, rfl⟩
  · refine ⟨_, .unusable hu, ?_⟩
    simp [ServerReports, serverHandshake, withHandshakeDeadline, run_sendHello _ hloc, hr,
      writeHandshakeError, writeMVCPFrame]
    exact ⟨_, rfl⟩
  · refine ⟨_, .unframed hno, ?_⟩
    cases e with
    | malformed detail => simp [PeerHelloError.isWire] at hw
    | _ =>
      simp [ServerReports, serverHandshake, withHandshakeDeadline, run_sendHello _ hloc, hr]

/-- **`ClientHandshake` on any stream.** -/
theorem run_clientHandshake (hloc : loc.marshalBinary sortSlice = .ok body)
    (roles : List PeerRole) (reqs : Requirements) (input : Bytes) :
    ∃ v, Judged loc roles reqs input v ∧ ClientReports
      ((clientHandshake sortSlice .armed loc roles reqs).run atEOF input) (greeting body) v := by
  rcases run_readPeerHello input with ⟨h, unread, hs, hr⟩ | ⟨hu, detail, unread, hr⟩ |
    ⟨hno, e, unread, hw, hr⟩
  · by_cases hrole : h.role ∈ roles
    · rcases run_settle h loc reqs unread with ⟨hsat, hrun⟩ | ⟨hsat, e, message, hrun⟩
      · refine ⟨_, .accepted hs hrole hsat, ?_⟩
        simp [ClientReports, clientHandshake, withHandshakeDeadline, run_sendHello _ hloc, hr,
          roleAccepted_iff.mpr hrole, hrun]
      · refine ⟨_, .requirements hs hrole hsat, ?_⟩
        simp [ClientReports, clientHandshake, withHandshakeDeadline, run_sendHello _ hloc, hr,
          roleAccepted_iff.mpr hrole, hrun]
        exact ⟨_, rfl⟩
    · have hacc : roleAccepted h.role roles = false := by
        simpa using mt roleAccepted_iff.mp hrole
      refine ⟨_, .role hs hrole, ?_⟩
      simp [ClientReports, clientHandshake, withHandshakeDeadline, hr, hacc,
        errorCodeUnexpectedRole, errorCodeNoCommonCapability]
  · refine ⟨_, .unusable hu, ?_⟩
    simp [ClientReports, clientHandshake, withHandshakeDeadline, hr, errorCodeBadPayload,
      errorCodeNoCommonCapability]
  · refine ⟨_, .unframed hno, ?_⟩
    simp [ClientReports, clientHandshake, withHandshakeDeadline, hr]

/-- A stream has one verdict. -/
theorem Judged.unique {roles : List PeerRole} {reqs : Requirements} {input : Bytes}
    {v v' : Verdict} (h : Judged loc roles reqs input v) (h' : Judged loc roles reqs input v') :
    v = v' := by
  -- a stream that sends a HELLO is framed and usable
  have hframed {peer : Hello} (hs : Sends input peer) (hno : ∀ f rest, ¬ Framed input f rest) :
      False := by
    obtain ⟨f, rest, hf, -⟩ := hs
    exact hno f rest hf
  have huse (hu : Unusable input) (hno : ∀ f rest, ¬ Framed input f rest) : False := by
    obtain ⟨f, rest, hf, -⟩ := hu
    exact hno f rest hf
  cases h with
  | unframed hno =>
    cases h' with
    | unframed => rfl
    | unusable hu => exact (huse hu hno).elim
    | role hs | requirements hs | accepted hs => exact (hframed hs hno).elim
  | unusable hu =>
    cases h' with
    | unframed hno => exact (huse hu hno).elim
    | unusable => rfl
    | role hs | requirements hs | accepted hs => exact (hs.not_unusable hu).elim
  | role hs hr =>
    cases h' with
    | unframed hno => exact (hframed hs hno).elim
    | unusable hu => exact (hs.not_unusable hu).elim
    | role => rfl
    | requirements hs' hr' | accepted hs' hr' => exact (hr (hs.unique hs' ▸ hr')).elim
  | requirements hs hr hn =>
    cases h' with
    | unframed hno => exact (hframed hs hno).elim
    | unusable hu => exact (hs.not_unusable hu).elim
    | role hs' hr' => exact (hr' (hs.unique hs' ▸ hr)).elim
    | requirements => rfl
    | accepted hs' hr' hn' => exact (hn (hs.unique hs' ▸ hn')).elim
  | accepted hs hr hn =>
    cases h' with
    | unframed hno => exact (hframed hs hno).elim
    | unusable hu => exact (hs.not_unusable hu).elim
    | role hs' hr' => exact (hr' (hs.unique hs' ▸ hr)).elim
    | requirements hs' hr' hn' => exact (hn' (hs.unique hs' ▸ hn)).elim
    | accepted hs' =>
      obtain rfl := hs.unique hs'
      rfl

/-- The code of an ERROR frame can be read off its bytes. -/
theorem errorFrame_code {code code' : UInt16} {message message' : String}
    (h : encodeMVCPFrame (errorFrame code message) =
      encodeMVCPFrame (errorFrame code' message')) : code = code' := by
  have hlen (v w : UInt32) : (writeUint32 v).length = (writeUint32 w).length := by
    simp [writeUint32]
  -- the length prefix and the header have the same number of bytes in both frames
  obtain ⟨-, h⟩ := List.append_inj h (hlen _ _)
  have hbody : writeUint16 code ++ writeString (text message) =
      writeUint16 code' ++ writeString (text message') := by
    simpa [errorFrame] using h
  have hread := readUint16_append code (writeString (text message))
  rw [hbody, readUint16_append] at hread
  exact (Prod.mk.inj (Except.ok.inj hread)).1.symm

theorem encodeMVCPFrame_ne_nil (f : Frame) : encodeMVCPFrame f ≠ [] := by
  simp [encodeMVCPFrame]

section

variable {e : Proc.Ended HandshakeResult} {hello : Bytes} {v : Verdict}

theorem ServerReports.rejected_iff (h : ServerReports e hello v) {code : UInt16} :
    (∃ message, e.written = hello ++ encodeMVCPFrame (errorFrame code message)) ↔
      v = .rejected code := by
  constructor
  · rintro ⟨message, hw⟩
    cases v with
    | silent =>
      have hnil := List.append_right_eq_self.mp (hw.symm.trans h.1)
      exact absurd hnil (encodeMVCPFrame_ne_nil _)
    | accepted peer negotiated =>
      have hnil := List.append_right_eq_self.mp (hw.symm.trans h.1)
      exact absurd hnil (encodeMVCPFrame_ne_nil _)
    | rejected code' =>
      obtain ⟨⟨message', hw'⟩, -⟩ := h
      rw [errorFrame_code (List.append_cancel_left (hw.symm.trans hw'))]
  · rintro rfl
    exact h.1

theorem ServerReports.accepted_iff (h : ServerReports e hello v) {peer : Hello}
    {negotiated : NegotiatedCapabilities} :
    e.result = .ok (peer, negotiated) ↔ v = .accepted peer negotiated := by
  constructor
  · intro hr
    cases v with
    | silent | rejected code =>
      obtain ⟨-, err, herr⟩ := h
      simp [herr] at hr
    | accepted peer' negotiated' =>
      obtain ⟨rfl, rfl⟩ := Prod.mk.inj (Except.ok.inj (hr.symm.trans h.2))
      rfl
  · rintro rfl
    exact h.2

end

section

variable {roles : List PeerRole} {reqs : Requirements} {input : Bytes}

theorem Judged.rejected_iff {code : UInt16} : Judged loc roles reqs input (.rejected code) ↔
    code = errorCodeBadPayload ∧ Unusable input ∨
      ∃ peer, Sends input peer ∧ (code = errorCodeUnexpectedRole ∧ peer.role ∉ roles ∨
        code = errorCodeNoCommonCapability ∧ peer.role ∈ roles ∧
          ¬ reqs.Satisfied (negotiate peer.advertised loc.advertised)) := by
  constructor
  · intro h
    cases h with
    | unusable hu => exact .inl ⟨rfl, hu⟩
    | role hs hr => exact .inr ⟨_, hs, .inl ⟨rfl, hr⟩⟩
    | requirements hs hr hn => exact .inr ⟨_, hs, .inr ⟨rfl, hr, hn⟩⟩
  · rintro (⟨rfl, hu⟩ | ⟨peer, hs, ⟨rfl, hr⟩ | ⟨rfl, hr, hn⟩⟩)
    · exact .unusable hu
    · exact .role hs hr
    · exact .requirements hs hr hn

theorem Judged.accepted_iff {peer : Hello} {negotiated : NegotiatedCapabilities} :
    Judged loc roles reqs input (.accepted peer negotiated) ↔
      Sends input peer ∧ peer.role ∈ roles ∧
        negotiated = negotiate peer.advertised loc.advertised ∧ reqs.Satisfied negotiated := by
  constructor
  · intro h
    cases h with
    | accepted hs hr hn => exact ⟨hs, hr, rfl, hn⟩
  · rintro ⟨hs, hr, rfl, hn⟩
    exact .accepted hs hr hn

end

/-- **The outcome of a handshake on arbitrary bytes.** The server sends its prefix and its HELLO
and then at most one ERROR frame; it sends one with a code exactly for the first reason that
applies to a framed stream, and succeeds exactly when the stream sends an acceptable HELLO. The
client writes nothing to a peer it cannot read or does not expect, and no ERROR frame other than
for its requirements, behind its own HELLO. -/
theorem handshake_outcome (hloc : loc.marshalBinary sortSlice = .ok body)
    (roles : List PeerRole) (reqs : Requirements) (input : Bytes) :
    let server := (serverHandshake sortSlice .armed loc roles reqs).run atEOF input
    let client := (clientHandshake sortSlice .armed loc roles reqs).run atEOF input
    (server.written = greeting body ∨ ∃ code message,
      server.written = greeting body ++ encodeMVCPFrame (errorFrame code message)) ∧
    (∀ code, (∃ message,
        server.written = greeting body ++ encodeMVCPFrame (errorFrame code message)) ↔
      code = errorCodeBadPayload ∧ Unusable input ∨
        ∃ peer, Sends input peer ∧ (code = errorCodeUnexpectedRole ∧ peer.role ∉ roles ∨
          code = errorCodeNoCommonCapability ∧ peer.role ∈ roles ∧
            ¬ reqs.Satisfied (negotiate peer.advertised loc.advertised))) ∧
    (∀ peer negotiated, server.result = .ok (peer, negotiated) ↔
      Sends input peer ∧ peer.role ∈ roles ∧
        negotiated = negotiate peer.advertised loc.advertised ∧ reqs.Satisfied negotiated) ∧
    ((¬ ∃ peer, Sends input peer ∧ peer.role ∈ roles) → client.written = []) ∧
    (∀ peer, Sends input peer → peer.role ∈ roles →
      (reqs.Satisfied (negotiate peer.advertised loc.advertised) →
        client.written = greeting body) ∧
      (¬ reqs.Satisfied (negotiate peer.advertised loc.advertised) → ∃ message, client.written =
        greeting body ++ encodeMVCPFrame (errorFrame errorCodeNoCommonCapability message))) := by
  obtain ⟨v, hv, hserver⟩ := run_serverHandshake hloc roles reqs input
  obtain ⟨w, hw, hclient⟩ := run_clientHandshake hloc roles reqs input
  refine ⟨?_, fun code => ?_, fun peer negotiated => ?_, fun hno => ?_, fun peer hs hr => ⟨?_, ?_⟩⟩
  · cases v with
    | silent | accepted => exact .inl hserver.1
    | rejected code => exact .inr ⟨code, hserver.1⟩
  · rw [hserver.rejected_iff, ← Judged.rejected_iff]
    constructor
    · rintro rfl
      exact hv
    · exact hv.unique
  · rw [hserver.accepted_iff, ← Judged.accepted_iff]
    constructor
    · rintro rfl
      exact hv
    · exact hv.unique
  · cases hw with
    | unframed => exact hclient.1
    | unusable | role => simpa [errorCodeBadPayload, errorCodeUnexpectedRole,
        errorCodeNoCommonCapability] using hclient.1
    | requirements hs hr | accepted hs hr => exact (hno ⟨_, hs, hr⟩).elim
  · intro hn
    rw [hw.unique (.accepted hs hr hn)] at hclient
    exact hclient.1
  · intro hn
    rw [hw.unique (.requirements hs hr hn)] at hclient
    simpa [ClientReports] using hclient.1

/-- A core that greets a handler which expects no core. -/
theorem handshake_outcome_role :
    let loc : Hello := ⟨roleVHandler, [], []⟩
    let core : Hello := ⟨roleCore, [], []⟩
    ∃ message, ((serverHandshake insertionSortByID .armed loc [roleVHandler] ⟨[], by decide⟩).run
        atEOF (greeting core.layout)).written =
      greeting loc.layout ++ encodeMVCPFrame (errorFrame errorCodeUnexpectedRole message) := by
  intro loc core
  have hloc : loc.marshalBinary insertionSortByID = .ok loc.layout := rfl
  have hout := handshake_outcome hloc [roleVHandler] ⟨[], by decide⟩ (greeting core.layout)
  refine (hout.2.1 _).mpr (.inr ⟨core, ⟨helloFrame core.layout, [], ⟨?_, ?_⟩, rfl, ?_, rfl⟩, ?_⟩)
  · simp [greeting]
  · decide
  · exact ⟨by decide, by decide, by decide, by decide, by decide⟩
  · exact .inl ⟨rfl, by decide⟩

end

end Mvcp
