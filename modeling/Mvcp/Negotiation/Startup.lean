import Mathlib.Data.Nat.Digits.Defs
import Mathlib.Data.String.Basic
import Mvcp.Negotiation.Agreement

/-!
# The start of a connection

The handshake and the frames of a connection share one byte stream: what follows the peer's HELLO
belongs to whoever reads frames next. A side that finishes its handshake has consumed the peer's
prefix and HELLO and no byte more, so the frames that the peer sent behind them are read from the
first one on; among them the ERROR frame of a server that refuses a client which has accepted it.
The console channel starts with a handshake of four bytes, `conn.go`.

## Main definitions

* `Side`, `Side.handshake`: the two handshakes
* `startup`: a handshake, and the frames read after it
* `Vpp.writeVPPHandshake`, `Vpp.validateVPPHandshake`: the handshake of the console channel

## Main results

* `startup_eq_ok_iff`: a handshake and `k` frames are read exactly from the streams that hold them
* `refused_client_hears`: what a client reads first from a server that has refused it
* `Vpp.console_eq_ok_iff`: the handshake and the frames of a console connection
-/

namespace Mvcp

open Library (Proc)

/-! ## What a handshake consumes -/

/-- The stream starts with the prefix and the HELLO `h`, and `rest` follows. -/
def Opens (input : Bytes) (h : Hello) (rest : Bytes) : Prop :=
  ∃ f, Framed input f rest ∧ f.typ = typeHELLO ∧ h.WellFormed ∧ f.body = h.layout

theorem readPeerHello_eq_ok_iff {input rest written : Bytes} {h : Hello} :
    readPeerHello.run atEOF input = ⟨.ok h, written, rest⟩ ↔ Opens input h rest ∧ written = [] := by
  constructor
  · intro hrun
    rcases run_validateMVCPPrefix input with ⟨rest₁, rfl, hv⟩ | ⟨-, e, unread, -, hv⟩
    swap
    · simp [readPeerHello, hv] at hrun
    rcases run_readMVCPFrame rest₁ with ⟨f, rest₂, rfl, hsize, hr⟩ | ⟨-, e, unread, hr⟩
    swap
    · simp [readPeerHello, hv, hr] at hrun
    by_cases ht : f.typ = typeHELLO
    swap
    · simp [readPeerHello, hv, hr, ht] at hrun
    cases hu : Hello.unmarshalBinary f.body with
    | error detail => simp [readPeerHello, hv, hr, ht, hu, Except.mapError] at hrun
    | ok h' =>
      obtain ⟨rfl, rfl, rfl⟩ : h' = h ∧ written = [] ∧ rest₂ = rest := by
        simpa [readPeerHello, hv, hr, ht, hu, Except.mapError, eq_comm] using hrun
      obtain ⟨hw, hb⟩ := Hello.unmarshalBinary_eq_ok.mp hu
      exact ⟨⟨f, ⟨rfl, hsize⟩, ht, hw, hb⟩, rfl⟩
  · rintro ⟨⟨f, ⟨rfl, hsize⟩, ht, hw, hb⟩, rfl⟩
    have hu := Hello.unmarshalBinary_eq_ok.mpr ⟨hw, hb⟩
    have hv : validateMVCPPrefix.run atEOF (mvcpPrefix ++ (encodeMVCPFrame f ++ rest)) =
        ⟨.ok (), [], encodeMVCPFrame f ++ rest⟩ := by
      simp [validateMVCPPrefix, Conn.run_readFull, mvcpPrefix, mvcpMagic]
    simp [readPeerHello, hv, run_readMVCPFrame_append hsize, ht, hu, Except.mapError]

/-- The two sides of a handshake. -/
inductive Side
  | server
  | client

/-- The handshake of a side on a connection that takes deadlines. -/
def Side.handshake (sortSlice : SortByID) (loc : Hello) (roles : List PeerRole)
    (reqs : Requirements) : Side → Conn HandshakeResult
  | .server => serverHandshake sortSlice .armed loc roles reqs
  | .client => clientHandshake sortSlice .armed loc roles reqs

/-- A side accepts the peer, after it has sent its own HELLO. -/
structure Accepts (sortSlice : SortByID) (loc : Hello) (roles : List PeerRole)
    (reqs : Requirements) (written : Bytes) (peer : Hello) (negotiated : NegotiatedCapabilities) :
    Prop where
  sent : ∃ body, loc.marshalBinary sortSlice = .ok body ∧ written = greeting body
  role : peer.role ∈ roles
  agreed : negotiated = negotiate peer.advertised loc.advertised
  satisfied : reqs.Satisfied negotiated

section

variable {sortSlice : SortByID} {loc : Hello} {roles : List PeerRole} {reqs : Requirements}
  {input written rest : Bytes} {peer : Hello} {negotiated : NegotiatedCapabilities}

theorem Opens.unique {h h' : Hello} {rest' : Bytes} (ho : Opens input h rest)
    (ho' : Opens input h' rest') : h = h' ∧ rest = rest' := by
  have hrun := readPeerHello_eq_ok_iff.mpr ⟨ho, rfl⟩
  have hrun' := readPeerHello_eq_ok_iff.mpr ⟨ho', rfl⟩
  simpa using hrun.symm.trans hrun'

/-- A side that has read the HELLO `h` succeeds when it may, and then with `h`. -/
theorem eq_ok_iff_of_opens {e : Proc.Ended HandshakeResult} {body unread : Bytes} {h : Hello}
    (hloc : loc.marshalBinary sortSlice = .ok body) (ho : Opens input h unread)
    (hok : h.role ∈ roles → reqs.Satisfied (negotiate h.advertised loc.advertised) →
      e = ⟨.ok (h, negotiate h.advertised loc.advertised), greeting body, unread⟩)
    (hno : ¬ (h.role ∈ roles ∧ reqs.Satisfied (negotiate h.advertised loc.advertised)) →
      Failed e.result) :
    e = ⟨.ok (peer, negotiated), written, rest⟩ ↔
      Opens input peer rest ∧ Accepts sortSlice loc roles reqs written peer negotiated := by
  by_cases hacc : h.role ∈ roles ∧ reqs.Satisfied (negotiate h.advertised loc.advertised)
  · rw [hok hacc.1 hacc.2]
    constructor
    · intro heq
      obtain ⟨⟨rfl, rfl⟩, rfl, rfl⟩ :
          (h = peer ∧ negotiate h.advertised loc.advertised = negotiated) ∧
            greeting body = written ∧ unread = rest := by
        simpa using heq
      exact ⟨ho, ⟨body, hloc, rfl⟩, hacc.1, rfl, hacc.2⟩
    · rintro ⟨ho', ⟨body', hloc', rfl⟩, -, rfl, -⟩
      obtain ⟨rfl, rfl⟩ := ho.unique ho'
      obtain rfl := Except.ok.inj (hloc.symm.trans hloc')
      rfl
  · obtain ⟨err, herr⟩ := hno hacc
    constructor
    · rintro rfl
      simp at herr
    · rintro ⟨ho', -, hrole, rfl, hsat⟩
      obtain ⟨rfl, rfl⟩ := ho.unique ho'
      exact absurd ⟨hrole, hsat⟩ hacc

/-- A side that has no HELLO to send does not succeed. -/
theorem failed_of_unsendable {e : String} (side : Side)
    (hloc : loc.marshalBinary sortSlice = .error e) :
    Failed ((side.handshake sortSlice loc roles reqs).run atEOF input).result := by
  cases side with
  | server =>
    simp [Failed, Side.handshake, serverHandshake, withHandshakeDeadline, sendHello,
      writeMVCPPrefix, hloc]
  | client =>
    rcases hr : readPeerHello.run atEOF input with ⟨e' | h, w, unread⟩
    · simp [Failed, Side.handshake, clientHandshake, withHandshakeDeadline, hr]
    · by_cases hrole : roleAccepted h.role roles = true <;>
        simp [Failed, Side.handshake, clientHandshake, withHandshakeDeadline, hr, hrole, sendHello,
          writeMVCPPrefix, hloc]

/-- Neither does a side that reads no HELLO. -/
theorem failed_of_unread {body w unread : Bytes} {e : PeerHelloError} (side : Side)
    (hloc : loc.marshalBinary sortSlice = .ok body)
    (hr : readPeerHello.run atEOF input = ⟨.error e, w, unread⟩) :
    Failed ((side.handshake sortSlice loc roles reqs).run atEOF input).result := by
  cases side with
  | server =>
    cases e <;> simp [Failed, Side.handshake, serverHandshake, withHandshakeDeadline,
      run_sendHello _ hloc, hr]
  | client => simp [Failed, Side.handshake, clientHandshake, withHandshakeDeadline, hr]

/-- **A handshake succeeds on the streams that open with an acceptable HELLO, and consumes just
that.** -/
theorem handshake_eq_ok_iff (side : Side) :
    (side.handshake sortSlice loc roles reqs).run atEOF input =
        ⟨.ok (peer, negotiated), written, rest⟩ ↔
      Opens input peer rest ∧ Accepts sortSlice loc roles reqs written peer negotiated := by
  cases hloc : loc.marshalBinary sortSlice with
  | error e =>
    obtain ⟨err, herr⟩ :
        Failed ((side.handshake sortSlice loc roles reqs).run atEOF input).result :=
      failed_of_unsendable side hloc
    constructor
    · intro hrun
      simp [hrun] at herr
    · rintro ⟨-, ⟨body, hbody, -⟩, -⟩
      simp [hloc] at hbody
  | ok body =>
    rcases hr : readPeerHello.run atEOF input with ⟨e | h, w, unread⟩
    · obtain ⟨err, herr⟩ :
          Failed ((side.handshake sortSlice loc roles reqs).run atEOF input).result :=
        failed_of_unread side hloc hr
      constructor
      · intro hrun
        simp [hrun] at herr
      · rintro ⟨ho, -⟩
        simp [readPeerHello_eq_ok_iff.mpr ⟨ho, rfl⟩] at hr
    obtain ⟨ho, rfl⟩ := readPeerHello_eq_ok_iff.mp hr
    refine eq_ok_iff_of_opens hloc ho (fun hrole hsat => ?_) fun hno => ?_
    · obtain ⟨-, hrun⟩ := (run_settle h loc reqs unread).resolve_right fun hn => hn.1 hsat
      cases side <;> simp [Side.handshake, serverHandshake, clientHandshake, withHandshakeDeadline,
        run_sendHello _ hloc, hr, roleAccepted_iff.mpr hrole, hrun]
    · by_cases hrole : h.role ∈ roles
      · obtain ⟨-, err, message, hrun⟩ := (run_settle h loc reqs unread).resolve_left fun hy =>
          hno ⟨hrole, hy.1⟩
        cases side <;> simp [Failed, Side.handshake, serverHandshake, clientHandshake,
          withHandshakeDeadline, run_sendHello _ hloc, hr, roleAccepted_iff.mpr hrole, hrun]
      · have hacc : roleAccepted h.role roles = false := by
          simpa using mt roleAccepted_iff.mp hrole
        cases side <;> simp [Failed, Side.handshake, serverHandshake, clientHandshake,
          withHandshakeDeadline, run_sendHello _ hloc, hr, hacc]

/-! ## The frames behind the handshake -/

/-- A side of a connection: its handshake, and the first `k` frames that are read after it. -/
def startup (handshake : Conn HandshakeResult) (k : ℕ) :
    Conn (HandshakeResult × Except FrameError (List Frame)) := handshake.before readMVCPFrame k

/-- **Nothing is lost between the handshake and the frames.** However the bytes of the peer are
cut, a side accepts the peer and then reads the frames `fs` exactly when the peer sent the prefix,
an acceptable HELLO and these frames, one behind the other, each within the reader's size limit; it
leaves what follows them. -/
theorem startup_eq_ok_iff (side : Side) (k : ℕ) (segs : List Bytes) (fs : List Frame) :
    (startup (side.handshake sortSlice loc roles reqs) k).runSegments atEOF segs =
        ⟨(.ok (peer, negotiated), .ok fs), written, rest⟩ ↔
      (Opens segs.flatten peer (fs.flatMap encodeMVCPFrame ++ rest) ∧
        Accepts sortSlice loc roles reqs written peer negotiated) ∧
        fs.length = k ∧ ∀ f ∈ fs, f.Admissible := by
  rw [Proc.runSegments_eq, startup, framing_mvcp.run_before_eq_ok_iff, handshake_eq_ok_iff]

end

/-! ## A refused client -/

theorem utf8ByteSize_le (t : String) : t.utf8ByteSize ≤ 4 * t.length := by
  have hlen (cs : List Char) : String.utf8Len cs ≤ 4 * cs.length := by
    induction cs with
    | nil => simp
    | cons c cs ih =>
      have hc := c.utf8Size_le_four
      simp only [String.utf8Len_cons, List.length_cons]
      omega
  have h := hlen t.toList
  rwa [← String.utf8ByteSize_ofList, String.ofList_toList, String.length_toList] at h

theorem utf8ByteSize_toString_le {n : ℕ} (h : n < 65536) : (toString n).utf8ByteSize ≤ 20 := by
  have hlen : (toString n).length ≤ 5 := Nat.repr_length n 5 (by decide) (h.trans (by decide))
  have := utf8ByteSize_le (toString n)
  omega

theorem utf8ByteSize_hex02_le (v : UInt8) : (hex02 v).utf8ByteSize ≤ 8 := by
  simpa [hex02] using utf8ByteSize_le (hex02 v)

/-- The texts of a refusal are short. -/
theorem unexpectedRole_le (role : PeerRole) : (unexpectedRole role).utf8ByteSize ≤ 200 := by
  have hlt : role.toNat < 65536 := role.toNat_lt.trans (by norm_num)
  have hrole := utf8ByteSize_toString_le hlt
  have htext : "unexpected peer role ".utf8ByteSize = 21 := by rfl
  have h : (unexpectedRole role).utf8ByteSize =
      "unexpected peer role ".utf8ByteSize + (toString role.toNat).utf8ByteSize :=
    String.utf8ByteSize_append
  rw [h, htext]
  exact (Nat.add_le_add_left hrole 21).trans (by decide)

theorem checkEntries_le {n : NegotiatedCapabilities} {es : List (CapabilityID × UInt16)}
    {message : String} (h : Requirements.checkEntries n es = .error message) :
    message.utf8ByteSize ≤ 200 := by
  induction es with
  | nil => simp [Requirements.checkEntries] at h
  | cons e es ih =>
    obtain ⟨id, minRev⟩ := e
    have hid := utf8ByteSize_hex02_le id
    have hmin := utf8ByteSize_toString_le (n := minRev.toNat) minRev.toNat_lt
    have htext : "mvcp: capability 0x".utf8ByteSize = 19 ∧
        " not negotiated (required >= ".utf8ByteSize = 29 ∧ ")".utf8ByteSize = 1 ∧
        " negotiated at revision ".utf8ByteSize = 24 ∧ ", required >= ".utf8ByteSize = 14 := by
      decide
    simp only [Requirements.checkEntries] at h
    split at h
    · obtain rfl := Except.error.inj h
      simp only [String.utf8ByteSize_append]
      omega
    · next rev _ =>
      have hrev := utf8ByteSize_toString_le (n := rev.toNat) rev.toNat_lt
      split_ifs at h
      · obtain rfl := Except.error.inj h
        simp only [String.utf8ByteSize_append]
        omega
      · exact ih h

/-- What a server that returns a `HandshakeError` has written. -/
theorem serverHandshake_rejected {sortSlice : SortByID} {loc : Hello} {roles : List PeerRole}
    {reqs : Requirements} {input body : Bytes} {code : UInt16} {message : String}
    (hloc : loc.marshalBinary sortSlice = .ok body)
    (h : ((serverHandshake sortSlice .armed loc roles reqs).run atEOF input).result =
      .error (.rejected code message)) :
    ((serverHandshake sortSlice .armed loc roles reqs).run atEOF input).written =
      greeting body ++ encodeMVCPFrame (errorFrame code message) ∧ message.utf8ByteSize ≤ 200 := by
  rcases hr : readPeerHello.run atEOF input with ⟨e | p, w, unread⟩
  · cases e <;> simp [serverHandshake, withHandshakeDeadline, run_sendHello _ hloc, hr] at h
  obtain ⟨-, rfl⟩ := readPeerHello_eq_ok_iff.mp hr
  cases hrole : roleAccepted p.role roles with
  | false =>
    obtain ⟨rfl, rfl⟩ : errorCodeUnexpectedRole = code ∧ unexpectedRole p.role = message := by
      simpa [serverHandshake, withHandshakeDeadline, run_sendHello _ hloc, hr, hrole] using h
    refine ⟨?_, unexpectedRole_le p.role⟩
    simp [serverHandshake, withHandshakeDeadline, run_sendHello _ hloc, hr, hrole,
      writeHandshakeError, writeMVCPFrame]
  | true =>
    cases hc : reqs.check (negotiate p.advertised loc.advertised) with
    | ok u =>
      simp [serverHandshake, withHandshakeDeadline, run_sendHello _ hloc, hr, hrole, settle, hc]
        at h
    | error e =>
      obtain ⟨rfl, rfl⟩ : errorCodeNoCommonCapability = code ∧ e = message := by
        simpa [serverHandshake, withHandshakeDeadline, run_sendHello _ hloc, hr, hrole, settle, hc]
          using h
      refine ⟨?_, checkEntries_le hc⟩
      simp [serverHandshake, withHandshakeDeadline, run_sendHello _ hloc, hr, hrole, settle, hc,
        writeHandshakeError, writeMVCPFrame]

section

variable {sortServer sortClient : SortByID} {server client : Hello}
  {serverRoles clientRoles : List PeerRole} {serverReqs clientReqs : Requirements}
  {sbody cbody : Bytes} {code : UInt16} {message : String} {peer : Hello}
  {negotiated : NegotiatedCapabilities}

/-- **A refused client hears why.** The server sends its HELLO first, and a client may accept it
before the server has read the client's. When `ServerHandshake` then returns a `HandshakeError`,
the first frame that the client reads after its own handshake is the ERROR frame with the code and
the text of that error, however the bytes of the server are cut. -/
theorem refused_client_hears (hserver : server.marshalBinary sortServer = .ok sbody)
    (hclient : client.marshalBinary sortClient = .ok cbody)
    (hrefused : ((serverHandshake sortServer .armed server serverRoles serverReqs).run atEOF
      (greeting cbody)).result = .error (.rejected code message))
    (haccepted : ((clientHandshake sortClient .armed client clientRoles clientReqs).run atEOF
      ((serverHandshake sortServer .armed server serverRoles serverReqs).run atEOF
        (greeting cbody)).written).result = .ok (peer, negotiated))
    (segs : List Bytes) (hsegs : segs.flatten =
      ((serverHandshake sortServer .armed server serverRoles serverReqs).run atEOF
        (greeting cbody)).written) :
    (startup (clientHandshake sortClient .armed client clientRoles clientReqs) 1).runSegments atEOF
      segs = ⟨(.ok (peer, negotiated), .ok [errorFrame code message]), greeting cbody, []⟩ := by
  obtain ⟨hwritten, hshort⟩ := serverHandshake_rejected hserver hrefused
  rw [hwritten] at haccepted hsegs
  -- the client has consumed the greeting, and no byte of the ERROR frame
  rcases he : (Side.client.handshake sortClient client clientRoles clientReqs).run atEOF
    (greeting sbody ++ encodeMVCPFrame (errorFrame code message)) with ⟨res, written, unread⟩
  obtain rfl : res = .ok (peer, negotiated) := (congrArg (·.result) he).symm.trans haccepted
  obtain ⟨ho, hacc⟩ := (handshake_eq_ok_iff .client).mp he
  obtain ⟨body, hbody, rfl⟩ := hacc.sent
  obtain rfl := Except.ok.inj (hclient.symm.trans hbody)
  have hunread : unread = encodeMVCPFrame (errorFrame code message) := by
    obtain ⟨f, hf, -⟩ := ho
    have hgreet : Framed (greeting sbody ++ encodeMVCPFrame (errorFrame code message))
        (helloFrame sbody) (encodeMVCPFrame (errorFrame code message)) :=
      ⟨by simp [greeting], (framed_greeting hserver).2⟩
    obtain rfl := hf.unique hgreet
    exact List.append_cancel_left (List.append_cancel_left (hf.1.symm.trans hgreet.1))
  rw [Proc.runSegments_eq, hsegs]
  refine framing_mvcp.run_before_eq_ok_iff.mpr ⟨?_, rfl, ?_⟩
  · simpa [Side.handshake, hunread] using he
  · intro f hf
    obtain rfl := List.mem_singleton.mp hf
    have hlen : (text message).length ≤ 200 := hshort
    simp only [Frame.Admissible, errorFrame, List.length_append, writeString, writeUint16,
      Library.beBytes_length, frameHeaderSize, maxFrameSize]
    omega

/-- A core that greets a handler which expects no core. -/
theorem refused_client_hears_role :
    let server : Hello := ⟨roleVHandler, [], []⟩
    let client : Hello := ⟨roleCore, [], []⟩
    ∃ peer negotiated,
      (startup (clientHandshake insertionSortByID .armed client [roleVHandler] ⟨[], by decide⟩)
        1).runSegments atEOF [((serverHandshake insertionSortByID .armed server [roleVHandler]
          ⟨[], by decide⟩).run atEOF (greeting client.layout)).written] =
        ⟨(.ok (peer, negotiated), .ok [errorFrame errorCodeUnexpectedRole
          (unexpectedRole roleCore)]), greeting client.layout, []⟩ := by
  intro server client
  have hserver : server.marshalBinary insertionSortByID = .ok server.layout := rfl
  have hclient : client.marshalBinary insertionSortByID = .ok client.layout := rfl
  -- the server reads the HELLO of the core, and the core that of the server
  have hopens {h : Hello} (hh : h.marshalBinary insertionSortByID = .ok h.layout)
      (hw : h.WellFormed) (rest : Bytes) : Opens (greeting h.layout ++ rest) h rest :=
    ⟨helloFrame h.layout, ⟨by simp [greeting], (framed_greeting hh).2⟩, rfl, hw, rfl⟩
  have hread := readPeerHello_eq_ok_iff.mpr
    ⟨hopens hclient ⟨by decide, by decide, by decide, by decide, by decide⟩ [], rfl⟩
  rw [List.append_nil] at hread
  have hrole : roleAccepted client.role [roleVHandler] = false := rfl
  have hrefused : ((serverHandshake insertionSortByID .armed server [roleVHandler]
      ⟨[], by decide⟩).run atEOF (greeting client.layout)).result =
      .error (.rejected errorCodeUnexpectedRole (unexpectedRole roleCore)) := by
    simp [serverHandshake, withHandshakeDeadline, run_sendHello _ hserver, hread, hrole, client]
  obtain ⟨hwritten, -⟩ := serverHandshake_rejected hserver hrefused
  have hacc : Accepts insertionSortByID client [roleVHandler] ⟨[], by decide⟩
      (greeting client.layout) server (negotiate server.advertised client.advertised) :=
    ⟨⟨_, hclient, rfl⟩, by decide, rfl, by simp [Requirements.Satisfied]⟩
  have haccepted := (handshake_eq_ok_iff .client).mpr
    ⟨hopens hserver ⟨by decide, by decide, by decide, by decide, by decide⟩
      (encodeMVCPFrame (errorFrame errorCodeUnexpectedRole (unexpectedRole roleCore))), hacc⟩
  exact ⟨_, _, refused_client_hears hserver hclient hrefused
    (by rw [hwritten]; exact congrArg (·.result) haccepted) _ List.flatten_singleton⟩

end

/-! ## The console channel -/

namespace Vpp

def vppVersion : UInt8 := 0x01

def vppMagic : Bytes := [86, 80, 80]

/-- Why a VPP handshake could not be validated. -/
inductive HandshakeError
  | conn (e : ConnError)
  /-- `ErrBadVPPHandshake`. -/
  | badHandshake

/-- `WriteVPPHandshake`: one write. -/
def writeVPPHandshake : Conn (Except ConnError Unit) := Conn.write (vppMagic ++ [vppVersion])

/-- `ValidateVPPHandshake`. -/
def validateVPPHandshake : Conn (Except HandshakeError Unit) := do
  match ← Conn.readFull 4 with
  | .error e => return .error (.conn e)
  | .ok buf =>
    if buf.take 3 ≠ vppMagic ∨ buf.drop 3 ≠ [vppVersion] then return .error .badHandshake
    else return .ok ()

theorem validateVPPHandshake_eq_ok_iff {input written rest : Bytes} :
    validateVPPHandshake.run atEOF input = ⟨.ok (), written, rest⟩ ↔
      input = (writeVPPHandshake.run atEOF []).written ++ rest ∧ written = [] := by
  simp only [validateVPPHandshake, Proc.run_bind, Conn.run_readFull, writeVPPHandshake,
    Conn.run_write]
  constructor
  · intro hrun
    by_cases hlen : 4 ≤ input.length
    swap
    · simp [hlen] at hrun
    rw [if_pos hlen] at hrun
    dsimp only at hrun
    split_ifs at hrun with hbad
    · simp at hrun
    obtain ⟨hmagic, hversion⟩ := not_or.mp hbad
    obtain ⟨rfl, rfl⟩ : written = [] ∧ input.drop 4 = rest := by
      simpa [eq_comm] using hrun
    refine ⟨?_, rfl⟩
    rw [← not_not.mp hmagic, ← not_not.mp hversion, List.take_append_drop, List.take_append_drop]
  · rintro ⟨rfl, rfl⟩
    simp [vppMagic, vppVersion]

/-- The reader of a console connection: the handshake, and the first `k` frames. -/
def console (k : ℕ) : Conn (Except HandshakeError Unit × Except FrameError (List Frame)) :=
  validateVPPHandshake.before readFrame k

/-- **The console channel.** However the bytes are cut, the reader validates the handshake and
reads the frames `fs` exactly when the other end wrote the handshake and these frames, one behind
the other, each within the reader's size limit; it writes nothing, and leaves what follows. -/
theorem console_eq_ok_iff (k : ℕ) (segs : List Bytes) (fs : List Frame) (written rest : Bytes) :
    (console k).runSegments atEOF segs = ⟨(.ok (), .ok fs), written, rest⟩ ↔
      (segs.flatten = (writeVPPHandshake.run atEOF []).written ++
          (fs.flatMap encodeFrame ++ rest) ∧ written = []) ∧
        fs.length = k ∧ ∀ f ∈ fs, f.Admissible := by
  rw [Proc.runSegments_eq, console, framing_vpp.run_before_eq_ok_iff,
    validateVPPHandshake_eq_ok_iff]

end Vpp

end Mvcp
