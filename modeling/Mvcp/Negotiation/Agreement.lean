import Mvcp.Negotiation.Handshake

/-!
# Agreement of a handshake

Two sides run the handshake against each other over a reliable FIFO connection, their reads and
writes interleaved in any order; an operation may also fail at any time, for example at the
deadline. When both return without error, they agree.

## Main results

* `serverHandshake_aborts`, `clientHandshake_aborts`: a failed operation ends a handshake with an
  error
* `Sends.greeting`: what a side reads from the first bytes of a greeting is the sender's message
* `handshake_agreement`: both sides return the same capabilities, each other's message, and meet
  both requirements
-/

namespace Mvcp

open Library (Proc Duplex Reaches Always)

/-! ## Failed operations -/

/-- The result of an operation or a handshake is an error. -/
def Failed {ε α : Type} (r : Except ε α) : Prop := ∃ e, r = .error e

theorem Conn.write_aborts (bs : Bytes) : (Conn.write bs).Aborts Failed :=
  ⟨fun e => ⟨e, rfl⟩, trivial⟩

theorem Conn.readFull_aborts (n : ℕ) : (Conn.readFull n).Aborts Failed :=
  ⟨fun e => ⟨e, rfl⟩, fun _ => trivial⟩

/-- A sequence aborts when its first part does and it hands an error on. -/
theorem aborts_bind {ε ε' α β : Type} {p : Conn (Except ε α)}
    {f : Except ε α → Conn (Except ε' β)} (h : p.Aborts Failed)
    (herr : ∀ e, (f (.error e)).Ends Failed) (hok : ∀ a, (f (.ok a)).Aborts Failed) :
    (p >>= f).Aborts Failed := by
  refine h.bind ?_ ?_
  · rintro _ ⟨e, rfl⟩
    exact herr e
  · rintro (e | a)
    · exact (herr e).aborts
    · exact hok a

theorem validateMVCPPrefix_aborts : validateMVCPPrefix.Aborts Failed := by
  refine aborts_bind (Conn.readFull_aborts 5) (fun e => ⟨_, rfl⟩) fun buf => ?_
  dsimp only
  split_ifs <;> trivial

theorem readFrame_aborts : readFrame.Aborts Failed := by
  refine aborts_bind (Conn.readFull_aborts 4) (fun e => ⟨_, rfl⟩) fun header => ?_
  dsimp only
  split_ifs
  · trivial
  · exact aborts_bind (Conn.readFull_aborts _) (fun e => ⟨_, rfl⟩) fun payload => trivial

theorem readMVCPFrame_aborts : readMVCPFrame.Aborts Failed :=
  aborts_bind readFrame_aborts (fun _ => ⟨_, rfl⟩) fun _ => trivial

theorem readPeerHello_aborts : readPeerHello.Aborts Failed := by
  refine aborts_bind validateMVCPPrefix_aborts (fun e => ⟨_, rfl⟩) fun _ => ?_
  refine aborts_bind readMVCPFrame_aborts (fun e => ⟨_, rfl⟩) fun frame => ?_
  dsimp only
  split_ifs <;> trivial

theorem sendHello_aborts (side : String) (sortSlice : SortByID) (loc : Hello) :
    (sendHello side sortSlice loc).Aborts Failed := by
  refine aborts_bind (Conn.write_aborts _) (fun e => ⟨_, rfl⟩) fun _ => ?_
  dsimp only
  split
  · trivial
  · exact aborts_bind (Conn.write_aborts _) (fun e => ⟨_, rfl⟩) fun _ => trivial

/-- A handshake that reports an error to the peer returns it. -/
theorem reject_ends (code : UInt16) (message : String) (failure : HandshakeFailure) :
    Proc.Ends Failed (do
      let _ ← writeHandshakeError code message
      return (.error failure : HandshakeResult)) := by
  apply Proc.ends_bind
  intro _
  exact ⟨failure, rfl⟩

theorem settle_aborts (peer loc : Hello) (reqs : Requirements) :
    (settle peer loc reqs).Aborts Failed := by
  unfold settle
  dsimp only
  split
  · exact (reject_ends _ _ _).aborts
  · trivial

theorem serverHandshake_aborts (sortSlice : SortByID) (deadline : Deadline) (loc : Hello)
    (roles : List PeerRole) (reqs : Requirements) :
    (serverHandshake sortSlice deadline loc roles reqs).Aborts Failed := by
  unfold serverHandshake
  split
  · trivial
  refine aborts_bind (sendHello_aborts _ _ _) (fun e => ⟨_, rfl⟩) fun _ => ?_
  refine aborts_bind readPeerHello_aborts (fun e => ?_) fun peer => ?_
  · cases e with
    | malformed detail => exact reject_ends _ _ _
    | _ => exact ⟨_, rfl⟩
  · dsimp only
    split_ifs
    · exact settle_aborts _ _ _
    · exact (reject_ends _ _ _).aborts

theorem clientHandshake_aborts (sortSlice : SortByID) (deadline : Deadline) (loc : Hello)
    (roles : List PeerRole) (reqs : Requirements) :
    (clientHandshake sortSlice deadline loc roles reqs).Aborts Failed := by
  unfold clientHandshake
  split
  · trivial
  refine aborts_bind readPeerHello_aborts (fun e => ⟨_, rfl⟩) fun peer => ?_
  dsimp only
  split_ifs
  · refine aborts_bind (sendHello_aborts _ _ _) (fun e => ⟨_, rfl⟩) fun _ => ?_
    exact settle_aborts _ _ _
  · trivial

/-! ## What a side that succeeds has seen -/

section

variable {sortSlice : SortByID} {loc : Hello} {body input written : Bytes} {peer : Hello}
  {negotiated : NegotiatedCapabilities} {deadline : Deadline} {roles : List PeerRole}
  {reqs : Requirements}

/-- What a side that succeeds has seen and sent. -/
structure Concluded (sortSlice : SortByID) (loc : Hello) (roles : List PeerRole)
    (reqs : Requirements) (input written : Bytes) (peer : Hello)
    (negotiated : NegotiatedCapabilities) : Prop where
  sent : ∃ body, loc.marshalBinary sortSlice = .ok body ∧ written = greeting body
  seen : Sends input peer
  role : peer.role ∈ roles
  agreed : negotiated = negotiate peer.advertised loc.advertised
  satisfied : reqs.Satisfied negotiated

theorem Judged.concluded (hloc : loc.marshalBinary sortSlice = .ok body)
    (hw : written = greeting body)
    (h : Judged loc roles reqs input (.accepted peer negotiated)) :
    Concluded sortSlice loc roles reqs input written peer negotiated := by
  obtain ⟨hs, hr, hn, hreqs⟩ := Judged.accepted_iff.mp h
  exact ⟨⟨body, hloc, hw⟩, hs, hr, hn, hreqs⟩

theorem serverHandshake_concluded
    (h : (serverHandshake sortSlice deadline loc roles reqs).run atEOF input =
      ⟨.ok (peer, negotiated), written, []⟩) :
    Concluded sortSlice loc roles reqs input written peer negotiated := by
  cases deadline with
  | unsupported | refused => simp [serverHandshake, withHandshakeDeadline] at h
  | armed =>
    cases hloc : loc.marshalBinary sortSlice with
    | error e =>
      simp [serverHandshake, withHandshakeDeadline, sendHello, writeMVCPPrefix, hloc] at h
    | ok body =>
      obtain ⟨v, hv, hrep⟩ := run_serverHandshake hloc roles reqs input
      rw [h] at hrep
      obtain rfl := hrep.accepted_iff.mp rfl
      exact hv.concluded hloc hrep.1

theorem ClientReports.eq_accepted {e : Proc.Ended HandshakeResult} {hello : Bytes} {v : Verdict}
    (h : ClientReports e hello v) (hr : e.result = .ok (peer, negotiated)) :
    v = .accepted peer negotiated := by
  cases v with
  | silent | rejected code =>
    obtain ⟨-, err, herr⟩ := h
    simp [herr] at hr
  | accepted peer' negotiated' =>
    obtain ⟨rfl, rfl⟩ := Prod.mk.inj (Except.ok.inj (hr.symm.trans h.2))
    rfl

theorem clientHandshake_concluded
    (h : (clientHandshake sortSlice deadline loc roles reqs).run atEOF input =
      ⟨.ok (peer, negotiated), written, []⟩) :
    Concluded sortSlice loc roles reqs input written peer negotiated := by
  cases deadline with
  | unsupported | refused => simp [clientHandshake, withHandshakeDeadline] at h
  | armed =>
    cases hloc : loc.marshalBinary sortSlice with
    | error e =>
      -- the peer may be read and accepted, but the greeting cannot be encoded
      rcases run_readPeerHello input with ⟨p, unread, -, hr⟩ | ⟨-, detail, unread, hr⟩ |
        ⟨-, e', unread, -, hr⟩
      · by_cases hrole : roleAccepted p.role roles = true
        · simp [clientHandshake, withHandshakeDeadline, hr, hrole, sendHello, writeMVCPPrefix,
            hloc] at h
        · simp [clientHandshake, withHandshakeDeadline, hr, hrole] at h
      · simp [clientHandshake, withHandshakeDeadline, hr] at h
      · simp [clientHandshake, withHandshakeDeadline, hr] at h
    | ok body =>
      obtain ⟨v, hv, hrep⟩ := run_clientHandshake hloc roles reqs input
      rw [h] at hrep
      obtain rfl := hrep.eq_accepted rfl
      exact hv.concluded hloc hrep.1

end

/-! ## Both sides succeed -/

/-- An encoded HELLO fits a frame. -/
theorem framed_greeting {sortSlice : SortByID} {loc : Hello} {body : Bytes}
    (hloc : loc.marshalBinary sortSlice = .ok body) :
    Framed (greeting body) (helloFrame body) [] := by
  obtain ⟨-, hver, hcount, -, rfl⟩ := Hello.marshalBinary_eq_ok.mp hloc
  refine ⟨by simp [greeting], ?_⟩
  have hentries (cs : List Capability) : (cs.flatMap Hello.entry).length = 5 * cs.length := by
    induction cs with
    | nil => rfl
    | cons c cs ih => simp only [List.flatMap_cons, List.length_append, Hello.entry_length, ih,
        List.length_cons]; omega
  have hsort : (sortSlice.sort loc.capabilities).length = loc.capabilities.length :=
    (sortSlice.perm _).length_eq
  simp only [helloFrame, Hello.layout, Hello.sorted, List.length_cons, List.length_append,
    writeString, writeUint16, Library.beBytes_length, hentries, hsort]
  simp only [maxHelloVersionLen, maxHelloCapabilities] at hver hcount
  simp only [frameHeaderSize, maxFrameSize]
  omega

/-- **What a side reads from the first bytes of a greeting is the sender's message**, with its
capabilities sorted and without repeated ids. -/
theorem Sends.greeting {sortSlice : SortByID} {loc : Hello} {body input : Bytes} {peer : Hello}
    (hs : Sends input peer) (hloc : loc.marshalBinary sortSlice = .ok body)
    (hp : input <+: Mvcp.greeting body) : peer = loc.sorted sortSlice ∧
      (loc.capabilities.map Capability.id).Nodup := by
  obtain ⟨f, rest, ⟨he, hsize⟩, -, hwf, hbody⟩ := hs
  obtain ⟨more, hmore⟩ := hp
  have hf : Framed (Mvcp.greeting body) f (rest ++ more) := by
    refine ⟨?_, hsize⟩
    rw [← hmore, he]
    simp
  -- both frames start the greeting
  obtain rfl := hf.unique (framed_greeting hloc)
  obtain ⟨-, hver, hcount, -, hlay⟩ := Hello.marshalBinary_eq_ok.mp hloc
  have hperm := sortSlice.perm loc.capabilities
  have hlt {n m : ℕ} (h : n ≤ m) (hm : m < 2 ^ 16) : n < 2 ^ 16 := h.trans_lt hm
  have heq : peer = loc.sorted sortSlice := by
    refine Hello.layout_injective (hlt hwf.version (by decide)) (hlt hver (by decide))
      (hlt hwf.count (by decide)) (hlt (hperm.length_eq.trans_le hcount) (by decide)) ?_
    rw [← hlay]
    exact hbody.symm
  subst heq
  exact ⟨rfl, (hperm.map _).nodup_iff.mp hwf.ids⟩

/-- The message `peer` is `other` with its capabilities sorted by id. -/
def SortedFrom (peer other : Hello) : Prop :=
  peer.role = other.role ∧ peer.softwareVersion = other.softwareVersion ∧
    peer.capabilities.Perm other.capabilities ∧
    peer.capabilities.Pairwise fun a b => a.id ≤ b.id

theorem sortedFrom_sorted (sortSlice : SortByID) (h : Hello) : SortedFrom (h.sorted sortSlice) h :=
  ⟨rfl, rfl, sortSlice.perm _, sortSlice.sorted _⟩

/-- **Agreement.** However the two sides are interleaved, when both return without error they
return the same capabilities, each returns the other's message, the capabilities meet both
requirements, and each role is in the other's list. -/
theorem handshake_agreement {sortServer sortClient : SortByID} {serverDeadline clientDeadline :
    Deadline} {server client : Hello} {serverRoles clientRoles : List PeerRole}
    {serverReqs clientReqs : Requirements} {d : Duplex ConnError HandshakeResult}
    (h : Reaches Duplex.step Always
      (.start (serverHandshake sortServer serverDeadline server serverRoles serverReqs)
        (clientHandshake sortClient clientDeadline client clientRoles clientReqs)) d)
    {serverPeer clientPeer : Hello} {serverCaps clientCaps : NegotiatedCapabilities}
    (hserver : d.left.proc = .done (.ok (serverPeer, serverCaps)))
    (hclient : d.right.proc = .done (.ok (clientPeer, clientCaps))) :
    serverCaps = clientCaps ∧
      (SortedFrom serverPeer client ∧ SortedFrom clientPeer server) ∧
      (serverReqs.Satisfied serverCaps ∧ clientReqs.Satisfied serverCaps) ∧
      client.role ∈ serverRoles ∧ server.role ∈ clientRoles := by
  have hok {α : Type} {a : α} : ¬ Failed (.ok a : Except HandshakeFailure α) := by
    rintro ⟨e, he⟩
    simp at he
  obtain ⟨hs, hc, htoServer, htoClient⟩ := Duplex.ended atEOF
    (serverHandshake_aborts _ _ _ _ _) (clientHandshake_aborts _ _ _ _ _) h hserver hok hclient hok
  have hs := serverHandshake_concluded hs
  have hc := clientHandshake_concluded hc
  obtain ⟨sbody, hsbody, hswritten⟩ := hs.sent
  obtain ⟨cbody, hcbody, hcwritten⟩ := hc.sent
  rw [hcwritten] at htoServer
  rw [hswritten] at htoClient
  obtain ⟨rfl, hcids⟩ := hs.seen.greeting hcbody htoServer
  obtain ⟨rfl, hsids⟩ := hc.seen.greeting hsbody htoClient
  have hcaps : serverCaps = clientCaps := by
    rw [hs.agreed, hc.agreed, Hello.advertised_sorted _ hcids, Hello.advertised_sorted _ hsids,
      negotiate_comm]
  exact ⟨hcaps, ⟨sortedFrom_sorted _ _, sortedFrom_sorted _ _⟩,
    ⟨hs.satisfied, hcaps ▸ hc.satisfied⟩, hs.role, hc.role⟩

/-- A handler and a core that both need the exec capability. -/
theorem handshake_agreement_exec :
    let exec : Requirements := ⟨[(1, 1)], by decide⟩
    let server : Hello := ⟨roleVHandler, [], [⟨1, 1, 2⟩]⟩
    let client : Hello := ⟨roleCore, [], [⟨1, 1, 1⟩]⟩
    ∃ d, Reaches Duplex.step Always
        (.start (serverHandshake insertionSortByID .armed server [roleCore] exec)
          (clientHandshake insertionSortByID .armed client [roleVHandler] exec)) d ∧
      ∃ peer caps, d.left.proc = .done (.ok (peer, caps)) ∧
        SortedFrom peer client ∧ exec.Satisfied caps := by
  intro exec server client
  obtain ⟨d, hd, ht⟩ := Library.exists_reaches_of_run Duplex.step Always
    (.start (serverHandshake insertionSortByID .armed server [roleCore] exec)
      (clientHandshake insertionSortByID .armed client [roleVHandler] exec))
    (fun d => d.left.proc.result?.any Except.isOk && d.right.proc.result?.any Except.isOk)
    [(true, .go), (true, .go), (false, .go), (false, .go), (false, .go), (false, .go),
      (false, .go), (true, .go), (true, .go), (true, .go)] (by decide)
  simp only [Bool.and_eq_true, Option.any_eq_true] at ht
  obtain ⟨⟨a, ha, hok⟩, b, hb, hok'⟩ := ht
  cases a with
  | error e => cases hok
  | ok peers =>
    cases b with
    | error e => cases hok'
    | ok peerc =>
      have hl := Library.Proc.result?_eq_some.mp ha
      have hagree := handshake_agreement hd hl (Library.Proc.result?_eq_some.mp hb)
      exact ⟨d, hd, _, _, hl, hagree.2.1.1, hagree.2.2.1.1⟩

end Mvcp
