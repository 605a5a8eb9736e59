import Mvcp.App.Fires
import Mvcp.App.Session

/-!
# What a goroutine can do

The transition table of a session: each constructor is one branch of one atomic step of a
goroutine, with the guards under which the source takes it. The definitions of the steps are
opened only here.

## Main definitions

* `Session.Pumps`: the steps of the copy loops of `Bridge`
* `Session.Acts s t n`: the step `t` of a goroutine may lead from `s` to `n`
* `Session.Moves s l s'`: the step `l` of the session may lead from `s` to `s'`

## Main results

* `Session.acts_of_exec`: a step of a goroutine does what the table says
* `Session.moves_of_step`: a step of the session does what the table says
-/

namespace Mvcp.App

open Library (advance pending pending_append pending_set)

/-- The `k`-th id that a session of the given role allocates. -/
def localID (role : Role) (k : ℕ) : UInt32 := role.bit ||| UInt32.ofNat k

namespace Session

/-- What `io.Copy(ep, st)` does next. -/
inductive Copying (r : Ref) (e : EpRef) : Task → Prop
  | read {k : ℕ} (hk : 0 < k) : Copying r e (.sect r (.read k (.bridge e none)))
  | done {err : Option Bytes} : Copying r e (.pump r e (.outDone err))

theorem copying_copyOut (r : Ref) (e : EpRef) (c : Choice) : Copying r e (copyOut r e c) := by
  unfold copyOut
  split
  · exact .read (Nat.succ_pos _)
  · exact .done
  · exact .read (by decide)

/-- **The transition table of the copy loops**: the endpoint after the step, the steps that
follow, and the goroutines that start. -/
inductive Pumps (r : Ref) (e : EpRef) (ep : Endpoint) :
    Pump → Endpoint → List Task → List (List Task) → Prop
  | start {t : Task} (ht : Copying r e t) : Pumps r e ep .start { ep with running := 2 } []
      [[.pump r e .readEp], [t], [.bridgeWait e, .epClose e]]
  | read_data {data : Bytes} {err : Option EpError} (hd : data ≠ []) :
      Pumps r e ep .readEp ep [.sect r (.write data (.bridge e err))] []
  | read_nil {err : Option EpError} : Pumps r e ep .readEp ep [copyIn r e err] []
  | wrote_failed {err : StreamError} {er : Option EpError} :
      Pumps r e ep (.wrote (some err) er) ep [.pump r e (.inDone (some err.text))] []
  | wrote {er : Option EpError} : Pumps r e ep (.wrote none er) ep [copyIn r e er] []
  | inDone {err : Option Bytes} :
      Pumps r e ep (.inDone err) ep
        ((err.map fun m => Task.emit r (.reset (.bridge m))).toList ++
          [.sect r .closeWrite, .epCloseWrite e, .bridgeDone e]) []
  | write_ok {p : Bytes} {t : Task} (ht : Copying r e t) :
      Pumps r e ep (.writeEp p) { ep with written := ep.written ++ p } [t] []
  | write_failed {p : Bytes} {k : ℕ} {err : EpError} :
      Pumps r e ep (.writeEp p) { ep with written := ep.written ++ p.take k }
        [.pump r e (.outDone err.resets)] []
  | outDone {err : Option Bytes} :
      Pumps r e ep (.outDone err) ep
        ((err.map fun m => Task.emit r (.reset (.bridge m))).toList ++
          [.epCloseWrite e, .bridgeDone e]) []

/-- The steps of the goroutines of `Bridge`. -/
inductive BridgeTask (r : Ref) (e : EpRef) : Task → Prop
  | pump {x : Pump} : BridgeTask r e (.pump r e x)
  | write {p : Bytes} {err : Option EpError} :
      BridgeTask r e (.sect r (.write p (.bridge e err)))
  | read {k : ℕ} : BridgeTask r e (.sect r (.read k (.bridge e none)))
  | closeWrite : BridgeTask r e (.sect r .closeWrite)
  | reset {m : Bytes} : BridgeTask r e (.emit r (.reset (.bridge m)))
  | epCloseWrite : BridgeTask r e (.epCloseWrite e)
  | epClose : BridgeTask r e (.epClose e)
  | bridgeDone : BridgeTask r e (.bridgeDone e)
  | bridgeWait : BridgeTask r e (.bridgeWait e)

theorem Copying.task {r : Ref} {e : EpRef} {t : Task} (h : Copying r e t) : BridgeTask r e t := by
  cases h with
  | read => exact .read
  | done => exact .pump

theorem copyIn_eq (r : Ref) (e : EpRef) (err : Option EpError) :
    ∃ x, copyIn r e err = .pump r e x := by
  cases err <;> exact ⟨_, rfl⟩

/-- The goroutines of `Bridge` work on one stream and one endpoint. -/
theorem Pumps.tasks {r : Ref} {e : EpRef} {ep ep' : Endpoint} {x : Pump} {push : List Task}
    {spawn : List (List Task)} (h : Pumps r e ep x ep' push spawn) :
    ∀ t ∈ push ++ spawn.flatten, BridgeTask r e t := by
  have hnil {t : Task} {err : Option EpError} (ht : t = copyIn r e err) : BridgeTask r e t := by
    obtain ⟨y, hy⟩ := copyIn_eq r e err
    rw [ht, hy]
    exact .pump
  have hreset (err : Option Bytes) :
      ∀ t ∈ (err.map fun m => Task.emit r (.reset (.bridge m))).toList, BridgeTask r e t := by
    cases err <;> simp [BridgeTask.reset]
  cases h with
  | read_nil => simpa using hnil rfl
  | wrote => simpa using hnil rfl
  | inDone =>
    simpa [or_imp, forall_and, BridgeTask.closeWrite, BridgeTask.epCloseWrite,
      BridgeTask.bridgeDone] using hreset _
  | outDone =>
    simpa [or_imp, forall_and, BridgeTask.epCloseWrite, BridgeTask.bridgeDone] using hreset _
  | start ht => simp [BridgeTask.pump, ht.task, BridgeTask.bridgeWait, BridgeTask.epClose]
  | read_data hd => simp [BridgeTask.write]
  | wrote_failed => simp [BridgeTask.pump]
  | write_ok ht => simpa using ht.task
  | write_failed => simp [BridgeTask.pump]

/-- The steps of `fail` after its section under `Session.mu`. -/
inductive FailTask : Task → Prop
  | clearBuffered : FailTask .clearBuffered
  | setReset {r : Ref} : FailTask (.sect r (.setReset .peerGone))
  | closeConn : FailTask .closeConn

theorem failTask_of_mem {refs : List Ref} {t : Task}
    (h : t ∈ Task.clearBuffered :: refs.map (fun r => .sect r (.setReset .peerGone)) ++
      [.closeConn]) : FailTask t := by
  simp only [List.cons_append, List.mem_cons, List.mem_append, List.mem_map, List.not_mem_nil,
    or_false] at h
  rcases h with rfl | ⟨r, -, rfl⟩ | rfl
  · exact .clearBuffered
  · exact .setReset
  · exact .closeConn

/-- The reasons for which `handleOpen` rejects an `APP_OPEN`. -/
inductive Declines : UInt16 → Bytes → Prop
  | invalid : Declines errorCodeAppProtocolError (text "invalid APP_OPEN")
  | duplicate : Declines errorCodeAppProtocolError (text "duplicate stream_id")
  | quota : Declines errorCodeAppQuotaExceeded (text "stream quota exceeded")

/-- The frame write of `m` succeeds. -/
def Sends (s : Session) (m : AppMessage) : Prop := m.marshalBinary.isOk = true ∧ s.connUp = true

/-- **The transition table of a session.** -/
inductive Acts (s : Session) : Task → Next → Prop
  | sect {r : Ref} {x : Section} {st : Stream} {o : Outcome} (hst : s.heap[r]? = some st)
      (hf : Stream.Fires r st x o) (ho : st.enter r s.cfg.observer s.buffered x = some o) :
      Acts s (.sect r x)
        { sess := { s with heap := s.heap.set r o.st, buffered := s.buffered + o.reserve,
                           log := s.log ++ o.log },
          push := o.push }
  | emit_sent {r : Ref} {x : Emission} {st : Stream} (hst : s.heap[r]? = some st)
      (h : s.Sends (x.message st)) :
      Acts s (.emit r x)
        { sess := { s with out := s.out ++ [⟨some r, .app (x.message st)⟩] }, push := x.sent r }
  | emit_lost {r : Ref} {x : Emission} {st : Stream} (hst : s.heap[r]? = some st)
      (h : ¬ s.Sends (x.message st)) :
      Acts s (.emit r x)
        { sess := { s with lost := s.lost ++ [⟨some r, .app (x.message st)⟩] }, push := x.failed r }
  | pump {r : Ref} {e : EpRef} {x : Pump} {ep ep' : Endpoint} {push : List Task}
      {spawn : List (List Task)} (hep : s.eps[e]? = some ep) (h : Pumps r e ep x ep' push spawn) :
      Acts s (.pump r e x) { sess := { s with eps := s.eps.set e ep' }, push, spawn }
  | detach {r : Ref} {st : Stream} (hst : s.heap[r]? = some st) :
      Acts s (.detach r) { sess := s.delete r st.id, push := [.sect r .detachBytes] }
  | start_closed {r : Ref} (hc : s.closed = true) : Acts s (.startWriteLoop r) { sess := s }
  | start {r : Ref} (hc : s.closed = false) :
      Acts s (.startWriteLoop r)
        { sess := { s with wg := s.wg + 1 }, spawn := [[.sect r .writeLoop, .wgDone]] }
  | open_failed {service metadata : Bytes} {err : OpenError} :
      Acts s (.open service metadata) { sess := s, push := [.openFail none err] }
  | open_created {service metadata : Bytes} (hv : validAppService service = true)
      (hm : metadata.length ≤ appMaxMetaBytes) (hc : s.closed = false)
      (hq : s.streams.length < appMaxStreams) (hid : s.nextID < maxLocalStreamID) :
      Acts s (.open service metadata)
        { sess := { s with
            nextID := s.nextID + 1,
            heap := s.heap ++ [{ id := localID s.cfg.role (s.nextID + 1), service,
                                 inbound := false, opening := true,
                                 rcvWindow := appInitialWindow, born := s.inbox.length }],
            streams := (localID s.cfg.role (s.nextID + 1), s.heap.length) :: s.streams },
          push := [.emit s.heap.length (.open metadata)] }
  | open_ready {r : Ref} {st : Stream} (hst : s.heap[r]? = some st) (hr : 0 < st.readyClosed) :
      Acts s (.openWait r) { sess := s, push := [.sect r .openResult] }
  | open_closed {r : Ref} (hc : s.closed = true) :
      Acts s (.openWait r) { sess := s, push := [.openFail (some r) .sessionClosed] }
  | open_canceled {r : Ref} :
      Acts s (.openWait r)
        { sess := s,
          push := [.emit r (.reset .openTimeout), .openFail (some r) .contextDone] }
  | open_refused {id : UInt32} {service metadata : Bytes} {code : UInt16} {message : Bytes}
      (h : Declines code message) :
      Acts s (.handleOpen id service metadata)
        { sess := s, push := [.sendReject id code message] }
  | open_ignored {id : UInt32} {service metadata : Bytes} (hc : s.closed = true) :
      Acts s (.handleOpen id service metadata) { sess := s }
  | open_admitted {id : UInt32} {service metadata : Bytes} (h₀ : id ≠ 0)
      (hid : id &&& 0x80000000 = s.cfg.role.other.bit) (hv : validAppService service = true)
      (hm : metadata.length ≤ appMaxMetaBytes) (hc : s.closed = false)
      (hnew : s.stream id = none) (hq : s.streams.length < appMaxStreams) :
      Acts s (.handleOpen id service metadata)
        { sess := { s with
            heap := s.heap ++ [{ id, service, inbound := true, accepting := true,
                                 born := s.inbox.length }],
            streams := (id, s.heap.length) :: s.streams },
          spawn := [[.acceptOpen s.heap.length metadata]] }
  | lookup_none {m : AppMessage} (h : s.stream m.streamID = none) :
      Acts s (.lookup m) { sess := s }
  | lookup_found {m : AppMessage} {r : Ref} (h : s.stream m.streamID = some r) :
      Acts s (.lookup m)
        { sess := { s with heard := s.heard ++ [(r, m)] }, push := dispatch r m }
  | handler_called {r : Ref} {st : Stream} {metadata : Bytes} (hst : s.heap[r]? = some st)
      (hh : s.cfg.handler = true) :
      Acts s (.acceptOpen r metadata)
        { sess := { s with log := s.log ++ [.handlerCalled r st.service metadata] },
          push := [.handlerOpen r metadata] }
  | no_handler {r : Ref} {metadata : Bytes} (hh : s.cfg.handler = false) :
      Acts s (.acceptOpen r metadata)
        { sess := s,
          push := [.detach r,
            .emit r (.reject errorCodeAppLocalError (text "no handler configured"))] }
  | handler_refused {r : Ref} {metadata message : Bytes} {code : Option UInt16} :
      Acts s (.handlerOpen r metadata)
        { sess := { s with log := s.log ++ [.handlerReturned r (.refuse code message)] },
          push := [.detach r, .emit r (.reject (code.getD errorCodeAppLocalError) message)] }
  | handler_oversized {r : Ref} {metadata acceptMeta : Bytes} {halfClose : Bool}
      (h : appMaxMetaBytes < acceptMeta.length) :
      Acts s (.handlerOpen r metadata)
        { sess := { s with log := s.log ++ [.handlerReturned r (.accept halfClose acceptMeta)],
                           eps := s.eps ++ [{ halfClose }] },
          push := [.epClose s.eps.length, .detach r,
            .emit r (.reject errorCodeAppProtocolError (text "accept meta too large"))] }
  | handler_accepted {r : Ref} {metadata acceptMeta : Bytes} {halfClose : Bool}
      (h : acceptMeta.length ≤ appMaxMetaBytes) :
      Acts s (.handlerOpen r metadata)
        { sess := { s with log := s.log ++ [.handlerReturned r (.accept halfClose acceptMeta)],
                           eps := s.eps ++ [{ halfClose }] },
          push := [.sect r (.acceptWindow s.eps.length acceptMeta)] }
  | fail_again {caller : Option Ref} (hc : s.closed = true) : Acts s (.fail caller) { sess := s }
  | fail_now {caller : Option Ref} {refs : List Ref} (hc : s.closed = false)
      (hrefs : refs.Perm (s.streams.map Prod.snd)) :
      Acts s (.fail caller)
        { sess := { s with closed := true, streams := [] },
          push := .clearBuffered :: refs.map (fun r => .sect r (.setReset .peerGone)) ++
            [.closeConn] }
  | clearBuffered : Acts s .clearBuffered { sess := { s with buffered := 0 } }
  | closeConn (h : s.cfg.closer = true) : Acts s .closeConn { sess := { s with connUp := false } }
  /-- The connection is no `io.Closer`. -/
  | keepConn (h : s.cfg.closer = false) : Acts s .closeConn { sess := s }
  | releaseBuffer {k : ℕ} :
      Acts s (.releaseBuffer k) { sess := { s with buffered := releaseBuffer s.buffered k } }
  | reject_sent {id : UInt32} {code : UInt16} {message : Bytes}
      (h : s.Sends (.appReject id code message)) :
      Acts s (.sendReject id code message)
        { sess := { s with out := s.out ++ [⟨none, .app (.appReject id code message)⟩] } }
  | reject_lost {id : UInt32} {code : UInt16} {message : Bytes} :
      Acts s (.sendReject id code message)
        { sess := { s with lost := s.lost ++ [⟨none, .app (.appReject id code message)⟩] } }
  | error_sent {code : UInt16} {message : Bytes} (h : s.connUp = true) :
      Acts s (.sendError code message)
        { sess := { s with out := s.out ++ [⟨none, .error code message⟩] } }
  | error_lost {code : UInt16} {message : Bytes} :
      Acts s (.sendError code message)
        { sess := { s with lost := s.lost ++ [⟨none, .error code message⟩] } }
  | stopServe : Acts s .stopServe { sess := { s with served := true } }
  | epClose {e : EpRef} {ep : Endpoint} (hep : s.eps[e]? = some ep) :
      Acts s (.epClose e) { sess := { s with eps := s.eps.set e { ep with closed := true } } }
  | epCloseWrite {e : EpRef} {ep : Endpoint} (hep : s.eps[e]? = some ep) :
      Acts s (.epCloseWrite e) { sess := { s with eps := s.eps.set e (epCloseWrite ep) } }
  | bridgeDone {e : EpRef} {ep : Endpoint} (hep : s.eps[e]? = some ep) :
      Acts s (.bridgeDone e)
        { sess := { s with eps := s.eps.set e { ep with running := ep.running - 1 } } }
  | bridgeWait {e : EpRef} {ep : Endpoint} (hep : s.eps[e]? = some ep) (h : ep.running = 0) :
      Acts s (.bridgeWait e) { sess := s }
  | wgDone : Acts s .wgDone { sess := { s with wg := s.wg - 1 } }
  | wgWait (h : s.wg = 0) : Acts s .wgWait { sess := s }
  | openFail {r : Option Ref} {err : OpenError} :
      Acts s (.openFail r err) { sess := { s with log := s.log ++ [.openFailed r err] } }
  | closeReturn : Acts s .closeReturn { sess := { s with log := s.log ++ [.closeReturned] } }

variable {s s' : Session} {t : Task} {c : Choice} {n : Next}

theorem acts_enter {r : Ref} {x : Section} (h : s.enter r x = some n) : Acts s (.sect r x) n := by
  simp only [enter, Option.bind_eq_bind, Option.bind_eq_some_iff] at h
  obtain ⟨st, hst, o, ho, hn⟩ := h
  obtain rfl := Option.some.inj hn
  exact .sect hst (Stream.fires_of_enter ho) ho

theorem acts_emit {r : Ref} {x : Emission} {st : Stream} (hst : s.heap[r]? = some st) :
    Acts s (.emit r x) (s.sendApp (some r) (x.message st) (x.sent r) (x.failed r)) := by
  unfold sendApp
  split_ifs with h
  · exact .emit_sent hst (by simpa [Sends] using h)
  · exact .emit_lost hst fun h' => h (by simpa [Sends] using h')

/-- A step of a copy loop that leaves the endpoint alone. -/
theorem acts_pump_same {r : Ref} {e : EpRef} {x : Pump} {ep : Endpoint} {push : List Task}
    (hep : s.eps[e]? = some ep) (h : Pumps r e ep x ep push []) :
    Acts s (.pump r e x) { sess := s, push } := by
  obtain ⟨hlt, rfl⟩ := List.getElem?_eq_some_iff.mp hep
  simpa only [List.set_getElem_self] using Acts.pump hep h

theorem acts_pump {r : Ref} {e : EpRef} {x : Pump} (h : s.pump r e x c = some n) :
    Acts s (.pump r e x) n := by
  simp only [Session.pump, Option.bind_eq_bind, Option.bind_eq_some_iff] at h
  obtain ⟨ep, hep, h⟩ := h
  cases x with
  | start =>
    obtain rfl := Option.some.inj h
    exact .pump hep (.start (copying_copyOut r e c))
  | readEp =>
    cases c with
    | epRead data err =>
      obtain rfl := Option.some.inj h
      split_ifs with hd
      · exact acts_pump_same hep .read_nil
      · exact acts_pump_same hep (.read_data hd)
    | _ => simp at h
  | wrote err er =>
    cases err with
    -- `Write` took the chunk: the copy loop goes on, or ends with the error that came with it
    | none =>
      obtain rfl := Option.some.inj h
      exact acts_pump_same hep .wrote
    | some err =>
      obtain rfl := Option.some.inj h
      exact acts_pump_same hep .wrote_failed
  | inDone err =>
    obtain rfl := Option.some.inj h
    exact acts_pump_same hep .inDone
  | writeEp p =>
    cases c with
    | epWrite k err =>
      simp only at h
      split_ifs at h with hk
      obtain rfl := Option.some.inj h
      cases err with
      | none =>
        -- without an error the endpoint took all of the chunk
        obtain rfl := hk.1 rfl
        rw [List.take_length]
        exact .pump hep (.write_ok (copying_copyOut r e _))
      | some err => exact .pump hep .write_failed
    | epReadFrom k =>
      obtain rfl := Option.some.inj h
      exact .pump hep (.write_ok (copying_copyOut r e _))
    | _ => simp at h
  | outDone err =>
    obtain rfl := Option.some.inj h
    exact acts_pump_same hep .outDone

theorem acts_open (service metadata : Bytes) :
    Acts s (.open service metadata) (s.open service metadata) := by
  unfold Session.open
  split_ifs with hv hm hc hq hid
  · exact .open_failed
  · exact .open_failed
  · exact .open_failed
  · exact .open_failed
  · exact .open_failed
  · exact .open_created (by simpa using hv) (Nat.not_lt.mp hm) (by simpa using hc)
      (Nat.not_le.mp hq) (Nat.not_le.mp hid)

theorem acts_openWait {r : Ref} {arm : Arm} (h : s.openWait r arm = some n) :
    Acts s (.openWait r) n := by
  cases arm with
  | ready =>
    simp only [Session.openWait, Option.bind_eq_bind, Option.bind_eq_some_iff] at h
    obtain ⟨st, hst, h⟩ := h
    split_ifs at h with hr
    obtain rfl := Option.some.inj h
    exact .open_ready hst hr
  | closeCh =>
    simp only [Session.openWait] at h
    split_ifs at h with hc
    obtain rfl := Option.some.inj h
    exact .open_closed hc
  | ctxDone =>
    obtain rfl := Option.some.inj h
    exact .open_canceled

theorem acts_handleOpen (id : UInt32) (service metadata : Bytes) :
    Acts s (.handleOpen id service metadata) (s.handleOpen id service metadata) := by
  unfold Session.handleOpen
  split_ifs with hv hc hd hq
  · exact .open_refused .invalid
  · exact .open_ignored hc
  · exact .open_refused .duplicate
  · exact .open_refused .quota
  · simp only [not_or, not_not, Bool.not_eq_false, not_lt] at hv
    exact .open_admitted hv.1 hv.2.1 hv.2.2.1 hv.2.2.2 (by simpa using hc) (by simpa using hd)
      (Nat.not_le.mp hq)

theorem acts_lookup (m : AppMessage) : Acts s (.lookup m) (s.lookup m) := by
  unfold Session.lookup
  split
  · next r h => exact .lookup_found h
  · next h => exact .lookup_none h

theorem acts_acceptOpen {r : Ref} {metadata : Bytes} (h : s.acceptOpen r metadata = some n) :
    Acts s (.acceptOpen r metadata) n := by
  simp only [Session.acceptOpen, Option.bind_eq_bind, Option.bind_eq_some_iff] at h
  obtain ⟨st, hst, h⟩ := h
  split_ifs at h with hh
  · obtain rfl := Option.some.inj h
    exact .handler_called hst hh
  · obtain rfl := Option.some.inj h
    exact .no_handler (by simpa using hh)

theorem acts_handlerReturn (r : Ref) (metadata : Bytes) (res : HandlerResult) :
    Acts s (.handlerOpen r metadata) (s.handlerReturn r res) := by
  cases res with
  | refuse code message => exact .handler_refused
  | accept halfClose acceptMeta =>
    simp only [Session.handlerReturn]
    split_ifs with hm
    · exact .handler_oversized hm
    · exact .handler_accepted (Nat.not_lt.mp hm)

theorem acts_fail {caller : Option Ref} {refs : List Ref} (h : s.fail refs = some n) :
    Acts s (.fail caller) n := by
  unfold Session.fail at h
  split_ifs at h with hc hp
  · obtain rfl := Option.some.inj h
    exact .fail_again hc
  · obtain rfl := Option.some.inj h
    exact .fail_now (by simpa using hc) (List.isPerm_iff.mp hp)

theorem acts_sendReject (id : UInt32) (code : UInt16) (message : Bytes) :
    Acts s (.sendReject id code message) (s.sendApp none (.appReject id code message) [] []) := by
  unfold sendApp
  split_ifs with h
  · exact .reject_sent (by simpa [Sends] using h)
  · exact .reject_lost

theorem acts_sendError (code : UInt16) (message : Bytes) :
    Acts s (.sendError code message) (s.sendError code message) := by
  unfold Session.sendError
  split_ifs with h
  · exact .error_sent h
  · exact .error_lost

/-- **A step of a goroutine does what the table says.** -/
theorem acts_of_exec (h : s.exec t c = some n) : Acts s t n := by
  cases t with
  | sect r x => exact acts_enter h
  | emit r x =>
    obtain ⟨st, hst, hn⟩ := Option.bind_eq_some_iff.mp h
    obtain rfl := Option.some.inj hn
    exact acts_emit hst
  | pump r e x => exact acts_pump h
  | detach r =>
    obtain ⟨st, hst, hn⟩ := Option.bind_eq_some_iff.mp h
    obtain rfl := Option.some.inj hn
    exact .detach hst
  | startWriteLoop r =>
    simp only [exec] at h
    split_ifs at h with hc
    · obtain rfl := Option.some.inj h
      exact .start_closed hc
    · obtain rfl := Option.some.inj h
      exact .start (by simpa using hc)
  | «open» service metadata => obtain rfl := Option.some.inj h; exact acts_open service metadata
  | openWait r =>
    -- blocked until one of the arms of the `select` is ready
    cases c with
    | select arm => exact acts_openWait h
    | _ => simp [exec] at h
  | handleOpen id service metadata =>
    obtain rfl := Option.some.inj h
    exact acts_handleOpen id service metadata
  | lookup m => obtain rfl := Option.some.inj h; exact acts_lookup m
  | acceptOpen r metadata => exact acts_acceptOpen h
  | handlerOpen r metadata =>
    -- blocked until the handler returns
    cases c with
    | handler res => obtain rfl := Option.some.inj h; exact acts_handlerReturn r metadata res
    | _ => simp [exec] at h
  | fail caller => cases c <;> exact acts_fail h
  | clearBuffered => obtain rfl := Option.some.inj h; exact .clearBuffered
  | closeConn =>
    obtain rfl := Option.some.inj h
    -- `fail` closes the connection if it is an `io.Closer`
    split_ifs with hc
    · exact .closeConn hc
    · exact .keepConn (by simpa using hc)
  | releaseBuffer k => obtain rfl := Option.some.inj h; exact .releaseBuffer
  | sendReject id code message =>
    obtain rfl := Option.some.inj h
    exact acts_sendReject id code message
  | sendError code message => obtain rfl := Option.some.inj h; exact acts_sendError code message
  | stopServe => obtain rfl := Option.some.inj h; exact .stopServe
  | epClose e =>
    obtain ⟨ep, hep, hn⟩ := Option.bind_eq_some_iff.mp h
    obtain rfl := Option.some.inj hn
    exact .epClose hep
  | epCloseWrite e =>
    obtain ⟨ep, hep, hn⟩ := Option.bind_eq_some_iff.mp h
    obtain rfl := Option.some.inj hn
    exact .epCloseWrite hep
  | bridgeDone e =>
    obtain ⟨ep, hep, hn⟩ := Option.bind_eq_some_iff.mp h
    obtain rfl := Option.some.inj hn
    exact .bridgeDone hep
  | bridgeWait e =>
    obtain ⟨ep, hep, hn⟩ := Option.bind_eq_some_iff.mp h
    -- blocked until the two copy loops have ended
    split_ifs at hn with hr
    obtain rfl := Option.some.inj hn
    exact .bridgeWait hep hr
  | wgDone => obtain rfl := Option.some.inj h; exact .wgDone
  | wgWait =>
    simp only [exec] at h
    -- blocked until the write loops have ended
    split_ifs at h with hw
    obtain rfl := Option.some.inj h
    exact .wgWait hw
  | openFail r err => obtain rfl := Option.some.inj h; exact .openFail
  | closeReturn => obtain rfl := Option.some.inj h; exact .closeReturn

/-! ## Steps of the session -/

/-- The tasks of a call on a stream, as the application makes it. -/
inductive Calls (r : Ref) : Task → Prop
  | write {p : Bytes} : Calls r (.sect r (.write p .app))
  | read {n : ℕ} : Calls r (.sect r (.read n .app))
  | closeWrite : Calls r (.sect r .closeWrite)
  | reset {code : UInt16} {message : Bytes} : Calls r (.emit r (.reset (.app code message)))
  | bridge {e : EpRef} : Calls r (.pump r e .start)

/-- **What one step of the session does.** -/
inductive Moves (s : Session) : Label → Session → Prop
  | run {i : ℕ} {c : Choice} {t : Task} {rest : List Task} {n : Next}
      (ht : s.threads[i]? = some (t :: rest)) (h : Acts s t n) :
      Moves s (.run i c)
        { n.sess with threads := advance s.threads i (n.push ++ rest) n.spawn }
  | callOn {c : Call} {r : Ref} {t : Task} {eps : List Endpoint} (hs : s.shares r = true)
      (h : Calls r t) :
      Moves s (.call c) { s with threads := s.threads ++ [[t]], eps := s.eps ++ eps }
  | callOpen {service metadata : Bytes} :
      Moves s (.call (.open service metadata))
        { s with threads := s.threads ++ [[.open service metadata]] }
  | callClose :
      Moves s (.call .close)
        { s with threads := s.threads ++ [[.fail none, .wgWait, .closeReturn]] }
  | recv {f : Frame} (hserve : s.threads[0]? = some []) (hs : s.served = false) :
      Moves s (.recv f)
        { s with
          inbox := s.inbox ++ [f]
          threads := s.threads.set 0 (handleFrame s.cfg.registry f) }
  | readError (hserve : s.threads[0]? = some []) (hs : s.served = false) :
      Moves s .readError { s with threads := s.threads.set 0 [.fail none, .stopServe] }
  | connLost : Moves s .connLost { s with connUp := false }

theorem callOn_eq_some {r : Ref} {ts : List Task} (h : s.callOn r ts = some s') :
    s.shares r = true ∧ s' = { s with threads := s.threads ++ [ts] } := by
  unfold callOn at h
  split_ifs at h with hs
  exact ⟨hs, (Option.some.inj h).symm⟩

theorem moves_callOn {c : Call} {r : Ref} {t : Task} (h : s.callOn r [t] = some s')
    (ht : Calls r t) : Moves s (.call c) s' := by
  obtain ⟨hs, rfl⟩ := callOn_eq_some h
  have h' : Moves s (.call c) { s with threads := s.threads ++ [[t]], eps := s.eps ++ [] } :=
    .callOn hs ht
  simpa using h'

theorem moves_call {c : Call} (h : s.call c = some s') : Moves s (.call c) s' := by
  cases c with
  | «open» service metadata => obtain rfl := Option.some.inj h; exact .callOpen
  | write r p => exact moves_callOn h .write
  | read r n => exact moves_callOn h .read
  | closeWrite r => exact moves_callOn h .closeWrite
  | reset r code message => exact moves_callOn h .reset
  | bridge r halfClose =>
    obtain ⟨u, hu, rfl⟩ := Option.map_eq_some_iff.mp h
    obtain ⟨hs, rfl⟩ := callOn_eq_some hu
    exact .callOn hs .bridge
  | close => obtain rfl := Option.some.inj h; exact .callClose

theorem serving_iff : s.serving = true ↔ s.threads[0]? = some [] ∧ s.served = false := by
  simp [serving]

/-- **A step of the session does what the table says.** -/
theorem moves_of_step {l : Label} (h : s.step l = some s') : Moves s l s' := by
  cases l with
  | run i c =>
    simp only [step] at h
    split at h
    · next t rest ht =>
      obtain ⟨n, hn, rfl⟩ := Option.map_eq_some_iff.mp h
      exact .run ht (acts_of_exec hn)
    · simp at h
  | call c => exact moves_call h
  | recv f =>
    simp only [step] at h
    split_ifs at h with hr
    simp only [Bool.and_eq_true, serving_iff] at hr
    obtain rfl := Option.some.inj h
    exact .recv hr.1.1 hr.1.2
  | readError =>
    simp only [step] at h
    split_ifs at h with hr
    rw [serving_iff] at hr
    obtain rfl := Option.some.inj h
    exact .readError hr.1 hr.2
  | connLost => obtain rfl := Option.some.inj h; exact .connLost

/-! ## Steps that only start something -/

/-- The steps with which a call, or the handling of a frame, begins. -/
inductive Started (s : Session) : Task → Prop
  | callOn {r : Ref} {t : Task} (hs : s.shares r = true) (h : Calls r t) : Started s t
  | open {service metadata : Bytes} : Started s (.open service metadata)
  | fail : Started s (.fail none)
  | wgWait : Started s .wgWait
  | closeReturn : Started s .closeReturn
  | stopServe : Started s .stopServe
  | sendError {code : UInt16} {message : Bytes} : Started s (.sendError code message)
  | handleOpen {id : UInt32} {service metadata : Bytes} :
      Started s (.handleOpen id service metadata)
  | lookup {m : AppMessage} : Started s (.lookup m)

/-- `s'` is `s` where the steps `ts` were started. -/
structure Starts (s s' : Session) (ts : List Task) : Prop where
  started : ∀ t ∈ ts, Started s t
  pending : pending s'.threads = (ts : Multiset Task) + pending s.threads
  cfg : s'.cfg = s.cfg
  inbox : s.inbox <+: s'.inbox
  heap : s'.heap = s.heap
  streams : s'.streams = s.streams
  closed : s'.closed = s.closed
  buffered : s'.buffered = s.buffered
  wg : s'.wg = s.wg
  out : s'.out = s.out
  lost : s'.lost = s.lost
  heard : s'.heard = s.heard
  log : s'.log = s.log

theorem handleFrame_started (registry : Registry) (f : Frame) :
    ∀ t ∈ handleFrame registry f, Started s t := by
  unfold handleFrame
  split_ifs
  · simp [Started.sendError, Started.fail, Started.stopServe]
  · split <;>
      simp [Started.sendError, Started.fail, Started.stopServe, Started.handleOpen, Started.lookup]

theorem starts_append {ts : List Task} {eps : List Endpoint} (h : ∀ t ∈ ts, Started s t) :
    Starts s { s with threads := s.threads ++ [ts], eps } ts :=
  ⟨h, (pending_append _ _).trans (by simp [add_comm]), rfl, List.prefix_rfl, rfl, rfl, rfl, rfl,
    rfl, rfl, rfl, rfl, rfl⟩

theorem starts_serve {ts : List Task} {inbox : List Frame} (h₀ : s.threads[0]? = some [])
    (hin : s.inbox <+: inbox) (h : ∀ t ∈ ts, Started s t) :
    Starts s { s with inbox, threads := s.threads.set 0 ts } ts := by
  obtain ⟨others, h₁, h₂⟩ := pending_set h₀
  exact ⟨h, by rw [h₁, h₂]; simp, rfl, hin, rfl, rfl, rfl, rfl, rfl, rfl, rfl, rfl, rfl⟩

/-- A step of the session runs a goroutine, starts something, or loses the connection. -/
theorem Moves.run_or_starts (hm : Moves s l s') :
    (∃ i c t rest n, l = .run i c ∧ s.threads[i]? = some (t :: rest) ∧ Acts s t n ∧
      s' = { n.sess with threads := advance s.threads i (n.push ++ rest) n.spawn }) ∨
    (∃ ts, Starts s s' ts) ∨ s' = { s with connUp := false } := by
  cases hm with
  | run ht ha => exact .inl ⟨_, _, _, _, _, rfl, ht, ha, rfl⟩
  | callOn hs hc => exact .inr (.inl ⟨_, starts_append (by simpa using .callOn hs hc)⟩)
  | callOpen => exact .inr (.inl ⟨_, starts_append (by simpa using .open)⟩)
  | callClose =>
    exact .inr (.inl ⟨_, starts_append
      (by simp [Started.fail, Started.wgWait, Started.closeReturn])⟩)
  | recv hserve hs =>
    exact .inr (.inl ⟨_, starts_serve hserve (List.prefix_append _ _) (handleFrame_started _ _)⟩)
  | readError hserve hs =>
    exact .inr (.inl ⟨_, starts_serve hserve List.prefix_rfl
      (by simp [Started.fail, Started.stopServe])⟩)
  | connLost => exact .inr (.inr rfl)

end Session

end Mvcp.App
