import Mvcp.App.Isolation
import Mvcp.App.Release

/-!
# Calls of the handler

`handleOpen` admits a stream only while the table has room, and calls `Handler.Open` for it in a
goroutine of its own. The quota counts the streams in the table, and an `APP_RESET` takes a stream
out of it while its handler still runs: the handlers of the streams in the table are within the
quota, those of the streams that were reset are without any bound.

## Main definitions

* `Session.handlers`: the streams whose handler was called and has not returned
* `Session.Flooding`: a run in which the peer opens streams and resets them, and nothing else
* `Session.Flooded`: `k` handlers run, and the table is empty

## Main results

* `Session.handlers_quota`: no more handlers run for streams in the table than the quota allows, and
  any other is that of a stream that was reset
* `Session.handlers_unbounded`: a peer that resets every stream it opens has as many handlers run at
  once as it likes
-/

namespace Mvcp.App

open Library (Reaches Always pending pending_append advance advance_getElem?_self
  exists_reaches_of_run)

/-- The stream whose handler a goroutine waits for. -/
def Task.handler : Task → Option Ref
  | .handlerOpen r _ => some r
  | _ => none

theorem Task.handler_eq_some {t : Task} {r : Ref} (h : t.handler = some r) :
    ∃ metadata, t = .handlerOpen r metadata := by
  unfold Task.handler at h
  split at h <;> simp_all

/-- A stream that waits for its handler was not closed. -/
theorem View.Step.unclosed {r : Ref} {v v' : View} {a : Option Section} (hs : Step r v a v')
    (hh : v.Handshake) (h : v.st.accepting = true → v.st.closeAfterFlush = false)
    (ha : v'.st.accepting = true) : v'.st.closeAfterFlush = false := by
  cases hs with
  | @sect x o rest ht hf =>
    have hx : .sect r x ∈ v.tasks := by simp [ht]
    cases hf with
    | closeWrite_now | closeWrite_later =>
      -- `CloseWrite` is called on a stream that was accepted
      have := (hh.live (.inr ⟨_, hx, rfl⟩)).2.1
      simp_all
    | read_data | loop_data | loop_park => exact h ha
    | _ => simp_all [Stream.enqueue, Stream.accept]
  | _ => exact h ha

namespace Session

variable {cfg : Config} {ok : Session → Label → Prop} {s s' : Session} {r : Ref} {st : Stream}

/-- The streams whose handler was called and has not returned. -/
def handlers (s : Session) : Multiset Ref := (pending s.threads).filterMap Task.handler

theorem mem_handlers : r ∈ s.handlers ↔ ∃ metadata, .handlerOpen r metadata ∈ s.tasksOf r := by
  simp only [handlers, Multiset.mem_filterMap, mem_tasksOf]
  constructor
  · rintro ⟨t, ht, he⟩
    obtain ⟨metadata, rfl⟩ := Task.handler_eq_some he
    exact ⟨metadata, ht, rfl⟩
  · rintro ⟨metadata, ht, -⟩
    exact ⟨_, ht, rfl⟩

/-- The handler of a stream is called once. -/
theorem handlers_nodup (h : Reaches step ok (new cfg) s) : s.handlers.Nodup := by
  rw [Multiset.nodup_iff_count_le_one]
  intro r
  by_cases hr : r ∈ s.handlers
  · obtain ⟨metadata, hm⟩ := mem_handlers.mp hr
    obtain ⟨st, hst⟩ := exists_heap h (mem_tasksOf.mp hm).1 rfl
    calc s.handlers.count r
      _ = s.threads.flatten.countP fun t => t.handler == some r := by
        rw [handlers, pending, Multiset.filterMap_coe, Multiset.coe_count, List.count_filterMap]
      _ ≤ s.threads.flatten.countP fun t => t.chain = true ∧ t.ref? = some r := by
        refine List.countP_mono_left fun t _ ht => ?_
        obtain ⟨metadata, rfl⟩ := Task.handler_eq_some (beq_iff_eq.mp ht)
        simp [Task.chain]
      _ = (s.tasksOf r).countP fun t => t.chain = true := by
        rw [tasksOf, Multiset.countP_filter, pending, Multiset.coe_countP]
      _ ≤ 1 := (handshake h hst).chain
  · rw [Multiset.count_eq_zero_of_notMem hr]
    exact Nat.zero_le 1

/-- A stream that waits for its handler is in the table, unless it is reset. -/
theorem reset_of_handler (h : Reaches step ok (new cfg) s) (hst : s.heap[r]? = some st)
    (hr : r ∈ s.handlers) (hl : r ∉ s.streams.map Prod.snd) :
    st.reset = true ∨ ∃ cause, .sect r (.setReset cause) ∈ s.tasksOf r := by
  obtain ⟨metadata, hm⟩ := mem_handlers.mp hr
  have hh := handshake h hst
  have hac : st.accepting = true := hh.acceptor _ hm rfl
  have hin : st.inbound = true := by
    cases hin : st.inbound with
    | true => rfl
    | false => exact absurd (hh.outbound hin) (by simp [view, viewOf, hac])
  obtain ⟨-, he, hlost⟩ := hh.inbound hin
  have hclose : st.accepting = true → st.closeAfterFlush = false :=
    (view_inductive
      (I := fun _ v => v.Handshake ∧ (v.st.accepting = true → v.st.closeAfterFlush = false))
      (fun _ _ hi => ⟨hi.handshake, by cases hi <;> simp⟩)
      (fun _ _ _ _ hs hv => ⟨hs.handshake hv.1, hs.unclosed hv.1 hv.2⟩) h hst).2
  rcases (left h hst).unlisted (by simpa [view, viewOf] using hl) with hset | hpend
  · rcases hset with hreset | hlo | ⟨-, ⟨hc, -⟩ | herr | ⟨-, hno⟩⟩
    · exact .inl hreset
    · exact absurd hlo hlost
    · exact absurd hc (by simp [view, viewOf, hclose hac])
    · exact absurd he herr
    · exact absurd rfl (hno _ hm)
  · exact .inr hpend

/-- **The quota bounds the handlers that run for streams in the table**, one for each at most. Any
other runs for a stream that was reset, or is about to be. -/
theorem handlers_quota (h : Reachable cfg s) :
    (s.handlers.filter fun r => r ∈ s.streams.map Prod.snd).card ≤ appMaxStreams ∧
      s.handlers.Nodup ∧
      ∀ r ∈ s.handlers, r ∉ s.streams.map Prod.snd → ∃ st, s.heap[r]? = some st ∧
        (st.reset = true ∨ ∃ cause, .sect r (.setReset cause) ∈ s.tasksOf r) := by
  have hnodup := handlers_nodup h
  refine ⟨?_, hnodup, ?_⟩
  · have hsub : (s.handlers.filter fun r => r ∈ s.streams.map Prod.snd) ≤
        (s.streams.map Prod.snd : List Ref) :=
      (Multiset.le_iff_subset (hnodup.filter _)).mpr fun r hr =>
        Multiset.mem_coe.mpr (Multiset.mem_filter.mp hr).2
    calc (s.handlers.filter fun r => r ∈ s.streams.map Prod.snd).card
      _ ≤ (s.streams.map Prod.snd).length := Multiset.card_le_card hsub
      _ = s.streams.length := List.length_map _
      _ ≤ appMaxStreams := h.table.quota
  · intro r hr hl
    obtain ⟨metadata, hm⟩ := mem_handlers.mp hr
    obtain ⟨st, hst⟩ := exists_heap h (mem_tasksOf.mp hm).1 rfl
    exact ⟨st, hst, reset_of_handler h hst hr hl⟩

/-- A handler that runs for a stream in the table, one for a stream that was reset. -/
theorem handlers_quota_reset :
    ∃ s, Reachable { role := .host } s ∧ s.handlers = {1, 0} ∧
      (s.handlers.filter fun r => r ∈ s.streams.map Prod.snd) = {1} ∧
      (s.handlers.filter fun r => r ∈ s.streams.map Prod.snd).card ≤ appMaxStreams ∧
      ∃ st, s.heap[0]? = some st ∧
        (st.reset = true ∨ ∃ cause, .sect 0 (.setReset cause) ∈ s.tasksOf 0) := by
  obtain ⟨s, hs, hp⟩ := exists_reaches_of_run step Always (new { role := .host })
    (fun s => s.threads == [[], [.handlerOpen 0 []], [.handlerOpen 1 []]] &&
      s.streams == [(0x80000001, 1)])
    (List.flatten
      [[.recv (Outgoing.app (.appOpen 0x80000001 (text "svc") [])).frame, .run 0 .go, .run 1 .go,
          .recv (Outgoing.app (.appReset 0x80000001 0 [])).frame], .replicate 7 (.run 0 .go),
        [.recv (Outgoing.app (.appOpen 0x80000001 (text "svc") [])).frame, .run 0 .go, .run 2 .go]])
    (by decide)
  obtain ⟨hthreads, hstreams⟩ : s.threads = _ ∧ s.streams = _ := by simpa using hp
  have hhandlers : s.handlers = {1, 0} := by rw [handlers, hthreads]; decide
  obtain ⟨hquota, -, hreset⟩ := handlers_quota hs
  refine ⟨s, hs, hhandlers, ?_, hquota, hreset 0 ?_ ?_⟩
  · rw [hhandlers, hstreams]
    decide
  · rw [hhandlers]
    decide
  · rw [hstreams]
    decide

/-! ## A flood -/

theorem handleFrame_of_app? {registry : Registry} {f : Frame} {m : AppMessage}
    (h : f.app? registry = some m) :
    handleFrame registry f =
      match m with
      | .appOpen id service metadata => [.handleOpen id service metadata]
      | m => [.lookup m] := by
  unfold Frame.app? at h
  split_ifs at h with hf
  unfold handleFrame
  rw [if_neg hf]
  split at h
  · next m' hdec =>
    obtain rfl := Option.some.inj h
    rw [hdec]
    cases m' <;> rfl
  · simp at h

/-- A stream that left the table does not come back. -/
theorem unlisted_stays (h : Reaches step ok (new cfg) s) (hs : Reaches step ok s s')
    (hst : s.heap[r]? = some st) (hl : r ∉ s.streams.map Prod.snd) :
    r ∉ s'.streams.map Prod.snd := by
  obtain ⟨st', -, hl'⟩ := view_stays (I := fun v => v.listed = false) h hst hs
    (by simpa [view, viewOf] using hl)
    (fun v v' hs hv => by cases hs <;> simp_all)
    (fun v x o v' he hv => by obtain ⟨rest, -, rfl⟩ := he.view; exact hv)
  simpa [view, viewOf] using hl'

/-- The id of the streams that the peer opens. -/
def floodID (role : Role) : UInt32 := role.other.bit ||| 1

/-- The peer opens a stream or resets one, or a goroutine of the session takes a step by itself: the
application calls nothing, and no handler returns. -/
inductive Flooding (s : Session) : Label → Prop
  | run {i : ℕ} : Flooding s (.run i .go)
  | appOpen {id : UInt32} {service metadata : Bytes} :
      Flooding s (.recv (Outgoing.app (.appOpen id service metadata)).frame)
  | appReset {id : UInt32} {code : UInt16} {message : Bytes} :
      Flooding s (.recv (Outgoing.app (.appReset id code message)).frame)

/-- **`k` handlers run, and the table is empty.** -/
structure Flooded (cfg : Config) (k : ℕ) (s : Session) : Prop where
  reached : Reaches step Flooding (new cfg) s
  idle : s.threads[0]? = some []
  served : s.served = false
  up : s.connUp = true
  closed : s.closed = false
  streams : s.streams = []
  handlers : s.handlers.card = k

theorem flooded_new (cfg : Config) : Flooded cfg 0 (new cfg) :=
  ⟨.refl, rfl, rfl, rfl, rfl, rfl, rfl⟩

/-- The peer opened the next stream, and a goroutine is about to take the step `t` for it. -/
structure Opened (t : Task) (s s' : Session) : Prop where
  threads : s'.threads = s.threads ++ [[t]]
  streams : s'.streams = [(floodID s.cfg.role, s.heap.length)]
  heap : ∃ st, s'.heap = s.heap ++ [st]
  served : s'.served = s.served
  up : s'.connUp = s.connUp
  closed : s'.closed = s.closed

variable {k : ℕ} {t u : Session}

theorem reaches_alone (h : s.alone 0 k = some s') : Reaches step Flooding s s' := by
  induction k generalizing s with
  | zero =>
    obtain rfl := Option.some.inj h
    exact .refl
  | succ k ih =>
    rw [alone_succ] at h
    obtain ⟨t, ht, hrest⟩ := Option.bind_eq_some_iff.mp h
    exact (Reaches.refl.tail .run ht).trans (ih hrest)

theorem floodID_ne_zero (role : Role) : floodID role ≠ 0 := by
  cases role <;> decide

theorem floodID_initiator (role : Role) : floodID role &&& 0x80000000 = role.other.bit := by
  cases role <;> decide

/-- `handleOpen` admits the stream. -/
theorem exec_handleOpen (hclosed : s.closed = false) (hs : s.streams = []) :
    s.exec (.handleOpen (floodID s.cfg.role) (text "svc") []) .go = some
      { sess := { s with
          heap := s.heap ++ [{ id := floodID s.cfg.role, service := text "svc", inbound := true,
                               accepting := true, born := s.inbox.length }],
          streams := [(floodID s.cfg.role, s.heap.length)] },
        spawn := [[.acceptOpen s.heap.length []]] } := by
  have hsvc : validAppService (text "svc") = true := by decide
  simp [exec, handleOpen, floodID_ne_zero, floodID_initiator, hsvc, hclosed, stream, hs,
    appMaxStreams]

/-- The peer opens a stream. -/
theorem Flooded.opened (h : Flooded cfg k s) :
    ∃ t, Reaches step Flooding (new cfg) t ∧ Opened (.acceptOpen s.heap.length []) s t := by
  obtain ⟨hlen, h0⟩ := List.getElem?_eq_some_iff.mp h.idle
  set m : AppMessage := .appOpen (floodID s.cfg.role) (text "svc") [] with hm
  set f := (Outgoing.app m).frame
  have hframe : handleFrame s.cfg.registry f = [.handleOpen (floodID s.cfg.role) (text "svc") []] :=
    handleFrame_of_app? (Outgoing.app?_fit (by rfl) (by simp [hm, AppMessage.StringsFit]; decide))
  have hsize : readable f = true := by cases hr : s.cfg.role <;> simp only [f, m, hr] <;> decide
  have h₁ := step_recv (serving_iff.mpr ⟨h.idle, h.served⟩) hsize
  rw [hframe] at h₁
  have h₂ := step_of_exec (received_head h.idle _)
    (exec_handleOpen (s := s.received f [.handleOpen (floodID s.cfg.role) (text "svc") []])
      h.closed h.streams)
  refine ⟨_, (h.reached.tail .appOpen h₁).tail .run h₂, ?_, rfl, ⟨_, rfl⟩, rfl, rfl, rfl⟩
  -- `Serve` is done with the frame
  simp only [received, advance, List.append_nil, List.set_set]
  rw [← h0, List.set_getElem_self]

/-- The goroutine of the stream calls the handler. -/
theorem Opened.called (ht : Reaches step Flooding (new cfg) t) (hh : cfg.handler = true)
    (ho : Opened (.acceptOpen s.heap.length []) s t) :
    ∃ u, Reaches step Flooding (new cfg) u ∧ Opened (.handlerOpen s.heap.length []) s u := by
  obtain ⟨st, hheap⟩ := ho.heap
  have hi : t.threads[s.threads.length]? = some [.acceptOpen s.heap.length []] := by
    simp [ho.threads]
  have hn : t.exec (.acceptOpen s.heap.length []) .go = some
      { sess := { t with log := t.log ++ [.handlerCalled s.heap.length st.service []] },
        push := [.handlerOpen s.heap.length []] } := by
    simp [exec, acceptOpen, hheap, reaches_cfg ht, hh]
  refine ⟨_, ht.tail .run (step_of_exec hi hn), ?_, ho.streams, ho.heap, ho.served, ho.up,
    ho.closed⟩
  simp [ho.threads, advance]

/-- A reset that is pending is carried out. -/
theorem reset_of_setReset (cause : Cause) (h : Reaches step ok (new cfg) s)
    (hs : Reaches step ok s s') (hst : s.heap[r]? = some st)
    (hm : .sect r (.setReset cause) ∈ s.tasksOf r)
    (hn : .sect r (.setReset cause) ∉ s'.tasksOf r) :
    ∃ st', s'.heap[r]? = some st' ∧ st'.reset = true := by
  obtain ⟨st', hst', hI⟩ := view_stays
    (I := fun v => v.st.reset = true ∨ .sect r (.setReset cause) ∈ v.tasks) h hst hs (.inr hm)
    (fun v v' hs hv => hv.imp (fun hr => hs.quiet.1 ▸ hr) fun hm => hs.sect_mem hm)
    (fun v x o v' he hv =>
      hv.elim (fun hr => .inl (he.st ▸ he.fires.reset hr)) he.step.setReset_mem)
  exact ⟨st', hst', hI.resolve_right hn⟩

/-- **An `APP_RESET` takes a stream out of the table**, whatever other goroutines do with it. -/
theorem exists_reset {id : UInt32} (h : Reachable cfg s) (hidle : s.threads[0]? = some [])
    (hserved : s.served = false) (hup : s.connUp = true) (hr : s.stream id = some r)
    (hq : ∀ t ∈ s.tasksOf r, t.ends = false ∧ t ≠ .detach r ∧
      ∀ cause, t ≠ .sect r (.setReset cause)) :
    ∃ u, Reaches step Flooding s u ∧ Confined r id s u ∧ u.threads = s.threads ∧
      r ∉ u.streams.map Prod.snd := by
  obtain ⟨b, hb⟩ := h.table.ids _ (mem_of_stream hr)
  obtain ⟨st, hst, hname⟩ := Option.map_eq_some_iff.mp ((names_getElem? _ _).symm.trans hb)
  obtain hid : st.id = id := congrArg Prod.fst hname
  obtain ⟨hlen, h0⟩ := List.getElem?_eq_some_iff.mp hidle
  -- `Serve` reads the frame and finds the stream
  set m : AppMessage := .appReset id 0 [] with hm
  set f := (Outgoing.app m).frame
  have hframe : handleFrame s.cfg.registry f = [.lookup m] :=
    handleFrame_of_app? (Outgoing.app?_fit (by rfl) (by simp [hm, AppMessage.StringsFit]))
  have hsize : readable f = true := by
    simp [f, m, readable, Outgoing.frame, AppMessage.marshalBinary, Except.toOption, writeUint32,
      writeUint16, writeString, frameHeaderSize, maxFrameSize]
  have h₁ := step_recv (serving_iff.mpr ⟨hidle, hserved⟩) hsize
  rw [hframe] at h₁
  have hn : (s.received f [.lookup m]).exec (.lookup m) .go = some
      { sess := { s.received f [.lookup m] with heard := s.heard ++ [(r, m)] },
        push := [.sect r (.setReset (.peer 0 []))] } := by
    have hr₁ : (s.received f [.lookup m]).stream m.streamID = some r := hr
    simp only [exec, lookup, hr₁]
    rfl
  have h₂ := step_of_exec (received_head hidle _) hn
  have hreach := (h.tail trivial h₁).tail trivial h₂
  have hi₂ : (advance (s.received f [.lookup m]).threads 0
      [.sect r (.setReset (.peer 0 []))] [])[0]? = some [.sect r (.setReset (.peer 0 []))] :=
    advance_getElem?_self
      (List.getElem?_eq_some_iff.mp (received_head (f := f) hidle [.lookup m])).1
  -- and comes to the end of what it does on it
  obtain ⟨j, u, halone, hconf, hthreads⟩ := serve_alone hreach hup hst hi₂
    (by simp [Task.servesOn, Section.handled])
  have hrun := Library.reaches_of_run halone
  have hu : Reachable cfg u := hreach.trans hrun
  have hthreads' : u.threads = s.threads := by
    rw [hthreads]
    simp only [received, advance, List.append_nil, List.set_set]
    rw [← h0, List.set_getElem_self]
  have htasks : u.tasksOf r = s.tasksOf r := by rw [tasksOf, tasksOf, hthreads']
  obtain ⟨st', hst', hreset⟩ := reset_of_setReset (.peer 0 []) hreach hrun hst
    (mem_tasksOf.mpr ⟨mem_pending_of_head hi₂, rfl⟩)
    (htasks ▸ fun hmem => (hq _ hmem).2.2 _ rfl)
  refine ⟨u, ((Reaches.refl.tail .appReset h₁).tail .run h₂).trans (reaches_alone halone), ?_,
    hthreads', ?_⟩
  · have hfound : Confined r st.id s { s.received f [.lookup m] with
        heard := s.heard ++ [(r, m)],
        threads := advance (s.received f [.lookup m]).threads 0
          ([.sect r (.setReset (.peer 0 []))] ++ []) [] } :=
      .of_eq (name_owner hst) rfl rfl rfl rfl rfl
    exact hid ▸ hfound.trans hconf
  · have htidy := tidy hu hst'
    have hnone {t : Task} (ht : t ∈ (u.view r st').tasks) := hq t (htasks ▸ ht)
    have hfin : st'.finished = true := by
      rcases htidy.reset hreset with hfin | ⟨t, ht, he⟩
      · exact hfin
      · simp [(hnone ht).1] at he
    have hgone := (htidy.gone hfin).resolve_right fun ht => (hnone ht).2.1 rfl
    simpa [view, viewOf] using hgone

/-- The peer resets the stream: the table is empty again, and one more handler runs. -/
theorem Opened.flooded (h : Flooded cfg k s) (ht : Reaches step Flooding (new cfg) t)
    (ho : Opened (.handlerOpen s.heap.length []) s t) : ∃ u, Flooded cfg (k + 1) u := by
  have hidle : t.threads[0]? = some [] := by
    rw [ho.threads, List.getElem?_append_left (List.getElem?_eq_some_iff.mp h.idle).1, h.idle]
  have htasks : t.tasksOf s.heap.length = {.handlerOpen s.heap.length []} := by
    have hnone := (blank h.reached le_rfl).tasks
    rw [tasksOf] at hnone
    simp [tasksOf, ho.threads, pending_append, hnone]
  obtain ⟨u, htu, hconf, hthreads, hgone⟩ := exists_reset ht.always hidle
    (ho.served.trans h.served) (ho.up.trans h.up)
    (show t.stream (floodID s.cfg.role) = some s.heap.length by simp [stream, ho.streams])
    (by simp [htasks, Task.ends])
  have hu := ht.trans htu
  refine ⟨u, hu, hthreads ▸ hidle, hconf.served.trans (ho.served.trans h.served),
    hconf.connUp.trans (ho.up.trans h.up), hconf.closed.trans (ho.closed.trans h.closed), ?_, ?_⟩
  · rw [List.eq_nil_iff_forall_not_mem]
    rintro ⟨id, q⟩ hmem
    have hq : q ∈ u.streams.map Prod.snd := List.mem_map_of_mem hmem
    have hne : q ≠ s.heap.length := fun he => hgone (he ▸ hq)
    obtain ⟨b, hb⟩ := (reaches_table hu).ids _ hmem
    obtain ⟨st, hst, -⟩ := Option.map_eq_some_iff.mp ((names_getElem? _ _).symm.trans hb)
    -- the streams before this one had left the table already
    exact unlisted_stays ht htu ((hconf.heap q hne).symm.trans hst) (by simp [ho.streams, hne]) hq
  · rw [handlers, hthreads, ho.threads, pending_append, Multiset.filterMap_add, Multiset.card_add]
    exact congrArg (· + 1) h.handlers

/-- **The handlers that run at once are not bounded**: a peer that resets every stream it opens
while the handler of the stream runs has as many of them run as it likes, in a session whose table
is empty and whose application does nothing. -/
theorem handlers_unbounded (hh : cfg.handler = true) (k : ℕ) :
    ∃ s, Reaches step Flooding (new cfg) s ∧ s.closed = false ∧ s.streams = [] ∧
      s.handlers.card = k := by
  have hflood : ∃ s, Flooded cfg k s := by
    induction k with
    | zero => exact ⟨_, flooded_new cfg⟩
    | succ k ih =>
      obtain ⟨s, h⟩ := ih
      obtain ⟨t, ht, ho⟩ := h.opened
      obtain ⟨u, hu, ho'⟩ := ho.called ht hh
      exact ho'.flooded h hu
  obtain ⟨s, h⟩ := hflood
  exact ⟨s, h.reached, h.closed, h.streams, h.handlers⟩

/-- More handlers than the quota allows streams. -/
theorem handlers_unbounded_quota :
    ∃ s, Reaches step Flooding (new { role := .host }) s ∧ s.closed = false ∧ s.streams = [] ∧
      s.handlers.card = appMaxStreams + 1 :=
  handlers_unbounded rfl (appMaxStreams + 1)

end Session

end Mvcp.App
