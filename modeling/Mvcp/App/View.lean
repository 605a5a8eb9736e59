import Mvcp.App.Serve

/-!
# One stream of a session

The view of a stream keeps what concerns this stream of the session's state: the stream itself,
the steps that goroutines still have to take on it, whether it is in the table, whether the
connection works, the frames written for it, those that were lost, and what its critical
sections decided. Every step of the session is a step of the view or leaves the view alone, so
a property of a stream along every run is proved over the steps of the view.

## Main definitions

* `View`, `Session.view`: the view of a stream
* `View.Leads`: the steps of goroutines that touch neither the stream nor the table
* `View.Step`: the steps of a view, with the critical section that was entered, if one was
* `View.Arises`: how the steps that goroutines have to take come up
* `View.Initial`: the view of a stream just created
* `Session.guarded`: the steps that enter only critical sections of a certain kind

## Main results

* `Session.Moves.view`: a step of the session is a step of the view, or leaves it alone
* `Session.view_invariant`: the invariant rule for streams
-/

namespace Mvcp.App

open Library (Reaches Always pending advance pending_advance pending_append pending_set)

/-! ## Histories of a stream -/

/-- The stream whose critical section decided the event. -/
def Event.ref? : Event → Option Ref
  | .wrote r _ | .writeFailed r _ | .read r _ | .readFailed r _ | .streamOpened r
  | .streamClosed r | .openReturned r => some r
  | .openFailed .. | .handlerCalled .. | .handlerReturned .. | .closeReturned => none

@[simp] theorem Event.ref?_openFailed (r : Option Ref) (err : OpenError) :
    (Event.openFailed r err).ref? = none := rfl
@[simp] theorem Event.ref?_handlerCalled (r : Ref) (service metadata : Bytes) :
    (Event.handlerCalled r service metadata).ref? = none := rfl
@[simp] theorem Event.ref?_handlerReturned (r : Ref) (res : HandlerResult) :
    (Event.handlerReturned r res).ref? = none := rfl
@[simp] theorem Event.ref?_closeReturned : Event.closeReturned.ref? = none := rfl

/-- The message of a frame written for the stream `r`. -/
def Sent.app? (r : Ref) : Sent → Option AppMessage
  | ⟨some r', .app m⟩ => if r' = r then some m else none
  | _ => none

theorem Sent.app?_eq_some {r : Ref} {ref : Option Ref} {msg : Outgoing} {m : AppMessage}
    (h : Sent.app? r ⟨ref, msg⟩ = some m) : ref = some r ∧ msg = .app m := by
  cases ref with
  | none => simp [Sent.app?] at h
  | some q =>
    cases msg with
    | error code message => simp [Sent.app?] at h
    | app m' =>
      simp only [Sent.app?] at h
      split_ifs at h with hq
      exact ⟨by rw [hq], by rw [Option.some.inj h]⟩

/-- The message, if it was handed to the stream `r`. -/
def heardBy (r : Ref) (p : Ref × AppMessage) : Option AppMessage :=
  if p.1 = r then some p.2 else none

/-- The steps among `ts` that work on the stream `r`. -/
def own (r : Ref) (ts : List Task) : Multiset Task :=
  (ts : Multiset Task).filter fun t => t.ref? = some r

@[simp] theorem own_nil (r : Ref) : own r [] = 0 := rfl

@[simp] theorem own_cons (r : Ref) (t : Task) (ts : List Task) :
    own r (t :: ts) = if t.ref? = some r then t ::ₘ own r ts else own r ts := by
  simp only [own, ← Multiset.cons_coe, Multiset.filter_cons]
  split_ifs <;> simp

@[simp] theorem own_append (r : Ref) (ts us : List Task) :
    own r (ts ++ us) = own r ts + own r us := by
  simp [own, ← Multiset.coe_add]

theorem mem_own {r : Ref} {t : Task} {ts : List Task} (h : t ∈ own r ts) : t ∈ ts :=
  Multiset.mem_coe.mp (Multiset.mem_of_mem_filter h)

theorem own_eq_zero {r : Ref} {ts : List Task} (h : ∀ t ∈ ts, t.ref? ≠ some r) :
    own r ts = 0 := by
  simpa [own, Multiset.filter_eq_nil] using h

theorem own_eq_self {r : Ref} {ts : List Task} (h : ∀ t ∈ ts, t.ref? = some r) :
    own r ts = ↑ts := Multiset.filter_eq_self.mpr h

@[simp] theorem own_wrote (r : Ref) (err : Option StreamError) (k : Caller) :
    own r (k.wrote r err) = ↑(k.wrote r err) := own_eq_self (by simp)

@[simp] theorem own_read (r : Ref) (p : Bytes) (k : Caller) :
    own r (k.read r p) = ↑(k.read r p) := own_eq_self (by simp)

@[simp] theorem own_readFailed (r : Ref) (err : StreamError) (k : Caller) :
    own r (k.readFailed r err) = ↑(k.readFailed r err) := own_eq_self (by simp)

/-- A critical section leads to steps on its own stream only. -/
theorem Stream.Fires.push_ref {r : Ref} {st : Stream} {x : Section} {o : Outcome}
    (h : Stream.Fires r st x o) : ∀ t ∈ o.push, t.ref? = some r ∨ t.ref? = none := by
  cases h with
  | detachBytes => split_ifs <;> simp
  | closeEndpoint => simp +contextual
  | _ => simp [Stream.park, or_imp, forall_and]

/-- A critical section decides events of its own stream only. -/
theorem Stream.Fires.log_ref {r : Ref} {st : Stream} {x : Section} {o : Outcome}
    (h : Stream.Fires r st x o) : ∀ e ∈ o.log, e.ref? = some r := by
  cases h with
  | finish_now h hlog => rcases hlog with rfl | rfl <;> simp [Event.ref?]
  | markOpened_now hf ho hs hlog => rcases hlog with rfl | rfl <;> simp [Event.ref?]
  | _ => simp [Stream.park, Event.ref?]

/-- **What follows a frame write, done or failed, and a message handed to the stream.** -/
inductive Task.Follows (r : Ref) : Task → Prop
  | openWait : Follows r (.openWait r)
  | attachEndpoint {e : EpRef} : Follows r (.sect r (.attachEndpoint e))
  | startWriteLoop : Follows r (.startWriteLoop r)
  | start {e : EpRef} : Follows r (.pump r e .start)
  | writeLoop : Follows r (.sect r .writeLoop)
  | maybeFinish : Follows r (.sect r .maybeFinish)
  | setReset {cause : Cause} : Follows r (.sect r (.setReset cause))
  | detach : Follows r (.detach r)
  | openFail : Follows r (.openFail (some r) .sendFailed)
  | epClose {e : EpRef} : Follows r (.epClose e)
  | fail : Follows r (.fail (some r))
  | handleAccept {metadata : Bytes} {grant : ℕ} : Follows r (.sect r (.handleAccept metadata grant))
  | handleReject {code : UInt16} {message : Bytes} :
      Follows r (.sect r (.handleReject code message))
  | deliver {data : Bytes} : Follows r (.sect r (.deliver data))
  | addCredit {n : ℕ} : Follows r (.sect r (.addCredit n))
  | remoteClose : Follows r (.sect r .remoteClose)

section Follows

open Task.Follows

variable {r : Ref}

theorem Emission.sent_follows (x : Emission) : ∀ t ∈ x.sent r, t.Follows r := by
  cases x <;> simp [Emission.sent, openWait, attachEndpoint, startWriteLoop, start, writeLoop,
    maybeFinish, setReset]

theorem Emission.failed_follows (x : Emission) : ∀ t ∈ x.failed r, t.Follows r := by
  cases x <;> simp [Emission.failed, detach, openFail, epClose, fail, setReset]

theorem Session.dispatch_follows (m : AppMessage) :
    ∀ t ∈ Session.dispatch r m, t.Follows r := by
  cases m <;> simp [Session.dispatch, handleAccept, handleReject, deliver, addCredit, remoteClose,
    setReset]

theorem mem_push {ts : List Task} {t : Task} (h : t ∈ ts ++ [].flatten) : t ∈ ts := by
  simpa using h

theorem Task.Follows.ref {t : Task} (h : t.Follows r) : t.ref? = some r ∨ t.ref? = none := by
  cases h <;> simp

end Follows

theorem Session.BridgeTask.ref {r : Ref} {e : EpRef} {t : Task} (h : Session.BridgeTask r e t) :
    t.ref? = some r ∨ t.ref? = none := by
  cases h <;> simp

/-! ## Views -/

/-- What concerns one stream of a session. -/
structure View where
  st : Stream
  /-- The steps on this stream that goroutines still have to take. -/
  tasks : Multiset Task
  /-- The stream is in the table. -/
  listed : Bool
  /-- The connection works. -/
  up : Bool
  /-- The frames written for this stream. -/
  out : List AppMessage
  /-- The frames for this stream whose write failed. -/
  lost : List AppMessage
  /-- The messages of the peer that `Serve` handed to this stream. -/
  heard : List AppMessage
  /-- What the critical sections of this stream decided. -/
  log : List Event

namespace View

/-- The steps of goroutines on a stream that touch neither the stream nor the table. -/
inductive Leads (r : Ref) (st : Stream) : Task → Multiset Task → Prop
  | start_closed : Leads r st (.startWriteLoop r) 0
  | start : Leads r st (.startWriteLoop r) {.sect r .writeLoop}
  | open_ready (hr : 0 < st.readyClosed) : Leads r st (.openWait r) {.sect r .openResult}
  | open_closed : Leads r st (.openWait r) 0
  | open_canceled : Leads r st (.openWait r) {.emit r (.reset .openTimeout)}
  | handler_called {metadata : Bytes} :
      Leads r st (.acceptOpen r metadata) {.handlerOpen r metadata}
  | no_handler {metadata message : Bytes} {code : UInt16} :
      Leads r st (.acceptOpen r metadata) (.detach r ::ₘ {.emit r (.reject code message)})
  | handler_refused {metadata message : Bytes} {code : UInt16} :
      Leads r st (.handlerOpen r metadata) (.detach r ::ₘ {.emit r (.reject code message)})
  | handler_accepted {metadata acceptMeta : Bytes} {e : EpRef}
      (h : acceptMeta.length ≤ appMaxMetaBytes) :
      Leads r st (.handlerOpen r metadata) {.sect r (.acceptWindow e acceptMeta)}
  | pump {e : EpRef} {x : Pump} {ep ep' : Endpoint} {push : List Task} {spawn : List (List Task)}
      (h : Session.Pumps r e ep x ep' push spawn) :
      Leads r st (.pump r e x) (own r push + own r spawn.flatten)
  | failed : Leads r st (.fail (some r)) 0

/-- **The steps of a view**, with the critical section that was entered, if one was. -/
inductive Step (r : Ref) (v : View) : Option Section → View → Prop
  | sect {x : Section} {o : Outcome} {rest : Multiset Task} (ht : v.tasks = .sect r x ::ₘ rest)
      (hf : Stream.Fires r v.st x o) :
      Step r v (some x)
        { v with st := o.st, tasks := own r o.push + rest, log := v.log ++ o.log }
  | sent {x : Emission} {rest : Multiset Task} (ht : v.tasks = .emit r x ::ₘ rest)
      (hm : (x.message v.st).marshalBinary.isOk = true) (hup : v.up = true) :
      Step r v none { v with tasks := own r (x.sent r) + rest, out := v.out ++ [x.message v.st] }
  | lost {x : Emission} {rest : Multiset Task} (ht : v.tasks = .emit r x ::ₘ rest)
      (h : ¬((x.message v.st).marshalBinary.isOk = true ∧ v.up = true)) :
      Step r v none
        { v with tasks := own r (x.failed r) + rest, lost := v.lost ++ [x.message v.st] }
  | lead {t : Task} {ts rest : Multiset Task} (ht : v.tasks = t ::ₘ rest)
      (h : Leads r v.st t ts) : Step r v none { v with tasks := ts + rest }
  /-- `detach` takes the stream out of the table. -/
  | detach {rest : Multiset Task} (ht : v.tasks = .detach r ::ₘ rest) :
      Step r v none { v with tasks := .sect r .detachBytes ::ₘ rest, listed := false }
  /-- `Serve` found the stream of a message. -/
  | arrive {m : AppMessage} (hid : m.streamID = v.st.id) (hl : v.listed = true)
      (he : v.st.openErr = none) (hs : ∀ t ∈ v.tasks, t.serves = false) :
      Step r v none
        { v with tasks := own r (Session.dispatch r m) + v.tasks, heard := v.heard ++ [m] }
  /-- `fail` takes all streams out of the table and resets them. -/
  | fail {rest : Multiset Task} (hl : v.listed = true)
      (ht : v.tasks = rest ∨ v.tasks = .fail (some r) ::ₘ rest) :
      Step r v none
        { v with tasks := .sect r (.setReset .peerGone) ::ₘ rest, listed := false }
  /-- The application calls. -/
  | call {t : Task} (hs : v.st.shared = true) (h : Session.Calls r t) :
      Step r v none { v with tasks := t ::ₘ v.tasks }
  | down : Step r v none { v with up := false }

/-- How a step that a goroutine still has to take after a step of the view came up. -/
inductive Arises (r : Ref) (v : View) (a : Option Section) (v' : View) (t : Task) : Prop
  | kept (h : t ∈ v.tasks)
  | sect {x : Section} {o : Outcome} (hx : .sect r x ∈ v.tasks) (ha : a = some x)
      (hf : Stream.Fires r v.st x o) (hst : v'.st = o.st) (h : t ∈ o.push)
  | sent {x : Emission} (hx : .emit r x ∈ v.tasks) (hout : v'.out = v.out ++ [x.message v.st])
      (h : t ∈ x.sent r)
  | lost {x : Emission} (hx : .emit r x ∈ v.tasks) (h : t ∈ x.failed r)
  | lead {t₀ : Task} {ts : Multiset Task} (h₀ : t₀ ∈ v.tasks) (hl : Leads r v.st t₀ ts)
      (h : t ∈ ts)
  | detach (h : t = .sect r .detachBytes)
  | arrive {m : AppMessage} (hid : m.streamID = v.st.id) (hheard : v'.heard = v.heard ++ [m])
      (h : t ∈ Session.dispatch r m)
  | fail (h : t = .sect r (.setReset .peerGone))
  | call (hs : v.st.shared = true) (h : Session.Calls r t)

/-- A step of a view leaves a step of a goroutine as it was, or leads to it. -/
theorem Step.arises {r : Ref} {v v' : View} {a : Option Section} (hs : Step r v a v') {t : Task}
    (ht : t ∈ v'.tasks) : Arises r v a v' t := by
  cases hs with
  | sect h hf =>
    rcases Multiset.mem_add.mp ht with ht | ht
    · exact .sect (by simp [h]) rfl hf rfl (mem_own ht)
    · exact .kept (by simp [h, ht])
  | sent h hm hup =>
    rcases Multiset.mem_add.mp ht with ht | ht
    · exact .sent (by simp [h]) rfl (mem_own ht)
    · exact .kept (by simp [h, ht])
  | lost h hn =>
    rcases Multiset.mem_add.mp ht with ht | ht
    · exact .lost (by simp [h]) (mem_own ht)
    · exact .kept (by simp [h, ht])
  | lead h hl =>
    rcases Multiset.mem_add.mp ht with ht | ht
    · exact .lead (by simp [h]) hl ht
    · exact .kept (by simp [h, ht])
  | detach h =>
    rcases Multiset.mem_cons.mp ht with ht | ht
    · exact .detach ht
    · exact .kept (by simp [h, ht])
  | arrive hid hl he hs =>
    rcases Multiset.mem_add.mp ht with ht | ht
    · exact .arrive hid rfl (mem_own ht)
    · exact .kept ht
  | fail hl h =>
    rcases Multiset.mem_cons.mp ht with ht | ht
    · exact .fail ht
    · rcases h with h | h
      · exact .kept (by simpa [h] using ht)
      · exact .kept (by simp [h, ht])
  | call hs hc =>
    rcases Multiset.mem_cons.mp ht with rfl | ht
    · exact .call hs hc
    · exact .kept ht
  | down => exact .kept ht

/-- A step of a view leaves the stream as it is, or enters one critical section. -/
theorem Step.fires {r : Ref} {v v' : View} {a : Option Section} (hs : Step r v a v') :
    v'.st = v.st ∧ v'.log = v.log ∨ ∃ x o, a = some x ∧ .sect r x ∈ v.tasks ∧
      Stream.Fires r v.st x o ∧ v'.st = o.st ∧ v'.log = v.log ++ o.log := by
  cases hs with
  | sect ht hf => exact .inr ⟨_, _, rfl, by simp [ht], hf, rfl, rfl⟩
  | _ => exact .inl ⟨rfl, rfl⟩

/-- A step that enters no critical section leaves the stream and its events as they are. -/
theorem Step.quiet {r : Ref} {v v' : View} (hs : Step r v none v') :
    v'.st = v.st ∧ v'.log = v.log := by
  rcases hs.fires with hst | ⟨x, o, ha, -⟩
  · exact hst
  · cases ha

/-- The histories grow. -/
theorem Step.grows {r : Ref} {v v' : View} {a : Option Section} (hs : Step r v a v') :
    v.out <+: v'.out ∧ v.lost <+: v'.lost ∧ v.heard <+: v'.heard := by
  cases hs with
  | sent ht hm hup => exact ⟨List.prefix_append _ _, List.prefix_rfl, List.prefix_rfl⟩
  | lost ht h => exact ⟨List.prefix_rfl, List.prefix_append _ _, List.prefix_rfl⟩
  | arrive hid hl he hs => exact ⟨List.prefix_rfl, List.prefix_rfl, List.prefix_append _ _⟩
  | _ => exact ⟨List.prefix_rfl, List.prefix_rfl, List.prefix_rfl⟩

/-- The view of a stream just created. -/
inductive Initial (r : Ref) : View → Prop
  | inbound {id : UInt32} {service metadata : Bytes} {born : ℕ} {up : Bool} :
      Initial r
        { st := { id, service, inbound := true, accepting := true, born },
          tasks := {.acceptOpen r metadata}, listed := true, up, out := [], lost := [],
          heard := [], log := [] }
  | outbound {id : UInt32} {service metadata : Bytes} {born : ℕ} {up : Bool}
      (hm : metadata.length ≤ appMaxMetaBytes) :
      Initial r
        { st := { id, service, inbound := false, opening := true,
                  rcvWindow := appInitialWindow, born },
          tasks := {.emit r (.open metadata)}, listed := true, up, out := [], lost := [],
          heard := [], log := [] }

end View

namespace Session

/-- The view of the stream `r` in the state `st`, when the goroutines have the steps `ts` on it
to take. -/
def viewOf (s : Session) (r : Ref) (ts : Multiset Task) (st : Stream) : View where
  st := st
  tasks := ts
  listed := decide (r ∈ s.streams.map Prod.snd)
  up := s.connUp
  out := s.out.filterMap (Sent.app? r)
  lost := s.lost.filterMap (Sent.app? r)
  heard := s.heard.filterMap (heardBy r)
  log := s.log.filter fun e => e.ref? = some r

/-- The steps on the stream `r` that the goroutines still have to take. -/
def tasksOf (s : Session) (r : Ref) : Multiset Task :=
  (pending s.threads).filter fun t => t.ref? = some r

/-- The view of the stream `r`, which is in the state `st`. -/
def view (s : Session) (r : Ref) (st : Stream) : View := s.viewOf r (s.tasksOf r) st

/-- The view goes from `v` to `v'` by a step, or not at all. If a critical section was entered,
the goroutine was about to take the step `t`. -/
def ViewMoves (r : Ref) (t : Task) (v v' : View) : Prop :=
  v' = v ∨ ∃ a, View.Step r v a v' ∧ ∀ x, a = some x → t = .sect r x

theorem ViewMoves.of_step {r : Ref} {t : Task} {v v' : View} (h : View.Step r v none v') :
    ViewMoves r t v v' :=
  .inr ⟨none, h, by simp⟩

variable {s s' : Session} {r r' : Ref} {st : Stream} {t : Task} {n : Next} {l : Label}
variable {push : List Task} {spawn : List (List Task)} {others : Multiset Task}

/-- The steps of other streams are none of `r`. -/
theorem own_other (hr : r' ≠ r) {ts : List Task}
    (h : ∀ t ∈ ts, t.ref? = some r' ∨ t.ref? = none) : own r ts = 0 := by
  refine own_eq_zero fun t ht => ?_
  rcases h t ht with h | h
  · simpa [h] using hr
  · simp [h]

/-- A step on `r'` that only a goroutine of `r'` can see. -/
theorem viewMoves_lead (hs : s'.viewOf r = s.viewOf r) (ht : t.ref? = some r')
    (hp : ∀ t' ∈ push ++ spawn.flatten, t'.ref? = some r' ∨ t'.ref? = none)
    (hl : r' = r → View.Leads r st t (own r push + own r spawn.flatten)) :
    ViewMoves r t (s.viewOf r (own r [t] + others) st)
      (s'.viewOf r (own r push + own r spawn.flatten + others) st) := by
  rw [hs]
  by_cases hr : r' = r
  · subst hr
    exact .of_step (.lead (by simp [viewOf, ht]) (hl rfl))
  · have hown := own_other hr hp
    rw [own_append] at hown
    rw [hown, (own_eq_zero (by simpa [ht] using hr) : own r [t] = 0)]
    exact .inl rfl

/-- A step that no goroutine of `r` takes and that no other part of the view sees. -/
theorem viewMoves_idle (hs : s'.viewOf r = s.viewOf r) (ht : t.ref? = none)
    (hp : ∀ t' ∈ push ++ spawn.flatten, t'.ref? ≠ some r) :
    ViewMoves r t (s.viewOf r (own r [t] + others) st)
      (s'.viewOf r (own r push + own r spawn.flatten + others) st) := by
  have hown := own_eq_zero hp
  rw [own_append] at hown
  rw [hs, hown, (own_eq_zero (by simp [ht]) : own r [t] = 0)]
  exact .inl rfl

theorem filter_log_self {log : List Event} (h : ∀ e ∈ log, e.ref? = some r) :
    (log.filter fun e => e.ref? = some r) = log :=
  List.filter_eq_self.mpr (by simpa using h)

theorem filter_log_other (hr : r' ≠ r) {log : List Event} (h : ∀ e ∈ log, e.ref? = some r') :
    (log.filter fun e => e.ref? = some r) = [] :=
  List.filter_eq_nil_iff.mpr fun e he => by simpa [h e he] using hr

theorem view_sect {x : Section} {st' : Stream} {o : Outcome} {buffered : ℕ}
    (hst' : s.heap[r']? = some st') (hf : Stream.Fires r' st' x o) (hst : s.heap[r]? = some st) :
    ∃ st₁, (s.heap.set r' o.st)[r]? = some st₁ ∧
      ViewMoves r (.sect r' x) (s.viewOf r (own r [.sect r' x] + others) st)
        (viewOf { s with heap := s.heap.set r' o.st, buffered, log := s.log ++ o.log } r
          (own r o.push + own r [] + others) st₁) := by
  by_cases hr : r' = r
  · subst hr
    obtain rfl : st' = st := Option.some.inj (hst'.symm.trans hst)
    refine ⟨o.st, by simp [(List.getElem?_eq_some_iff.mp hst).1], .inr ⟨some x, ?_, by simp⟩⟩
    have hstep : View.Step r' (s.viewOf r' (own r' [.sect r' x] + others) st') (some x) _ :=
      .sect (by simp [viewOf] : _ = .sect r' x ::ₘ others) hf
    convert hstep using 1
    simp [viewOf, filter_log_self hf.log_ref]
  · refine ⟨st, by rw [List.getElem?_set_ne hr, hst], .inl ?_⟩
    simp [viewOf, own_other hr hf.push_ref, filter_log_other hr hf.log_ref, hr]

theorem view_sent {x : Emission} {st' : Stream} (hst' : s.heap[r']? = some st')
    (h : s.Sends (x.message st')) (hst : s.heap[r]? = some st) :
    ViewMoves r (.emit r' x) (s.viewOf r (own r [.emit r' x] + others) st)
      (viewOf { s with out := s.out ++ [⟨some r', .app (x.message st')⟩] } r
        (own r (x.sent r') + own r [] + others) st) := by
  by_cases hr : r' = r
  · subst hr
    obtain rfl : st' = st := Option.some.inj (hst'.symm.trans hst)
    have hstep : View.Step r' (s.viewOf r' (own r' [.emit r' x] + others) st') none _ :=
      .sent (by simp [viewOf] : _ = .emit r' x ::ₘ others) h.1 h.2
    refine .of_step ?_
    convert hstep using 1
    simp [viewOf, Sent.app?]
  · refine .inl ?_
    simp [viewOf, own_other hr (fun t ht => (x.sent_follows t ht).ref), hr, Sent.app?]

theorem view_lost {x : Emission} {st' : Stream} (hst' : s.heap[r']? = some st')
    (h : ¬ s.Sends (x.message st')) (hst : s.heap[r]? = some st) :
    ViewMoves r (.emit r' x) (s.viewOf r (own r [.emit r' x] + others) st)
      (viewOf { s with lost := s.lost ++ [⟨some r', .app (x.message st')⟩] } r
        (own r (x.failed r') + own r [] + others) st) := by
  by_cases hr : r' = r
  · subst hr
    obtain rfl : st' = st := Option.some.inj (hst'.symm.trans hst)
    have hstep : View.Step r' (s.viewOf r' (own r' [.emit r' x] + others) st') none _ :=
      .lost (by simp [viewOf] : _ = .emit r' x ::ₘ others) h
    refine .of_step ?_
    convert hstep using 1
    simp [viewOf, Sent.app?]
  · refine .inl ?_
    simp [viewOf, own_other hr fun t ht => (x.failed_follows t ht).ref, hr, Sent.app?]

theorem view_detach (htab : s.Table) {st' : Stream} (hst' : s.heap[r']? = some st') :
    ViewMoves r (.detach r') (s.viewOf r (own r [.detach r'] + others) st)
      ((s.delete r' st'.id).viewOf r (own r [.sect r' .detachBytes] + own r [] + others) st) := by
  have hdel : (s.delete r' st'.id).viewOf r (own r [.sect r' .detachBytes] + own r [] + others) st =
      { s.viewOf r (own r [.sect r' .detachBytes] + others) st with
        listed := decide (r ∈ s.streams.map Prod.snd ∧ r ≠ r') } := by
    simp only [viewOf, htab.mem_delete hst', own_nil, add_zero]
    unfold delete
    split_ifs <;> rfl
  rw [hdel]
  by_cases hr : r' = r
  · subst hr
    refine .of_step ?_
    have hstep : View.Step r' (s.viewOf r' (own r' [.detach r'] + others) st) none _ :=
      .detach (by simp [viewOf] : _ = .detach r' ::ₘ others)
    convert hstep using 1
    simp [viewOf]
  · refine .inl ?_
    simp [viewOf, hr, Ne.symm hr]

/-- `fail` resets each stream of the table once. -/
theorem own_fail (htab : s.Table) {refs : List Ref} (hrefs : refs.Perm (s.streams.map Prod.snd)) :
    own r (.clearBuffered :: refs.map (fun r => .sect r (.setReset .peerGone)) ++ [.closeConn]) =
      if r ∈ s.streams.map Prod.snd then {.sect r (.setReset .peerGone)} else 0 := by
  have hnd : refs.Nodup := hrefs.nodup_iff.mpr htab.refs
  simp only [← hrefs.mem_iff]
  have hmap (l : List Ref) (hl : l.Nodup) :
      own r (l.map fun r => .sect r (.setReset .peerGone)) =
        if r ∈ l then {.sect r (.setReset .peerGone)} else 0 := by
    induction l with
    | nil => simp
    | cons a l ih =>
      obtain ⟨ha, hl⟩ := List.nodup_cons.mp hl
      rw [List.map_cons, own_cons, ih hl]
      by_cases har : a = r
      · subst har; simp [ha]
      · simp [har, Ne.symm har]
  simp [hmap refs hnd]

theorem view_fail (htab : s.Table) {caller : Option Ref} {refs : List Ref}
    (hrefs : refs.Perm (s.streams.map Prod.snd)) :
    ViewMoves r (.fail caller) (s.viewOf r (own r [.fail caller] + others) st)
      (viewOf { s with closed := true, streams := [] } r
        (own r (.clearBuffered :: refs.map (fun r => .sect r (.setReset .peerGone)) ++
          [.closeConn]) + own r [] + others) st) := by
  rw [own_fail htab hrefs]
  by_cases hl : r ∈ s.streams.map Prod.snd
  · refine .of_step ?_
    have hstep : View.Step r (s.viewOf r (own r [.fail caller] + others) st) none _ :=
      .fail (by simpa [viewOf] using hl) (by
        by_cases hc : caller = some r <;> simp [viewOf, hc] :
          _ = others ∨ _ = .fail (some r) ::ₘ others)
    convert hstep using 1
    simp only [viewOf, hl, if_true]
    simp
  · by_cases hc : caller = some r
    · subst hc
      refine .of_step ?_
      have hstep : View.Step r (s.viewOf r (own r [.fail (some r)] + others) st) none _ :=
        .lead (by simp [viewOf] : _ = .fail (some r) ::ₘ others) .failed
      convert hstep using 1
      simp only [viewOf, hl, if_false]
      simp
    · refine .inl ?_
      simp only [viewOf, hl, if_false]
      simp [hc]

/-- A stream that is created leaves the views of the others alone. -/
theorem viewOf_insert (hr : r ≠ s.heap.length) (id : UInt32) (st₀ : Stream) (nextID : ℕ) :
    viewOf { s with nextID, heap := s.heap ++ [st₀],
                    streams := (id, s.heap.length) :: s.streams } r = s.viewOf r := by
  funext ts st
  simp only [viewOf, List.map_cons, List.mem_cons, hr, false_or]

/-- **An atomic step of a goroutine, seen from one stream.** -/
theorem Acts.view (htab : s.Table) (ha : Acts s t n) (hst : s.heap[r]? = some st)
    (hserve : t.serves = true → ∀ t' ∈ others, t'.serves = false)
    (hrej : t.serves = true → r ∈ s.streams.map Prod.snd → st.openErr = none) :
    ∃ st', n.sess.heap[r]? = some st' ∧
      ViewMoves r t (s.viewOf r (own r [t] + others) st)
        (n.sess.viewOf r (own r n.push + own r n.spawn.flatten + others) st') := by
  have hlt := (List.getElem?_eq_some_iff.mp hst).1
  cases ha with
  -- steps on a stream: a step of the view if the stream is `r`, and of no concern to `r` if not
  | sect hst' hf ho => exact view_sect hst' hf hst
  | emit_sent hst' h => exact ⟨st, hst, view_sent hst' h hst⟩
  | emit_lost hst' h => exact ⟨st, hst, view_lost hst' h hst⟩
  | pump hep h =>
    refine ⟨st, hst, viewMoves_lead rfl rfl (fun t ht => (h.tasks t ht).ref) fun hr => ?_⟩
    subst hr
    exact .pump h
  | detach hst' => exact ⟨st, by rw [delete_heap, hst], view_detach htab hst'⟩
  | start_closed hc =>
    exact ⟨st, hst, viewMoves_lead rfl rfl (by simp) fun hr => by simpa [hr] using .start_closed⟩
  | start hc =>
    exact ⟨st, hst, viewMoves_lead rfl rfl (by simp) fun hr => by simpa [hr] using .start⟩
  -- a new stream has a new place in the heap
  | open_created hv hm hc hq hid =>
    refine ⟨st, by rw [List.getElem?_append_left hlt, hst],
      viewMoves_idle (viewOf_insert hlt.ne _ _ _) rfl ?_⟩
    simpa using hlt.ne'
  | open_ready hst' hr =>
    refine ⟨st, hst, viewMoves_lead rfl rfl (by simp) fun he => ?_⟩
    subst he
    obtain rfl := Option.some.inj (hst'.symm.trans hst)
    simpa using .open_ready hr
  | open_closed hc =>
    exact ⟨st, hst, viewMoves_lead rfl rfl (by simp) fun hr => by simpa [hr] using .open_closed⟩
  | open_canceled =>
    exact ⟨st, hst, viewMoves_lead rfl rfl (by simp) fun hr => by simpa [hr] using .open_canceled⟩
  | open_admitted h₀ hid hv hm hc hnew hq =>
    refine ⟨st, by rw [List.getElem?_append_left hlt, hst],
      viewMoves_idle (viewOf_insert hlt.ne _ _ _) rfl ?_⟩
    simpa using hlt.ne'
  -- `Serve` hands the message over: the stream is in the table, and nothing else serves it
  | @lookup_found m r' h =>
    refine ⟨st, hst, ?_⟩
    by_cases hr : r' = r
    · subst hr
      have hm := mem_of_stream h
      obtain ⟨b, hb⟩ := htab.ids _ hm
      simp only [names_getElem?, hst, Option.map_some, Option.some.injEq] at hb
      have hl : r' ∈ s.streams.map Prod.snd := List.mem_map_of_mem hm
      refine .of_step ?_
      have hstep : View.Step r' (s.viewOf r' (own r' [.lookup m] + others) st) none _ :=
        .arrive (m := m) (congrArg Prod.fst hb).symm (by simpa [viewOf] using hl) (hrej rfl hl)
          (by simpa [viewOf] using hserve rfl)
      convert hstep using 1
      simp [viewOf, heardBy]
    · refine .inl ?_
      simp [viewOf, heardBy, hr, own_other hr fun t ht => (Session.dispatch_follows m t ht).ref]
  -- the log grows by an event that is on no stream
  | handler_called hst' hh =>
    refine ⟨st, hst, viewMoves_lead ?_ rfl (by simp) fun hr => by
      simpa [hr] using .handler_called⟩
    funext ts st'; simp [viewOf]
  | no_handler hh =>
    exact ⟨st, hst, viewMoves_lead rfl rfl (by simp) fun hr => by simpa [hr] using .no_handler⟩
  | handler_refused =>
    refine ⟨st, hst, viewMoves_lead ?_ rfl (by simp) fun hr => by
      simpa [hr] using .handler_refused⟩
    funext ts st'; simp [viewOf]
  | handler_oversized h =>
    refine ⟨st, hst, viewMoves_lead ?_ rfl (by simp) fun hr => by
      simpa [hr] using .handler_refused⟩
    funext ts st'; simp [viewOf]
  | handler_accepted h =>
    refine ⟨st, hst, viewMoves_lead ?_ rfl (by simp) fun hr => by
      simpa [hr] using .handler_accepted h⟩
    funext ts st'; simp [viewOf]
  | @fail_again caller hc =>
    refine ⟨st, hst, ?_⟩
    cases caller with
    | none => exact viewMoves_idle rfl rfl (by simp)
    | some r' =>
      exact viewMoves_lead rfl rfl (by simp) fun hr => by simpa [hr] using .failed
  -- `fail` takes every stream out of the table
  | fail_now hc hrefs => exact ⟨st, hst, view_fail htab hrefs⟩
  | closeConn hc =>
    refine ⟨st, hst, .of_step ?_⟩
    have hstep : View.Step r (s.viewOf r (own r [.closeConn] + others) st) none _ := .down
    convert hstep using 1
    simp [viewOf]
  -- the frames of `Serve` itself belong to no stream
  | reject_sent h =>
    refine ⟨st, hst, viewMoves_idle ?_ rfl (by simp)⟩
    funext ts st'; simp [viewOf, Sent.app?]
  | reject_lost =>
    refine ⟨st, hst, viewMoves_idle ?_ rfl (by simp)⟩
    funext ts st'; simp [viewOf, Sent.app?]
  | error_sent h =>
    refine ⟨st, hst, viewMoves_idle ?_ rfl (by simp)⟩
    funext ts st'; simp [viewOf, Sent.app?]
  | error_lost =>
    refine ⟨st, hst, viewMoves_idle ?_ rfl (by simp)⟩
    funext ts st'; simp [viewOf, Sent.app?]
  | openFail =>
    refine ⟨st, hst, viewMoves_idle ?_ rfl (by simp)⟩
    funext ts st'; simp [viewOf]
  | closeReturn =>
    refine ⟨st, hst, viewMoves_idle ?_ rfl (by simp)⟩
    funext ts st'; simp [viewOf]
  | _ => exact ⟨st, hst, viewMoves_idle rfl rfl (by simp)⟩

theorem tasksOf_advance (hserve : s.Serving) {i : ℕ} {rest : List Task}
    (ht : s.threads[i]? = some (t :: rest)) :
    ∃ others, s.tasksOf r = own r [t] + others ∧
      (t.serves = true → ∀ t' ∈ others, t'.serves = false) ∧ ∀ push spawn,
      ((pending (advance s.threads i (push ++ rest) spawn)).filter fun t => t.ref? = some r) =
        own r push + own r spawn.flatten + others := by
  obtain ⟨others, h₁, h₂⟩ := pending_advance ht
  refine ⟨others.filter fun t => t.ref? = some r, ?_, fun hs t' ht' => ?_, fun push spawn => ?_⟩
  · rw [tasksOf, h₁, ← Multiset.singleton_add, Multiset.filter_add]
    rfl
  · have hc := hserve.countP_le
    rw [h₁, Multiset.countP_cons, if_pos hs] at hc
    have hz : others.countP (fun t => t.serves = true) = 0 := by omega
    simpa using Multiset.countP_eq_zero.mp hz t' (Multiset.mem_of_mem_filter ht')
  · rw [h₂, Multiset.filter_add, Multiset.filter_add]
    rfl

theorem tasksOf_append {ts : List Task} :
    ((pending (s.threads ++ [ts])).filter fun t => t.ref? = some r) = s.tasksOf r + own r ts := by
  rw [pending_append, Multiset.filter_add]
  simp [tasksOf, own]

theorem tasksOf_serve {ts : List Task} (h : s.threads[0]? = some []) :
    ((pending (s.threads.set 0 ts)).filter fun t => t.ref? = some r) = s.tasksOf r + own r ts := by
  obtain ⟨others, h₁, h₂⟩ := pending_set h
  rw [tasksOf, h₁, h₂, Multiset.filter_add, Multiset.coe_nil, zero_add, add_comm]
  rfl

/-- The handling of a frame begins with steps on no stream. -/
theorem handleFrame_ref (registry : Registry) (f : Frame) :
    ∀ t ∈ handleFrame registry f, t.ref? = none := by
  unfold handleFrame
  split_ifs
  · simp
  · split <;> simp

theorem own_handleFrame (registry : Registry) (f : Frame) :
    own r (handleFrame registry f) = 0 :=
  own_eq_zero fun t ht => by simp [handleFrame_ref registry f t ht]

theorem shares_eq (hst : s.heap[r]? = some st) : s.shares r = st.shared := by
  simp [shares, hst]

theorem Calls.ref_eq (h : Calls r t) : t.ref? = some r := by
  cases h <;> rfl

/-- **A step of the session is a step of the view, or leaves the view alone.** -/
theorem Moves.view (htab : s.Table) (hserve : s.Serving) (hm : Moves s l s')
    (hst : s.heap[r]? = some st) :
    ∃ st', s'.heap[r]? = some st' ∧
      (s'.view r st' = s.view r st ∨ ∃ a, View.Step r (s.view r st) a (s'.view r st') ∧
        ∀ x, a = some x → ∃ i c rest, l = .run i c ∧
          s.threads[i]? = some (.sect r x :: rest)) := by
  cases hm with
  | @run i c t rest n ht ha =>
    obtain ⟨others, h₁, hs, h₂⟩ := tasksOf_advance (r := r) hserve ht
    obtain ⟨st', hst', hv⟩ := ha.view htab hst hs fun hs' hl => by
      -- `Serve` is the goroutine that serves, and after a rejection it detaches the stream first
      by_contra he
      obtain ⟨ts, h0⟩ := hserve.rejected r st hst he hl
      have hi : i = 0 := by
        cases i with
        | zero => rfl
        | succ i => simp [hserve.others i _ ht t (by simp)] at hs'
      subst hi
      obtain ⟨rfl, -⟩ := List.cons.inj (Option.some.inj (ht.symm.trans h0))
      simp [Task.serves] at hs'
    have hv' : view { n.sess with threads := advance s.threads i (n.push ++ rest) n.spawn } r st' =
        n.sess.viewOf r (own r n.push + own r n.spawn.flatten + others) st' := by
      rw [← h₂]; rfl
    refine ⟨st', hst', ?_⟩
    rw [hv', Session.view, h₁]
    rcases hv with hv | ⟨a, hstep, hx⟩
    · exact .inl hv
    · exact .inr ⟨a, hstep, fun x hax => ⟨i, c, rest, rfl, hx x hax ▸ ht⟩⟩
  | @callOn c r' t eps hs h =>
    refine ⟨st, hst, ?_⟩
    have hv' : view { s with threads := s.threads ++ [[t]], eps := s.eps ++ eps } r st =
        s.viewOf r (s.tasksOf r + own r [t]) st := by
      rw [← tasksOf_append]; rfl
    rw [hv']
    by_cases hr : r' = r
    · subst hr
      refine .inr ⟨none, ?_, by simp⟩
      have hstep : View.Step r' (s.view r' st) none _ := .call ((shares_eq hst) ▸ hs) h
      convert hstep using 1
      simp [Session.view, viewOf, h.ref_eq, add_comm]
    · exact .inl (by simp [Session.view, h.ref_eq, hr])
  | callOpen =>
    -- a call that starts a goroutine on no stream
    refine ⟨st, hst, .inl ?_⟩
    exact congrArg (s.viewOf r · st) (tasksOf_append.trans (by simp))
  | callClose =>
    refine ⟨st, hst, .inl ?_⟩
    exact congrArg (s.viewOf r · st) (tasksOf_append.trans (by simp))
  | recv hserve hs =>
    refine ⟨st, hst, .inl ?_⟩
    exact congrArg (s.viewOf r · st) ((tasksOf_serve hserve).trans (by simp [own_handleFrame]))
  | readError hserve hs =>
    refine ⟨st, hst, .inl ?_⟩
    exact congrArg (s.viewOf r · st) ((tasksOf_serve hserve).trans (by simp))
  | connLost => exact ⟨st, hst, .inr ⟨none, .down, by simp⟩⟩

/-! ## Streams not yet created -/

/-- Nothing in the session concerns the stream `r`. -/
structure Blank (s : Session) (r : Ref) (ts : Multiset Task) : Prop where
  heap : s.heap.length ≤ r
  tasks : ts = 0
  out : s.out.filterMap (Sent.app? r) = []
  lost : s.lost.filterMap (Sent.app? r) = []
  heard : s.heard.filterMap (heardBy r) = []
  log : (s.log.filter fun e => e.ref? = some r) = []

theorem Blank.not_listed {ts : Multiset Task} (hb : Blank s r ts) (htab : s.Table) :
    r ∉ s.streams.map Prod.snd := by
  intro hm
  obtain ⟨p, hp, rfl⟩ := List.mem_map.mp hm
  obtain ⟨b, hget⟩ := htab.ids p hp
  have hlt := (List.getElem?_eq_some_iff.mp hget).1
  rw [names, List.length_map] at hlt
  exact absurd hb.heap (Nat.not_le.mpr hlt)

/-- A step leaves a stream that does not exist alone, or creates it. -/
theorem Acts.blank (htab : s.Table) (ha : Acts s t n) (hb : Blank s r (own r [t] + others)) :
    Blank n.sess r (own r n.push + own r n.spawn.flatten + others) ∨
      ∃ st, n.sess.heap[r]? = some st ∧
        View.Initial r (n.sess.viewOf r (own r n.push + own r n.spawn.flatten + others) st) := by
  have hl := hb.not_listed htab
  obtain ⟨hheap, hts, hout, hlost, hheard, hlog⟩ := hb
  -- no goroutine works on a stream that does not exist
  obtain ⟨ht, rfl⟩ : own r [t] = 0 ∧ others = 0 := by
    have hc := congrArg Multiset.card hts
    rw [Multiset.card_add, Multiset.card_zero] at hc
    exact ⟨Multiset.card_eq_zero.mp (by omega), Multiset.card_eq_zero.mp (by omega)⟩
  have hne {r' : Ref} (h : t.ref? = some r') : r' ≠ r := by
    rintro rfl
    simp [h] at ht
  cases ha with
  | sect hst hf ho =>
    refine .inl ⟨by simpa using hheap, ?_, hout, hlost, hheard, ?_⟩
    · simp [own_other (hne rfl) hf.push_ref]
    · simp only [List.filter_append, hlog, filter_log_other (hne rfl) hf.log_ref, List.append_nil]
  | @emit_sent r' x st hst h =>
    refine .inl ⟨hheap, ?_, ?_, hlost, hheard, hlog⟩
    · simp [own_other (hne rfl) fun t ht => (x.sent_follows t ht).ref]
    · simpa [hout, Sent.app?] using hne rfl
  | @emit_lost r' x st hst h =>
    refine .inl ⟨hheap, ?_, hout, ?_, hheard, hlog⟩
    · simp [own_other (hne rfl) fun t ht => (x.failed_follows t ht).ref]
    · simpa [hlost, Sent.app?] using hne rfl
  | pump hep h =>
    refine .inl ⟨hheap, ?_, hout, hlost, hheard, hlog⟩
    have := own_other (hne rfl) fun t ht => (h.tasks t ht).ref
    simp only [own_append] at this
    simp [this]
  | detach hst =>
    refine .inl ⟨by rwa [delete_heap], by simpa using hne rfl, ?_, ?_, ?_, ?_⟩
    all_goals unfold delete; split_ifs <;> assumption
  | open_created hv hm hc hq hid =>
    -- the next place in the heap is that of `r`, or of a stream before it
    rcases hheap.eq_or_lt with rfl | hlt
    · refine .inr ⟨_, List.getElem?_concat_length, ?_⟩
      simpa [viewOf, hout, hlost, hheard, hlog] using .outbound hm
    · exact .inl ⟨by simpa using Nat.succ_le_of_lt hlt, by simp [hlt.ne], hout, hlost, hheard, hlog⟩
  | open_admitted h₀ hid hv hm hc hnew hq =>
    rcases hheap.eq_or_lt with rfl | hlt
    · refine .inr ⟨_, List.getElem?_concat_length, ?_⟩
      simpa [viewOf, hout, hlost, hheard, hlog] using .inbound
    · exact .inl ⟨by simpa using Nat.succ_le_of_lt hlt, by simp [hlt.ne], hout, hlost, hheard, hlog⟩
  | @lookup_found m r' h =>
    have hr : r' ≠ r := by
      rintro rfl
      exact hl (List.mem_map_of_mem (mem_of_stream h))
    have hown := own_other hr fun t ht => (Session.dispatch_follows m t ht).ref
    exact .inl ⟨hheap, by simp [hown], hout, hlost, by simp [hheard, heardBy, hr], hlog⟩
  | handler_called hst hh =>
    exact .inl ⟨hheap, by simp [hne rfl], hout, hlost, hheard, by simp [hlog]⟩
  | handler_refused =>
    exact .inl ⟨hheap, by simp [hne rfl], hout, hlost, hheard, by simp [hlog]⟩
  | handler_oversized h =>
    exact .inl ⟨hheap, by simp [hne rfl], hout, hlost, hheard, by simp [hlog]⟩
  | handler_accepted h =>
    exact .inl ⟨hheap, by simp [hne rfl], hout, hlost, hheard, by simp [hlog]⟩
  | fail_now hc hrefs =>
    refine .inl ⟨hheap, ?_, hout, hlost, hheard, hlog⟩
    rw [own_fail htab hrefs, if_neg hl]
    simp
  | reject_sent h =>
    exact .inl ⟨hheap, by simp, by simp [hout, Sent.app?], hlost, hheard, hlog⟩
  | reject_lost =>
    exact .inl ⟨hheap, by simp, hout, by simp [hlost, Sent.app?], hheard, hlog⟩
  | error_sent h =>
    exact .inl ⟨hheap, by simp, by simp [hout, Sent.app?], hlost, hheard, hlog⟩
  | error_lost =>
    exact .inl ⟨hheap, by simp, hout, by simp [hlost, Sent.app?], hheard, hlog⟩
  | openFail =>
    exact .inl ⟨hheap, by simp, hout, hlost, hheard, by simp [hlog]⟩
  | closeReturn =>
    exact .inl ⟨hheap, by simp, hout, hlost, hheard, by simp [hlog]⟩
  | start hc => exact .inl ⟨hheap, by simp [hne rfl], hout, hlost, hheard, hlog⟩
  | open_ready hst hr => exact .inl ⟨hheap, by simp [hne rfl], hout, hlost, hheard, hlog⟩
  | open_canceled => exact .inl ⟨hheap, by simp [hne rfl], hout, hlost, hheard, hlog⟩
  | no_handler hh => exact .inl ⟨hheap, by simp [hne rfl], hout, hlost, hheard, hlog⟩
  | _ => exact .inl ⟨hheap, by simp, hout, hlost, hheard, hlog⟩

theorem Moves.blank (htab : s.Table) (hserve : s.Serving) (hm : Moves s l s')
    (hb : Blank s r (s.tasksOf r)) :
    Blank s' r (s'.tasksOf r) ∨
      ∃ st, s'.heap[r]? = some st ∧ View.Initial r (s'.view r st) := by
  have hb' := hb
  obtain ⟨hheap, hts, hout, hlost, hheard, hlog⟩ := hb
  cases hm with
  | run ht ha =>
    obtain ⟨others, h₁, -, h₂⟩ := tasksOf_advance (r := r) hserve ht
    rw [h₁] at hb'
    rcases ha.blank htab hb' with h | ⟨st, hst, hi⟩
    · refine .inl ⟨h.heap, ?_, h.out, h.lost, h.heard, h.log⟩
      exact (h₂ _ _).trans h.tasks
    · refine .inr ⟨st, hst, ?_⟩
      rw [← h₂] at hi
      exact hi
  | @callOn c r' t eps hs h =>
    refine .inl ⟨hheap, tasksOf_append.trans ?_, hout, hlost, hheard, hlog⟩
    -- the application holds no stream that does not exist
    have hr : r' ≠ r := by
      rintro rfl
      simp [shares, List.getElem?_eq_none_iff.mpr hheap] at hs
    simp [hts, h.ref_eq, hr]
  | callOpen => exact .inl ⟨hheap, tasksOf_append.trans (by simp [hts]), hout, hlost, hheard, hlog⟩
  | callClose => exact .inl ⟨hheap, tasksOf_append.trans (by simp [hts]), hout, hlost, hheard, hlog⟩
  | recv hserve hs =>
    exact .inl ⟨hheap, (tasksOf_serve hserve).trans (by simp [hts, own_handleFrame]), hout, hlost,
      hheard, hlog⟩
  | readError hserve hs =>
    exact .inl ⟨hheap, (tasksOf_serve hserve).trans (by simp [hts]), hout, hlost, hheard, hlog⟩
  | connLost => exact .inl ⟨hheap, hts, hout, hlost, hheard, hlog⟩

/-! ## The invariant rule -/

/-- The critical section `x` of `r`, entered in the view `v`, is admitted by `G`. -/
def Guarded (G : View → Section → Prop) (s : Session) (l : Label) : Prop :=
  ∀ ⦃i c r x rest st⦄, l = .run i c → s.threads[i]? = some (.sect r x :: rest) →
    s.heap[r]? = some st → G (s.view r st) x

/-- The step enters no critical section but those that `G` admits. -/
def guarded (G : View → Section → Bool) (s : Session) : Label → Bool
  | .run i _ =>
    match (s.threads[i]? : Option (List Task)) with
    | some (.sect r x :: _) => (s.heap[r]?.map fun st => G (s.view r st) x).getD true
    | _ => true
  | _ => true

theorem guarded_of_eq_true {G : View → Section → Bool} (h : s.guarded G l = true) :
    Guarded (fun v x => G v x = true) s l := by
  rintro i c r x rest st rfl ht hst
  simpa [guarded, ht, hst] using h

variable {cfg : Config} {ok : Session → Label → Prop}

theorem reaches_serving (h : Reaches step ok (new cfg) s) : s.Serving :=
  Reachable.serving h.always

theorem reaches_table (h : Reaches step ok (new cfg) s) : s.Table :=
  Reachable.table h.always

/-- Every stream of a reached state exists or is blank. -/
theorem blank_or_view {I : Ref → View → Prop} {G : View → Section → Prop}
    (hG : ∀ s l, ok s l → Guarded G s l) (hinit : ∀ r v, View.Initial r v → I r v)
    (hstep : ∀ r v a v', View.Step r v a v' → (∀ x, a = some x → G v x) → I r v → I r v')
    (h : Reaches step ok (new cfg) s) (r : Ref) :
    Blank s r (s.tasksOf r) ∨ ∃ st, s.heap[r]? = some st ∧ I r (s.view r st) := by
  refine h.invariant (I := fun s => Blank s r (s.tasksOf r) ∨
    ∃ st, s.heap[r]? = some st ∧ I r (s.view r st)) ?_ fun s s' l hr hok hs ih => ?_
  · exact .inl ⟨Nat.zero_le r, by simp [tasksOf, new], rfl, rfl, rfl, rfl⟩
  · have htab := reaches_table hr
    have hserve := reaches_serving hr
    have hm := moves_of_step hs
    rcases ih with hb | ⟨st, hst, hI⟩
    · rcases hm.blank htab hserve hb with hb | ⟨st, hst, hi⟩
      · exact .inl hb
      · exact .inr ⟨st, hst, hinit r _ hi⟩
    · obtain ⟨st', hst', hv | ⟨a, hv, hx⟩⟩ := hm.view htab hserve hst
      · exact .inr ⟨st', hst', hv ▸ hI⟩
      · refine .inr ⟨st', hst', hstep r _ a _ hv (fun x hax => ?_) hI⟩
        obtain ⟨i, c, rest, hl, ht⟩ := hx x hax
        exact hG s l hok hl ht hst

/-- A stream that does not exist has left no trace. -/
theorem blank (h : Reaches step ok (new cfg) s) (hr : s.heap.length ≤ r) :
    Blank s r (s.tasksOf r) := by
  rcases blank_or_view (I := fun _ _ => True) (G := fun _ _ => True)
    (fun _ _ _ _ _ _ _ _ _ _ _ _ => trivial) (fun _ _ _ => trivial) (fun _ _ _ _ _ _ _ => trivial)
    h r with hb | ⟨st, hst, -⟩
  · exact hb
  · exact absurd (List.getElem?_eq_some_iff.mp hst).1 (Nat.not_lt.mpr hr)

/-- **The invariant rule for streams**: what holds of a stream just created, and is kept by the
steps of its view that the schedules admit, holds of every stream in every state reached. -/
theorem view_invariant {I : Ref → View → Prop} {G : View → Section → Prop}
    (hG : ∀ s l, ok s l → Guarded G s l) (hinit : ∀ r v, View.Initial r v → I r v)
    (hstep : ∀ r v a v', View.Step r v a v' → (∀ x, a = some x → G v x) → I r v → I r v')
    (h : Reaches step ok (new cfg) s) (hst : s.heap[r]? = some st) : I r (s.view r st) := by
  rcases blank_or_view hG hinit hstep h r with hb | ⟨st', hst', hI⟩
  · exact absurd (List.getElem?_eq_some_iff.mp hst).1 (Nat.not_lt.mpr hb.heap)
  · obtain rfl := Option.some.inj (hst'.symm.trans hst)
    exact hI

/-- The invariant rule for what every step keeps. -/
theorem view_inductive {I : Ref → View → Prop} (hinit : ∀ r v, View.Initial r v → I r v)
    (hstep : ∀ r v a v', View.Step r v a v' → I r v → I r v')
    (h : Reaches step ok (new cfg) s) (hst : s.heap[r]? = some st) : I r (s.view r st) :=
  view_invariant (G := fun _ _ => True) (fun _ _ _ _ _ _ _ _ _ _ _ _ => trivial) hinit
    (fun r v a v' hs _ => hstep r v a v' hs) h hst

end Session

end Mvcp.App
