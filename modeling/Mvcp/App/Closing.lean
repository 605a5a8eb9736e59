import Mvcp.App.Conservation

/-!
# The close of a direction

`CloseWrite` and the write loop send the `APP_CLOSE` of a stream. As long as `CloseWrite` does not
send it while the write loop has a chunk in its hand, the `APP_CLOSE` comes after all data, and
`io.EOF` on the other side means that everything was read. As long as, moreover, the write loop
does not send it once `CloseWrite` has, there is one `APP_CLOSE`.

## Main definitions

* `View.flushed`: `CloseWrite` does not close while a chunk is in the hand of the write loop
* `View.Orderly`: all data comes before the close
* `View.single`: the write loop does not close a direction that is closed
* `View.Once`: the direction is closed once

## Main results

* `Session.orderly`, `Session.once`: the invariants hold along the runs that keep to the conditions
-/

namespace Mvcp

open Library (Reaches Always exists_reaches_of_run)

def AppMessage.isClose : AppMessage → Bool
  | appClose _ => true
  | _ => false

theorem AppMessage.payload_of_isData {m : AppMessage} (h : m.isData = false) : m.payload = [] := by
  cases m <;> simp_all [AppMessage.isData, AppMessage.payload]

/-- The frames of data and of the close. -/
def AppMessage.streams (m : AppMessage) : Bool := m.isData || m.isClose

theorem AppMessage.countP_streams (ms : List AppMessage) :
    (ms.filter streams).countP isClose = ms.countP isClose := by
  rw [List.countP_filter]
  refine List.countP_congr fun m _ => ?_
  simp +contextual [streams]

/-- The order of data and close depends on these frames only. -/
theorem AppMessage.pairwise_of_streams {ms : List AppMessage}
    (h : (ms.filter streams).Pairwise fun m m' => m.isClose = true → m'.isData = false) :
    ms.Pairwise fun m m' => m.isClose = true → m'.isData = false := by
  rw [List.pairwise_filter] at h
  refine h.imp fun {m m'} hm hc => ?_
  by_contra hd
  have hd' : m'.isData = true := by simpa using hd
  exact hd (hm (by simp [streams, hc]) (by simp [streams, hd']) hc)

namespace App

/-- The message of a frame written with the id. -/
def Sent.for? (id : UInt32) (e : Sent) : Option AppMessage :=
  match e.msg with
  | .app m => if m.streamID = id then some m else none
  | .error .. => none

/-- The write of an `APP_CLOSE`. -/
def Task.shuts : Task → Bool
  | .emit _ .close => true
  | _ => false

theorem Task.cargo_of_shuts {t : Task} (h : t.shuts = true) : t.cargo = true := by
  cases t with
  | emit r x => cases x <;> simp_all [Task.shuts, Task.cargo]
  | _ => simp [Task.shuts] at h

theorem Emission.isClose_message (x : Emission) (st : Stream) (r : Ref) :
    (x.message st).isClose = (Task.emit r x).shuts := by
  cases x <;> rfl

theorem Emission.isData_message (x : Emission) (st : Stream) (r : Ref) :
    (x.message st).isData = (Task.emit r x).hand.isSome := by
  cases x <;> rfl

/-- What follows a frame write neither carries data nor closes. -/
theorem Task.Follows.shuts {r : Ref} {t : Task} (h : t.Follows r) : t.shuts = false := by
  cases h <;> rfl

namespace Stream.Fires

variable {r : Ref} {st : Stream} {x : Section} {o : Outcome}

/-- A critical section closes the direction and sends the `APP_CLOSE`, or leaves it as it is. -/
theorem closing (h : Fires r st x o) :
    o.st.localClosed = st.localClosed ∧ (∀ t ∈ o.push, t.shuts = false) ∧
        (st.localClosed = true → st.sendQ = [] →
          o.st.sendQ = [] ∧ (∀ t ∈ o.push, t.hand = none) ∧ written o.log = []) ∨
      (x = .closeWrite ∧ st.reset = false ∧ st.localClosed = false ∧ st.closeAfterFlush = false ∨
          x = .writeLoop ∧ st.reset = false ∧ st.closeAfterFlush = true) ∧
        st.sendQ = [] ∧ o.st.sendQ = [] ∧ o.st.localClosed = true ∧ o.push = [.emit r .close] ∧
        o.log = [] := by
  cases h with
  | closeWrite_now hr hl hc hq => exact .inr ⟨.inl ⟨rfl, hr, hl, hc⟩, hq, hq, rfl, rfl, rfl⟩
  | loop_close hr hq hc => exact .inr ⟨.inr ⟨rfl, hr, hc⟩, hq, hq, rfl, rfl, rfl⟩
  | write_queued hp hr hl hc hq =>
    exact .inl ⟨rfl, by simp [Task.shuts], fun h => by simp [hl] at h⟩
  | loop_data hr hq hc => exact .inl ⟨rfl, by simp [Task.shuts], fun _ h => by simp [hq] at h⟩
  | finish_now h hlog =>
    refine .inl ⟨rfl, by simp [Task.shuts], fun _ h => ⟨h, by simp [Task.hand], ?_⟩⟩
    rcases hlog with rfl | rfl <;> simp [Event.written]
  | markOpened_now hf ho hs hlog =>
    refine .inl ⟨rfl, by simp, fun _ h => ⟨h, by simp, ?_⟩⟩
    rcases hlog with rfl | rfl <;> simp [Event.written]
  | detachBytes =>
    exact .inl ⟨rfl, by split_ifs <;> simp [Task.shuts],
      fun _ h => ⟨h, by split_ifs <;> simp [Task.hand], rfl⟩⟩
  | closeEndpoint =>
    exact .inl ⟨rfl, by simp +contextual [Task.shuts],
      fun _ h => ⟨h, by simp +contextual [Task.hand], rfl⟩⟩
  | _ =>
    exact .inl ⟨rfl, by simp [Stream.park, Task.shuts, or_imp, forall_and], fun _ h =>
      ⟨h, by simp [Stream.park, Task.hand, or_imp, forall_and],
        by simp [Stream.park, Event.written]⟩⟩

end Stream.Fires

namespace View

variable {r : Ref} {v v' : View}

/-- `CloseWrite` does not send the `APP_CLOSE` while a chunk is in the hand of the write loop. -/
def flushed (v : View) : Section → Bool
  | .closeWrite => v.st.reset || v.st.localClosed || v.st.closeAfterFlush || !v.st.sendQ.isEmpty ||
      decide (∀ t ∈ v.tasks, t.hand = none)
  | _ => true

/-- **All data comes before the close.** -/
structure Orderly (v : View) : Prop where
  closed : v.st.localClosed = true → v.st.sendQ = [] ∧ ∀ t ∈ v.tasks, t.hand = none
  closing : (∃ t ∈ v.tasks, t.shuts = true) ∨ (∃ m ∈ v.out, m.isClose = true) →
    v.st.localClosed = true
  order : v.out.Pairwise fun m m' => m.isClose = true → m'.isData = false
  /-- Once the `APP_CLOSE` is written, so is everything that `Write` accepted. -/
  complete : (∃ m ∈ v.out, m.isClose = true) → written v.log = payloads v.out

theorem Initial.orderly (h : Initial r v) : v.Orderly := by
  cases h <;> constructor <;> simp [Task.shuts]

/-- A step that moves no bytes and closes nothing. -/
theorem Orderly.same (h : v.Orderly) (hst : v'.st = v.st) (hout : v'.out = v.out)
    (hlog : v'.log = v.log)
    (ht : ∀ t ∈ v'.tasks, t ∈ v.tasks ∨ t.hand = none ∧ t.shuts = false) : v'.Orderly := by
  refine ⟨fun hc => ?_, ?_, hout ▸ h.order, hout ▸ hlog ▸ h.complete⟩
  · rw [hst] at hc ⊢
    obtain ⟨hq, hhand⟩ := h.closed hc
    refine ⟨hq, fun t hm => ?_⟩
    rcases ht t hm with hm | ⟨hn, -⟩
    · exact hhand t hm
    · exact hn
  · rw [hst, hout]
    intro hc
    apply h.closing
    apply hc.imp_left
    rintro ⟨t, hm, hs⟩
    rcases ht t hm with hm | ⟨-, hn⟩
    · exact ⟨t, hm, hs⟩
    · simp [hn] at hs

theorem Orderly.sect {x : Section} {o : Outcome} {rest : Multiset Task} (h : v.Orderly)
    (hh : v.Handshake) (ht : v.tasks = .sect r x ::ₘ rest) (hf : Stream.Fires r v.st x o)
    (hG : v.flushed x = true) :
    Orderly { v with st := o.st, tasks := own r o.push + rest, log := v.log ++ o.log } := by
  have hrest : ∀ t ∈ rest, t ∈ v.tasks := fun t hm => by simp [ht, hm]
  rcases hf.closing with ⟨hl, hnone, hkeep⟩ | ⟨hx, hq₀, hq', hl, hpush, hlog⟩
  · refine ⟨fun hc => ?_, fun hc => ?_, h.order, fun hc => ?_⟩
    · obtain ⟨hq₀, hhand⟩ := h.closed (hl ▸ hc)
      obtain ⟨hq', hpush, -⟩ := hkeep (hl ▸ hc) hq₀
      refine ⟨hq', fun t hm => ?_⟩
      rcases Multiset.mem_add.mp hm with hm | hm
      · exact hpush t (mem_own hm)
      · exact hhand t (hrest t hm)
    · refine hl.trans (h.closing (hc.imp_left ?_))
      rintro ⟨t, hm, htc⟩
      rcases Multiset.mem_add.mp hm with hm | hm
      · simp [hnone t (mem_own hm)] at htc
      · exact ⟨t, hrest t hm, htc⟩
    · have hc' := h.closing (.inr hc)
      obtain ⟨-, -, hw⟩ := hkeep hc' (h.closed hc').1
      rw [written_append, hw, List.append_nil]
      exact h.complete hc
  · refine ⟨fun _ => ⟨hq', fun t hm => ?_⟩, fun _ => hl, h.order, fun hc => ?_⟩
    · rw [hpush] at hm
      rcases Multiset.mem_add.mp hm with hm | hm
      · obtain rfl := List.mem_singleton.mp (mem_own hm)
        rfl
      · rcases hx with ⟨rfl, hr, hl, hc⟩ | ⟨rfl, -⟩
        · -- `CloseWrite` finds no chunk in hand
          simp only [flushed, hr, hl, hc, hq₀, List.isEmpty_nil, Bool.not_true, Bool.or_self,
            Bool.false_or, decide_eq_true_eq] at hG
          exact hG t (hrest t hm)
        · -- the write loop itself has none
          exact hh.hand_eq_none ht rfl t hm
    · rw [hlog, List.append_nil]
      exact h.complete hc

theorem Orderly.sent {x : Emission} {rest : Multiset Task} (h : v.Orderly) (hs : v.Sender)
    (ht : v.tasks = .emit r x ::ₘ rest) (hup : v.up = true) :
    Orderly { v with tasks := own r (x.sent r) + rest, out := v.out ++ [x.message v.st] } := by
  have hrest : ∀ t ∈ rest, t ∈ v.tasks := fun t hm => by simp [ht, hm]
  have hx : .emit r x ∈ v.tasks := by simp [ht]
  have hclose (hc : (x.message v.st).isClose = true) : v.st.localClosed = true :=
    h.closing (.inl ⟨_, hx, by rw [← x.isClose_message v.st r]; exact hc⟩)
  -- once the direction is closed, the write loop has nothing in its hand
  have hdata (hc : v.st.localClosed = true) : (x.message v.st).isData = false := by
    rw [x.isData_message v.st r, (h.closed hc).2 _ hx]
    rfl
  have hclosed (hc : ∃ m ∈ v.out ++ [x.message v.st], m.isClose = true) :
      v.st.localClosed = true := by
    obtain ⟨m, hm, hc⟩ := hc
    rcases List.mem_append.mp hm with hm | hm
    · exact h.closing (.inr ⟨m, hm, hc⟩)
    · obtain rfl := List.mem_singleton.mp hm
      exact hclose hc
  refine ⟨fun hc => ⟨(h.closed hc).1, fun t hm => ?_⟩, ?_, ?_, fun hc => ?_⟩
  · rcases Multiset.mem_add.mp hm with hm | hm
    · exact (x.sent_follows t (mem_own hm)).hand
    · exact (h.closed hc).2 t (hrest t hm)
  · rintro (⟨t, hm, hc⟩ | hc)
    · rcases Multiset.mem_add.mp hm with hm | hm
      · simp [(x.sent_follows t (mem_own hm)).shuts] at hc
      · exact h.closing (.inl ⟨t, hrest t hm, hc⟩)
    · exact hclosed hc
  · refine List.pairwise_append.mpr ⟨h.order, List.pairwise_singleton _ _, fun m hm m' hm' hc => ?_⟩
    obtain rfl := List.mem_singleton.mp hm'
    exact hdata (h.closing (.inr ⟨m, hm, hc⟩))
  · have hl := hclosed hc
    obtain ⟨hq, hhand⟩ := h.closed hl
    obtain ⟨d, hw, -, -, hflow⟩ := hs.flow
    rw [hw, ← hflow hup, hq, carried_eq_nil hhand, payloads_append, payloads_cons,
      AppMessage.payload_of_isData (hdata hl)]
    simp

/-- **All data comes before the close, in every run in which `CloseWrite` finds nothing in the hand
of the write loop.** -/
theorem Step.orderly {a : Option Section} (hs : Step r v a v') (hh : v.Handshake) (hsend : v.Sender)
    (hG : ∀ x, a = some x → v.flushed x = true) (h : v.Orderly) : v'.Orderly := by
  cases hs.moved with
  | sect ht hf => exact h.sect hh ht hf (hG _ rfl)
  | sent ht hup => exact h.sent hsend ht hup
  | lost ht hn =>
    refine h.same rfl rfl rfl fun t hm => ?_
    rcases Multiset.mem_add.mp hm with hm | hm
    · have hf := Emission.failed_follows _ t (mem_own hm)
      exact .inr ⟨hf.hand, hf.shuts⟩
    · exact .inl (by simp [ht, hm])
  | arrive hid hserve =>
    refine h.same rfl rfl rfl fun t hm => ?_
    rcases Multiset.mem_add.mp hm with hm | hm
    · have hf := Session.dispatch_follows _ t (mem_own hm)
      exact .inr ⟨hf.hand, hf.shuts⟩
    · exact .inl hm
  | quiet hq =>
    apply h.same hq.st hq.out hq.log
    intro t hm
    by_cases hc : t.cargo = true
    · exact .inl ((hq.mem_iff hc).mp hm)
    · refine .inr ⟨?_, ?_⟩
      · exact Option.eq_none_iff_forall_ne_some.mpr fun b hb => hc (Task.cargo_of_hand hb)
      · by_contra hs
        exact hc (Task.cargo_of_shuts (by simpa using hs))

/-! ## One close -/

/-- The write loop does not send the `APP_CLOSE` of a direction that `CloseWrite` has closed. -/
def single (v : View) : Section → Bool
  | .writeLoop => v.st.reset || !v.st.localClosed
  | _ => true

/-- The `APP_CLOSE` frames written and about to be written. -/
def closes (v : View) : ℕ :=
  v.tasks.countP (fun t => t.shuts = true) + v.out.countP AppMessage.isClose

/-- **A direction is closed once.** -/
def Once (v : View) : Prop := v.closes ≤ if v.st.localClosed then 1 else 0

theorem Initial.once (h : Initial r v) : v.Once := by
  have hzero (t : Task) (ht : t.shuts = false) :
      Multiset.countP (fun t => t.shuts = true) {t} = 0 :=
    Multiset.countP_eq_zero.mpr (by simp [ht])
  cases h with
  | @inbound _ _ metadata _ _ =>
    exact (hzero (.acceptOpen r metadata) rfl).le
  | @outbound _ _ metadata _ _ hm =>
    exact (hzero (.emit r (.open metadata)) rfl).le

/-- Steps that close nothing. -/
theorem countP_shuts_own {ts : List Task} (h : ∀ t ∈ ts, t.shuts = false) (rest : Multiset Task) :
    (own r ts + rest).countP (fun t => t.shuts = true) = rest.countP fun t => t.shuts = true := by
  rw [Multiset.countP_add, Multiset.countP_eq_zero.mpr, zero_add]
  intro t ht
  simp [h t (mem_own ht)]

theorem Once.sect {x : Section} {o : Outcome} {rest : Multiset Task} (h : v.Once)
    (ht : v.tasks = .sect r x ::ₘ rest) (hf : Stream.Fires r v.st x o) (hG : v.single x = true) :
    Once { v with st := o.st, tasks := own r o.push + rest, log := v.log ++ o.log } := by
  have htasks : v.tasks.countP (fun t => t.shuts = true) = rest.countP fun t => t.shuts = true := by
    rw [ht, Multiset.countP_cons_of_neg]
    simp [Task.shuts]
  rw [Once, closes, htasks] at h
  rw [Once, closes]
  rcases hf.closing with ⟨hl, hnone, -⟩ | ⟨hx, -, -, hl, hpush, -⟩
  · rw [countP_shuts_own hnone]
    simpa only [hl] using h
  · -- the direction was open
    have hopen : v.st.localClosed = false := by
      rcases hx with ⟨-, -, hl, -⟩ | ⟨rfl, hr, -⟩
      · exact hl
      · simpa [single, hr] using hG
    simp only [hopen, Bool.false_eq_true, if_false] at h
    simp only [hl, if_true, hpush, Multiset.countP_add]
    have hone : (own r [Task.emit r .close]).countP (fun t => t.shuts = true) = 1 := by
      rw [show own r [Task.emit r .close] = Task.emit r .close ::ₘ 0 by simp,
        Multiset.countP_cons, Multiset.countP_zero]
      rfl
    omega

theorem Once.sent {x : Emission} {rest : Multiset Task} (h : v.Once)
    (ht : v.tasks = .emit r x ::ₘ rest) :
    Once { v with tasks := own r (x.sent r) + rest, out := v.out ++ [x.message v.st] } := by
  rw [Once, closes, ht, Multiset.countP_cons] at h
  rw [Once, closes, countP_shuts_own fun t hm => (x.sent_follows t hm).shuts, List.countP_append,
    List.countP_singleton, x.isClose_message v.st r]
  dsimp only
  omega

/-- **A direction is closed once, in every run in which the write loop does not close what
`CloseWrite` has closed.** -/
theorem Step.once {a : Option Section} (hs : Step r v a v')
    (hG : ∀ x, a = some x → v.single x = true) (h : v.Once) : v'.Once := by
  cases hs.moved with
  | sect ht hf => exact h.sect ht hf (hG _ rfl)
  | sent ht hup => exact h.sent ht
  | @lost x rest ht hn =>
    rw [Once, closes, ht, Multiset.countP_cons] at h
    rw [Once, closes, countP_shuts_own fun t hm => (x.failed_follows t hm).shuts]
    dsimp only
    omega
  | arrive hid hserve =>
    rwa [Once, closes, countP_shuts_own fun t hm => (Session.dispatch_follows _ t hm).shuts]
  | quiet hq =>
    rwa [Once, closes, hq.st, hq.out, hq.countP_eq fun t => Task.cargo_of_shuts]

end View

namespace Session

variable {cfg : Config} {ok : Session → Label → Prop} {s : Session} {r : Ref} {st : Stream}

theorem orderly (hG : ∀ s l, ok s l → Guarded (fun v x => v.flushed x = true) s l)
    (h : Reaches step ok (new cfg) s) (hst : s.heap[r]? = some st) : (s.view r st).Orderly :=
  (view_invariant (I := fun _ v => v.Handshake ∧ v.Queues ∧ v.Sender ∧ v.Orderly) hG
    (fun _ _ hi => ⟨hi.handshake, hi.queues, hi.sender, hi.orderly⟩)
    (fun _ _ _ _ hs hg hv => ⟨hs.handshake hv.1, hs.queues hv.1 hv.2.1,
      hs.sender hv.1 hv.2.1 hv.2.2.1, hs.orderly hv.1 hv.2.2.1 hg hv.2.2.2⟩) h hst).2.2.2

theorem once (hG : ∀ s l, ok s l → Guarded (fun v x => v.single x = true) s l)
    (h : Reaches step ok (new cfg) s) (hst : s.heap[r]? = some st) : (s.view r st).Once :=
  view_invariant (I := fun _ v => v.Once) hG (fun _ _ hi => hi.once)
    (fun _ _ _ _ hs hg hv => hs.once hg hv) h hst

/-! ## Frames of one stream id -/

/-- The messages written with the id. -/
def sentFor (s : Session) (id : UInt32) : List AppMessage := s.out.filterMap (Sent.for? id)

/-- Neither does `CloseWrite` overtake the write loop, nor does the write loop close again. -/
def Closing (s : Session) (l : Label) : Prop :=
  s.guarded (fun v x => v.flushed x && v.single x) l = true

instance (s : Session) (l : Label) : Decidable (s.Closing l) :=
  inferInstanceAs (Decidable (_ = true))

theorem Closing.guarded {l : Label} (h : s.Closing l) :
    Guarded (fun v x => v.flushed x = true ∧ v.single x = true) s l := by
  intro i c r x rest st hl ht hst
  simpa using guarded_of_eq_true h hl ht hst

/-- The data and the close with the id of a stream are those of the stream, if it is the only one
with the id. -/
theorem sentFor_streams (h : s.Departures) (hst : s.heap[r]? = some st)
    (hone : ∀ r' st', s.heap[r']? = some st' → st'.id = st.id → r' = r) :
    (s.sentFor st.id).filter AppMessage.streams = (s.view r st).out.filter AppMessage.streams := by
  have hout : (s.view r st).out = s.out.filterMap (Sent.app? r) := rfl
  rw [sentFor, hout, List.filter_filterMap, List.filter_filterMap]
  refine List.filterMap_congr fun e he => ?_
  obtain ⟨ref, msg⟩ := e
  cases msg with
  | error code message => cases ref <;> rfl
  | app m =>
    obtain ⟨-, -, ⟨r', o, href, ho, hid⟩ | ⟨href, ⟨id, code, message, rfl⟩, -⟩⟩ :=
      h.sent _ he m rfl
    · obtain rfl : ref = some r' := href
      simp only [origins, List.getElem?_map, Option.map_eq_some_iff] at ho
      obtain ⟨st', hst', rfl⟩ := ho
      have hiff : m.streamID = st.id ↔ r' = r := by
        constructor
        · exact fun he => hone r' st' hst' (hid.symm.trans he)
        · rintro rfl
          obtain rfl := Option.some.inj (hst.symm.trans hst')
          exact hid
      simp only [Sent.for?, Sent.app?, hiff]
    · -- a refusal that belongs to no stream
      obtain rfl : ref = none := href
      simp only [Sent.for?, Sent.app?]
      split_ifs <;> rfl

/-- **The grammar of the frames of a stream.** As long as `CloseWrite` does not overtake the write
loop and the write loop does not close again, at most one `APP_CLOSE` is written for a stream, and
no `APP_DATA` after it; the same holds of the frames with the id of the stream, if the peer has not
used the id for another one. -/
theorem close_last (h : Reaches step Closing (new cfg) s) (hst : s.heap[r]? = some st) :
    ((s.view r st).out.countP AppMessage.isClose ≤ 1 ∧
      (s.view r st).out.Pairwise fun m m' => m.isClose = true → m'.isData = false) ∧
    ((∀ r' st', s.heap[r']? = some st' → st'.id = st.id → r' = r) →
      (s.sentFor st.id).countP AppMessage.isClose ≤ 1 ∧
      (s.sentFor st.id).Pairwise fun m m' => m.isClose = true → m'.isData = false) := by
  have hcount : (s.view r st).out.countP AppMessage.isClose ≤ 1 := by
    have hle : (s.view r st).closes ≤ _ :=
      once (fun _ _ hok _ _ _ _ _ _ hl ht hst => (hok.guarded hl ht hst).2) h hst
    rw [View.closes] at hle
    split_ifs at hle <;> omega
  have horder :=
    (orderly (fun _ _ hok _ _ _ _ _ _ hl ht hst => (hok.guarded hl ht hst).1) h hst).order
  refine ⟨⟨hcount, horder⟩, fun hone => ?_⟩
  have heq := sentFor_streams (departures h.always) hst hone
  constructor
  · calc (s.sentFor st.id).countP AppMessage.isClose
        = ((s.sentFor st.id).filter AppMessage.streams).countP AppMessage.isClose :=
          (AppMessage.countP_streams _).symm
      _ = (s.view r st).out.countP AppMessage.isClose := by rw [heq, AppMessage.countP_streams]
      _ ≤ 1 := hcount
  · exact AppMessage.pairwise_of_streams (heq ▸ horder.filter _)

/-- `CloseWrite` after the write loop has sent a byte: the byte, then the close. -/
theorem close_last_flushed :
    ∃ s st, Reaches step Closing (new { role := .host }) s ∧ s.heap[0]? = some st ∧
      s.sentFor 1 = [.appOpen 1 (text "svc") [], .appData 1 [7], .appClose 1] ∧
      (s.view 0 st).out.countP AppMessage.isClose ≤ 1 := by
  obtain ⟨s, hs, ht⟩ := exists_reaches_of_run step Closing (new { role := .host })
    (fun s => s.sentFor 1 == [.appOpen 1 (text "svc") [], .appData 1 [7], .appClose 1] &&
      s.heap[0]?.isSome)
    [.call (.open (text "svc") []), .run 1 .go, .run 1 .go,
      .recv (Outgoing.app (.appAccept 1 [] 3)).frame, .run 0 .go, .run 0 .go, .run 0 .go,
      .run 1 (.select .ready), .run 1 .go, .run 1 .go, .run 1 .go, .run 1 .go,
      .call (.write 0 [7]), .run 3 .go, .run 2 .go, .run 2 .go, .run 2 .go,
      .call (.closeWrite 0), .run 4 .go, .run 4 .go] (by decide)
  simp only [Bool.and_eq_true, beq_iff_eq, Option.isSome_iff_exists] at ht
  obtain ⟨hsent, st, hst⟩ := ht
  exact ⟨s, st, hs, hst, hsent, (close_last hs hst).1.1⟩

-- `CloseWrite` between the round in which the write loop takes a byte and the frame write: the
-- close overtakes the byte, and the next round of the write loop closes again.
example : (Library.run step Always
    [.call (.open (text "svc") []), .run 1 .go, .run 1 .go,
      .recv (Outgoing.app (.appAccept 1 [] 3)).frame, .run 0 .go, .run 0 .go, .run 0 .go,
      .run 1 (.select .ready), .run 1 .go, .run 1 .go, .run 1 .go, .run 1 .go,
      .call (.write 0 [7]), .run 3 .go, .run 2 .go, .call (.closeWrite 0), .run 4 .go, .run 4 .go,
      .run 2 .go, .run 2 .go, .run 2 .go, .run 2 .go]
    (new { role := .host })).any (fun s => s.sentFor 1 ==
      [.appOpen 1 (text "svc") [], .appClose 1, .appData 1 [7], .appClose 1]) = true := by
  decide

end Session

end App

end Mvcp
