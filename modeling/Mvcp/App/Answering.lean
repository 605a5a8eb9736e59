import Mvcp.App.Routing
import Mvcp.App.Progress

/-!
# How a session answers the streams of its peer

For every `APP_OPEN` that a session admits it calls its handler once, with the service and the
metadata of the frame, and its answer to the peer is what the handler returned: an `APP_ACCEPT`
with the metadata of the handler, or an `APP_REJECT` with the handler's code and text.

## Main definitions

* `Session.callsOf`, `Session.resultsOf`: the calls of the handler for a stream, and their results
* `Errand`: what the steps of `acceptOpen` are about
* `Session.Answering`: the answer to an `APP_OPEN` is the one of the handler

## Main results

* `Session.answering`: the invariant holds of every stream of the peer in every state reached
-/

namespace Mvcp.App

open Library (Reaches Always pending pending_advance)

/-! ## The calls of the handler -/

/-- The call of the handler for the stream `r`. -/
def Event.called? (r : Ref) : Event → Option (Bytes × Bytes)
  | .handlerCalled r' service metadata => if r' = r then some (service, metadata) else none
  | _ => none

/-- What the handler returned for the stream `r`. -/
def Event.result? (r : Ref) : Event → Option HandlerResult
  | .handlerReturned r' res => if r' = r then some res else none
  | _ => none

/-- A critical section calls no handler. -/
theorem Event.called?_of_ref {r r' : Ref} {e : Event} (h : e.ref? = some r') :
    e.called? r = none ∧ e.result? r = none := by
  cases e <;> simp_all [Event.ref?, Event.called?, Event.result?]

/-- What a step of `acceptOpen` is about. -/
inductive Errand
  /-- The handler is to be called with this metadata. -/
  | call (metadata : Bytes)
  /-- The handler is running. -/
  | await (metadata : Bytes)
  | accept (metadata : Bytes)
  | reject (err : RejectError)
  deriving DecidableEq

def Task.errand? : Task → Option Errand
  | .acceptOpen _ metadata => some (.call metadata)
  | .handlerOpen _ metadata => some (.await metadata)
  | .sect _ (.acceptWindow _ metadata) | .emit _ (.accept _ metadata) => some (.accept metadata)
  | .emit _ (.reject code message) => some (.reject ⟨code, message⟩)
  | _ => none

/-- The answer that a frame carries. -/
def AppMessage.errand? : AppMessage → Option Errand
  | .appAccept _ metadata _ => some (.accept metadata)
  | .appReject _ code message => some (.reject ⟨code, message⟩)
  | _ => none

theorem Emission.errand?_message {r : Ref} {st : Stream} (x : Emission) :
    AppMessage.errand? (x.message st) = (Task.emit r x).errand? := by
  cases x <;> rfl

theorem Task.Follows.errand? {r : Ref} {t : Task} (h : t.Follows r) : t.errand? = none := by
  cases h <;> rfl

theorem Stream.Fires.push_errand? {r : Ref} {st : Stream} {x : Section} {o : Outcome}
    (h : Stream.Fires r st x o) :
    ∀ t ∈ o.push, t.errand? = none ∨ t.errand? = (Task.sect r x).errand? := by
  cases h with
  | detachBytes => split_ifs <;> simp [Task.errand?]
  | _ => simp [Stream.park, Task.errand?]

theorem Session.BridgeTask.errand? {r : Ref} {e : EpRef} {t : Task}
    (h : Session.BridgeTask r e t) : t.errand? = none := by
  cases h <;> rfl

/-- The answer to what the handler returned. -/
def HandlerResult.errand : HandlerResult → Errand
  | .refuse code message => .reject ⟨code.getD errorCodeAppLocalError, message⟩
  | .accept _ metadata =>
    if appMaxMetaBytes < metadata.length then
      .reject ⟨errorCodeAppProtocolError, text "accept meta too large"⟩
    else .accept metadata

namespace Session

variable {s s' : Session} {t : Task} {n : Next} {l : Label} {r : Ref} {st : Stream}

/-- The calls of the handler for the stream `r`: the service and the metadata. -/
def callsOf (s : Session) (r : Ref) : List (Bytes × Bytes) := s.log.filterMap (Event.called? r)

/-- What the handler returned for the stream `r`. -/
def resultsOf (s : Session) (r : Ref) : List HandlerResult := s.log.filterMap (Event.result? r)

/-- What a step of a goroutine does for the answer on the stream `r`. -/
inductive Answers (s : Session) (r : Ref) (t : Task) (n : Next) : Prop
  /-- It goes on with the answer it was about, if any. -/
  | same (hc : n.sess.callsOf r = s.callsOf r) (hres : n.sess.resultsOf r = s.resultsOf r)
      (h : ∀ t' ∈ n.push ++ n.spawn.flatten, t'.ref? = some r → t'.errand? = none ∨
        t.ref? = some r ∧ t'.errand? = t.errand?)
  | call {metadata : Bytes} {st : Stream} (ht : t = .acceptOpen r metadata)
      (hst : s.heap[r]? = some st) (hh : s.cfg.handler = true)
      (hc : n.sess.callsOf r = s.callsOf r ++ [(st.service, metadata)])
      (hres : n.sess.resultsOf r = s.resultsOf r)
      (h : ∀ t' ∈ n.push ++ n.spawn.flatten, t'.errand? = some (.await metadata))
  | noHandler {metadata : Bytes} (ht : t = .acceptOpen r metadata) (hh : s.cfg.handler = false)
      (hc : n.sess.callsOf r = s.callsOf r) (hres : n.sess.resultsOf r = s.resultsOf r)
      (h : ∀ t' ∈ n.push ++ n.spawn.flatten, t'.errand? = none ∨ t'.errand? =
        some (.reject ⟨errorCodeAppLocalError, text "no handler configured"⟩))
  | result {metadata : Bytes} {res : HandlerResult} (ht : t = .handlerOpen r metadata)
      (hc : n.sess.callsOf r = s.callsOf r) (hres : n.sess.resultsOf r = s.resultsOf r ++ [res])
      (h : ∀ t' ∈ n.push ++ n.spawn.flatten, t'.errand? = none ∨ t'.errand? = some res.errand)
  | created (hr : r = s.heap.length) (hn : n.sess.heap.length = s.heap.length + 1)

/-- The handlers called and their results stay as they were. -/
theorem callsOf_same {log : List Event} (h : ∀ e ∈ log, ∃ r', e.ref? = some r') :
    (s.log ++ log).filterMap (Event.called? r) = s.callsOf r ∧
      (s.log ++ log).filterMap (Event.result? r) = s.resultsOf r := by
  have hnone : ∀ e ∈ log, e.called? r = none ∧ e.result? r = none := fun e he =>
    have ⟨_, hr⟩ := h e he
    Event.called?_of_ref hr
  constructor
  · rw [List.filterMap_append, List.filterMap_eq_nil_iff.mpr fun e he => (hnone e he).1,
      List.append_nil]
    rfl
  · rw [List.filterMap_append, List.filterMap_eq_nil_iff.mpr fun e he => (hnone e he).2,
      List.append_nil]
    rfl

theorem delete_log (s : Session) (r : Ref) (id : UInt32) : (s.delete r id).log = s.log := by
  unfold delete
  split_ifs <;> rfl

/-- The handler returns, for the stream `q`. -/
theorem answers_result {q : Ref} {metadata : Bytes} (res : HandlerResult)
    (hlog : n.sess.log = s.log ++ [.handlerReturned q res]) (hspawn : n.spawn = [])
    (hpush : ∀ t' ∈ n.push, t'.errand? = none ∨ t'.errand? = some res.errand)
    (href : ∀ t' ∈ n.push, t'.ref? = some q ∨ t'.ref? = none) :
    Answers s r (.handlerOpen q metadata) n := by
  have hc : n.sess.callsOf r = s.callsOf r := by
    simp [callsOf, hlog, List.filterMap_append, Event.called?]
  by_cases hr : q = r
  · subst hr
    refine .result rfl hc ?_ (by simpa [hspawn] using hpush)
    simp [resultsOf, hlog, List.filterMap_append, Event.result?]
  · refine .same hc ?_ fun t' ht' hr' => ?_
    · simp [resultsOf, hlog, List.filterMap_append, Event.result?, hr]
    · rcases href t' (by simpa [hspawn] using ht') with hq | hq
      · exact absurd (Option.some.inj (hq.symm.trans hr')) hr
      · simp [hq] at hr'

/-- **What every step of a goroutine does for the answers to the peer.** -/
theorem Acts.answers (ha : Acts s t n) (r : Ref) : Answers s r t n := by
  have hquiet (hl : n.sess.log = s.log)
      (h : ∀ t' ∈ n.push ++ n.spawn.flatten, t'.errand? = none) : Answers s r t n :=
    .same (by simp only [callsOf, hl]) (by simp only [resultsOf, hl])
      fun t' ht' _ => .inl (h t' ht')
  cases ha with
  | @sect q x st o hst hf ho =>
    -- the critical sections write no event of a handler
    have hlog := callsOf_same (s := s) (r := r) fun e he => ⟨q, hf.log_ref e he⟩
    refine .same hlog.1 hlog.2 fun t' ht' hr => ?_
    simp only [List.flatten_nil, List.append_nil] at ht'
    rcases hf.push_errand? t' ht' with he | he
    · exact .inl he
    · rcases hf.push_ref t' ht' with hq | hq
      · obtain rfl := Option.some.inj (hq.symm.trans hr)
        exact .inr ⟨rfl, he⟩
      · simp [hq] at hr
  | @emit_sent q x st hst h =>
    exact hquiet rfl (by simpa using fun t ht => (x.sent_follows t ht).errand?)
  | @emit_lost q x st hst h =>
    exact hquiet rfl (by simpa using fun t ht => (x.failed_follows t ht).errand?)
  | pump hep h => exact hquiet rfl fun t' ht' => (h.tasks t' ht').errand?
  | detach hst => exact hquiet (delete_log _ _ _) (by simp [Task.errand?])
  | @lookup_found m q h =>
    exact hquiet rfl (by cases m <;> simp [dispatch, Task.errand?])
  | open_admitted h₀ hid hv hm hc hnew hq =>
    -- the new stream is `r`, or of no concern
    by_cases hr : r = s.heap.length
    · exact .created hr (by simp)
    · refine .same rfl rfl fun t' ht' hr' => ?_
      simp only [List.nil_append, List.flatten_cons, List.flatten_nil, List.append_nil,
        List.mem_singleton] at ht'
      subst ht'
      exact absurd (Option.some.inj hr').symm hr
  | @handler_called q st metadata hst hh =>
    -- the handler is called for `r`, or for another stream
    by_cases hr : q = r
    · subst hr
      refine .call rfl hst hh ?_ ?_ (by simp [Task.errand?])
      · simp [callsOf, List.filterMap_append, Event.called?]
      · simp [resultsOf, List.filterMap_append, Event.result?]
    · refine .same ?_ ?_ fun t' ht' hr' => ?_
      · simp [callsOf, List.filterMap_append, Event.called?, hr]
      · simp [resultsOf, List.filterMap_append, Event.result?]
      · simp only [List.flatten_nil, List.append_nil, List.mem_singleton] at ht'
        subst ht'
        exact absurd (Option.some.inj hr') hr
  | @no_handler q metadata hh =>
    by_cases hr : q = r
    · subst hr
      exact .noHandler rfl hh rfl rfl (by simp [Task.errand?])
    · refine .same rfl rfl fun t' ht' hr' => ?_
      simp only [List.flatten_nil, List.append_nil, List.mem_cons, List.not_mem_nil,
        or_false] at ht'
      rcases ht' with rfl | rfl <;> exact absurd (Option.some.inj hr') hr
  | handler_refused =>
    exact answers_result (.refuse _ _) rfl rfl
      (by simp [Task.errand?, HandlerResult.errand]) (by simp)
  | handler_oversized h =>
    exact answers_result (.accept _ _) rfl rfl
      (by simp [Task.errand?, HandlerResult.errand, h]) (by simp)
  | handler_accepted h =>
    exact answers_result (.accept _ _) rfl rfl
      (by simp [Task.errand?, HandlerResult.errand, Nat.not_lt.mpr h]) (by simp)
  | fail_now hc hrefs =>
    refine hquiet rfl fun t' ht' => ?_
    cases failTask_of_mem (mem_push ht') <;> rfl
  | openFail =>
    refine .same ?_ ?_ (by simp)
    · simp [callsOf, List.filterMap_append, Event.called?]
    · simp [resultsOf, List.filterMap_append, Event.result?]
  | closeReturn =>
    refine .same ?_ ?_ (by simp)
    · simp [callsOf, List.filterMap_append, Event.called?]
    · simp [resultsOf, List.filterMap_append, Event.result?]
  | _ => exact hquiet rfl (by simp [Task.errand?])

/-! ## The answer is the handler's -/

/-- The answer `x` to the `APP_OPEN` with the given service and metadata is due to the handler, or
to there being none. -/
def Settled (s : Session) (r : Ref) (service metadata : Bytes) (x : Errand) : Prop :=
  (∃ res, s.callsOf r = [(service, metadata)] ∧ s.resultsOf r = [res] ∧ res.errand = x) ∨
    s.cfg.handler = false ∧ s.callsOf r = [] ∧
      x = .reject ⟨errorCodeAppLocalError, text "no handler configured"⟩

/-- What has happened when a step of `acceptOpen` is about `x`. -/
def Holds (s : Session) (r : Ref) (service metadata : Bytes) : Errand → Prop
  | .call data => data = metadata ∧ s.callsOf r = [] ∧ s.resultsOf r = []
  | .await data => data = metadata ∧ s.callsOf r = [(service, metadata)] ∧ s.resultsOf r = []
  | .accept data => s.Settled r service metadata (.accept data)
  | .reject err => s.Settled r service metadata (.reject err)

/-- **The answer to the `APP_OPEN` of the stream `r` is the one of the handler.** -/
structure Answering (s : Session) (r : Ref) (st : Stream) (metadata : Bytes) : Prop where
  asked : ∃ k f, k + 1 = st.born ∧ s.inbox[k]? = some f ∧
    f.app? s.cfg.registry = some (.appOpen st.id st.service metadata)
  tasks : ∀ t ∈ pending s.threads, t.ref? = some r → ∀ x, t.errand? = some x →
    s.Holds r st.service metadata x
  out : ∀ e ∈ s.out, ∀ m, Sent.app? r e = some m → ∀ x, AppMessage.errand? m = some x →
    s.Settled r st.service metadata x

structure Answered (s : Session) : Prop where
  fresh : ∀ r, s.heap.length ≤ r → s.callsOf r = [] ∧ s.resultsOf r = []
  streams : ∀ r st, s.heap[r]? = some st → st.inbound = true →
    ∃ metadata, s.Answering r st metadata

theorem answered_new (cfg : Config) : (new cfg).Answered where
  fresh r _ := ⟨rfl, rfl⟩
  streams r st hst := by simp [new] at hst

variable {service metadata : Bytes} {x : Errand}

theorem Settled.congr (h : s.Settled r service metadata x) (hc : s'.callsOf r = s.callsOf r)
    (hres : s'.resultsOf r = s.resultsOf r) (hcfg : s'.cfg = s.cfg) :
    s'.Settled r service metadata x := by
  unfold Settled
  rw [hc, hres, hcfg]
  exact h

theorem Holds.congr (h : s.Holds r service metadata x) (hc : s'.callsOf r = s.callsOf r)
    (hres : s'.resultsOf r = s.resultsOf r) (hcfg : s'.cfg = s.cfg) :
    s'.Holds r service metadata x := by
  cases x with
  | call data => rw [Holds, hc, hres]; exact h
  | await data => rw [Holds, hc, hres]; exact h
  | accept data => exact Settled.congr h hc hres hcfg
  | reject err => exact Settled.congr h hc hres hcfg

/-- An answer under way excludes that the handler is yet to be called. -/
theorem Settled.not_await (h : s.Settled r service metadata x) {p : Bytes × Bytes}
    (hc : s.callsOf r = [p]) (hres : s.resultsOf r = []) : False := by
  rcases h with ⟨res, -, hr, -⟩ | ⟨-, hn, -⟩
  · simp [hres] at hr
  · simp [hc] at hn

theorem Settled.not_call (h : s.Settled r service metadata x) (hc : s.callsOf r = [])
    (hh : s.cfg.handler = true) : False := by
  rcases h with ⟨res, hr, -⟩ | ⟨hn, -⟩
  · simp [hc] at hr
  · simp [hh] at hn

/-- Where the answers written come from. -/
theorem Acts.out_errand? (ha : Acts s t n) {e : Sent} (he : e ∈ n.sess.out) {m : AppMessage}
    (hm : Sent.app? r e = some m) :
    e ∈ s.out ∨ t.ref? = some r ∧ AppMessage.errand? m = t.errand? := by
  rcases ha.out with hout | ⟨e', hout, he'⟩
  · exact .inl (hout ▸ he)
  · rcases List.mem_append.mp (hout ▸ he) with he | he
    · exact .inl he
    · obtain rfl := List.mem_singleton.mp he
      obtain ⟨ref, msg⟩ := e
      obtain ⟨rfl, rfl⟩ := Sent.app?_eq_some hm
      obtain ⟨-, ⟨q, x, st, rfl, hst, hq, rfl⟩ | ⟨id, code, message, rfl, hq, -⟩⟩ := he' m rfl
      · obtain rfl := Option.some.inj hq
        exact .inr ⟨rfl, x.errand?_message⟩
      · simp at hq

theorem AppMessage.errand?_ne {m : AppMessage} (h : AppMessage.errand? m = some x) :
    (∀ data, x ≠ .call data) ∧ ∀ data, x ≠ .await data := by
  cases m <;> simp [AppMessage.errand?] at h <;> subst h <;> simp

theorem Holds.settled (h : s.Holds r service metadata x) (hc : ∀ data, x ≠ .call data)
    (ha : ∀ data, x ≠ .await data) : s.Settled r service metadata x := by
  cases x with
  | call data => exact absurd rfl (hc data)
  | await data => exact absurd rfl (ha data)
  | accept data => exact h
  | reject err => exact h

theorem Settled.holds {res : HandlerResult} (h : s.Settled r service metadata res.errand) :
    s.Holds r service metadata res.errand := by
  cases res with
  | refuse code message => exact h
  | accept halfClose data =>
    simp only [HandlerResult.errand] at h ⊢
    split_ifs at h ⊢ <;> exact h

/-- One goroutine leads the stream, so no other one is about to call the handler. -/
theorem chain_unique (hh : (s.view r st).Handshake) {others : Multiset Task}
    (hp : pending s.threads = t ::ₘ others) (hr : t.ref? = some r) (hc : t.chain = true) :
    ∀ t' ∈ others, t'.ref? = some r → t'.chain = false := by
  intro t' ht' hr'
  have htasks : (s.view r st).tasks = t ::ₘ others.filter fun t => t.ref? = some r := by
    change (pending s.threads).filter _ = _
    rw [hp]
    exact Multiset.filter_cons_of_pos (p := fun t => t.ref? = some r) others hr
  have := View.not_of_countP_le htasks hc hh.chain t' (Multiset.mem_filter.mpr ⟨ht', hr'⟩)
  simpa using this

theorem chain_of_call {data : Bytes} (h : t.errand? = some (.call data)) : t.chain = true := by
  cases t with
  | sect q y => cases y <;> simp [Task.errand?] at h
  | emit q y => cases y <;> simp [Task.errand?] at h
  | acceptOpen q md => rfl
  | _ => simp [Task.errand?] at h

theorem chain_of_await {data : Bytes} (h : t.errand? = some (.await data)) : t.chain = true := by
  cases t with
  | sect q y => cases y <;> simp [Task.errand?] at h
  | emit q y => cases y <;> simp [Task.errand?] at h
  | handlerOpen q md => rfl
  | _ => simp [Task.errand?] at h

variable {i : ℕ} {rest : List Task}

/-- **A step of a goroutine keeps the answer to a stream the one of the handler.** -/
theorem Answering.run {st' : Stream} (h : s.Answering r st metadata) (hst : s.heap[r]? = some st)
    (hh : (s.view r st).Handshake) (ht : s.threads[i]? = some (t :: rest)) (ha : Acts s t n)
    (horig : st'.origin = st.origin) : (s.after i n rest).Answering r st' metadata := by
  obtain ⟨others, h₁, h₂⟩ := pending_advance ht
  obtain ⟨hid, hserv, -, hborn⟩ := by simpa [Stream.origin] using horig
  have htp : t ∈ pending s.threads := by simp [h₁]
  have hcfg : (s.after i n rest).cfg = s.cfg := ha.inbox.2
  -- the steps that are left, and those that the step leads to
  have htasks (hnew : ∀ t' ∈ n.push ++ n.spawn.flatten, t'.ref? = some r → ∀ x,
        t'.errand? = some x → (s.after i n rest).Holds r st.service metadata x)
      (hold : ∀ t' ∈ others, t'.ref? = some r → ∀ x, t'.errand? = some x →
        s.Holds r st.service metadata x → (s.after i n rest).Holds r st.service metadata x)
      (hout : ∀ x, s.Settled r st.service metadata x →
        (s.after i n rest).Settled r st.service metadata x)
      (hsent : ∀ x, t.ref? = some r → t.errand? = some x → (∀ data, x ≠ .call data) →
        (∀ data, x ≠ .await data) → (s.after i n rest).Settled r st.service metadata x) :
      (s.after i n rest).Answering r st' metadata := by
    refine ⟨?_, fun t' ht' hr x hx => ?_, fun e he m hm x hx => ?_⟩
    · rw [hid, hserv, hborn, hcfg, show (s.after i n rest).inbox = s.inbox from ha.inbox.1]
      exact h.asked
    · rw [hserv]
      rw [show pending (s.after i n rest).threads = _ from h₂ n.push n.spawn] at ht'
      rcases Multiset.mem_add.mp ht' with hm | hm
      · exact hnew t' (by simpa [pending] using hm) hr x hx
      · exact hold t' hm hr x hx (h.tasks t' (by simp [h₁, hm]) hr x hx)
    · rw [hserv]
      rcases ha.out_errand? (r := r) he hm with he | ⟨hr, hte⟩
      · exact hout x (h.out e he m hm x hx)
      · obtain ⟨hc, haw⟩ := AppMessage.errand?_ne hx
        exact hsent x hr (hte ▸ hx) hc haw
  cases ha.answers r with
  | same hc hres hpush =>
    refine htasks (fun t' ht' hr x hx => ?_) (fun t' _ _ x _ hH => hH.congr hc hres hcfg)
      (fun x hS => hS.congr hc hres hcfg) fun x hr hx hcl haw => ?_
    · rcases hpush t' ht' hr with he | ⟨hr', he⟩
      · simp [he] at hx
      · exact (h.tasks t htp hr' x (he ▸ hx)).congr hc hres hcfg
    · exact ((h.tasks t htp hr x hx).settled hcl haw).congr hc hres hcfg
  | @call md st₀ htc hst₀ hhand hc hres hpush =>
    subst htc
    obtain rfl := Option.some.inj (hst.symm.trans hst₀)
    obtain ⟨rfl, hcalls, hresults⟩ := h.tasks _ htp rfl _ rfl
    have hnot := fun x (hS : s.Settled r st.service md x) => hS.not_call hcalls hhand
    refine htasks (fun t' ht' hr x hx => ?_) (fun t' ht' hr x hx hH => ?_)
      (fun x hS => (hnot x hS).elim) fun x hr hx hcl haw => ?_
    · obtain rfl := Option.some.inj ((hpush t' ht').symm.trans hx)
      exact ⟨rfl, hc.trans (by rw [hcalls]; rfl), hres.trans hresults⟩
    · cases x with
      | call data =>
        simpa [chain_of_call hx] using chain_unique hh h₁ rfl rfl t' ht' hr
      | await data => simpa [hcalls] using hH.2.1
      | accept data => exact (hnot _ hH).elim
      | reject err => exact (hnot _ hH).elim
    · exact absurd (Option.some.inj hx).symm (hcl _)
  | noHandler htc hhand hc hres hpush =>
    subst htc
    obtain ⟨rfl, hcalls, hresults⟩ := h.tasks _ htp rfl _ rfl
    refine htasks (fun t' ht' hr x hx => ?_) (fun t' _ _ x _ hH => hH.congr hc hres hcfg)
      (fun x hS => hS.congr hc hres hcfg) fun x hr hx hcl haw => ?_
    · rcases hpush t' ht' with he | he
      · simp [he] at hx
      · obtain rfl := Option.some.inj (he.symm.trans hx)
        exact .inr ⟨hcfg ▸ hhand, hc.trans hcalls, rfl⟩
    · exact absurd (Option.some.inj hx).symm (hcl _)
  | @result md res htc hc hres hpush =>
    subst htc
    obtain ⟨rfl, hcalls, hresults⟩ := h.tasks _ htp rfl _ rfl
    have hnot := fun x (hS : s.Settled r st.service md x) => hS.not_await hcalls hresults
    refine htasks (fun t' ht' hr x hx => ?_) (fun t' ht' hr x hx hH => ?_)
      (fun x hS => (hnot x hS).elim) fun x hr hx hcl haw => ?_
    · rcases hpush t' ht' with he | he
      · simp [he] at hx
      · obtain rfl := Option.some.inj (he.symm.trans hx)
        exact Settled.holds
          (.inl ⟨res, hc.trans hcalls, hres.trans (by rw [hresults]; rfl), rfl⟩)
    · cases x with
      | call data => simpa [hcalls] using hH.2.1
      | await data =>
        simpa [chain_of_await hx] using chain_unique hh h₁ rfl rfl t' ht' hr
      | accept data => exact (hnot _ hH).elim
      | reject err => exact (hnot _ hH).elim
    · exact absurd (Option.some.inj hx).symm (haw _)
  | created hr hn =>
    exact absurd (List.getElem?_eq_some_iff.mp hst).1 (Nat.not_lt.mpr hr.ge)

/-- The stream that a step of a goroutine creates for the peer. -/
theorem Acts.admitted (ha : Acts s t n) (hr : s.heap.length ≤ r) (hst : n.sess.heap[r]? = some st)
    (hin : st.inbound = true) : r = s.heap.length ∧ ∃ metadata,
      t = .handleOpen st.id st.service metadata ∧ st.born = s.inbox.length ∧
      n.push = [] ∧ n.spawn = [[.acceptOpen r metadata]] ∧ n.sess.out = s.out := by
  have hnew {st₀ : Stream} (h : (s.heap ++ [st₀])[r]? = some st) :
      r = s.heap.length ∧ st = st₀ := by
    rcases Library.getElem?_concat_cases h with ⟨hlt, -⟩ | h
    · omega
    · exact h
  have hsame (hlen : n.sess.heap.length = s.heap.length) : False := by
    have := (List.getElem?_eq_some_iff.mp hst).1
    omega
  cases ha with
  | sect hst' hf ho => exact (hsame List.length_set).elim
  | detach hst' => exact (hsame (by rw [delete_heap])).elim
  | open_created hv hm hc hq hid =>
    obtain ⟨-, rfl⟩ := hnew hst
    simp at hin
  | open_admitted h₀ hid hv hm hc hn hq =>
    obtain ⟨rfl, rfl⟩ := hnew hst
    exact ⟨rfl, _, rfl, rfl, rfl, rfl, rfl⟩
  | _ => exact (hsame rfl).elim

/-- The stream that the peer asked for has its answer before it. -/
theorem Answering.admitted (hb : ∀ r, s.heap.length ≤ r → Blank s r (s.tasksOf r))
    (hf : ∀ r, s.heap.length ≤ r → s.callsOf r = [] ∧ s.resultsOf r = []) (hcur : s.Current)
    (hserve : s.Serving) (ht : s.threads[i]? = some (t :: rest)) (ha : Acts s t n)
    (hr : s.heap.length ≤ r) (hst : n.sess.heap[r]? = some st) (hin : st.inbound = true) :
    ∃ metadata, (s.after i n rest).Answering r st metadata := by
  obtain ⟨rfl, metadata, rfl, hborn, hpush, hspawn, hout⟩ := ha.admitted hr hst hin
  obtain ⟨others, h₁, h₂⟩ := pending_advance ht
  have hcfg : (s.after i n rest).cfg = s.cfg := ha.inbox.2
  have hblank := hb _ le_rfl
  -- the message that `Serve` handles is that of the last frame
  have h0 : i = 0 := hserve.zero_of_message? ht rfl
  subst h0
  obtain ⟨t', m, fs, f, he, hm, hfs, happ, -⟩ | hnone := hcur _ ht
  · obtain ⟨rfl, rfl⟩ := List.cons.inj he
    obtain rfl := Option.some.inj hm
    have hcalls : (s.after 0 n []).callsOf s.heap.length = [] ∧
        (s.after 0 n []).resultsOf s.heap.length = [] := by
      have hlog : n.sess.log = s.log := by
        cases ha with
        | open_refused => rfl
        | open_ignored hc => rfl
        | open_admitted => rfl
      have := hf _ le_rfl
      simp only [callsOf, resultsOf, hlog] at this ⊢
      exact this
    refine ⟨metadata, ⟨fs.length, f, ?_, ?_, ?_⟩, fun t' ht' hr' x hx => ?_, fun e he m hm => ?_⟩
    · rw [hborn, hfs, List.length_append, List.length_singleton]
    · rw [show (s.after 0 n []).inbox = s.inbox from ha.inbox.1, hfs]
      simp
    · rw [hcfg]
      exact happ
    · rw [show pending (s.after 0 n []).threads = _ from h₂ n.push n.spawn, hpush, hspawn] at ht'
      rcases Multiset.mem_add.mp ht' with hm | hm
      · obtain rfl : t' = .acceptOpen s.heap.length metadata := by simpa [pending] using hm
        obtain rfl := Option.some.inj hx
        exact ⟨rfl, hcalls⟩
      · -- no other step works on the stream
        have hmem : t' ∈ s.tasksOf s.heap.length :=
          Multiset.mem_filter.mpr ⟨by simp [h₁, hm], hr'⟩
        simp [hblank.tasks] at hmem
    · have hmem : m ∈ s.out.filterMap (Sent.app? s.heap.length) :=
        List.mem_filterMap.mpr ⟨e, hout ▸ he, hm⟩
      simp [hblank.out] at hmem
  · simpa [Task.message?] using hnone _ (List.mem_cons_self ..)

theorem Answered.run (h : s.Answered) (hb : ∀ r, s.heap.length ≤ r → Blank s r (s.tasksOf r))
    (hh : ∀ r st, s.heap[r]? = some st → (s.view r st).Handshake) (hcur : s.Current)
    (hserve : s.Serving) (ht : s.threads[i]? = some (t :: rest)) (ha : Acts s t n) :
    (s.after i n rest).Answered := by
  obtain ⟨others, h₁, h₂⟩ := pending_advance ht
  have horig := ha.origins
  constructor
  · intro r hr
    -- a stream that does not exist has no handler; only its creation could change that
    have hlen : s.heap.length ≤ n.sess.heap.length := by simpa [origins] using horig.length_le
    have hr' : s.heap.length ≤ r := hlen.trans hr
    cases ha.answers r with
    | same hc hres hpush => exact ⟨hc.trans (h.fresh r hr').1, hres.trans (h.fresh r hr').2⟩
    | call htc hst₀ hhand hc hres hpush =>
      exact absurd (List.getElem?_eq_some_iff.mp hst₀).1 (Nat.not_lt.mpr hr')
    | noHandler htc hhand hc hres hpush =>
      exact ⟨hc.trans (h.fresh r hr').1, hres.trans (h.fresh r hr').2⟩
    | result htc hc hres hpush =>
      have hmem : t ∈ s.tasksOf r := Multiset.mem_filter.mpr ⟨by simp [h₁], by simp [htc]⟩
      simp [(hb r hr').tasks] at hmem
    | created hr₀ hn =>
      have hle : n.sess.heap.length ≤ s.heap.length := hr₀ ▸ hr
      omega
  · intro r st' hst' hin
    by_cases hr : r < s.heap.length
    · -- the stream was there before
      obtain ⟨st, hst⟩ : ∃ st, s.heap[r]? = some st := ⟨_, List.getElem?_eq_getElem hr⟩
      have ho : st'.origin = st.origin := by
        have h₁ : n.sess.origins[r]? = some st'.origin := by simp [origins, hst']
        have h₂ : s.origins[r]? = some st.origin := by simp [origins, hst]
        obtain ⟨os, hos⟩ := horig
        rw [← hos, List.getElem?_append_left (by simpa [origins] using hr), h₂] at h₁
        exact (Option.some.inj h₁).symm
      have hin' : st.inbound = true := by
        have := congrArg Origin.inbound ho
        simpa [Stream.origin, hin] using this.symm
      obtain ⟨metadata, hA⟩ := h.streams r st hst hin'
      exact ⟨metadata, hA.run hst (hh r st hst) ht ha ho⟩
    · exact Answering.admitted hb h.fresh hcur hserve ht ha (Nat.not_lt.mp hr) hst' hin

theorem Started.errand? (h : Started s t) : t.errand? = none := by
  cases h with
  | callOn hs hc => cases hc <;> rfl
  | _ => rfl

/-- Nothing but the steps under way and the frames read changes. -/
theorem Answered.more (h : s.Answered) (hheap : s'.heap = s.heap) (hlog : s'.log = s.log)
    (hout : s'.out = s.out) (hcfg : s'.cfg = s.cfg) (hin : s.inbox <+: s'.inbox)
    (htasks : ∀ t ∈ pending s'.threads, t ∈ pending s.threads ∨ t.errand? = none) :
    s'.Answered := by
  have hc (r : Ref) : s'.callsOf r = s.callsOf r := by simp only [callsOf, hlog]
  have hres (r : Ref) : s'.resultsOf r = s.resultsOf r := by simp only [resultsOf, hlog]
  refine ⟨fun r hr => ?_, fun r st hst hi => ?_⟩
  · rw [hc, hres]
    exact h.fresh r (hheap ▸ hr)
  · obtain ⟨metadata, ⟨k, f, hk, hf, happ⟩, ht, ho⟩ := h.streams r st (hheap ▸ hst) hi
    refine ⟨metadata, ⟨k, f, hk, ?_, hcfg ▸ happ⟩, fun t htm hr x hx => ?_,
      fun e he m hm x hx => ?_⟩
    · obtain ⟨fs, hfs⟩ := hin
      rw [← hfs, List.getElem?_append_left (List.getElem?_eq_some_iff.mp hf).1, hf]
    · rcases htasks t htm with htm | hn
      · exact (ht t htm hr x hx).congr (hc r) (hres r) hcfg
      · simp [hn] at hx
    · exact (ho e (hout ▸ he) m hm x hx).congr (hc r) (hres r) hcfg

variable {cfg : Config} {ok : Session → Label → Prop}

/-- **Every answer to the peer is the one of the handler, in every state reached.** -/
theorem answered (h : Reaches step ok (new cfg) s) : s.Answered := by
  refine h.invariant (answered_new cfg) ?_
  intro s s' l hr hok hs ih
  rcases (moves_of_step hs).run_or_starts with ⟨i, c, t, rest, n, -, ht, ha, rfl⟩ | ⟨ts, hts⟩ | rfl
  · exact ih.run (fun r hlt => blank hr hlt) (fun r st hst => handshake hr hst)
      (arrivals hr).current (reaches_serving hr) ht ha
  · refine ih.more hts.heap hts.log hts.out hts.cfg hts.inbox fun t ht => ?_
    rcases Multiset.mem_add.mp (hts.pending ▸ ht) with ht | ht
    · exact .inr (hts.started t ht).errand?
    · exact .inl ht
  · exact ih.more rfl rfl rfl rfl List.prefix_rfl fun t ht => .inl ht

/-! ## Streams that were declined -/

/-- `Serve` handles no message. -/
def Idle (s : Session) : Prop :=
  ∀ ts, s.threads[0]? = some ts → ∀ t ∈ ts, t.message? = none

/-- The `APP_OPEN` for the stream id was declined: no stream stems from it. -/
structure Declined (s : Session) (id : UInt32) (code : UInt16) (message : Bytes) : Prop where
  reason : Declines code message
  frame : ∃ k f service metadata, s.inbox[k]? = some f ∧
    f.app? s.cfg.registry = some (.appOpen id service metadata) ∧
    (∀ o ∈ s.origins, o.inbound = true → o.born ≠ k + 1) ∧ (k + 1 = s.inbox.length → s.Idle)

/-- The rejections without a stream decline an `APP_OPEN`. -/
structure Declining (s : Session) : Prop where
  tasks : ∀ id code message, .sendReject id code message ∈ pending s.threads →
    s.Declined id code message
  out : ∀ e ∈ s.out, e.ref = none → ∀ id code message, e.msg = .app (.appReject id code message) →
    s.Declined id code message

theorem declining_new (cfg : Config) : (new cfg).Declining := ⟨by simp [new], by simp [new]⟩

variable {id : UInt32} {code : UInt16} {message : Bytes}

/-- After a step of `Serve`, no message is left to be handled. -/
theorem idle_run (hcur : s.Current) (hserve : s.Serving)
    (ht : s.threads[0]? = some (t :: rest)) (ha : Acts s t n) : (s.after 0 n rest).Idle := by
  intro ts hts t' ht'
  obtain rfl : n.push ++ rest = ts :=
    Option.some.inj ((after_zero_self hserve).symm.trans hts)
  rcases List.mem_append.mp ht' with h | h
  · exact ha.push_message? t' h
  · exact hcur.rest ht t' h

/-- No stream will stem from an `APP_OPEN` that was declined. -/
theorem Declined.run (h : s.Declined id code message) (hcur : s.Current) (hserve : s.Serving)
    (ht : s.threads[i]? = some (t :: rest)) (ha : Acts s t n) :
    (s.after i n rest).Declined id code message := by
  obtain ⟨hreason, k, f, service, metadata, hf, happ, hborn, hidle⟩ := h
  have hin : (s.after i n rest).inbox = s.inbox := ha.inbox.1
  have hcfg : (s.after i n rest).cfg = s.cfg := ha.inbox.2
  refine ⟨hreason, k, f, service, metadata, hin ▸ hf, hcfg ▸ happ, fun o ho hi => ?_, fun hk => ?_⟩
  · -- a stream that is created is one opened here, or stems from the frame `Serve` is handling
    rcases ha.heap with ⟨hor, -⟩ | ⟨st, hheap, -, hb, -, -, ⟨ho', -⟩ | ⟨-, sv, md, rfl⟩⟩
    · exact hborn o (hor ▸ ho) hi
    · rw [show (s.after i n rest).origins = s.origins ++ [st.origin] by
        change n.sess.heap.map _ = _; rw [hheap, List.map_append]; rfl] at ho
      rcases List.mem_append.mp ho with ho | ho
      · exact hborn o ho hi
      · obtain rfl := List.mem_singleton.mp ho
        simp [Stream.origin, ho'] at hi
    · rw [show (s.after i n rest).origins = s.origins ++ [st.origin] by
        change n.sess.heap.map _ = _; rw [hheap, List.map_append]; rfl] at ho
      rcases List.mem_append.mp ho with ho | ho
      · exact hborn o ho hi
      · -- the new stream stems from the frame that `Serve` was handling
        obtain rfl := List.mem_singleton.mp ho
        have h0 : i = 0 := hserve.zero_of_message? ht rfl
        subst h0
        intro hk
        have hk' : k + 1 = s.inbox.length := hk ▸ hb
        simpa [Task.message?] using hidle hk' _ ht _ (List.mem_cons_self ..)
  · by_cases h0 : i = 0
    · subst h0
      exact idle_run hcur hserve ht ha
    · intro ts hts
      rw [after_zero hserve h0] at hts
      exact hidle (hin ▸ hk) ts hts

theorem Declining.run (h : s.Declining) (harr : s.Arrivals) (hserve : s.Serving)
    (ht : s.threads[i]? = some (t :: rest)) (ha : Acts s t n) : (s.after i n rest).Declining := by
  obtain ⟨others, h₁, h₂⟩ := pending_advance ht
  have hold {id : UInt32} {code : UInt16} {message : Bytes} (hd : s.Declined id code message) :
      (s.after i n rest).Declined id code message :=
    hd.run harr.current hserve ht ha
  refine ⟨fun id code message hm => ?_, fun e he href id code message hmsg => ?_⟩
  · rw [show pending (s.after i n rest).threads = _ from h₂ n.push n.spawn] at hm
    rcases Multiset.mem_add.mp hm with hm | hm
    · -- `handleOpen` declines the last frame
      obtain ⟨service, metadata, rfl⟩ := ha.push_sendReject (by simpa [pending] using hm)
      have h0 : i = 0 := hserve.zero_of_message? ht rfl
      subst h0
      obtain ⟨t', m, fs, f, he, hmsg, hfs, happ, -⟩ | hnone := harr.current _ ht
      · obtain ⟨rfl, -⟩ := List.cons.inj he
        obtain rfl := Option.some.inj hmsg
        have hreason : Declines code message := by
          cases ha with
          | open_refused h =>
            obtain ⟨-, rfl, rfl⟩ : id = id ∧ code = _ ∧ message = _ := by
              simpa [pending] using hm
            exact h
          | open_ignored hc => simp at hm
          | open_admitted => simp [pending] at hm
        have hnew : ∀ o ∈ s.origins, o.inbound = true → o.born < s.inbox.length :=
          harr.fresh _ _ _ ht rfl rfl
        have hor : (s.after 0 n rest).origins = s.origins := by
          cases ha with
          | open_refused h => rfl
          | open_ignored hc => simp at hm
          | open_admitted => simp [pending] at hm
        have hin : (s.after 0 n rest).inbox = s.inbox := ha.inbox.1
        have hlen : s.inbox.length = fs.length + 1 := by simp [hfs]
        refine ⟨hreason, fs.length, f, service, metadata, ?_, ?_, fun o ho hi => ?_,
          fun _ => idle_run harr.current hserve ht ha⟩
        · rw [hin, hfs]
          simp
        · rw [show (s.after 0 n rest).cfg = s.cfg from ha.inbox.2]
          exact happ
        · have := hnew o (hor ▸ ho) hi
          omega
      · simpa [Task.message?] using hnone _ (List.mem_cons_self ..)
    · exact hold (h.tasks id code message (by simp [h₁, hm]))
  · rcases ha.out with hout | ⟨e', hout, he'⟩
    · exact hold (h.out e (hout ▸ he) href id code message hmsg)
    · rcases List.mem_append.mp (hout ▸ he) with he | he
      · exact hold (h.out e he href id code message hmsg)
      · obtain rfl := List.mem_singleton.mp he
        obtain ⟨-, ⟨q, x, st, -, -, hq, -⟩ | ⟨id', code', message', rfl, -, hm'⟩⟩ := he' _ hmsg
        · simp [href] at hq
        · obtain ⟨rfl, rfl, rfl⟩ : id = id' ∧ code = code' ∧ message = message' := by
            simpa using hm'
          exact hold (h.tasks id code message (by simp [h₁]))

theorem Declined.more (h : s.Declined id code message) (hheap : s'.heap = s.heap)
    (hcfg : s'.cfg = s.cfg)
    (hin : s'.inbox = s.inbox ∧ (s.Idle → s'.Idle) ∨ ∃ f, s'.inbox = s.inbox ++ [f]) :
    s'.Declined id code message := by
  obtain ⟨hreason, k, f, service, metadata, hf, happ, hborn, hidle⟩ := h
  have hlt := (List.getElem?_eq_some_iff.mp hf).1
  have hor : s'.origins = s.origins := congrArg (List.map Stream.origin) hheap
  refine ⟨hreason, k, f, service, metadata, ?_, hcfg ▸ happ, hor ▸ hborn, fun hk => ?_⟩
  · rcases hin with ⟨hin, -⟩ | ⟨f', hin⟩
    · exact hin ▸ hf
    · rw [hin, List.getElem?_append_left hlt, hf]
  · rcases hin with ⟨hin, hi⟩ | ⟨f', hin⟩
    · exact hi (hidle (hin ▸ hk))
    · rw [hin, List.length_append, List.length_singleton] at hk
      omega

theorem Started.not_sendReject (h : Started s t) : ∀ id code message,
    t ≠ .sendReject id code message := by
  cases h with
  | callOn hs hc => cases hc <;> simp
  | _ => simp

/-- **The rejections without a stream decline an `APP_OPEN`, in every state reached.** -/
theorem declining (h : Reaches step ok (new cfg) s) : s.Declining := by
  refine h.invariant (declining_new cfg) ?_
  intro s s' l hr hok hs ih
  have hserve := reaches_serving hr
  have hm := moves_of_step hs
  have hmore (hts : s' = { s with connUp := false } ∨ ∃ ts, Starts s s' ts)
      (hin : s'.inbox = s.inbox ∧ (s.Idle → s'.Idle) ∨ ∃ f, s'.inbox = s.inbox ++ [f]) :
      s'.Declining := by
    rcases hts with rfl | ⟨ts, hts⟩
    · exact ⟨fun id code message hm => (ih.tasks id code message hm).more rfl rfl hin,
        fun e he href id code message hmsg =>
          (ih.out e he href id code message hmsg).more rfl rfl hin⟩
    · refine ⟨fun id code message hm => ?_, fun e he href id code message hmsg => ?_⟩
      · rcases Multiset.mem_add.mp (hts.pending ▸ hm) with hm | hm
        · exact absurd rfl ((hts.started _ hm).not_sendReject id code message)
        · exact (ih.tasks id code message hm).more hts.heap hts.cfg hin
      · exact (ih.out e (hts.out ▸ he) href id code message hmsg).more hts.heap hts.cfg hin
  -- a goroutine that the application starts is not `Serve`
  have hspawn (ts : List Task) : (s.threads ++ [ts])[0]? = s.threads[0]? :=
    List.getElem?_append_left hserve.alive
  cases hm with
  | run ht ha => exact ih.run (arrivals hr) hserve ht ha
  | callOn hs' hc =>
    exact hmore (.inr ⟨_, starts_append (by simpa using .callOn hs' hc)⟩)
      (.inl ⟨rfl, fun hi ts hts => hi ts ((hspawn _).symm.trans hts)⟩)
  | callOpen =>
    exact hmore (.inr ⟨_, starts_append (by simpa using .open)⟩)
      (.inl ⟨rfl, fun hi ts hts => hi ts ((hspawn _).symm.trans hts)⟩)
  | callClose =>
    exact hmore (.inr ⟨_, starts_append
        (by simp [Started.fail, Started.wgWait, Started.closeReturn])⟩)
      (.inl ⟨rfl, fun hi ts hts => hi ts ((hspawn _).symm.trans hts)⟩)
  | recv h0 hserved =>
    exact hmore (.inr ⟨_, starts_serve h0 (List.prefix_append _ _) (handleFrame_started _ _)⟩)
      (.inr ⟨_, rfl⟩)
  | readError h0 hserved =>
    refine hmore (.inr ⟨_, starts_serve h0 List.prefix_rfl
      (by simp [Started.fail, Started.stopServe])⟩) (.inl ⟨rfl, fun _ ts hts => ?_⟩)
    obtain rfl : [.fail none, .stopServe] = ts :=
      Option.some.inj ((List.getElem?_set_self hserve.alive).symm.trans hts)
    simp [Task.message?]
  | connLost => exact hmore (.inl rfl) (.inl ⟨rfl, id⟩)

end Session

end Mvcp.App
