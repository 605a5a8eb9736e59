import Mvcp.App.Answering
import Mvcp.App.Pairing

/-!
# Open and accept agree

When `Open` returns a stream, the peer called its handler once for the stream's id, with the
service and the metadata of the call, and the handler accepted with the metadata that the stream
has. When `Open` returns a rejection, it is the one that the peer chose for the stream's id.

## Main definitions

* `Session.invocations`, `Session.results`: the calls of the handler for a stream id
* `Session.Chose`: the rejection of a stream id that a session chose
* `Net.Opened`: a step in which `Open` creates a stream

## Main results

* `Net.open_agreement`: what `Open` returns is what the peer answered
-/

namespace Mvcp.App

open Library (Reaches Always run reaches_of_run exists_reaches_of_run pending pending_advance)

/-! ## What `Open` was answered -/

namespace Stream

variable {r : Ref} {st : Stream} {x : Section} {o : Outcome}

/-- Only a rejection of the peer sets `openErr`. -/
theorem Fires.openErr_eq (h : Fires r st x o) : o.st.openErr = st.openErr ∨
    st.opening = true ∧ ∃ code message, x = .handleReject code message ∧
      o.st.openErr = some ⟨code, message⟩ := by
  cases h with
  | rejected ho => exact .inr ⟨ho, _, _, rfl, rfl⟩
  | _ => exact .inl rfl

theorem Fires.shared_mono (h : Fires r st x o) (hs : st.shared = true) : o.st.shared = true := by
  cases h with
  | markOpened_now hf ho hs' hlog => exact hs' hs
  | openReturn => rfl
  | _ => exact hs

/-- `Open` returns the rejection that the stream has. -/
theorem Fires.push_reject (h : Fires r st x o) {q : Option Ref} {err : RejectError}
    (hm : .openFail q (.reject err) ∈ o.push) :
    q = some r ∧ st.openErr = some err ∧ o.st = st := by
  have hcall : ∀ ts : List Task, (∀ t ∈ ts, t ≠ .openFail q (.reject err)) →
      .openFail q (.reject err) ∉ ts := fun ts h hm => h _ hm rfl
  cases h with
  | openResult_failed h herr =>
    obtain ⟨rfl, rfl⟩ : q = some r ∧ _ = _ := by simpa using hm
    exact ⟨rfl, herr err rfl, rfl⟩
  | detachBytes => split_ifs at hm <;> simp at hm
  | closeEndpoint => simp at hm
  | _ => exact absurd hm (hcall _ (by simp [Stream.park, or_imp, forall_and]))

/-- `Open` returns a stream that the application then holds. -/
theorem Fires.openReturned (h : Fires r st x o) (hl : .openReturned r ∈ o.log) :
    o.st.shared = true := by
  cases h with
  | openReturn => rfl
  | finish_now h hlog => rcases hlog with rfl | rfl <;> simp at hl
  | markOpened_now hf ho hs hlog => rcases hlog with rfl | rfl <;> simp at hl
  | _ => simp [Stream.park] at hl

end Stream

namespace View

variable {r : Ref} {v v' : View}

/-- **What the answers of the peer made of the stream.** -/
structure Replied (r : Ref) (v : View) : Prop where
  rejected : ∀ err, v.st.openErr = some err → ∃ id, .appReject id err.code err.message ∈ v.heard
  returned : .openReturned r ∈ v.log → v.st.shared = true

theorem Initial.replied (h : Initial r v) : v.Replied r := by
  cases h <;> exact ⟨by simp, by simp⟩

theorem Step.replied {a : Option Section} (hs : Step r v a v') (hc : v.Current r)
    (h : v.Replied r) : v'.Replied r := by
  have hkept (err : RejectError) (he : v.st.openErr = some err) :
      ∃ id, .appReject id err.code err.message ∈ v'.heard :=
    have ⟨id, hm⟩ := h.rejected err he
    ⟨id, hs.grows.2.2.subset hm⟩
  rcases hs.fires with ⟨hst, hlog⟩ | ⟨x, o, -, hx, hf, hst, hlog⟩
  · exact ⟨fun err he => hkept err (hst ▸ he), by rw [hst, hlog]; exact h.returned⟩
  · constructor
    · intro err he
      rcases hf.openErr_eq with he' | ⟨-, code, message, rfl, he'⟩
      · exact hkept err (by rw [← he', ← hst, he])
      · -- the section handles the rejection
        obtain rfl : ⟨code, message⟩ = err := Option.some.inj (he'.symm.trans (hst ▸ he))
        obtain ⟨ms, m, hheard, hm⟩ := hc _ hx rfl
        obtain ⟨id, rfl⟩ : ∃ id, m = .appReject id code message := by
          cases m <;> simp_all [Session.dispatch, Task.refuses]
        exact ⟨id, hs.grows.2.2.subset (by simp [hheard])⟩
    · intro hm
      rw [hst]
      rcases List.mem_append.mp (hlog ▸ hm) with hm | hm
      · exact hf.shared_mono (h.returned hm)
      · exact hf.openReturned hm

end View

namespace Session

variable {s s' : Session} {t : Task} {n : Next} {l : Label} {r : Ref} {st : Stream} {i : ℕ}
variable {rest : List Task} {cfg : Config} {ok : Session → Label → Prop}

theorem replied (h : Reaches step ok (new cfg) s) (hst : s.heap[r]? = some st) :
    (s.view r st).Replied r :=
  (view_inductive (I := fun r v => v.Current r ∧ v.Replied r)
    (fun _ _ hi => ⟨hi.current, hi.replied⟩)
    (fun _ _ _ _ hs hv => ⟨hs.current hv.1, hs.replied hv.1 hv.2⟩) h hst).2

/-! ## The rejections that `Open` returns -/

/-- The session has rejected, or is about to reject, the `Open` of `r` with `err`. -/
def Rejecting (s : Session) (r : Ref) (err : RejectError) : Prop :=
  .openFail (some r) (.reject err) ∈ pending s.threads ∨ .openFailed (some r) (.reject err) ∈ s.log

/-- `Open` returns the rejection that the stream has. -/
def Relayed (s : Session) : Prop :=
  ∀ r err, s.Rejecting r err → ∃ st, s.heap[r]? = some st ∧ st.openErr = some err

theorem relayed_new (cfg : Config) : (new cfg).Relayed := by
  rintro r err (h | h) <;> simp [new] at h

/-- Where an error of `Open` comes from. -/
theorem Acts.push_reject (ha : Acts s t n) {err : RejectError}
    (h : .openFail (some r) (.reject err) ∈ n.push ++ n.spawn.flatten) :
    ∃ st, s.heap[r]? = some st ∧ st.openErr = some err ∧ n.sess.heap[r]? = some st := by
  cases ha with
  | @sect q x st o hst hf ho =>
    obtain ⟨hr, he, hst'⟩ := hf.push_reject (by simpa using h)
    obtain rfl := Option.some.inj hr
    exact ⟨st, hst, he, by simp [hst', (List.getElem?_eq_some_iff.mp hst).1]⟩
  | @emit_sent q x => cases x.sent_follows (r := q) _ (mem_push h)
  | @emit_lost q x => cases x.failed_follows (r := q) _ (mem_push h)
  | pump hep h' => cases h'.tasks _ h
  | @lookup_found m q => cases dispatch_follows (r := q) m _ (mem_push h)
  | _ => simp at h

/-- The rejection of a stream stays. -/
theorem Acts.openErr (ha : Acts s t n) (hh : ∀ r st, s.heap[r]? = some st → (s.view r st).Handshake)
    {err : RejectError} (hst : s.heap[r]? = some st) (he : st.openErr = some err) :
    ∃ st', n.sess.heap[r]? = some st' ∧ st'.openErr = some err := by
  have hlt := (List.getElem?_eq_some_iff.mp hst).1
  cases ha with
  | @sect q x st₀ o hst₀ hf ho =>
    by_cases hr : q = r
    · subst hr
      obtain rfl := Option.some.inj (hst.symm.trans hst₀)
      refine ⟨o.st, by simp [hlt], ?_⟩
      rcases hf.openErr_eq with he' | ⟨hop, -⟩
      · exact he'.trans he
      · -- a stream that waits for its answer has none
        have hnone : st.openErr = none := ((hh q st hst).opening hop).2.1
        simp [he] at hnone
    · exact ⟨st, by rw [List.getElem?_set_ne hr, hst], he⟩
  | detach hst₀ => exact ⟨st, by rw [delete_heap, hst], he⟩
  | open_created => exact ⟨st, by rw [List.getElem?_append_left hlt, hst], he⟩
  | open_admitted => exact ⟨st, by rw [List.getElem?_append_left hlt, hst], he⟩
  | _ => exact ⟨st, hst, he⟩

/-- The errors of `Open` that a step logs. -/
theorem Acts.log_reject (ha : Acts s t n) {err : RejectError}
    (h : .openFailed (some r) (.reject err) ∈ n.sess.log) :
    .openFailed (some r) (.reject err) ∈ s.log ∨ t = .openFail (some r) (.reject err) := by
  cases ha with
  | sect hst hf ho =>
    rcases List.mem_append.mp h with h | h
    · exact .inl h
    · simpa using hf.log_ref _ h
  | detach hst => exact .inl (delete_log _ _ _ ▸ h)
  | openFail =>
    rcases List.mem_append.mp h with h | h
    · exact .inl h
    · obtain ⟨rfl, rfl⟩ : some r = _ ∧ OpenError.reject err = _ := by simpa using h
      exact .inr rfl
  | handler_called hst hh => exact .inl (by simpa using h)
  | handler_refused => exact .inl (by simpa using h)
  | handler_oversized h' => exact .inl (by simpa using h)
  | handler_accepted h' => exact .inl (by simpa using h)
  | closeReturn => exact .inl (by simpa using h)
  | _ => exact .inl h

theorem Relayed.run (h : s.Relayed) (hh : ∀ r st, s.heap[r]? = some st → (s.view r st).Handshake)
    (ht : s.threads[i]? = some (t :: rest)) (ha : Acts s t n) : (s.after i n rest).Relayed := by
  obtain ⟨others, h₁, h₂⟩ := pending_advance ht
  have hold {r : Ref} {err : RejectError} (hR : s.Rejecting r err) :
      ∃ st, (s.after i n rest).heap[r]? = some st ∧ st.openErr = some err :=
    have ⟨_, hst, he⟩ := h r err hR
    ha.openErr hh hst he
  rintro r err (hm | hm)
  · rw [show pending (s.after i n rest).threads = _ from h₂ n.push n.spawn] at hm
    rcases Multiset.mem_add.mp hm with hm | hm
    · obtain ⟨st, -, he, hst⟩ := ha.push_reject (by simpa [pending] using hm)
      exact ⟨st, hst, he⟩
    · exact hold (.inl (by simp [h₁, hm]))
  · rcases ha.log_reject hm with hm | rfl
    · exact hold (.inr hm)
    · exact hold (.inl (by simp [h₁]))

theorem Started.not_openFail (h : Started s t) (r : Option Ref) (err : OpenError) :
    t ≠ .openFail r err := by
  cases h with
  | callOn hs hc => cases hc <;> simp
  | _ => simp

/-- **`Open` returns the rejection that the stream has, in every state reached.** -/
theorem relayed (h : Reaches step ok (new cfg) s) : s.Relayed := by
  refine h.invariant (relayed_new cfg) ?_
  intro s s' l hr hok hs ih
  rcases (moves_of_step hs).run_or_starts with ⟨i, c, t, rest, n, -, ht, ha, rfl⟩ | ⟨ts, hts⟩ | rfl
  · exact ih.run (fun r st hst => handshake hr hst) ht ha
  · intro r err hR
    rw [hts.heap]
    refine ih r err (hR.imp (fun hm => ?_) fun hm => hts.log ▸ hm)
    rcases Multiset.mem_add.mp (hts.pending ▸ hm) with hm | hm
    · exact absurd rfl ((hts.started _ hm).not_openFail _ _)
    · exact hm
  · exact ih

/-! ## The `APP_OPEN` of a call -/

/-- The stream `r` was created by `Open(service, metadata)`. -/
structure OpenedWith (s : Session) (r : Ref) (service metadata : Bytes) : Prop where
  stream : ∃ o, s.origins[r]? = some o ∧ o.inbound = false ∧ o.service = service
  tasks : ∀ data, .emit r (.open data) ∈ pending s.threads → data = metadata
  out : ∀ e ∈ s.out, ∀ m, Sent.app? r e = some m → m.isOpen = true →
    ∃ id, m = .appOpen id service metadata

/-- Only `Open` leads to the write of an `APP_OPEN`. -/
theorem Acts.push_open (ha : Acts s t n) {data : Bytes}
    (h : .emit r (.open data) ∈ n.push ++ n.spawn.flatten) : s.heap.length ≤ r := by
  cases ha with
  | open_created =>
    obtain ⟨rfl, -⟩ : r = s.heap.length ∧ _ := by simpa using h
    exact le_rfl
  | sect hst hf ho => exact absurd (hf.push_opens _ (mem_push h)) (by simp [Task.opens])
  | @emit_sent q x => cases x.sent_follows (r := q) _ (mem_push h)
  | @emit_lost q x => cases x.failed_follows (r := q) _ (mem_push h)
  | pump hep h' => cases h'.tasks _ h
  | @lookup_found m q => cases dispatch_follows (r := q) m _ (mem_push h)
  | _ => simp at h

variable {service metadata : Bytes}

theorem OpenedWith.run (h : s.OpenedWith r service metadata)
    (ht : s.threads[i]? = some (t :: rest)) (ha : Acts s t n) :
    (s.after i n rest).OpenedWith r service metadata := by
  obtain ⟨⟨o, ho, hin, hserv⟩, htasks, hout⟩ := h
  obtain ⟨others, h₁, h₂⟩ := pending_advance ht
  have hlt : r < s.heap.length := by simpa [origins] using (List.getElem?_eq_some_iff.mp ho).1
  refine ⟨⟨o, ?_, hin, hserv⟩, fun data hm => ?_, fun e he m hm hop => ?_⟩
  · obtain ⟨os, hos⟩ := ha.origins
    rw [show (s.after i n rest).origins = n.sess.origins from rfl, ← hos,
      List.getElem?_append_left (by simpa [origins] using hlt), ho]
  · rw [show pending (s.after i n rest).threads = _ from h₂ n.push n.spawn] at hm
    -- `Open` writes the `APP_OPEN` of a stream that it has just created
    rcases Multiset.mem_add.mp hm with hm | hm
    · exact absurd (ha.push_open (by simpa [pending] using hm)) (Nat.not_le.mpr hlt)
    · exact htasks data (by simp [h₁, hm])
  · rcases ha.out with hsame | ⟨e', hsent, he'⟩
    · exact hout e (hsame ▸ he) m hm hop
    · rcases List.mem_append.mp (hsent ▸ he) with he | he
      · exact hout e he m hm hop
      · obtain rfl := List.mem_singleton.mp he
        obtain ⟨ref, msg⟩ := e
        obtain ⟨rfl, rfl⟩ := Sent.app?_eq_some hm
        obtain ⟨-, ⟨q, x, st, rfl, hst, hq, rfl⟩ | ⟨id, code, message, rfl, hq, -⟩⟩ := he' m rfl
        · obtain rfl := Option.some.inj hq
          -- of the frames of the stream, only the `APP_OPEN` is one
          cases x with
          | «open» data =>
            obtain rfl := htasks data (by simp [h₁])
            have : st.origin = o := Option.some.inj ((origins_getElem? hst).symm.trans ho)
            exact ⟨st.id, by rw [← hserv, ← this]; rfl⟩
          | _ => simp [Emission.message, AppMessage.isOpen] at hop
        · simp at hq

theorem OpenedWith.outbound (h : s.OpenedWith r service metadata) (hst : s.heap[r]? = some st) :
    st.inbound = false := by
  obtain ⟨o, ho, hin, -⟩ := h.stream
  obtain rfl := Option.some.inj ((origins_getElem? hst).symm.trans ho)
  exact hin

theorem OpenedWith.step (h : s.OpenedWith r service metadata) (hs : s.step l = some s') :
    s'.OpenedWith r service metadata := by
  rcases (moves_of_step hs).run_or_starts with ⟨i, c, t, rest, n, -, ht, ha, rfl⟩ | ⟨ts, hts⟩ | rfl
  · exact h.run ht ha
  · refine ⟨?_, fun data hm => ?_, hts.out ▸ h.out⟩
    · rw [show s'.origins = s.origins from congrArg (List.map Stream.origin) hts.heap]
      exact h.stream
    · rcases Multiset.mem_add.mp (hts.pending ▸ hm) with hm | hm
      · cases hts.started _ hm with
        | callOn hs hc => cases hc
      · exact h.tasks data hm
  · exact ⟨h.stream, h.tasks, h.out⟩

/-- A call of `Open` that creates a stream. -/
theorem openedWith_of_open (h : Reaches step ok (new cfg) s)
    (ht : s.threads[i]? = some (.open service metadata :: rest)) {c : Choice}
    (hs : s.step (.run i c) = some s') (hlen : s.heap.length < s'.heap.length) :
    s'.OpenedWith s.heap.length service metadata := by
  have hblank := blank h (le_refl s.heap.length)
  cases moves_of_step hs with
  | run ht' ha =>
    obtain ⟨rfl, rfl⟩ := List.cons.inj (Option.some.inj (ht.symm.trans ht'))
    obtain ⟨others, h₁, h₂⟩ := pending_advance ht
    cases ha with
    | open_failed => exact absurd hlen (lt_irrefl _)
    | open_created hv hm hc hq hid =>
      refine ⟨⟨_, origins_getElem? List.getElem?_concat_length, rfl, rfl⟩, fun data hm => ?_,
        fun e he m hm => ?_⟩
      · rw [h₂] at hm
        rcases Multiset.mem_add.mp hm with hm | hm
        · simpa [pending] using hm
        · have hmem : .emit s.heap.length (.open data) ∈ s.tasksOf s.heap.length :=
            Multiset.mem_filter.mpr ⟨by simp [h₁, hm], rfl⟩
          simp [hblank.tasks] at hmem
      · have hmem : m ∈ s.out.filterMap (Sent.app? s.heap.length) :=
          List.mem_filterMap.mpr ⟨e, he, hm⟩
        simp [hblank.out] at hmem

/-! ## The calls of the handler for a stream id -/

/-- The id of the stream `r`. -/
def idOf (s : Session) (r : Ref) : Option UInt32 := s.heap[r]?.map Stream.id

/-- The calls of the handler for the stream id: the service and the metadata. -/
def invocations (s : Session) (id : UInt32) : List (Bytes × Bytes) :=
  s.log.filterMap fun
    | .handlerCalled r service metadata =>
      if s.idOf r = some id then some (service, metadata) else none
    | _ => none

/-- What the handler returned for the stream id. -/
def results (s : Session) (id : UInt32) : List HandlerResult :=
  s.log.filterMap fun
    | .handlerReturned r res => if s.idOf r = some id then some res else none
    | _ => none

/-- **The rejection that the session chose for the stream id.** -/
inductive Chose (s : Session) (id : UInt32) : RejectError → Prop
  /-- The handler returned a `*RejectError`. -/
  | refused {code : UInt16} {message : Bytes} (h : s.results id = [.refuse (some code) message]) :
      Chose s id ⟨code, message⟩
  /-- The handler returned any other error. -/
  | failed {message : Bytes} (h : s.results id = [.refuse none message]) :
      Chose s id ⟨errorCodeAppLocalError, message⟩
  | oversized {halfClose : Bool} {metadata : Bytes}
      (h : s.results id = [.accept halfClose metadata]) (hm : appMaxMetaBytes < metadata.length) :
      Chose s id ⟨errorCodeAppProtocolError, text "accept meta too large"⟩
  | noHandler (h : s.cfg.handler = false) (hi : s.invocations id = []) :
      Chose s id ⟨errorCodeAppLocalError, text "no handler configured"⟩
  /-- `handleOpen` declined the stream, with `QUOTA_EXCEEDED` or `PROTOCOL_ERROR`, and wrote the
  `APP_REJECT` for the id, without a stream of its own. -/
  | declined {code : UInt16} {message : Bytes} (h : Declines code message)
      (hout : ⟨none, .app (.appReject id code message)⟩ ∈ s.out) (hi : s.invocations id = []) :
      Chose s id ⟨code, message⟩

/-- The calls for an id are those for the one stream that has it. -/
theorem invocations_eq {id : UInt32} (hid : ∀ q, s.idOf q = some id ↔ q = r) :
    s.invocations id = s.callsOf r ∧ s.results id = s.resultsOf r := by
  constructor
  · refine List.filterMap_congr fun e _ => ?_
    cases e <;> simp [Event.called?, hid]
  · refine List.filterMap_congr fun e _ => ?_
    cases e <;> simp [Event.result?, hid]

theorem invocations_eq_nil {id : UInt32} (hid : ∀ q, s.idOf q ≠ some id) :
    s.invocations id = [] := by
  refine List.filterMap_eq_nil_iff.mpr fun e _ => ?_
  cases e <;> simp [hid]

/-- The answer of the handler is the one that the session chose. -/
theorem Settled.chose {id : UInt32} {err : RejectError}
    (h : s.Settled r service metadata (.reject err)) (hi : s.invocations id = s.callsOf r)
    (hres : s.results id = s.resultsOf r) : s.Chose id err := by
  rcases h with ⟨res, -, hr, he⟩ | ⟨hh, hc, he⟩
  · rw [← hres] at hr
    cases res with
    | refuse code message =>
      obtain rfl := Errand.reject.inj he
      cases code with
      | none => exact .failed hr
      | some code => exact .refused hr
    | accept halfClose data =>
      simp only [HandlerResult.errand] at he
      split_ifs at he with hm
      obtain rfl := Errand.reject.inj he
      exact .oversized hr hm
  · obtain rfl := Errand.reject.inj he
    exact .noHandler hh (hi.trans hc)

end Session

namespace Net

variable {n n₀ n₁ : Net} {ρ : Role} {r r' : Ref} {st : Stream} {m : AppMessage}
variable {service metadata : Bytes}

/-! ## Agreement -/

/-- The stream on the other side with the id of a stream that was opened here. -/
theorem Joined.idOf_iff (h : n.Joined) {st' : Stream}
    (hst' : (n.side ρ).heap[r']? = some st') (q : Ref) :
    (n.side ρ).idOf q = some st'.id ↔ q = r' := by
  constructor
  · intro hq
    obtain ⟨st, hst, hid⟩ := Option.map_eq_some_iff.mp hq
    exact h.unique (Session.origins_getElem? hst) (Session.origins_getElem? hst') hid
  · rintro rfl
    simp [Session.idOf, hst']

/-- What the other side was asked for a stream that was opened here. -/
theorem Joined.asked_eq (h : n.Joined) (ho : (n.side ρ).OpenedWith r service metadata)
    (hst : (n.side ρ).heap[r]? = some st) {k : ℕ} {f : Frame} {service' metadata' : Bytes}
    {registry : Registry} (hf : (n.side ρ.other).inbox[k]? = some f)
    (happ : f.app? registry = some (.appOpen st.id service' metadata')) :
    service' = service ∧ metadata' = metadata ∧
      ∃ e, (n.side ρ).out[k]? = some e ∧ e.ref = some r ∧
        e.msg = .app (.appOpen st.id service metadata) := by
  have hbit : st.id &&& 0x80000000 = ρ.bit :=
    (h.outbound_iff (Session.mem_origins hst)).mp (ho.outbound hst)
  obtain ⟨⟨ref, msg⟩, q, p, he, hmsg, href, hp, -, hpid⟩ := h.opened_of_read hf happ hbit
  obtain rfl : q = r := h.unique hp (Session.origins_getElem? hst) hpid
  obtain rfl : ref = some q := href
  obtain rfl : msg = .app _ := hmsg
  obtain ⟨id, hm⟩ := ho.out _ (List.mem_of_getElem? he) _ (if_pos rfl) rfl
  obtain ⟨-, rfl, rfl⟩ := AppMessage.appOpen.inj hm
  exact ⟨rfl, rfl, _, he, rfl, rfl⟩

/-- An answer written for a stream is the one of the handler that was called for it. -/
theorem Joined.settled (h : n.Joined) (ho : (n.side ρ).OpenedWith r service metadata)
    (hst : (n.side ρ).heap[r]? = some st) {e : Sent} (he : e ∈ (n.side ρ.other).out)
    (href : e.ref = some r') (hmsg : e.msg = .app m) (hid : m.streamID = st.id) {x : Errand}
    (hx : AppMessage.errand? m = some x) :
    (n.side ρ.other).Settled r' service metadata x ∧
      (n.side ρ.other).invocations st.id = (n.side ρ.other).callsOf r' ∧
      (n.side ρ.other).results st.id = (n.side ρ.other).resultsOf r' := by
  obtain ⟨o', ho', hid'⟩ := h.sent_ref he href hmsg
  simp only [Session.origins, List.getElem?_map, Option.map_eq_some_iff] at ho'
  obtain ⟨st', hst', rfl⟩ := ho'
  have hid'' : st'.id = st.id := hid'.symm.trans hid
  -- the stream of the other side stems from the `APP_OPEN` of this one
  have hin := h.inbound_other hst (ho.outbound hst) hst' hid''
  obtain ⟨_, hr⟩ := h.reached ρ.other
  obtain ⟨md, hA⟩ := (Session.answered hr).streams r' st' hst' hin
  obtain ⟨k, f, -, hf, happ⟩ := hA.asked
  rw [hid''] at happ
  obtain ⟨hs, rfl, -⟩ := h.asked_eq ho hst hf happ
  refine ⟨?_, ?_⟩
  · rw [← hs]
    obtain ⟨ref, msg⟩ := e
    obtain rfl : ref = some r' := href
    obtain rfl : msg = .app m := hmsg
    exact hA.out _ he m (if_pos rfl) x hx
  · rw [← hid'']
    exact Session.invocations_eq (h.idOf_iff hst')

/-- A stream id that was declined has no stream. -/
theorem Joined.declined (h : n.Joined) (ho : (n.side ρ).OpenedWith r service metadata)
    (hst : (n.side ρ).heap[r]? = some st) {code : UInt16} {message : Bytes}
    (hd : (n.side ρ.other).Declined st.id code message) :
    (n.side ρ.other).invocations st.id = [] := by
  obtain ⟨-, k, f, sv, md, hf, happ, hborn, -⟩ := hd
  obtain ⟨rfl, rfl, e, he, href, hmsg⟩ := h.asked_eq ho hst hf happ
  refine Session.invocations_eq_nil fun q hq => ?_
  obtain ⟨st', hst', hid⟩ := Option.map_eq_some_iff.mp hq
  have hmem := Session.mem_origins hst'
  have hin : st'.origin.inbound = true := h.inbound_other hst (ho.outbound hst) hst' hid
  -- it would stem from another `APP_OPEN` for the id, and there is only one
  obtain ⟨k', f', sv', md', hk', hf', happ'⟩ := (h.arrivals ρ.other).opened _ hmem hin
  rw [show st'.origin.id = st.id from hid] at happ'
  obtain ⟨-, -, e', he', href', hmsg'⟩ := h.asked_eq ho hst hf' happ'
  have hkk : k = k' := h.open_once he he' href href' hmsg hmsg' rfl rfl
  exact hborn _ hmem hin (by omega)

/-- The call `Open(service, metadata)` of one side creates a stream in the step from `n₀` to
`n₁`. -/
def Opened (n₀ : Net) (ρ : Role) (service metadata : Bytes) (n₁ : Net) : Prop :=
  ∃ i c rest, (n₀.side ρ).threads[i]? = some (.open service metadata :: rest) ∧
    n₀.step (ρ, .run i c) = some n₁ ∧ (n₀.side ρ).heap.length < (n₁.side ρ).heap.length

theorem openedWith {cfg : Role → Config} (h₀ : Reaches step Always (new cfg) n₀)
    (ho : Opened n₀ ρ service metadata n₁) (h : Reaches step Always n₁ n) :
    (n.side ρ).OpenedWith (n₀.side ρ).heap.length service metadata := by
  obtain ⟨i, c, rest, ht, hs, hlen⟩ := ho
  refine h.invariant (I := fun n => (n.side ρ).OpenedWith (n₀.side ρ).heap.length service metadata)
    ?_ ?_
  · obtain ⟨_, hr⟩ := (joined h₀).reached ρ
    obtain ⟨s', hs', rfl, -⟩ := step_cases hs
    rw [side_set_self] at hlen ⊢
    exact Session.openedWith_of_open hr ht hs' hlen
  · rintro n n' ⟨σ, l⟩ hr hok hs ih
    obtain ⟨s', hs', rfl, -⟩ := step_cases hs
    rcases eq_or_eq_other ρ σ with rfl | rfl
    · rw [side_set_self]
      exact ih.step hs'
    · rw [side_set_other]
      exact ih

/-- **What `Open` returns is what the peer answered.** A stream is returned when the peer's handler
was called once for its id, with the service and the metadata of the call, and accepted with the
metadata that the stream has; a rejection is the one that the peer chose for the id; and every
message handed to the stream was written by the peer for its id. -/
theorem open_agreement {cfg : Role → Config} (h₀ : Reaches step Always (new cfg) n₀)
    (ho : Opened n₀ ρ service metadata n₁) (h : Reaches step Always n₁ n) :
    ∃ st, (n.side ρ).heap[(n₀.side ρ).heap.length]? = some st ∧
      (.openReturned (n₀.side ρ).heap.length ∈ (n.side ρ).log →
        (n.side ρ.other).invocations st.id = [(service, metadata)] ∧
          ∃ halfClose, (n.side ρ.other).results st.id = [.accept halfClose st.acceptMeta]) ∧
      (∀ err, .openFailed (some (n₀.side ρ).heap.length) (.reject err) ∈ (n.side ρ).log →
        (n.side ρ.other).Chose st.id err) ∧
      ∀ m, ((n₀.side ρ).heap.length, m) ∈ (n.side ρ).heard → m.streamID = st.id ∧
        ∃ e ∈ (n.side ρ.other).out, e.msg = .app m ∧
          ∀ r', e.ref = some r' → (n.side ρ.other).idOf r' = some st.id := by
  have hw := openedWith h₀ ho h
  obtain ⟨i, c, rest, ht, hs, -⟩ := ho
  have hj : n.Joined := joined ((h₀.tail trivial hs).trans h)
  obtain ⟨_, hr⟩ := hj.reached ρ
  generalize (n₀.side ρ).heap.length = r at *
  obtain ⟨o, ho', hin, -⟩ := hw.stream
  simp only [Session.origins, List.getElem?_map, Option.map_eq_some_iff] at ho'
  obtain ⟨st, hst, rfl⟩ := ho'
  refine ⟨st, hst, fun hret => ?_, fun err herr => ?_, fun m hm => ?_⟩
  · -- the stream was accepted, by a frame that the peer wrote for its own stream with the id
    have hlog : .openReturned r ∈ ((n.side ρ).view r st).log :=
      List.mem_filter.mpr ⟨hret, by simp [Event.ref?]⟩
    have hshared := (Session.replied hr hst).returned hlog
    obtain ⟨-, id, grant, hm⟩ := (Session.accepted hr hst).used hin (.inl hshared)
    obtain ⟨hid, e, he, hmsg⟩ := hj.heard_written hst hm
    obtain ⟨r', o', href, -⟩ := hj.ref_of_sent he hmsg (by simp)
    obtain ⟨hsettled, hcalls, hres⟩ := hj.settled hw hst he href hmsg hid rfl
    obtain ⟨res, hc, hr', hres'⟩ | ⟨-, -, hno⟩ := hsettled
    · refine ⟨hcalls.trans hc, ?_⟩
      cases res with
      | refuse code message => simp [HandlerResult.errand] at hres'
      | accept halfClose data =>
        simp only [HandlerResult.errand] at hres'
        split_ifs at hres'
        obtain rfl := Errand.accept.inj hres'
        exact ⟨halfClose, hres.trans hr'⟩
    · simp at hno
  · -- the rejection was heard, so the peer wrote it: for its stream, or for want of one
    obtain ⟨st', hst', he⟩ := Session.relayed hr r err (.inr herr)
    obtain rfl := Option.some.inj (hst.symm.trans hst')
    obtain ⟨id, hm⟩ := (Session.replied hr hst).rejected err he
    obtain ⟨hid, e, he, hmsg⟩ := hj.heard_written hst hm
    cases href : e.ref with
    | some r' =>
      obtain ⟨hsettled, hcalls, hres⟩ := hj.settled hw hst he href hmsg hid rfl
      exact hsettled.chose hcalls hres
    | none =>
      obtain ⟨_, hr'⟩ := hj.reached ρ.other
      have hd := (Session.declining hr').out e he href _ _ _ hmsg
      obtain rfl : id = st.id := hid
      obtain ⟨ref, msg⟩ := e
      obtain rfl : ref = none := href
      obtain rfl : msg = _ := hmsg
      exact .declined hd.reason he (hj.declined hw hst hd)
  · -- what was heard was written, and for a stream with the id
    have hm' : m ∈ ((n.side ρ).view r st).heard :=
      List.mem_filterMap.mpr ⟨_, hm, by simp [heardBy]⟩
    obtain ⟨hid, e, he, hmsg⟩ := hj.heard_written hst hm'
    refine ⟨hid, e, he, hmsg, fun r' href => ?_⟩
    obtain ⟨o', ho', hid'⟩ := hj.sent_ref he href hmsg
    simp only [Session.origins, List.getElem?_map, Option.map_eq_some_iff] at ho'
    obtain ⟨st', hst', rfl⟩ := ho'
    simp only [Session.idOf, hst', Option.map_some, Option.some.injEq]
    exact hid'.symm.trans hid

/-- The host opens a stream, and the guest accepts it. -/
theorem open_agreement_accepted :
    ∃ n₀ n₁ n, Reaches step Always (new fun _ => { role := .host }) n₀ ∧
      Opened n₀ .host (text "svc") [] n₁ ∧ Reaches step Always n₁ n ∧
      .openReturned 0 ∈ n.host.log ∧ ∃ st, n.host.heap[0]? = some st ∧
        n.guest.invocations st.id = [(text "svc", [])] := by
  obtain ⟨n₀, h₀, ht⟩ := exists_reaches_of_run step Always (new fun _ => { role := .host })
    (fun n₀ : Net => n₀.host.threads[1]? == some [Task.open (text "svc") []] &&
      n₀.host.heap.length == 0 &&
      (n₀.step (.host, .run 1 .go)).any fun n₁ : Net => n₁.host.heap.length == 1 &&
        (run step Always (openRun.drop 2) n₁).any fun n : Net =>
          n.host.log.contains (.openReturned 0))
    (openRun.take 1) (by decide)
  simp only [Bool.and_eq_true, beq_iff_eq, Option.any_eq_true, List.contains_iff_mem] at ht
  obtain ⟨⟨hopen, hlen⟩, n₁, hs, hlen₁, n, hn, hret⟩ := ht
  have h : Reaches step Always n₁ n := reaches_of_run hn
  have ho : Opened n₀ .host (text "svc") [] n₁ :=
    ⟨1, .go, [], hopen, hs, by simp [side, hlen, hlen₁]⟩
  obtain ⟨st, hst, hagree, -⟩ := open_agreement h₀ ho h
  simp only [side, hlen] at hst hagree
  exact ⟨n₀, n₁, n, h₀, ho, h, hret, st, hst, (hagree hret).1⟩

end Net

end Mvcp.App
