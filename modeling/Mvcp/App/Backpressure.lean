import Mvcp.App.Credit
import Mvcp.App.Frames

/-!
# Backpressure

`Write` does not wait for credit: it queues, and resets the stream when a queue is full. So the
copy loop of `Bridge` never stops reading its endpoint, and a consumer that stalls ends in a reset
of the stream for want of room. While every `Write` and every frame of data finds room, no stream
is reset for want of it, on either side.

## Main definitions

* `forRoom`: the codes of a reset for want of room
* `Session.room`, `Session.roomy`: the queues have room for what a step puts into them
* `Session.Fluent`: no reset of a stream id for want of room has happened or is under way

## Main results

* `Net.not_reset_for_room`: while there is room, no stream is reset for want of it
* `Net.reset_of_stalled`: a bridged stream whose consumer stalls
-/

namespace Mvcp.App

open Library (Reaches Always run reaches_of_run exists_reaches_of_run pending pending_advance
  pending_append
  advance_getElem?_self advance_getElem?_ne getElem?_concat_cases)

/-! ## Resets for want of room -/

/-- The codes `OVERFLOW` and `QUOTA_EXCEEDED`. -/
def forRoom (code : UInt16) : Bool :=
  code = errorCodeAppOverflow || code = errorCodeAppQuotaExceeded

theorem forRoom_eq_false {code : UInt16} :
    forRoom code = false ↔ code ≠ errorCodeAppOverflow ∧ code ≠ errorCodeAppQuotaExceeded := by
  simp [forRoom]

/-- The reset carries a code for want of room. -/
def Cause.forRoom (cause : Cause) : Bool := App.forRoom cause.toError.code

/-- Of the violations of a peer, only that of the session's quota is a want of room. -/
theorem Stream.Refuses.forRoom {st : Stream} {x : Section} {cause : Cause}
    (h : st.Refuses x cause) : cause.forRoom = false ∨ ∃ data, x = .deliver data := by
  cases h with
  | creditCap hr h => exact .inl rfl
  | acceptMetaTooLarge h => exact .inl rfl
  | invalidGrant h => exact .inl rfl
  | _ => exact .inr ⟨_, rfl⟩

namespace Session

variable {s s' : Session} {t : Task} {c : Choice} {n : Next} {l : Label} {i : ℕ} {r : Ref}
variable {st : Stream} {x : Section} {o : Outcome} {rest : List Task} {id : UInt32}

/-- The queues have room for what the critical section puts into them. -/
def room (s : Session) (st : Stream) : Section → Bool
  | .write p _ =>
    st.sendBytes + p.length ≤ appMaxSendQueue && s.buffered + p.length ≤ appMaxBuffered
  | .deliver data => s.buffered + data.length ≤ appMaxBuffered
  | _ => true

/-- A critical section that finds room starts no reset for want of it. -/
theorem push_of_room (ho : st.enter r s.cfg.observer s.buffered x = some o)
    (h : s.room st x = true) :
    ∀ t ∈ o.push, ∀ cause, t.cause? = some cause → cause.forRoom = false := by
  intro t ht cause hc
  cases x with
  | write p k =>
    obtain rfl := Option.some.inj ho
    simp only [room, Bool.and_eq_true, decide_eq_true_eq] at h
    -- the branches of `Write` other than the two for want of room start no reset
    have hwrote {err : Option StreamError} (hm : t ∈ k.wrote r err) : cause.forRoom = false := by
      cases k <;> simp_all [Caller.wrote, Task.cause?]
    unfold Stream.write at ht
    split_ifs at ht with hp hr hl hq hb
    · exact hwrote ht
    · exact hwrote ht
    · exact hwrote ht
    · omega
    · omega
    · exact hwrote ht
  | deliver data =>
    obtain rfl := Option.some.inj ho
    simp only [room, decide_eq_true_eq] at h
    unfold Stream.deliver Stream.refuse at ht
    split_ifs at ht with hd hlen ha hrc hw hb
    all_goals first | omega | simp_all [Task.cause?]
    all_goals subst hc; rfl
  | _ =>
    rcases (Stream.fires_of_enter ho).push_cause t ht cause hc with ⟨⟨p, k, hx⟩, -⟩ | href
    · simp at hx
    · rcases href.forRoom with h' | ⟨data, hx⟩
      · exact h'
      · simp at hx

/-- The step does not ask for more room than there is on a stream with the id, and does not reset
a stream in the name of it. -/
def roomy (s : Session) (id : UInt32) : Label → Bool
  | .call (.reset _ code _) => !forRoom code
  | .run i _ =>
    match (s.threads[i]? : Option (List Task)) with
    | some (.sect r x :: _) => (s.heap[r]?.map fun st => st.id ≠ id || s.room st x).getD true
    | _ => true
  | _ => true

/-! ## Streams that flow -/

/-- **No reset of the stream id for want of room has happened or is under way.** -/
structure Fluent (s : Session) (id : UInt32) : Prop where
  tasks : ∀ t ∈ pending s.threads, ∀ r st cause, t.ref? = some r → s.heap[r]? = some st →
    st.id = id → t.cause? = some cause → cause.forRoom = false
  lookups : ∀ code message, .lookup (.appReset id code message) ∈ pending s.threads →
    forRoom code = false
  out : ∀ e ∈ s.out, ∀ code message, e.msg = .app (.appReset id code message) →
    forRoom code = false
  streams : ∀ (r : Ref) (st : Stream) (cause : Cause), s.heap[r]? = some st → st.id = id →
    st.resetErr = some cause → cause.forRoom = false

theorem fluent_new (cfg : Config) : (new cfg).Fluent id :=
  ⟨by simp [new], by simp [new], by simp [new], by simp [new]⟩

/-- Where a reset of a stream comes from. -/
theorem Acts.push_cause (ha : Acts s t n) {t' : Task} {cause : Cause}
    (ht' : t' ∈ n.push ++ n.spawn.flatten) (hr : t'.ref? = some r)
    (hc : t'.cause? = some cause) :
    t.cause? = some cause ∧ t.ref? = some r ∨ cause.forRoom = false ∨
      (∃ x st o, t = .sect r x ∧ s.heap[r]? = some st ∧
        st.enter r s.cfg.observer s.buffered x = some o ∧ t' ∈ o.push) ∨
      ∃ id code message, t = .lookup (.appReset id code message) ∧ s.stream id = some r ∧
        cause = .peer code message := by
  cases ha with
  | @sect q x st o hst hf ho =>
    have hm : t' ∈ o.push := by simpa using ht'
    rcases hf.push_ref t' hm with hr' | hr'
    · obtain rfl := Option.some.inj (hr.symm.trans hr')
      exact .inr (.inr (.inl ⟨_, _, _, rfl, hst, ho, hm⟩))
    · simp [hr] at hr'
  | @emit_sent q x st hst h =>
    refine .inl ?_
    cases x <;> simp_all [Emission.sent, Task.cause?]
    rcases ht' with rfl | rfl | rfl <;> simp at hc
  | @emit_lost q x st hst h =>
    refine .inl ?_
    cases x <;> simp_all [Emission.failed, Task.cause?] <;> rcases ht' with rfl | rfl <;> simp_all
  | pump hep h =>
    refine .inr (.inl ?_)
    cases h.tasks t' ht' <;> simp [Task.cause?] at hc
    subst hc
    rfl
  | @open_canceled q =>
    refine .inr (.inl ?_)
    have : t' = .emit q (.reset .openTimeout) ∨ t' = .openFail (some q) .contextDone := by
      simpa using ht'
    rcases this with rfl | rfl
    · obtain rfl := Option.some.inj hc
      rfl
    · simp at hr
  | @lookup_found m q h =>
    cases m <;> simp [dispatch] at ht' <;> subst ht' <;> simp [Task.cause?] at hc
    obtain rfl : q = r := by simpa using hr
    exact .inr (.inr (.inr ⟨_, _, _, rfl, h, hc.symm⟩))
  | fail_now hclosed hrefs =>
    refine .inr (.inl ?_)
    cases failTask_of_mem (mem_push ht') with
    | setReset =>
      obtain rfl := Option.some.inj hc
      rfl
    | _ => simp at hr
  | _ => simp at ht' <;> (try rcases ht' with rfl | rfl | rfl) <;> simp_all [Task.cause?]

/-- Only `handleFrame` hands a message to `Serve`. -/
theorem Acts.push_lookup (ha : Acts s t n) (m : AppMessage) :
    .lookup m ∉ n.push ++ n.spawn.flatten := by
  intro hm
  rcases List.mem_append.mp hm with hm | hm
  · simpa [Task.message?] using ha.push_message? _ hm
  · cases ha with
    | pump hep h => cases h.tasks (.lookup m) (by simp [hm])
    | _ => simp at hm

/-- A stream after a step is new, or the step may have reset it. -/
theorem Acts.resetErr (ha : Acts s t n) (hst : n.sess.heap[r]? = some st) :
    r = s.heap.length ∧ st.resetErr = none ∨ ∃ st₀, s.heap[r]? = some st₀ ∧ st₀.id = st.id ∧
      (st.resetErr = st₀.resetErr ∨
        ∃ cause, t = .sect r (.setReset cause) ∧ st.resetErr = some cause) := by
  cases ha with
  | @sect q x st₀ o hst₀ hf ho =>
    refine .inr ?_
    by_cases hq : q = r
    · subst hq
      obtain rfl : o.st = st := by
        rw [List.getElem?_set_self (List.getElem?_eq_some_iff.mp hst₀).1] at hst
        exact Option.some.inj hst
      refine ⟨st₀, hst₀, (congrArg Origin.id hf.origin).symm, ?_⟩
      rcases hf.resetErr_eq with he | ⟨cause, rfl, -, he⟩
      · exact .inl he
      · exact .inr ⟨cause, rfl, he⟩
    · rw [List.getElem?_set_ne hq] at hst
      exact ⟨st, hst, rfl, .inl rfl⟩
  | detach hst₀ => exact .inr ⟨st, delete_heap _ _ _ ▸ hst, rfl, .inl rfl⟩
  | open_created =>
    rcases getElem?_concat_cases hst with ⟨-, h⟩ | ⟨h, rfl⟩
    · exact .inr ⟨st, h, rfl, .inl rfl⟩
    · exact .inl ⟨h, rfl⟩
  | open_admitted =>
    rcases getElem?_concat_cases hst with ⟨-, h⟩ | ⟨h, rfl⟩
    · exact .inr ⟨st, h, rfl, .inl rfl⟩
    · exact .inl ⟨h, rfl⟩
  | _ => exact .inr ⟨st, hst, rfl, .inl rfl⟩

/-- The stream that an id names has the id. -/
theorem Table.id_of_stream (h : s.Table) (hs : s.stream id = some r) :
    ∃ st, s.heap[r]? = some st ∧ st.id = id := by
  obtain ⟨b, hb⟩ := h.ids _ (mem_of_stream hs)
  rw [names_getElem?, Option.map_eq_some_iff] at hb
  obtain ⟨st, hst, hname⟩ := hb
  exact ⟨st, hst, congrArg Prod.fst hname⟩

/-- **A step of a goroutine that finds room keeps the stream flowing.** -/
theorem Fluent.run (h : s.Fluent id) (htab : s.Table)
    (hnew : ∀ t ∈ pending s.threads, t.ref? ≠ some s.heap.length)
    (ht : s.threads[i]? = some (t :: rest)) (ha : Acts s t n)
    (hroom : s.roomy id (.run i c) = true) : (s.after i n rest).Fluent id := by
  obtain ⟨others, h₁, h₂⟩ := pending_advance ht
  have hmem : t ∈ pending s.threads := by simp [h₁]
  -- a step that was pending before concerns a stream that existed before
  have hold {t' : Task} {q : Ref} {st : Stream} {cause : Cause} (hm : t' ∈ pending s.threads)
      (hq : t'.ref? = some q) (hst : n.sess.heap[q]? = some st) (hid : st.id = id)
      (hc : t'.cause? = some cause) : cause.forRoom = false := by
    rcases ha.resetErr hst with ⟨rfl, -⟩ | ⟨st₀, hst₀, hid₀, -⟩
    · exact absurd hq (hnew t' hm)
    · exact h.tasks t' hm q st₀ cause hq hst₀ (hid₀.trans hid) hc
  constructor
  · intro t' ht' q st cause hq hst hid hc
    rw [show pending (s.after i n rest).threads = _ from h₂ n.push n.spawn] at ht'
    rcases Multiset.mem_add.mp ht' with hm | hm
    · rcases ha.push_cause (by simpa [pending] using hm) hq hc with
        ⟨hc', hq'⟩ | hf | ⟨x, st₀, o, rfl, hst₀, ho, hpush⟩ | ⟨id', code, message, rfl, hs, rfl⟩
      · exact hold hmem hq' hst hid hc'
      · exact hf
      · -- the critical section found room
        refine push_of_room ho ?_ t' hpush cause hc
        have hid₀ : st₀.id = id := by
          rcases ha.resetErr hst with ⟨rfl, -⟩ | ⟨st₁, hst₁, hid₁, -⟩
          · simp at hst₀
          · obtain rfl := Option.some.inj (hst₀.symm.trans hst₁)
            exact hid₁.trans hid
        simpa [roomy, ht, hst₀, hid₀] using hroom
      · -- the peer's reset was for this stream id
        obtain ⟨st₀, hst₀, hid₀⟩ := htab.id_of_stream hs
        obtain rfl : id' = id := by
          rcases ha.resetErr hst with ⟨rfl, -⟩ | ⟨st₁, hst₁, hid₁, -⟩
          · simp at hst₀
          · obtain rfl := Option.some.inj (hst₀.symm.trans hst₁)
            exact hid₀.symm.trans (hid₁.trans hid)
        exact h.lookups code message hmem
    · exact hold (by simp [h₁, hm]) hq hst hid hc
  · intro code message hm
    rw [show pending (s.after i n rest).threads = _ from h₂ n.push n.spawn] at hm
    rcases Multiset.mem_add.mp hm with hm | hm
    · exact absurd (by simpa [pending] using hm) (ha.push_lookup _)
    · exact h.lookups code message (by simp [h₁, hm])
  · intro e he code message hmsg
    rcases ha.out with hsame | ⟨e', hsent, he'⟩
    · exact h.out e (hsame ▸ he) code message hmsg
    · rcases List.mem_append.mp (hsent ▸ he) with he | he
      · exact h.out e he code message hmsg
      · obtain rfl := List.mem_singleton.mp he
        obtain ⟨-, ⟨q, x, st, rfl, hst, -, hx⟩ | ⟨_, _, _, -, -, hx⟩⟩ := he' _ hmsg
        · cases x with
          | reset cause =>
            obtain ⟨hid, hcode, -⟩ : id = st.id ∧ code = cause.toError.code ∧ _ := by
              simpa [Emission.message] using hx
            rw [hcode]
            exact h.tasks _ hmem q st cause rfl hst hid.symm rfl
          | _ => simp [Emission.message] at hx
        · simp at hx
  · intro q st cause hst hid hc
    rcases ha.resetErr hst with ⟨-, hn⟩ | ⟨st₀, hst₀, hid₀, he | ⟨cause', rfl, he⟩⟩
    · simp [hn] at hc
    · exact h.streams q st₀ cause hst₀ (hid₀.trans hid) (he ▸ hc)
    · obtain rfl : cause' = cause := Option.some.inj (he.symm.trans hc)
      exact h.tasks _ hmem q st₀ cause' rfl hst₀ (hid₀.trans hid) rfl

/-- Steps that start no reset for want of room keep the stream flowing. -/
theorem Fluent.more (h : s.Fluent id) (ts : List Task) (hheap : s'.heap = s.heap)
    (hout : s'.out = s.out) (hp : pending s'.threads = (ts : Multiset Task) + pending s.threads)
    (hcause : ∀ t ∈ ts, ∀ cause, t.cause? = some cause → cause.forRoom = false)
    (hlook : ∀ code message, .lookup (.appReset id code message) ∈ ts → forRoom code = false) :
    s'.Fluent id := by
  constructor
  · intro t ht r st cause hr hst hid hc
    rcases Multiset.mem_add.mp (hp ▸ ht) with hm | hm
    · exact hcause t hm cause hc
    · exact h.tasks t hm r st cause hr (hheap ▸ hst) hid hc
  · intro code message hm
    rcases Multiset.mem_add.mp (hp ▸ hm) with hm | hm
    · exact hlook code message hm
    · exact h.lookups code message hm
  · rw [hout]
    exact h.out
  · rw [hheap]
    exact h.streams

theorem Fluent.append {t : Task} {eps : List Endpoint} (h : s.Fluent id)
    (hcause : ∀ cause, t.cause? = some cause → cause.forRoom = false)
    (hlook : ∀ m, t ≠ .lookup m) : Fluent { s with threads := s.threads ++ [[t]], eps } id :=
  h.more [t] rfl rfl (by simp [pending_append, add_comm]) (by simpa using hcause)
    (by simpa using fun code message he => absurd he.symm (hlook _))

/-- A call starts no reset for want of room, if `Reset` is not called in the name of it. -/
theorem Fluent.call {a : Call} (h : s.Fluent id) (hs : s.call a = some s')
    (hroom : s.roomy id (.call a) = true) : s'.Fluent id := by
  have hon {r : Ref} {t : Task} (hc : s.callOn r [t] = some s')
      (hcause : ∀ cause, t.cause? = some cause → cause.forRoom = false)
      (hlook : ∀ m, t ≠ .lookup m) : s'.Fluent id := by
    obtain ⟨-, rfl⟩ := callOn_eq_some hc
    exact h.append hcause hlook
  cases a with
  | «open» service metadata =>
    obtain rfl := Option.some.inj hs
    exact h.append (by simp [Task.cause?]) (by simp)
  | close =>
    obtain rfl := Option.some.inj hs
    exact h.more [.fail none, .wgWait, .closeReturn] rfl rfl
      (by simp [pending_append, add_comm]) (by simp [Task.cause?]) (by simp)
  | bridge r halfClose =>
    obtain ⟨u, hu, rfl⟩ := Option.map_eq_some_iff.mp hs
    obtain ⟨-, rfl⟩ := callOn_eq_some hu
    exact h.append (by simp [Task.cause?]) (by simp)
  | reset r code message =>
    refine hon hs (fun cause hc => ?_) (by simp)
    obtain rfl := Option.some.inj hc
    have hcode : forRoom code = false := by simpa [roomy] using hroom
    exact hcode
  | write r p => exact hon hs (by simp [Task.cause?]) (by simp)
  | read r k => exact hon hs (by simp [Task.cause?]) (by simp)
  | closeWrite r => exact hon hs (by simp [Task.cause?]) (by simp)

/-- **A step that finds room keeps the stream flowing.** -/
theorem Fluent.step {cfg : Config} {ok : Session → Label → Prop} (h : s.Fluent id)
    (hr : Reaches Session.step ok (new cfg) s) (hs : s.step l = some s')
    (hroom : s.roomy id l = true)
    (hrecv : ∀ f, l = .recv f → ∀ code message,
      f.app? s.cfg.registry = some (.appReset id code message) → forRoom code = false) :
    s'.Fluent id := by
  cases l with
  | run i c =>
    cases moves_of_step hs with
    | run ht ha =>
      refine h.run (reaches_table hr) (fun t ht hq => ?_) ht ha hroom
      have hmem : t ∈ s.tasksOf s.heap.length := Multiset.mem_filter.mpr ⟨ht, hq⟩
      simp [(blank hr le_rfl).tasks] at hmem
  | call a => exact h.call hs hroom
  | recv f =>
    cases moves_of_step hs with
    | recv h0 hserved =>
      refine h.more _ rfl rfl
        (starts_serve h0 List.prefix_rfl (handleFrame_started _ _)).pending ?_ ?_
      · intro t ht
        cases handleFrame_started (s := s) s.cfg.registry f t ht with
        | callOn hs hc => exact absurd (handleFrame_ref _ _ t ht) (by simp [hc.ref_eq])
        | _ => simp [Task.cause?]
      · intro code message hm
        -- the peer resets the stream for another reason
        rcases handleFrame_cases s.cfg.registry f with ⟨t, m, ht, hmsg, happ, -⟩ | ⟨-, hn⟩
        · obtain rfl : Task.lookup (.appReset id code message) = t := by simpa [ht] using hm
          obtain rfl := Option.some.inj hmsg
          exact hrecv f rfl code message happ
        · simpa [Task.message?] using hn _ hm
  | readError =>
    cases moves_of_step hs with
    | readError h0 hserved =>
      exact h.more _ rfl rfl (starts_serve h0 List.prefix_rfl
        (by simp [Started.fail, Started.stopServe])).pending (by simp [Task.cause?]) (by simp)
  | connLost =>
    obtain rfl := Option.some.inj hs
    exact ⟨h.tasks, h.lookups, h.out, h.streams⟩

end Session

namespace Net

variable {n : Net} {ρ : Role} {id : UInt32}

/-- The step finds room on the streams with the id. -/
def roomy (id : UInt32) (n : Net) (l : Role × Label) : Prop := (n.side l.1).roomy id l.2 = true

instance (id : UInt32) (n : Net) (l : Role × Label) : Decidable (roomy id n l) :=
  inferInstanceAs (Decidable (_ = true))

theorem fluent {cfg : Role → Config} (h : Reaches step (roomy id) (new cfg) n) (ρ : Role) :
    (n.side ρ).Fluent id := by
  refine h.invariant (I := fun n => ∀ ρ, (n.side ρ).Fluent id) ?_ ?_ ρ
  · intro ρ
    rw [side_new]
    exact Session.fluent_new _
  · rintro n n' ⟨σ, l⟩ hr hok hs ih ρ
    have hj := joined hr
    obtain ⟨s', hs', rfl, hrecv⟩ := step_cases hs
    rcases eq_or_eq_other ρ σ with rfl | rfl
    · rw [side_set_self]
      obtain ⟨_, hside⟩ := hj.reached ρ
      refine (ih ρ).step hside hs' hok fun f hl code message happ => ?_
      -- the frame is one that the other side wrote
      have hf := hrecv f hl
      rw [wire, List.head?_map, Option.map_eq_some_iff] at hf
      obtain ⟨e, he, rfl⟩ := hf
      have hout : e ∈ (n.side ρ.other).out := List.mem_of_mem_drop (List.mem_of_mem_head? he)
      exact (ih ρ.other).out e hout code message (hj.msg_of_app hout happ)
    · rw [side_set_other]
      exact ih σ.other

/-- **While every `Write` and every frame of data of a stream finds room, the stream is not reset
for want of it, on either side.** -/
theorem not_reset_for_room {cfg : Role → Config} (h : Reaches step (roomy id) (new cfg) n)
    {r : Ref} {st : Stream} {cause : Cause} (hst : (n.side ρ).heap[r]? = some st)
    (hid : st.id = id) (hc : st.resetErr = some cause) :
    cause.toError.code ≠ errorCodeAppOverflow ∧
      cause.toError.code ≠ errorCodeAppQuotaExceeded :=
  forRoom_eq_false.mp ((fluent h ρ).streams r st cause hst hid hc)

/-- The host bridges the stream. `Write` takes two chunks of the endpoint, the guest gets the first
and reads nothing, the second waits in the queue; then the endpoint fails, and `Bridge` resets the
stream. -/
theorem not_reset_for_room_bridged :
    ∃ n, Reaches step (roomy 1) (new fun _ => { role := .host }) n ∧
      n.host.bytesWritten 0 = [1, 2] ∧ n.guest.bytesRead 0 = [] ∧
      (∃ st', n.guest.heap[0]? = some st' ∧ st'.inQ = [[1]]) ∧
      ∃ st cause, n.host.heap[0]? = some st ∧ st.sendQ = [[2]] ∧ st.resetErr = some cause ∧
        cause.toError.code ≠ errorCodeAppOverflow ∧
        cause.toError.code ≠ errorCodeAppQuotaExceeded := by
  obtain ⟨n, hn, ht⟩ := exists_reaches_of_run step (roomy 1) (new fun _ => { role := .host })
    (fun n => n.host.bytesWritten 0 == [1, 2] && n.guest.bytesRead 0 == [] &&
      (n.guest.heap[0]?.any fun st => st.inQ == [[1]]) &&
      n.host.heap[0]?.any fun st => st.id == 1 && st.sendQ == [[2]] && st.resetErr.isSome)
    (List.flatten
      [openRun, [(.host, .call (.bridge 0 true)), (.host, .run 3 .go),
          (.host, .run 4 (.epRead [1] none)), (.host, .run 4 .go), (.host, .run 4 .go)],
        .replicate 3 (.host, .run 2 .go),
        [(.guest, .recv (Outgoing.app (.appData 1 [1])).frame)], .replicate 2 (.guest, .run 0 .go),
        [(.host, .run 4 (.epRead [2] none)), (.host, .run 4 .go), (.host, .run 4 .go),
          (.host, .run 4 (.epRead [] (some (.other (text "broken") false))))],
        .replicate 3 (.host, .run 4 .go)])
    (by decide)
  simp only [Option.any_eq_true, Bool.and_eq_true, beq_iff_eq, Option.isSome_iff_exists] at ht
  obtain ⟨⟨⟨hw, hr⟩, hin⟩, st, hst, ⟨hid, hq⟩, cause, hc⟩ := ht
  exact ⟨n, hn, hw, hr, hin, st, cause, hst, hq, hc, not_reset_for_room (ρ := .host) hn hst hid hc⟩

/-! ## A consumer that stalls -/

/-- The application leaves its streams to `Bridge`: it neither writes nor resets. -/
def bridged (_ : Net) : Role × Label → Prop
  | (_, .call (.write ..)) | (_, .call (.reset ..)) => False
  | _ => True

instance (n : Net) (l : Role × Label) : Decidable (n.bridged l) := by
  unfold bridged
  split <;> infer_instance

end Net

namespace Session

/-- The step is one of a goroutine. -/
def Runs (_ : Session) (l : Label) : Prop := ∃ i c, l = .run i c

section Stalled

variable {d : Bytes} {credit k buffered : ℕ} {pump loop : List Task} {s : Session}

theorem reaches_run {i : ℕ} {c : Choice} {t : Task} {rest : List Task} {next : Next}
    (ht : s.threads[i]? = some (t :: rest)) (h : s.exec t c = some next) :
    Reaches step Runs s (s.after i next rest) :=
  Reaches.refl.tail ⟨i, c, rfl⟩ (by simp [step, ht, h])

/-- `Bridge` and the write loop work on a stream with credit, in whose queue are `k` chunks `d`;
their next steps are `pump` and `loop`. -/
structure Feeding (d : Bytes) (credit k buffered : ℕ) (pump loop : List Task) (s : Session) :
    Prop where
  pump : s.threads[4]? = some pump
  loop : s.threads[2]? = some loop
  ep : s.eps[0]?.isSome = true
  up : s.connUp = true
  buffered : s.buffered = buffered
  stream : ∃ st, s.heap[0]? = some st ∧ st.reset = false ∧ st.localClosed = false ∧
    st.closeAfterFlush = false ∧ st.sndCredit = credit ∧ st.sendQ = List.replicate k d ∧
    st.sendBytes = k * d.length

variable {credit' k' buffered' : ℕ} {t : Task} {rest : List Task} {c : Choice} {next : Next}

/-- A step of `Bridge`. -/
theorem Feeding.run_pump (h : Feeding d credit k buffered (t :: rest) loop s)
    (hex : s.exec t c = some next)
    (hnext : Feeding d credit' k' buffered' (t :: rest) loop
      { next.sess with threads := s.threads }) :
    ∃ s', Reaches step Runs s s' ∧
      Feeding d credit' k' buffered' (next.push ++ rest) loop s' := by
  have hlt := (List.getElem?_eq_some_iff.mp h.pump).1
  have hlt' := (List.getElem?_eq_some_iff.mp h.loop).1
  exact ⟨_, reaches_run h.pump hex, advance_getElem?_self hlt,
    (advance_getElem?_ne hlt' (by simp)).trans h.loop, hnext.ep, hnext.up, hnext.buffered,
    hnext.stream⟩

/-- A step of the write loop. -/
theorem Feeding.run_loop (h : Feeding d credit k buffered pump (t :: rest) s)
    (hex : s.exec t c = some next)
    (hnext : Feeding d credit' k' buffered' pump (t :: rest)
      { next.sess with threads := s.threads }) :
    ∃ s', Reaches step Runs s s' ∧
      Feeding d credit' k' buffered' pump (next.push ++ rest) s' := by
  have hlt := (List.getElem?_eq_some_iff.mp h.pump).1
  have hlt' := (List.getElem?_eq_some_iff.mp h.loop).1
  exact ⟨_, reaches_run h.loop hex, (advance_getElem?_ne hlt (by simp)).trans h.pump,
    advance_getElem?_self hlt', hnext.ep, hnext.up, hnext.buffered, hnext.stream⟩

/-- `io.Copy` reads the endpoint. -/
theorem Feeding.readEp (h : Feeding d credit k buffered [.pump 0 0 .readEp] loop s)
    (hd : d.length = copyBuffer) : ∃ s', Reaches step Runs s s' ∧
      Feeding d credit k buffered [.sect 0 (.write d (.bridge 0 none))] loop s' := by
  obtain ⟨ep, hep⟩ := Option.isSome_iff_exists.mp h.ep
  have hne : d ≠ [] := by rintro rfl; simp [copyBuffer] at hd
  have hex : s.exec (.pump 0 0 .readEp) (.epRead d none) =
      some { sess := s, push := [.sect 0 (.write d (.bridge 0 none))] } := by
    simp [exec, Session.pump, hep, hne]
  exact h.run_pump hex h

/-- `Write` queues the chunk. -/
theorem Feeding.write
    (h : Feeding d credit k buffered [.sect 0 (.write d (.bridge 0 none))] loop s)
    (hd : d.length = copyBuffer) (hq : (k + 1) * d.length ≤ appMaxSendQueue)
    (hb : buffered + d.length ≤ appMaxBuffered) : ∃ s', Reaches step Runs s s' ∧
      Feeding d credit (k + 1) (buffered + d.length) [.pump 0 0 (.wrote none none)] loop s' := by
  obtain ⟨st, hst, hr, hl, hc, hcr, hsq, hsb⟩ := h.stream
  have hne : d ≠ [] := by rintro rfl; simp [copyBuffer] at hd
  have hsum : k * d.length + d.length = (k + 1) * d.length := by rw [Nat.add_mul, Nat.one_mul]
  have hw : st.write 0 s.buffered d (.bridge 0 none) =
      { st := st.enqueue d, push := [.pump 0 0 (.wrote none none)], log := [.wrote 0 d],
        reserve := d.length } := by
    simp [Stream.write, hne, hr, hl, hc, hsb, h.buffered, hsum, Nat.not_lt.mpr hq,
      Nat.not_lt.mpr hb, Caller.wrote]
  have hex : s.exec (.sect 0 (.write d (.bridge 0 none))) .go =
      some { sess := { s with heap := s.heap.set 0 (st.enqueue d),
                              buffered := s.buffered + d.length, log := s.log ++ [.wrote 0 d] },
             push := [.pump 0 0 (.wrote none none)] } := by
    simp [exec, enter, hst, Stream.enter, hw]
  refine h.run_pump hex ⟨h.pump, h.loop, h.ep, h.up, congrArg (· + d.length) h.buffered,
    st.enqueue d, ?_, hr, hl, hc, hcr, ?_, ?_⟩
  · simp [(List.getElem?_eq_some_iff.mp hst).1]
  · simp [Stream.enqueue, hsq, List.replicate_succ']
  · simp [Stream.enqueue, hsb, hsum]

/-- `io.Copy` goes on after a `Write` that took the chunk. -/
theorem Feeding.wrote (h : Feeding d credit k buffered [.pump 0 0 (.wrote none none)] loop s) :
    ∃ s', Reaches step Runs s s' ∧
      Feeding d credit k buffered [.pump 0 0 .readEp] loop s' := by
  obtain ⟨ep, hep⟩ := Option.isSome_iff_exists.mp h.ep
  have hex : s.exec (.pump 0 0 (.wrote none none)) .go =
      some { sess := s, push := [.pump 0 0 .readEp] } := by
    simp [exec, Session.pump, hep, copyIn]
  exact h.run_pump hex h

/-- A round of the copy loop. -/
theorem Feeding.round (h : Feeding d credit k buffered [.pump 0 0 .readEp] loop s)
    (hd : d.length = copyBuffer) (hq : (k + 1) * d.length ≤ appMaxSendQueue)
    (hb : buffered + d.length ≤ appMaxBuffered) : ∃ s', Reaches step Runs s s' ∧
      Feeding d credit (k + 1) (buffered + d.length) [.pump 0 0 .readEp] loop s' := by
  obtain ⟨s₁, hs₁, h₁⟩ := h.readEp hd
  obtain ⟨s₂, hs₂, h₂⟩ := h₁.write hd hq hb
  obtain ⟨s₃, hs₃, h₃⟩ := h₂.wrote
  exact ⟨s₃, (hs₁.trans hs₂).trans hs₃, h₃⟩

/-- The write loop takes the only chunk of the queue. -/
theorem Feeding.take
    (h : Feeding d (credit + d.length) 1 buffered pump [.sect 0 .writeLoop, .wgDone] s)
    (hd : d.length = copyBuffer) (hc : credit + d.length ≤ appMaxCredit) :
    ∃ s', Reaches step Runs s s' ∧ Feeding d credit 0 buffered pump
      [.releaseBuffer d.length, .emit 0 (.data d), .wgDone] s' := by
  obtain ⟨st, hst, hr, hl, hcf, hcr, hsq, hsb⟩ := h.stream
  have hpos : 0 < d.length := by rw [hd]; decide
  have hquant : st.quantum d = d.length := by
    have : d.length ≤ appMaxDataBytes := by rw [hd]; decide
    simp only [Stream.quantum, hcr]
    omega
  have hw : st.writeLoop 0 = { st := st.dequeue d [],
                               push := [.releaseBuffer d.length, .emit 0 (.data d)] } := by
    simp [Stream.writeLoop, hr, hsq, hcr, hpos, hquant]
  have hex : s.exec (.sect 0 .writeLoop) .go =
      some { sess := { s with heap := s.heap.set 0 (st.dequeue d []) },
             push := [.releaseBuffer d.length, .emit 0 (.data d)] } := by
    simp [exec, enter, hst, Stream.enter, hw]
  refine h.run_loop hex ⟨h.pump, h.loop, h.ep, h.up, h.buffered, st.dequeue d [], ?_, hr, hl, hcf,
    ?_, ?_, ?_⟩
  · simp [(List.getElem?_eq_some_iff.mp hst).1]
  · simp only [Stream.dequeue, hquant, hcr]
    rw [sub32_of_le (Nat.le_add_left _ _) (hc.trans_lt (by decide))]
    omega
  · simp [Stream.dequeue, hquant]
  · simp only [Stream.dequeue, hquant, hsb]
    rw [Nat.one_mul, sub64_of_le le_rfl (by rw [hd]; decide)]
    omega

/-- The write loop releases what it took. -/
theorem Feeding.release (h : Feeding d credit k d.length pump
      [.releaseBuffer d.length, .emit 0 (.data d), .wgDone] s) :
    ∃ s', Reaches step Runs s s' ∧ Feeding d credit k 0 pump [.emit 0 (.data d), .wgDone] s' := by
  have hex : s.exec (.releaseBuffer d.length) .go = some { sess := { s with buffered := 0 } } := by
    simp [exec, h.buffered, releaseBuffer]
  exact h.run_loop hex ⟨h.pump, h.loop, h.ep, h.up, rfl, h.stream⟩

/-- The write loop sends what it took. -/
theorem Feeding.emit (h : Feeding d credit k buffered pump [.emit 0 (.data d), .wgDone] s)
    (hd : d.length = copyBuffer) : ∃ s', Reaches step Runs s s' ∧
      Feeding d credit k buffered pump [.sect 0 .writeLoop, .wgDone] s' := by
  obtain ⟨st, hst, hs⟩ := h.stream
  have hok : (AppMessage.appData st.id d).marshalBinary.isOk = true := by
    have : ¬appMaxDataBytes < d.length := by rw [hd]; decide
    simp [AppMessage.marshalBinary, this, Except.isOk, Except.toBool]
  have hex : s.exec (.emit 0 (.data d)) .go =
      some { sess := { s with out := s.out ++ [⟨some 0, .app (.appData st.id d)⟩] },
             push := [.sect 0 .writeLoop] } := by
    simp [exec, hst, sendApp, Emission.message, hok, h.up, Emission.sent]
  exact h.run_loop hex ⟨h.pump, h.loop, h.ep, h.up, h.buffered, st, hst, hs⟩

/-- The copy loop feeds the write loop until the credit is used up. -/
theorem Feeding.spend {j : ℕ} (hd : d.length = copyBuffer) (hj : j * d.length ≤ appMaxCredit)
    (h : Feeding d (j * d.length) 0 0 [.pump 0 0 .readEp] [.sect 0 .writeLoop, .wgDone] s) :
    ∃ s', Reaches step Runs s s' ∧
      Feeding d 0 0 0 [.pump 0 0 .readEp] [.sect 0 .writeLoop, .wgDone] s' := by
  induction j generalizing s with
  | zero => exact ⟨s, .refl, by simpa using h⟩
  | succ j ih =>
    rw [Nat.add_mul, Nat.one_mul] at h hj
    obtain ⟨s₁, hs₁, h₁⟩ := h.round hd (by rw [hd]; decide) (by rw [hd]; decide)
    rw [zero_add, zero_add] at h₁
    obtain ⟨s₂, hs₂, h₂⟩ := h₁.take hd hj
    obtain ⟨s₃, hs₃, h₃⟩ := h₂.release
    obtain ⟨s₄, hs₄, h₄⟩ := h₃.emit hd
    obtain ⟨s₅, hs₅, h₅⟩ := ih (by omega) h₄
    exact ⟨s₅, (((hs₁.trans hs₂).trans hs₃).trans hs₄).trans hs₅, h₅⟩

/-- Without credit the copy loop fills the queue. -/
theorem Feeding.fill (hd : d.length = copyBuffer)
    (h : Feeding d credit 0 0 [.pump 0 0 .readEp] loop s) (hk : k * d.length ≤ appMaxSendQueue) :
    ∃ s', Reaches step Runs s s' ∧
      Feeding d credit k (k * d.length) [.pump 0 0 .readEp] loop s' := by
  induction k with
  | zero => exact ⟨s, .refl, by simpa using h⟩
  | succ k ih =>
    rw [Nat.add_mul, Nat.one_mul] at hk ⊢
    obtain ⟨s₁, hs₁, h₁⟩ := ih (by omega)
    obtain ⟨s₂, hs₂, h₂⟩ := h₁.round hd (by rw [Nat.add_mul, Nat.one_mul]; exact hk)
      (hk.trans (by decide))
    exact ⟨s₂, hs₁.trans hs₂, h₂⟩

/-- A `Write` that finds the queue full is about to reset the stream. -/
theorem Feeding.full
    (h : Feeding d credit k buffered (.sect 0 (.write d (.bridge 0 none)) :: rest) loop s)
    (hd : d.length = copyBuffer) (hk : appMaxSendQueue < k * d.length + d.length) :
    ∃ rest s', Reaches step Runs s s' ∧
      Feeding d credit k buffered (.emit 0 (.reset .sendOverflow) :: rest) loop s' := by
  obtain ⟨st, hst, hr, hl, hc, hcr, hsq, hsb⟩ := h.stream
  have hne : d ≠ [] := by rintro rfl; simp [copyBuffer] at hd
  have hw : st.write 0 s.buffered d (.bridge 0 none) =
      { st, push := [.emit 0 (.reset .sendOverflow),
              .pump 0 0 (.wrote (some (.reset (some .sendOverflow))) none)],
            log := [.writeFailed 0 (.reset (some .sendOverflow))] } := by
    simp [Stream.write, hne, hr, hl, hc, hsb, hk, Caller.wrote]
  have hex : s.exec (.sect 0 (.write d (.bridge 0 none))) .go =
      some { sess := { s with heap := s.heap.set 0 st,
                              log := s.log ++ [.writeFailed 0 (.reset (some .sendOverflow))] },
             push := [.emit 0 (.reset .sendOverflow),
               .pump 0 0 (.wrote (some (.reset (some .sendOverflow))) none)] } := by
    simp [exec, enter, hst, Stream.enter, hw]
  refine ⟨_, h.run_pump hex ⟨h.pump, h.loop, h.ep, h.up, h.buffered, st, ?_, hr, hl, hc, hcr, hsq,
    hsb⟩⟩
  simp [(List.getElem?_eq_some_iff.mp hst).1]

/-- The `APP_RESET` is written before the stream is reset. -/
theorem Feeding.emit_reset {cause : Cause}
    (h : Feeding d credit k buffered (.emit 0 (.reset cause) :: rest) loop s) :
    ∃ s', Reaches step Runs s s' ∧
      Feeding d credit k buffered (.sect 0 (.setReset cause) :: rest) loop s' := by
  obtain ⟨st, hst, hs⟩ := h.stream
  have hex : s.exec (.emit 0 (.reset cause)) .go =
      some { sess := { s with
               out := s.out ++ [⟨some 0, .app (Emission.message st (.reset cause))⟩] },
             push := [.sect 0 (.setReset cause)] } := by
    simp [exec, hst, sendApp, Emission.message, AppMessage.marshalBinary, Except.isOk,
      Except.toBool, h.up, Emission.sent]
  exact h.run_pump hex ⟨h.pump, h.loop, h.ep, h.up, h.buffered, st, hst, hs⟩

theorem Feeding.setReset {cause : Cause}
    (h : Feeding d credit k buffered (.sect 0 (.setReset cause) :: rest) loop s) :
    ∃ s', Reaches step Runs s s' ∧ ∃ st, s'.heap[0]? = some st ∧ st.resetErr = some cause ∧
      st.sndCredit = credit := by
  obtain ⟨st, hst, hr, -, -, hcr, -, -⟩ := h.stream
  have hex : s.exec (.sect 0 (.setReset cause)) .go =
      some { sess := { s with heap := s.heap.set 0 (st.setReset 0 cause).st },
             push := [.sect 0 .broadcast] } := by
    simp [exec, enter, hst, Stream.enter, Stream.setReset, hr]
  refine ⟨_, reaches_run h.pump hex, (st.setReset 0 cause).st, ?_, ?_, ?_⟩
  · simp [(List.getElem?_eq_some_iff.mp hst).1]
  · simp [Stream.setReset, hr]
  · simp [Stream.setReset, hr, hcr]

/-- **The copy loop goes on without credit, until the queue overflows and the stream is reset.** -/
theorem Feeding.overflow (hd : d.length = copyBuffer)
    (h : Feeding d (8 * d.length) 0 0 [.pump 0 0 .readEp] [.sect 0 .writeLoop, .wgDone] s) :
    ∃ s', Reaches step Runs s s' ∧ ∃ st, s'.heap[0]? = some st ∧
      st.resetErr = some .sendOverflow ∧ st.sndCredit = 0 := by
  obtain ⟨s₁, hs₁, h₁⟩ := h.spend hd (by rw [hd]; decide)
  obtain ⟨s₂, hs₂, h₂⟩ := h₁.fill hd (k := 32) (by rw [hd]; decide)
  obtain ⟨s₃, hs₃, h₃⟩ := h₂.readEp hd
  obtain ⟨rest, s₄, hs₄, h₄⟩ := h₃.full hd (by rw [hd]; decide)
  obtain ⟨s₅, hs₅, h₅⟩ := h₄.emit_reset
  obtain ⟨s₆, hs₆, h₆⟩ := h₅.setReset
  exact ⟨s₆, ((((hs₁.trans hs₂).trans hs₃).trans hs₄).trans hs₅).trans hs₆, h₆⟩

end Stalled

end Session

namespace Net

variable {n : Net}

/-- Steps of the host's goroutines are steps of the net. -/
theorem reaches_host {s : Session} (h : Reaches Session.step Session.Runs n.host s) :
    Reaches step bridged n { n with host := s } := by
  induction h with
  | refl => exact .refl
  | tail _ hl hs ih =>
    obtain ⟨i, c, rfl⟩ := hl
    exact ih.tail (l := (.host, .run i c)) trivial (by simp [step, side, set, hs])

/-- **The host bridges a stream to an endpoint that goes on yielding data, and the guest reads
nothing**: the stream runs out of credit, and then `Write` resets it with `OVERFLOW`. -/
theorem reset_of_stalled :
    ∃ n, Reaches step bridged (new fun _ => { role := .host }) n ∧ n.guest.bytesRead 0 = [] ∧
      ∃ st, n.host.heap[0]? = some st ∧ st.sndCredit = 0 ∧
        ∃ cause, st.resetErr = some cause ∧ cause.toError.code = errorCodeAppOverflow := by
  obtain ⟨n, hn, ht⟩ := exists_reaches_of_run step bridged (new fun _ => { role := .host })
    (fun n => n.host.threads[4]? == some [.pump 0 0 .readEp] &&
      n.host.threads[2]? == some [.sect 0 .writeLoop, .wgDone] && n.host.eps[0]?.isSome &&
      n.host.connUp && n.host.buffered == 0 && n.guest.bytesRead 0 == [] &&
      n.host.heap[0]?.any fun st => !st.reset && !st.localClosed && !st.closeAfterFlush &&
        st.sndCredit == appInitialWindow && st.sendQ == [] && st.sendBytes == 0)
    (openRun ++ [(.host, .call (.bridge 0 true)), (.host, .run 3 .go)]) (by decide)
  simp only [Bool.and_eq_true, beq_iff_eq, Option.any_eq_true, Bool.not_eq_true'] at ht
  obtain ⟨⟨⟨⟨⟨⟨hpump, hloop⟩, hep⟩, hup⟩, hbuf⟩, hread⟩, st, hst,
    ⟨⟨⟨⟨hr, hl⟩, hc⟩, hcr⟩, hq⟩, hb⟩ := ht
  obtain ⟨d, hd⟩ : ∃ d : Bytes, d.length = copyBuffer :=
    ⟨List.replicate copyBuffer 7, List.length_replicate⟩
  have hfeed : Session.Feeding d (8 * d.length) 0 0 [.pump 0 0 .readEp]
      [.sect 0 .writeLoop, .wgDone] n.host :=
    ⟨hpump, hloop, hep, hup, hbuf, st, hst, hr, hl, hc, by rw [hcr, hd]; rfl, hq,
      by rw [hb, Nat.zero_mul]⟩
  obtain ⟨s, hs, st', hst', he, hcr'⟩ := hfeed.overflow hd
  exact ⟨_, hn.trans (reaches_host hs), hread, st', hst', hcr', _, he, rfl⟩

end Net

end Mvcp.App
