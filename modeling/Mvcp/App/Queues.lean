import Mvcp.App.Handshake

/-!
# Queues and counters

The counters of a stream count what its queues hold, as long as the stream is not reset. The one
exception is a stream that `Open` gave up because its `APP_OPEN` could not be written: a peer
that answered before it was asked may have filled its queue. A stream leaves the table reset,
or drained for good, or given up.

## Main definitions

* `Stream.Counted`: the counters count the queues, and the window is shared out
* `View.Settled`: nothing more will be queued
* `View.Queues`: the queue invariant

## Main results

* `Session.queues`: the queue invariant holds of every stream in every state reached
-/

namespace Mvcp.App

open Library (Reaches Always)

namespace Stream

/-- The counters count the queues, and once the window is granted it is either open or taken by
buffered bytes. -/
structure Counted (st : Stream) : Prop where
  send : st.sendBytes = st.sendQ.flatten.length
  inb : st.inBytes = st.inQ.flatten.length
  window : st.accepting = false → st.rcvWindow + st.inBytes = appInitialWindow

variable {r : Ref} {st : Stream} {x : Section} {o : Outcome}

/-! ## Taking bytes out of the queues -/

theorem quantum_le_length (st : Stream) (c : Bytes) : st.quantum c ≤ c.length := by
  simp only [quantum]; omega

theorem quantum_le_credit (st : Stream) (c : Bytes) : st.quantum c ≤ st.sndCredit := by
  simp only [quantum]; omega

theorem quantum_le_data (st : Stream) (c : Bytes) : st.quantum c ≤ appMaxDataBytes := by
  simp only [quantum]; omega

theorem length_dequeue (st : Stream) (c : Bytes) (q : List Bytes) :
    (st.dequeue c q).sendQ.flatten.length + st.quantum c = (c :: q).flatten.length := by
  have := st.quantum_le_length c
  simp only [dequeue]
  split_ifs with h
  · simp only [List.flatten_cons, List.length_append]; omega
  · simp only [List.flatten_cons, List.length_append, List.length_drop]; omega

theorem length_consume (st : Stream) (n : ℕ) (c : Bytes) (q : List Bytes) :
    (st.consume n c q).inQ.flatten.length + min n c.length = (c :: q).flatten.length := by
  simp only [consume]
  split_ifs with h
  · have := List.drop_eq_nil_iff.mp h
    simp only [List.flatten_cons, List.length_append]; omega
  · simp only [List.flatten_cons, List.length_append, List.length_drop]; omega

theorem sendBytes_dequeue {c : Bytes} {q : List Bytes} (hc : st.Counted)
    (hle : st.sendBytes ≤ appMaxSendQueue) (hq : st.sendQ = c :: q) :
    (st.dequeue c q).sendBytes + st.quantum c = st.sendBytes := by
  have hlen := st.quantum_le_length c
  have hsend := hc.send
  rw [hq, List.flatten_cons, List.length_append] at hsend
  rw [appMaxSendQueue_eq] at hle
  simp only [dequeue]
  rw [sub64_of_le (by omega) (by omega)]
  omega

theorem inBytes_consume {n : ℕ} {c : Bytes} {q : List Bytes} (hc : st.Counted)
    (ha : st.accepting = false) (hq : st.inQ = c :: q) :
    (st.consume n c q).inBytes + min n c.length = st.inBytes := by
  have hin := hc.inb
  have hw := hc.window ha
  rw [hq, List.flatten_cons, List.length_append] at hin
  rw [appInitialWindow_eq] at hw
  simp only [consume]
  rw [sub64_of_le (by omega) (by omega)]
  omega

theorem rcvWindow_consume {n : ℕ} {c : Bytes} {q : List Bytes} (hc : st.Counted)
    (ha : st.accepting = false) (hq : st.inQ = c :: q) :
    (st.consume n c q).rcvWindow = st.rcvWindow + min n c.length := by
  have hin := hc.inb
  have hw := hc.window ha
  rw [hq, List.flatten_cons, List.length_append] at hin
  rw [appInitialWindow_eq] at hw
  simp only [consume]
  rw [add32_of_lt (by omega)]

theorem sndCredit_dequeue {c : Bytes} {q : List Bytes} (hle : st.sndCredit ≤ appMaxCredit) :
    (st.dequeue c q).sndCredit + st.quantum c = st.sndCredit := by
  have hlen := st.quantum_le_credit c
  rw [appMaxCredit_eq] at hle
  simp only [dequeue]
  rw [sub32_of_le hlen (by omega)]
  omega

theorem rcvWindow_accept {data : Bytes} (hc : st.Counted) (ha : st.accepting = false)
    (hw : data.length ≤ st.rcvWindow) :
    (st.accept data).rcvWindow + data.length = st.rcvWindow := by
  have := hc.window ha
  rw [appInitialWindow_eq] at this
  simp only [accept]
  rw [sub32_of_le hw (by omega)]
  omega

/-! ## What the critical sections keep -/

theorem Fires.reset (h : Fires r st x o) (hr : st.reset = true) : o.st.reset = true := by
  cases h <;> first | exact hr | rfl

theorem Fires.counted (h : Fires r st x o) (hx : x ≠ .detachBytes) (hc : st.Counted)
    (hle : st.sendBytes ≤ appMaxSendQueue)
    (hopen : st.accepting = true ∨ x.phase = .acceptor → st.inQ = []) : o.st.Counted := by
  cases h with
  | write_queued hp hr hl hcl hq =>
    refine ⟨?_, hc.inb, hc.window⟩
    simp [enqueue, hc.send]
  | @read_data n k c q hn hr hq =>
    -- there is something to read, so the stream was accepted
    have ha : st.accepting = false := by
      by_contra ha
      simp [hopen (.inl (by simpa using ha))] at hq
    have hin := hc.inb
    have hw := hc.window ha
    have h₁ := inBytes_consume (n := n) hc ha hq
    have h₂ := rcvWindow_consume (n := n) hc ha hq
    have h₃ := st.length_consume n c q
    rw [← hq] at h₃
    exact ⟨hc.send, by dsimp only; omega, fun _ => by dsimp only; omega⟩
  | @loop_data c q hr hq hcr =>
    have hsend := hc.send
    have h₁ := sendBytes_dequeue hc hle hq
    have h₂ := st.length_dequeue c q
    rw [← hq] at h₂
    exact ⟨by dsimp only; omega, hc.inb, hc.window⟩
  | @deliver_accepted data hd hlen ha ho hcl hr hw =>
    have hwin := hc.window ha
    have h₁ := rcvWindow_accept hc ha hw
    refine ⟨hc.send, ?_, fun _ => ?_⟩
    · simp [Stream.accept, hc.inb]
    · change (st.accept data).rcvWindow + (st.inBytes + data.length) = _
      omega
  | acceptWindow =>
    -- the receive window is counted from here on, and nothing was received before
    have hin := hc.inb
    rw [hopen (.inr rfl), List.flatten_nil, List.length_nil] at hin
    exact ⟨hc.send, hc.inb, fun _ => by simp [hin]⟩
  | detachBytes => exact absurd rfl hx
  | _ => exact ⟨hc.send, hc.inb, hc.window⟩

theorem Fires.chunks (h : Fires r st x o) (hs : ∀ c ∈ st.sendQ, c ≠ [])
    (hi : ∀ c ∈ st.inQ, c ≠ []) : (∀ c ∈ o.st.sendQ, c ≠ []) ∧ ∀ c ∈ o.st.inQ, c ≠ [] := by
  cases h with
  | write_queued hp hr hl hcl hq =>
    refine ⟨fun c hc => ?_, hi⟩
    rcases List.mem_append.mp hc with hc | hc
    · exact hs c hc
    · exact List.mem_singleton.mp hc ▸ hp
  | @read_data n k c q hn hr hq =>
    rw [hq] at hi
    refine ⟨hs, fun c' hc' => ?_⟩
    simp only [consume] at hc'
    split_ifs at hc' with hd
    · exact hi c' (List.mem_cons_of_mem _ hc')
    · rcases List.mem_cons.mp hc' with rfl | hc'
      · exact hd
      · exact hi c' (List.mem_cons_of_mem _ hc')
  | @loop_data c q hr hq hcr =>
    rw [hq] at hs
    refine ⟨fun c' hc' => ?_, hi⟩
    have hlen := st.quantum_le_length c
    simp only [dequeue] at hc'
    split_ifs at hc' with hd
    · exact hs c' (List.mem_cons_of_mem _ hc')
    · rcases List.mem_cons.mp hc' with rfl | hc'
      · rw [Ne, List.drop_eq_nil_iff]; omega
      · exact hs c' (List.mem_cons_of_mem _ hc')
  | deliver_accepted hd hlen ha ho hcl hr hw =>
    refine ⟨hs, fun c hc => ?_⟩
    rcases List.mem_append.mp hc with hc | hc
    · exact hi c hc
    · exact List.mem_singleton.mp hc ▸ hd
  | _ => exact ⟨hs, hi⟩

theorem Fires.sendBytes_le (h : Fires r st x o) (hle : st.sendBytes ≤ appMaxSendQueue)
    (hc : st.reset = false → x.phase = .live → st.Counted) : o.st.sendBytes ≤ appMaxSendQueue := by
  cases h with
  | write_queued hp hr hl hcl hq => exact hq
  | loop_data hr hq hcr =>
    have := sendBytes_dequeue (hc hr rfl) hle hq
    dsimp only
    omega
  | detachBytes => exact Nat.zero_le _
  | _ => exact hle

theorem Fires.sndCredit_le (h : Fires r st x o) (hle : st.sndCredit ≤ appMaxCredit) :
    o.st.sndCredit ≤ appMaxCredit := by
  cases h with
  | @loop_data c q hr hq hcr =>
    have := sndCredit_dequeue (c := c) (q := q) hle
    dsimp only
    omega
  | credit_added hr hn => exact hn
  | accepted hm hg hg' ho => exact hg'
  | acceptWindow => simp [appInitialWindow_eq, appMaxCredit_eq]
  | _ => exact hle

end Stream

/-! ## The queue invariant -/

/-- The steps that take a stream out of the table. -/
def Task.detaches : Task → Bool
  | .detach _ | .sect _ .detachBytes | .sect _ .finish => true
  | _ => false

namespace Stream.Fires

variable {r : Ref} {st : Stream} {x : Section} {o : Outcome}

theorem closed (h : Fires r st x o) (hc : st.localClosed = true → st.closeAfterFlush = true) :
    o.st.localClosed = true → o.st.closeAfterFlush = true := by
  cases h with
  | closeWrite_now hr hl hcl hq => exact fun _ => rfl
  | closeWrite_later hr hl hcl hq => exact fun _ => rfl
  | loop_close hr hq hcl => exact fun _ => hcl
  | _ => exact hc

/-- A stream drained after both directions were closed stays so. -/
theorem drained (h : Fires r st x o) (hq : st.sendQ = [] ∧ st.inQ = [])
    (hc : st.closeAfterFlush = true ∧ st.remoteClosed = true) :
    (o.st.sendQ = [] ∧ o.st.inQ = []) ∧ o.st.closeAfterFlush = true ∧ o.st.remoteClosed = true := by
  cases h with
  | write_queued hp hr hl hcl hq' => simp [hc.1] at hcl
  | read_data hn hr hq' => simp [hq.2] at hq'
  | loop_data hr hq' hcr => simp [hq.1] at hq'
  | deliver_accepted hd hlen ha ho hcl hr hw => simp [hc.2] at hcl
  | closeWrite_now hr hl hcl hq' => exact ⟨hq, rfl, hc.2⟩
  | closeWrite_later hr hl hcl hq' => exact ⟨hq, rfl, hc.2⟩
  | remote_closed hr hcl => exact ⟨hq, hc.1, rfl⟩
  | _ => exact ⟨hq, hc⟩

/-- Why a critical section takes a stream out of the table. -/
theorem push_detaches (h : Fires r st x o) :
    (x = .finish ∨ x = .broadcast ∨ st.done = true ∧ o.st = st ∨
      o.st.openErr ≠ none ∧ st.opening = true ∧ o.st.sendQ = st.sendQ ∧ o.st.inQ = st.inQ) ∨
    ∀ t ∈ o.push, t.detaches = false := by
  cases h with
  | finish_now h hlog => exact .inl (.inl rfl)
  | broadcast => exact .inl (.inr (.inl rfl))
  | maybeFinish_done h => exact .inl (.inr (.inr (.inl ⟨h, rfl⟩)))
  | rejected ho => exact .inl (.inr (.inr (.inr ⟨Option.some_ne_none _, ho, rfl, rfl⟩)))
  | detachBytes => exact .inr (by split_ifs <;> simp [Task.detaches])
  | closeEndpoint => exact .inr (by simp +contextual [Task.detaches])
  | _ => exact .inr (by simp [Stream.park, Task.detaches, or_imp, forall_and])

theorem push_broadcast (h : Fires r st x o) :
    o.st.reset = true ∨ ∀ t ∈ o.push, ∀ r', t ≠ .sect r' .broadcast := by
  cases h with
  | reset_again hr => exact .inl hr
  | reset_set hr => exact .inl rfl
  | detachBytes => exact .inr (by split_ifs <;> simp)
  | closeEndpoint => exact .inr (by simp +contextual)
  | _ => exact .inr (by simp [Stream.park, or_imp, forall_and])

end Stream.Fires

namespace View

/-- **Nothing more is queued**: the stream is reset, given up, or drained with both directions
closed or the handshake failed. -/
def Settled (v : View) : Prop :=
  v.st.reset = true ∨ v.LostOpen ∨ (v.st.sendQ = [] ∧ v.st.inQ = []) ∧
    (v.st.closeAfterFlush = true ∧ v.st.remoteClosed = true ∨ v.st.openErr ≠ none ∨
      v.st.accepting = true ∧ ∀ t ∈ v.tasks, t.phase ≠ .acceptor)

/-- **The queue invariant.** -/
structure Queues (v : View) : Prop where
  flushed : v.st.localClosed = true → v.st.closeAfterFlush = true
  broadcast : ∀ t ∈ v.tasks, ∀ r, t = .sect r .broadcast → v.st.reset = true
  settled : ∀ t ∈ v.tasks, t.detaches = true → v.Settled
  counted : v.st.reset = false → ¬v.LostOpen → v.st.Counted
  chunks : (∀ c ∈ v.st.sendQ, c ≠ []) ∧ ∀ c ∈ v.st.inQ, c ≠ []
  sendBytes_le : v.st.sendBytes ≤ appMaxSendQueue
  sndCredit_le : v.st.sndCredit ≤ appMaxCredit

variable {r : Ref} {v v' : View}

theorem Initial.queues (h : Initial r v) : v.Queues := by
  cases h with
  | inbound =>
    refine ⟨by simp, by simp, by simp [Task.detaches], fun _ _ => ⟨rfl, rfl, by simp⟩, by simp,
      Nat.zero_le _, Nat.zero_le _⟩
  | outbound =>
    exact ⟨by simp, by simp, by simp [Task.detaches], fun _ _ => ⟨rfl, rfl, fun _ => rfl⟩, by simp,
      Nat.zero_le _, Nat.zero_le _⟩

theorem Settled.sect {x : Section} {o : Outcome} {rest : Multiset Task} (h : v.Settled)
    (hh : v.Handshake) (ht : v.tasks = .sect r x ::ₘ rest) (hf : Stream.Fires r v.st x o) :
    Settled { v with st := o.st, tasks := own r o.push + rest, log := v.log ++ o.log } := by
  have hx : .sect r x ∈ v.tasks := by simp [ht]
  rcases h with hr | hl | ⟨hq, hc | he | ⟨ha, hn⟩⟩
  · exact .inl (hf.reset hr)
  · exact .inr (.inl hl)
  · obtain ⟨hq', hc'⟩ := hf.drained hq hc
    exact .inr (.inr ⟨hq', .inl hc'⟩)
  · have hx' : x.phase ≠ .live := fun hp => he (hh.live (.inr ⟨_, hx, hp⟩)).2.2.1
    have ho : v.st.opening ≠ true := fun ho => he (hh.opening ho).2.1
    refine .inr (.inr ⟨⟨(hf.sendQ hx').trans hq.1, ?_⟩, .inr (.inl ?_)⟩)
    · rcases hf.inQ hx' with hi | ⟨hs, -⟩
      · exact hi.trans hq.2
      · simp [hh.rejected he _ hx] at hs
    · rcases hf.openErr with h | ⟨-, h, -⟩
      · exact h ▸ he
      · exact absurd h ho
  · have hx' : x.phase ≠ .live := fun hp => by
      simp [(hh.live (.inr ⟨_, hx, hp⟩)).2.1] at ha
    refine .inr (.inr ⟨⟨(hf.sendQ hx').trans hq.1, ?_⟩, .inr (.inr ⟨?_, fun t hm => ?_⟩)⟩)
    · rcases hf.inQ hx' with hi | ⟨-, -, ha'⟩
      · exact hi.trans hq.2
      · simp [ha'] at ha
    · rcases hf.accepting with ⟨h, -⟩ | ⟨-, h⟩
      · exact h.trans ha
      · exact absurd h (hn _ hx)
    · rcases Multiset.mem_add.mp hm with hm | hm
      · rcases hf.push_phase t (mem_own hm) with ⟨h, -⟩ | h <;> simp [h]
      · exact hn t (by simp [ht, hm])

/-- The stream stays as it is and no handler starts. -/
theorem Settled.same (h : v.Settled) (hst : v'.st = v.st) (hl : v.LostOpen → v'.LostOpen)
    (hp : ∀ t ∈ v'.tasks, t.phase = .acceptor → ∃ t' ∈ v.tasks, t'.phase = .acceptor) :
    v'.Settled := by
  unfold Settled
  rw [hst]
  refine h.imp id (Or.imp hl (And.imp id (Or.imp id (Or.imp id (And.imp id fun hn t hm ht => ?_)))))
  obtain ⟨t', hm', ht'⟩ := hp t hm ht
  exact hn t' hm' ht'

theorem Queues.sect {x : Section} {o : Outcome} {rest : Multiset Task} (h : v.Queues)
    (hh : v.Handshake) (ht : v.tasks = .sect r x ::ₘ rest) (hf : Stream.Fires r v.st x o) :
    Queues { v with st := o.st, tasks := own r o.push + rest, log := v.log ++ o.log } := by
  have hx : .sect r x ∈ v.tasks := by simp [ht]
  have hrest {t : Task} (hm : t ∈ rest) : t ∈ v.tasks := by simp [ht, hm]
  have hempty (ha : v.st.accepting = true ∨ x.phase = .acceptor) : v.st.inQ = [] := by
    refine (hh.empty (.inr (.inl ?_))).2
    exact ha.elim id fun ha => hh.acceptor _ hx ha
  refine ⟨hf.closed h.flushed, fun t hm r' he => ?_, fun t hm hd => ?_, fun hr hl => ?_,
    hf.chunks h.chunks.1 h.chunks.2, ?_, hf.sndCredit_le h.sndCredit_le⟩
  · rcases Multiset.mem_add.mp hm with hm | hm
    · rcases hf.push_broadcast with hr | hn
      · exact hr
      · exact absurd he (hn t (mem_own hm) r')
    · exact hf.reset (h.broadcast t (hrest hm) r' he)
  · rcases Multiset.mem_add.mp hm with hm | hm
    · rcases hf.push_detaches with (rfl | rfl | ⟨hdone, hst⟩ | ⟨he, ho, hs, hi⟩) | hn
      · exact (h.settled _ hx rfl).sect hh ht hf
      · exact .inl (hf.reset (h.broadcast _ hx r rfl))
      · simp only [Stream.done, Bool.and_eq_true, decide_eq_true_eq] at hdone
        simp only [Settled, hst]
        exact .inr (.inr ⟨⟨hdone.1.2, hdone.2⟩, .inl ⟨h.flushed hdone.1.1.1, hdone.1.1.2⟩⟩)
      · obtain ⟨hq₁, hq₂⟩ := hh.empty (.inl ho)
        exact .inr (.inr ⟨⟨hs.trans hq₁, hi.trans hq₂⟩, .inr (.inl he)⟩)
      · simp [hn t (mem_own hm)] at hd
    · exact (h.settled t (hrest hm) hd).sect hh ht hf
  · have hr' : v.st.reset = false := by
      by_contra hc
      exact absurd (hr.symm.trans (hf.reset (by simpa using hc))) (by simp)
    have hc := h.counted hr' hl
    by_cases hxd : x = .detachBytes
    · subst hxd
      -- the counters are cleared only when there is nothing left to count
      obtain ⟨hq₁, hq₂⟩ : v.st.sendQ = [] ∧ v.st.inQ = [] := by
        rcases h.settled _ hx rfl with h | h | h
        · simp [hr'] at h
        · exact absurd h hl
        · exact h.1
      have hin := hc.inb
      rw [hq₂, List.flatten_nil, List.length_nil] at hin
      cases hf with
      | detachBytes =>
        exact ⟨by simp [hq₁], by simp [hq₂], fun ha => by simpa [hin] using hc.window ha⟩
      | ignored hi => cases hi
      | refused hi => cases hi
    · exact hf.counted hxd hc h.sendBytes_le hempty
  · exact hf.sendBytes_le h.sendBytes_le fun hr hp =>
      h.counted hr (hh.live (.inr ⟨_, hx, hp⟩)).2.2.2

/-- The stream stays as it is. -/
theorem Queues.same (h : v.Queues) (hst : v'.st = v.st) (hl : v.LostOpen → v'.LostOpen)
    (hb : ∀ t ∈ v'.tasks, ∀ r, t = .sect r .broadcast → t ∈ v.tasks)
    (hs : ∀ t ∈ v'.tasks, t.detaches = true → v'.Settled) : v'.Queues where
  flushed := hst ▸ h.flushed
  broadcast t hm r he := by rw [hst]; exact h.broadcast t (hb t hm r he) r he
  settled := hs
  counted hr hn := by rw [hst] at hr ⊢; exact h.counted hr fun hl' => hn (hl hl')
  chunks := hst ▸ h.chunks
  sendBytes_le := hst ▸ h.sendBytes_le
  sndCredit_le := hst ▸ h.sndCredit_le

theorem Step.lostOpen {a : Option Section} (hs : Step r v a v') (h : v.LostOpen) :
    v'.LostOpen := by
  obtain ⟨m, hm, ho⟩ := h
  cases hs with
  | lost ht hn => exact ⟨m, List.mem_append_left _ hm, ho⟩
  | _ => exact ⟨m, hm, ho⟩

/-- No step calls the handler a second time. -/
theorem Step.acceptor {a : Option Section} (hs : Step r v a v') :
    ∀ t ∈ v'.tasks, t.phase = .acceptor → ∃ t' ∈ v.tasks, t'.phase = .acceptor := by
  intro t hm hp
  cases hs with
  | sect ht hf =>
    rcases Multiset.mem_add.mp hm with hm | hm
    · rcases hf.push_phase t (mem_own hm) with ⟨h, -⟩ | h <;> simp [hp] at h
    · exact ⟨t, by simp [ht, hm], hp⟩
  | @sent x rest ht hok hup =>
    rcases Multiset.mem_add.mp hm with hm | hm
    · rcases x.sent_phase t (mem_own hm) with h | h
      · simp [hp] at h
      · exact ⟨.emit r x, by simp [ht], h.symm.trans hp⟩
    · exact ⟨t, by simp [ht, hm], hp⟩
  | @lost x rest ht hn =>
    rcases Multiset.mem_add.mp hm with hm | hm
    · simp [x.failed_phase t (mem_own hm)] at hp
    · exact ⟨t, by simp [ht, hm], hp⟩
  | @lead t₀ ts rest ht hl =>
    rcases Multiset.mem_add.mp hm with hm | hm
    · rcases (hl.phase t hm).1 with h | h
      · simp [hp] at h
      · exact ⟨t₀, by simp [ht], h.symm.trans hp⟩
    · exact ⟨t, by simp [ht, hm], hp⟩
  | detach ht =>
    rcases Multiset.mem_cons.mp hm with rfl | hm
    · simp [Task.phase, Section.phase] at hp
    · exact ⟨t, by simp [ht, hm], hp⟩
  | arrive _ _ _ _ =>
    rcases Multiset.mem_add.mp hm with hm | hm
    · simp [Session.dispatch_phase _ t (mem_own hm)] at hp
    · exact ⟨t, hm, hp⟩
  | fail _ ht =>
    rcases Multiset.mem_cons.mp hm with rfl | hm
    · simp [Task.phase, Section.phase] at hp
    · rcases ht with ht | ht <;> exact ⟨t, by simp [ht, hm], hp⟩
  | call _ hc =>
    rcases Multiset.mem_cons.mp hm with rfl | hm
    · cases hc <;> simp [Task.phase, Section.phase, Emission.phase] at hp
    · exact ⟨t, hm, hp⟩
  | down => exact ⟨t, hm, hp⟩

/-- **Once nothing more is queued, nothing ever is.** -/
theorem Step.settled {a : Option Section} (hs : Step r v a v') (hh : v.Handshake)
    (h : v.Settled) : v'.Settled := by
  have hl := hs.lostOpen
  have ha := hs.acceptor
  cases hs with
  | sect ht hf => exact h.sect hh ht hf
  | _ => exact h.same rfl hl ha

theorem Emission.sent_detaches (x : Emission) :
    ∀ t ∈ x.sent r, t.detaches = false ∧ ∀ r', t ≠ .sect r' .broadcast := by
  cases x <;> simp [Emission.sent, Task.detaches]

theorem Emission.failed_detaches (x : Emission) :
    ∀ t ∈ x.failed r, (t.detaches = true → x.phase = .opener) ∧ ∀ r', t ≠ .sect r' .broadcast := by
  cases x <;> simp [Emission.failed, Task.detaches, Emission.phase]

theorem Leads.detaches {st : Stream} {t : Task} {ts : Multiset Task} (h : Leads r st t ts) :
    ∀ t' ∈ ts, (t'.detaches = true → t.phase = .acceptor ∧ ∀ t'' ∈ ts, t''.phase ≠ .acceptor) ∧
      ∀ r', t' ≠ .sect r' .broadcast := by
  cases h with
  | pump h =>
    intro t' ht'
    rw [← own_append] at ht'
    have := h.tasks t' (mem_own ht')
    cases this <;> simp [Task.detaches]
  | _ => simp [Task.detaches, Task.phase, Emission.phase]

theorem Queues.lost {x : Emission} {rest : Multiset Task} (h : v.Queues) (hh : v.Handshake)
    (ht : v.tasks = .emit r x ::ₘ rest)
    (hn : ¬((x.message v.st).marshalBinary.isOk = true ∧ v.up = true)) :
    Queues { v with tasks := own r (x.failed r) + rest,
                    lost := v.lost ++ [x.message v.st] } := by
  have hstep : Step r v none _ := .lost ht hn
  refine h.same rfl hstep.lostOpen (fun t hm r' he => ?_) fun t hm hd => ?_
  · rcases Multiset.mem_add.mp hm with hm | hm
    · exact absurd he ((Emission.failed_detaches x t (mem_own hm)).2 r')
    · simp [ht, hm]
  · rcases Multiset.mem_add.mp hm with hm | hm
    · have hx := (Emission.failed_detaches x t (mem_own hm)).1 hd
      refine .inr (.inl ⟨x.message v.st, by simp, ?_⟩)
      cases x <;> simp [Emission.phase] at hx
      rfl
    · exact hstep.settled hh (h.settled t (by simp [ht, hm]) hd)

theorem Queues.lead {t : Task} {ts rest : Multiset Task} (h : v.Queues) (hh : v.Handshake)
    (ht : v.tasks = t ::ₘ rest) (hl : Leads r v.st t ts) :
    Queues { v with tasks := ts + rest } := by
  have hstep : Step r v none _ := .lead ht hl
  refine h.same rfl hstep.lostOpen (fun t' hm r' he => ?_) fun t' hm hd => ?_
  · rcases Multiset.mem_add.mp hm with hm | hm
    · exact absurd he ((hl.detaches t' hm).2 r')
    · simp [ht, hm]
  · rcases Multiset.mem_add.mp hm with hm | hm
    · -- the handler refused: the stream stays unaccepted for ever
      obtain ⟨hp, hno⟩ := (hl.detaches t' hm).1 hd
      have ha := hh.acceptor t (by simp [ht]) hp
      refine .inr (.inr ⟨hh.empty (.inr (.inl ha)), .inr (.inr ⟨ha, fun t₁ hm₁ hp₁ => ?_⟩)⟩)
      rcases Multiset.mem_add.mp hm₁ with hm₁ | hm₁
      · exact hno t₁ hm₁ hp₁
      · exact not_of_countP_le ht (Task.chain_of_phase (.inr hp)) hh.chain t₁ hm₁
          (Task.chain_of_phase (.inr hp₁))
    · exact hstep.settled hh (h.settled t' (by simp [ht, hm]) hd)

/-- **Every step of a view keeps the queue invariant.** -/
theorem Step.queues {a : Option Section} (hs : Step r v a v') (hh : v.Handshake)
    (h : v.Queues) : v'.Queues := by
  have hset := hs.settled hh
  have hlost := hs.lostOpen
  -- the steps that add tasks of no interest here
  have hadd {n rest : Multiset Task} (hst : v'.st = v.st) (ht : v'.tasks = n + rest)
      (hle : rest ≤ v.tasks)
      (hnew : ∀ t ∈ n, t.detaches = false ∧ ∀ r', t ≠ .sect r' .broadcast) : v'.Queues := by
    refine h.same hst hlost (fun t hm r' he => ?_) fun t hm hd => ?_
    · rcases Multiset.mem_add.mp (ht ▸ hm) with hm | hm
      · exact absurd he ((hnew t hm).2 r')
      · exact Multiset.mem_of_le hle hm
    · rcases Multiset.mem_add.mp (ht ▸ hm) with hm | hm
      · simp [(hnew t hm).1] at hd
      · exact hset (h.settled t (Multiset.mem_of_le hle hm) hd)
  cases hs with
  | sect ht hf => exact h.sect hh ht hf
  | sent ht hm hup =>
    exact hadd rfl rfl (ht ▸ Multiset.le_cons_self _ _)
      fun t hm => Emission.sent_detaches _ t (mem_own hm)
  | lost ht hn => exact h.lost hh ht hn
  | lead ht hl => exact h.lead hh ht hl
  | detach ht =>
    refine h.same rfl id (fun t hm r' he => ?_) fun t hm hd => ?_
    · rcases Multiset.mem_cons.mp hm with rfl | hm
      · simp at he
      · simp [ht, hm]
    · exact hset (h.settled (.detach r) (by simp [ht]) rfl)
  | @arrive m hid hl he hs =>
    refine hadd rfl rfl le_rfl fun t hm => ?_
    have := mem_own hm
    cases m <;> simp [Session.dispatch] at this <;> simp [this, Task.detaches]
  | fail hl ht =>
    refine hadd (n := {_}) rfl (Multiset.singleton_add _ _).symm ?_ (by simp [Task.detaches])
    rcases ht with ht | ht
    · exact ht ▸ le_rfl
    · exact ht ▸ Multiset.le_cons_self _ _
  | call hs hc =>
    refine hadd (n := {_}) rfl (Multiset.singleton_add _ _).symm le_rfl ?_
    cases hc <;> simp [Task.detaches]
  | down => exact h.same rfl id (fun t hm _ _ => hm) fun t hm hd => hset (h.settled t hm hd)

end View

/-- **The queue invariant holds of every stream in every state reached.** -/
theorem Session.queues {cfg : Config} {ok : Session → Label → Prop} {s : Session} {r : Ref}
    {st : Stream} (h : Reaches Session.step ok (Session.new cfg) s) (hst : s.heap[r]? = some st) :
    (s.view r st).Queues :=
  (Session.view_inductive (I := fun _ v => v.Handshake ∧ v.Queues)
    (fun _ _ hi => ⟨hi.handshake, hi.queues⟩)
    (fun _ _ _ _ hs hv => ⟨hs.handshake hv.1, hs.queues hv.1 hv.2⟩) h hst).2

end Mvcp.App
