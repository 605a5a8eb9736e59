import Mathlib.Algebra.BigOperators.Group.List.Basic
import Mvcp.App.Queues

/-!
# The buffer ledger

The session counts the bytes that its streams buffer. The count is exact until the session is
closed: it is what the streams hold, and what goroutines have taken out of a stream and not yet
released. It never exceeds `AppMaxBuffered`, whatever frames the peer sends.

## Main definitions

* `Session.load`: the bytes that streams hold and that are about to be released
* `Session.Ledger`: the ledger invariant
* `Stream.subtractions`: the unsigned subtractions of a critical section

## Main results

* `Session.ledger`: the ledger invariant holds in every state reached
* `Stream.Fires.subtracts`: a counter goes down by a subtraction that is listed
* `Session.bounded_memory`: bounded memory against any peer
-/

namespace Mvcp.App

open Library (Reaches Always pending pending_advance pending_append pending_set sum_map_set
  exists_reaches_of_run run)

/-- The bytes that a step releases. -/
def Task.release : Task → ℕ
  | .releaseBuffer n => n
  | _ => 0

/-- The bytes a stream has reserved. -/
def Stream.reserved (st : Stream) : ℕ := st.sendBytes + st.inBytes

namespace Stream.Fires

variable {r : Ref} {st : Stream} {x : Section} {o : Outcome}

theorem sum_release_eq_zero {ts : List Task} (h : ∀ t ∈ ts, t.release = 0) :
    (ts.map Task.release).sum = 0 :=
  List.sum_eq_zero (by simpa using h)

/-- **A critical section keeps the books**: what it reserves, it adds to the stream; what it
takes out of the stream, it releases next. -/
theorem ledger (h : Fires r st x o) (hle : st.sendBytes ≤ appMaxSendQueue)
    (hc : st.reset = false → x.phase = .live → st.Counted ∧ st.accepting = false) :
    o.st.reserved + (o.push.map Task.release).sum = st.reserved + o.reserve := by
  have hwrote (k : Caller) (err : Option StreamError) :
      ((k.wrote r err).map Task.release).sum = 0 := sum_release_eq_zero (by simp [Task.release])
  have hread (k : Caller) (p : Bytes) : ((k.read r p).map Task.release).sum = 0 :=
    sum_release_eq_zero (by simp [Task.release])
  have hfailed (k : Caller) (err : StreamError) :
      ((k.readFailed r err).map Task.release).sum = 0 :=
    sum_release_eq_zero (by simp [Task.release])
  cases h with
  | write_queued hp hr hl hcl hq =>
    simp only [hwrote, enqueue, reserved]
    omega
  | @read_data n k c q hn hr hq =>
    obtain ⟨hct, ha⟩ := hc hr rfl
    have := inBytes_consume (n := n) hct ha hq
    simp only [List.cons_append, List.nil_append, List.map_cons, List.sum_cons, hread,
      Task.release, reserved]
    change st.sendBytes + (st.consume n c q).inBytes + _ = _
    omega
  | @loop_data c q hr hq hcr =>
    have := sendBytes_dequeue (hc hr rfl).1 hle hq
    simp only [List.map_cons, List.map_nil, List.sum_cons, List.sum_nil, Task.release, reserved]
    change (st.dequeue c q).sendBytes + st.inBytes + _ = _
    omega
  | deliver_accepted hd hlen ha ho hcl hr hw =>
    simp only [Stream.accept, reserved, List.map_nil, List.sum_nil]
    omega
  | detachBytes =>
    simp only [reserved]
    split_ifs with h0
    · simp [Task.release]
    · simp at h0 ⊢
      omega
  | closeEndpoint => cases hep : st.ep <;> simp [Task.release, reserved]
  | _ => simp [Stream.park, Task.release, reserved, hwrote, hfailed]

theorem push_clear (h : Fires r st x o) : ∀ t ∈ o.push, t ≠ .clearBuffered := by
  cases h with
  | detachBytes => split_ifs <;> simp
  | closeEndpoint => simp +contextual
  | _ => simp [Stream.park, or_imp, forall_and]

end Stream.Fires

namespace Session

variable {s s' : Session} {t : Task} {n : Next} {l : Label} {r : Ref} {st : Stream}

/-- The bytes that streams hold, and those that goroutines are about to release. -/
def load (s : Session) : ℕ :=
  (s.heap.map Stream.reserved).sum + ((pending s.threads).map Task.release).sum

/-- A critical section reserves bytes only within the limit. -/
theorem enter_reserve {observer : Bool} {x : Section} {o : Outcome} {buffered : ℕ}
    (h : st.enter r observer buffered x = some o) (hb : buffered ≤ appMaxBuffered) :
    buffered + o.reserve ≤ appMaxBuffered := by
  cases x with
  | write p k =>
    cases h
    unfold Stream.write
    split_ifs <;> simp <;> omega
  | deliver data =>
    cases h
    unfold Stream.deliver Stream.refuse
    split_ifs <;> simp <;> omega
  | _ =>
    have hf := Stream.fires_of_enter h
    cases hf <;> simpa [Stream.park] using hb

/-- Steps other than critical sections and releases keep the books. -/
theorem Acts.release (ha : Acts s t n) (hs : ∀ r x, t ≠ .sect r x) :
    ∀ t' ∈ n.push ++ n.spawn.flatten, t'.release = 0 := by
  cases ha with
  | sect hst hf ho => exact absurd rfl (hs _ _)
  | @emit_sent r x st hst h => cases x <;> simp [Emission.sent, Task.release]
  | @emit_lost r x st hst h => cases x <;> simp [Emission.failed, Task.release]
  | pump hep h =>
    intro t' ht'
    have := h.tasks t' ht'
    cases this <;> rfl
  | @lookup_found m r h => cases m <;> simp [dispatch, Task.release]
  | fail_now hc hrefs => simp +contextual [Task.release]; grind [Task.release]
  | _ => simp [Task.release]

/-- Only `fail` clears the ledger, and it closes the session first. -/
theorem Acts.clear (ha : Acts s t n) :
    n.sess.closed = true ∨ .clearBuffered ∉ n.push ++ n.spawn.flatten := by
  cases ha with
  | sect hst hf ho =>
    refine .inr fun hm => ?_
    simp only [List.flatten_nil, List.append_nil] at hm
    exact hf.push_clear _ hm rfl
  | @emit_sent r x st hst h => exact .inr (by cases x <;> simp [Emission.sent])
  | @emit_lost r x st hst h => exact .inr (by cases x <;> simp [Emission.failed])
  | pump hep h =>
    refine .inr fun hm => ?_
    cases h.tasks _ hm
  | @lookup_found m r h => exact .inr (by cases m <;> simp [dispatch])
  | fail_now hc hrefs => exact .inl rfl
  | _ => exact .inr (by simp)

theorem Acts.closed (ha : Acts s t n) (hc : s.closed = true) : n.sess.closed = true := by
  cases ha with
  | detach hst => unfold delete; split_ifs <;> exact hc
  | fail_now h => rfl
  | _ => exact hc

/-- **The ledger invariant.** -/
structure Ledger (s : Session) : Prop where
  clear : .clearBuffered ∈ pending s.threads → s.closed = true
  balance : s.closed = false → s.buffered = s.load
  bound : s.buffered ≤ appMaxBuffered

theorem ledger_new (cfg : Config) : (new cfg).Ledger where
  clear h := by simp [new] at h
  balance _ := by simp [new, load]
  bound := Nat.zero_le _

/-- The bytes reserved by all streams, after a step other than a critical section. -/
theorem Acts.reserved (ha : Acts s t n) (hs : ∀ r x, t ≠ .sect r x) :
    (n.sess.heap.map Stream.reserved).sum = (s.heap.map Stream.reserved).sum := by
  cases ha with
  | sect hst hf ho => exact absurd rfl (hs _ _)
  | detach hst => rw [delete_heap]
  | open_created => simp [Stream.reserved]
  | open_admitted => simp [Stream.reserved]
  | _ => rfl

theorem releaseBuffer_le (buffered k : ℕ) : releaseBuffer buffered k ≤ buffered := by
  unfold releaseBuffer; split_ifs <;> omega

theorem releaseBuffer_of_le {buffered k : ℕ} (h : k ≤ buffered) :
    releaseBuffer buffered k = buffered - k := by
  unfold releaseBuffer; split_ifs <;> omega

/-- The step of a goroutine keeps the balance. -/
theorem Acts.balance (ha : Acts s t n) (others : ℕ)
    (hview : ∀ r x st, t = .sect r x → s.heap[r]? = some st → st.sendBytes ≤ appMaxSendQueue ∧
      (st.reset = false → x.phase = .live → st.Counted ∧ st.accepting = false))
    (hclear : t ≠ .clearBuffered)
    (h : s.buffered = (s.heap.map Stream.reserved).sum + (t.release + others)) :
    n.sess.buffered = (n.sess.heap.map Stream.reserved).sum +
      (((n.push ++ n.spawn.flatten).map Task.release).sum + others) := by
  by_cases hs : ∃ r x, t = .sect r x
  · obtain ⟨r, x, rfl⟩ := hs
    cases ha with
    | @sect _ _ st o hst hf ho =>
      obtain ⟨hle, hc⟩ := hview r x st rfl hst
      have h₁ := hf.ledger hle hc
      have h₂ := sum_map_set Stream.reserved hst o.st
      simp only [Task.release, List.flatten_nil, List.append_nil] at h ⊢
      omega
  · simp only [not_exists] at hs
    rw [ha.reserved hs, Stream.Fires.sum_release_eq_zero (ha.release hs), zero_add]
    cases ha with
    | sect hst hf ho => exact absurd rfl (hs _ _)
    | clearBuffered => exact absurd rfl hclear
    | releaseBuffer =>
      simp only [Task.release] at h
      rw [releaseBuffer_of_le (by omega)]
      dsimp only
      omega
    | detach hst => unfold delete; split_ifs <;> simpa [Task.release] using h
    | _ => simpa [Task.release] using h

/-- The ledger never exceeds its limit. -/
theorem Acts.bound (ha : Acts s t n) (hb : s.buffered ≤ appMaxBuffered) :
    n.sess.buffered ≤ appMaxBuffered := by
  cases ha with
  | sect hst hf ho => exact enter_reserve ho hb
  | clearBuffered => exact Nat.zero_le _
  | releaseBuffer => exact (releaseBuffer_le _ _).trans hb
  | detach hst => unfold delete; split_ifs <;> exact hb
  | _ => exact hb

/-- **Every step keeps the ledger invariant**, in a state whose streams keep the queue
invariant. -/
theorem Moves.ledger (hm : Moves s l s') (h : s.Ledger)
    (hv : ∀ r st, s.heap[r]? = some st → (s.view r st).Handshake ∧ (s.view r st).Queues) :
    s'.Ledger := by
  rcases hm.run_or_starts with ⟨i, c, t, rest, n, -, ht, ha, rfl⟩ | ⟨ts, hts⟩ | rfl
  · obtain ⟨others, h₁, h₂⟩ := pending_advance ht
    have hpend : t ∈ pending s.threads := by simp [h₁]
    refine ⟨fun hm => ?_, fun hc => ?_, ha.bound h.bound⟩
    · rw [h₂, Multiset.mem_add, Multiset.mem_add] at hm
      rcases ha.clear with hc | hn
      · exact hc
      · rcases hm with hm | hm
        · exact absurd (by simpa [pending] using hm) hn
        · exact ha.closed (h.clear (by simp [h₁, hm]))
    · -- the ledger counts while the session is open
      have hc' : s.closed = false := by
        by_contra hc'
        exact absurd (hc.symm.trans (ha.closed (by simpa using hc'))) (by simp)
      have hb := ha.balance (others.map Task.release).sum (fun r x st he hst => ?_)
        (fun he => ?_) ?_
      · rw [load]
        dsimp only
        rw [h₂, hb]
        simp [pending]
      · obtain ⟨hh, hq⟩ := hv r st hst
        have hx : .sect r x ∈ (s.view r st).tasks :=
          Multiset.mem_filter.mpr ⟨he ▸ hpend, by simp⟩
        refine ⟨hq.sendBytes_le, fun hr hp => ?_⟩
        obtain ⟨-, ha', -, hl⟩ := hh.live (.inr ⟨_, hx, hp⟩)
        exact ⟨hq.counted hr hl, ha'⟩
      · exact absurd (h.clear (he ▸ hpend)) (by simp [hc'])
      · rw [h.balance hc', load, h₁]
        simp
  · -- what starts holds no bytes
    have hfree : ∀ t ∈ ts, t.release = 0 ∧ t ≠ .clearBuffered := fun t ht => by
      cases hts.started t ht with
      | callOn hs hc => cases hc <;> simp [Task.release]
      | _ => simp [Task.release]
    refine ⟨fun hm => ?_, fun hc => ?_, hts.buffered ▸ h.bound⟩
    · rcases Multiset.mem_add.mp (hts.pending ▸ hm) with hm | hm
      · exact absurd rfl (hfree _ hm).2
      · exact hts.closed ▸ h.clear hm
    · rw [hts.buffered, h.balance (hts.closed ▸ hc), load, load, hts.pending, hts.heap,
        Multiset.map_add, Multiset.sum_add]
      simp [Stream.Fires.sum_release_eq_zero fun t ht => (hfree t ht).1]
  · exact ⟨h.clear, h.balance, h.bound⟩

/-- **The ledger invariant holds in every state reached.** -/
theorem ledger {cfg : Config} {ok : Session → Label → Prop}
    (h : Reaches step ok (new cfg) s) : s.Ledger :=
  h.invariant (ledger_new cfg) fun _ _ _ hr _ hs hl =>
    (moves_of_step hs).ledger hl fun _ _ hst => ⟨handshake hr hst, queues hr hst⟩

/-! ## Bounded memory -/

end Session

/-- The unsigned subtractions a critical section makes on the counters of its stream: what it
subtracts from, and how much. -/
def Stream.subtractions (st : Stream) : Section → List (ℕ × ℕ)
  | .writeLoop =>
    match st.sendQ with
    | c :: _ =>
      if st.reset = false ∧ 0 < st.sndCredit then
        [(st.sndCredit, st.quantum c), (st.sendBytes, st.quantum c)]
      else []
    | [] => []
  | .read n _ =>
    match st.inQ with
    | c :: _ => if st.reset = false ∧ 0 < n then [(st.inBytes, min n c.length)] else []
    | [] => []
  | .deliver data =>
    if st.accepting = false ∧ st.opening = false ∧ st.remoteClosed = false ∧ st.reset = false ∧
        data.length ≤ st.rcvWindow then
      [(st.rcvWindow, data.length)]
    else []
  | _ => []

/-- **A counter goes down by a subtraction that is listed**, unless the section sets it anew: the
credit and the window when the stream is accepted, the bytes in the queues when it is detached. -/
theorem Stream.Fires.subtracts {r : Ref} {st : Stream} {x : Section} {o : Outcome}
    (h : Fires r st x o) :
    (o.st.sndCredit = st.sndCredit ∨ (∃ n, o.st.sndCredit = add32 st.sndCredit n) ∨
      (∃ metadata, x = .handleAccept metadata o.st.sndCredit) ∨
      (∃ e metadata, x = .acceptWindow e metadata) ∨
      ∃ n, (st.sndCredit, n) ∈ st.subtractions x ∧ o.st.sndCredit = sub32 st.sndCredit n) ∧
    (o.st.rcvWindow = st.rcvWindow ∨ (∃ n, o.st.rcvWindow = add32 st.rcvWindow n) ∨
      (∃ e metadata, x = .acceptWindow e metadata) ∨
      ∃ n, (st.rcvWindow, n) ∈ st.subtractions x ∧ o.st.rcvWindow = sub32 st.rcvWindow n) ∧
    (st.sendBytes ≤ o.st.sendBytes ∨ x = .detachBytes ∨
      ∃ n, (st.sendBytes, n) ∈ st.subtractions x ∧ o.st.sendBytes = sub64 st.sendBytes n) ∧
    (st.inBytes ≤ o.st.inBytes ∨ x = .detachBytes ∨
      ∃ n, (st.inBytes, n) ∈ st.subtractions x ∧ o.st.inBytes = sub64 st.inBytes n) := by
  cases h with
  | loop_data hr hq hc => simp [Stream.subtractions, hr, hq, hc, Stream.dequeue]
  | read_data hn hr hq => simp [Stream.subtractions, hr, hq, hn, Stream.consume]
  | deliver_accepted hd hlen ha ho hc hr hw =>
    simp [Stream.subtractions, ha, ho, hc, hr, hw, Stream.accept]
  | _ => simp [Stream.enqueue, Stream.park]

/-- No subtraction underflows on a stream whose counters count its queues. -/
theorem Stream.subtractions_le {st : Stream} {x : Section}
    (hc : st.reset = false → x.phase = .live → st.Counted) :
    ∀ p ∈ st.subtractions x, p.2 ≤ p.1 := by
  unfold subtractions
  split
  · split
    · next c q hq =>
      split_ifs with h
      · have hsend := (hc h.1 rfl).send
        rw [hq, List.flatten_cons, List.length_append] at hsend
        have := st.quantum_le_length c
        simp only [List.mem_cons, List.not_mem_nil, or_false, forall_eq_or_imp, forall_eq]
        exact ⟨st.quantum_le_credit c, by omega⟩
      · simp
    · simp
  · split
    · next c q hq =>
      split_ifs with h
      · have hin := (hc h.1 rfl).inb
        rw [hq, List.flatten_cons, List.length_append] at hin
        simp only [List.mem_singleton, forall_eq]
        omega
      · simp
    · simp
  · split_ifs with h
    · simpa using h.2.2.2.2
    · simp
  · simp

namespace Session

variable {s : Session}

theorem le_load {n : ℕ} (h : .releaseBuffer n ∈ pending s.threads) : n ≤ s.load := by
  obtain ⟨others, ho⟩ := Multiset.exists_cons_of_mem h
  rw [load, ho, Multiset.map_cons, Multiset.sum_cons, Task.release]
  omega

/-- **Bounded memory.** Against any peer, as long as the session is not closed: the ledger is
exact and never saturates, it is bounded, the counters of a stream that is neither reset nor
given up by `Open` count its queues, no counter underflows, and the credit is capped. -/
theorem bounded_memory {cfg : Config} (h : Reachable cfg s) (hc : s.closed = false) :
    (s.buffered = s.load ∧ ∀ n, .releaseBuffer n ∈ pending s.threads → n ≤ s.buffered) ∧
    s.buffered ≤ appMaxBuffered ∧
    (∀ r st, s.heap[r]? = some st → st.reset = false → ¬(s.view r st).LostOpen →
      st.sendBytes = st.sendQ.flatten.length ∧ st.inBytes = st.inQ.flatten.length ∧
      (∀ c ∈ st.sendQ ++ st.inQ, c ≠ []) ∧ st.sendBytes ≤ appMaxSendQueue ∧
      (st.accepting = false → st.rcvWindow + st.inBytes = appInitialWindow)) ∧
    (∀ r x st, .sect r x ∈ pending s.threads → s.heap[r]? = some st →
      ∀ p ∈ st.subtractions x, p.2 ≤ p.1) ∧
    ∀ (r : Ref) (st : Stream), s.heap[r]? = some st → st.sndCredit ≤ appMaxCredit := by
  have hl := ledger h
  have hb := hl.balance hc
  refine ⟨⟨hb, fun n hn => hb ▸ le_load hn⟩, hl.bound, fun r st hst hr hlost => ?_,
    fun r x st hx hst => ?_, fun r st hst => (queues h hst).sndCredit_le⟩
  · have hq := queues h hst
    have hct := hq.counted hr hlost
    refine ⟨hct.send, hct.inb, fun c hm => ?_, hq.sendBytes_le, hct.window⟩
    exact (List.mem_append.mp hm).elim (hq.chunks.1 c) (hq.chunks.2 c)
  · refine Stream.subtractions_le fun hr hp => (queues h hst).counted hr ?_
    have hx' : .sect r x ∈ (s.view r st).tasks := Multiset.mem_filter.mpr ⟨hx, by simp⟩
    exact ((handshake h hst).live (.inr ⟨_, hx', hp⟩)).2.2.2

/-- A session with a stream on which the peer sent a byte. -/
theorem bounded_memory_received :
    ∃ s, Reachable { role := .host } s ∧ s.closed = false ∧ s.buffered = 1 ∧ s.load = 1 := by
  obtain ⟨s, hs, ht⟩ := exists_reaches_of_run step Always (new { role := .host })
    (fun s => !s.closed && s.buffered == 1)
    [.call (.open (text "svc") []), .run 1 .go, .run 1 .go,
      .recv (Outgoing.app (.appAccept 1 [] 1)).frame, .run 0 .go, .run 0 .go, .run 0 .go,
      .recv (Outgoing.app (.appData 1 [7])).frame, .run 0 .go, .run 0 .go] (by decide)
  simp only [Bool.and_eq_true, Bool.not_eq_true', beq_iff_eq] at ht
  exact ⟨s, hs, ht.1, ht.2, (bounded_memory hs ht.1).1.1.symm.trans ht.2⟩

/-- **A stream given up by `Open`.** The peer accepts the stream and sends data before the
`APP_OPEN` is written; the write fails, `Open` detaches the stream, and its counter is cleared
while a byte is queued, in a session that is not closed. -/
theorem inBytes_of_lost_open :
    ∃ s, Reachable { role := .host } s ∧ s.closed = false ∧
      ∃ st, s.heap[0]? = some st ∧ st.reset = false ∧ st.inBytes ≠ st.inQ.flatten.length := by
  obtain ⟨s, hs, ht⟩ := exists_reaches_of_run step Always (new { role := .host })
    (fun s => !s.closed &&
      s.heap[0]?.any fun st => !st.reset && st.inBytes != st.inQ.flatten.length)
    [.call (.open (text "svc") []), .run 1 .go,
      .recv (Outgoing.app (.appAccept 1 [] 1)).frame, .run 0 .go, .run 0 .go, .run 0 .go,
      .recv (Outgoing.app (.appData 1 [7])).frame, .run 0 .go, .run 0 .go,
      .connLost, .run 1 .go, .run 1 .go, .run 1 .go] (by decide)
  simp only [Bool.and_eq_true, Bool.not_eq_true', Option.any_eq_true, bne_iff_ne] at ht
  exact ⟨s, hs, ht⟩

end Session

end Mvcp.App
