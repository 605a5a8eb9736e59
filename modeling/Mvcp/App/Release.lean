import Mvcp.App.Wakeups

/-!
# Streams that both sides closed

A stream whose directions are both closed, with nothing left to send or to read, is finished and
taken out of the table by `maybeFinish`. It is called after an `APP_CLOSE` was sent or received, and
by a `Read` that returns `io.EOF`. A `Read` that returns the last bytes does not call it: until the
application reads once more, the stream stays in the table and counts for the quota.

## Main definitions

* `View.Drained`: the last `Read` that returned has returned bytes, and none has returned `io.EOF`
* `View.Tidy`: a stream that is done is finished, or will be

## Main results

* `Session.released`: a stream that both sides closed has left the table, unless the last `Read`
  returned bytes
-/

namespace Mvcp.App

open Library (Reaches Always pending pending_advance run exists_reaches_of_run)

/-- The steps that end a stream that was reset. -/
def Task.ends : Task → Bool
  | .sect _ .broadcast | .sect _ .finish => true
  | _ => false

/-- The steps that end a stream that is done. -/
def Task.settling : Task → Bool
  | .emit _ .close | .sect _ .maybeFinish | .sect _ .broadcast | .sect _ .finish => true
  | _ => false

/-- A `Read` returned: with bytes, or with an error. -/
def Event.reading : Event → Option Bool
  | .read .. => some true
  | .readFailed .. => some false
  | _ => none

theorem Task.settling_of_ends {t : Task} (h : t.ends = true) : t.settling = true := by
  unfold Task.ends at h
  split at h <;> simp_all [Task.settling]

/-- The steps that end a stream work on it. -/
theorem Task.ref?_ne_none_of_settling {t : Task} (h : t.settling = true) : t.ref? ≠ none := by
  unfold Task.settling at h
  split at h <;> simp_all

namespace Stream.Fires

variable {r : Ref} {st : Stream} {x : Section} {o : Outcome}

/-- A stream that is done after a critical section was done before, unless something will notice:
a step that ends it, or the next `Read`. -/
theorem done (h : Fires r st x o) (hr : o.st.reset = false) (hd : o.st.done = true) :
    o.st.finished = true ∨ (∃ t ∈ o.push, t.settling = true) ∨
      (o.log.filterMap Event.reading = [true] ∧ st.inQ ≠ []) ∨
      (st.reset = false ∧ st.done = true ∧ o.log.filterMap Event.reading = [] ∧
        (Task.sect r x).settling = false) ∨ st.localClosed = true ∧ st.sendQ ≠ [] := by
  cases h with
  | write_queued | closeWrite_later | deliver_accepted | read_park =>
    simp_all [Stream.done, Stream.enqueue, Stream.accept]
  | read_data hn hr hq => exact .inr (.inr (.inl ⟨rfl, by simp [hq]⟩))
  | read_eof => exact .inr (.inl ⟨_, List.mem_cons_self, rfl⟩)
  | closeWrite_now | loop_close => exact .inr (.inl ⟨_, List.mem_cons_self, rfl⟩)
  | loop_data hr hq hc =>
    refine .inr (.inr (.inr (.inr ⟨?_, by simp [hq]⟩)))
    simp only [Stream.done, Bool.and_eq_true] at hd
    exact hd.1.1.1
  | remote_closed => exact .inr (.inl ⟨_, List.mem_cons_self, rfl⟩)
  | maybeFinish_done | broadcast => exact .inr (.inl ⟨_, List.mem_cons_self, rfl⟩)
  | maybeFinish_not h => simp [h] at hd
  | finish_again h => exact .inl h
  | finish_now => exact .inl rfl
  | read_failed h | loop_exit h | reset_again h => simp [h] at hr
  | reset_set => simp at hr
  | ignored h => cases h <;> exact .inr (.inr (.inr (.inl ⟨hr, hd, rfl, rfl⟩)))
  | refused h => cases h <;> exact .inr (.inr (.inr (.inl ⟨hr, hd, rfl, rfl⟩)))
  | markOpened_now _ _ _ hlog =>
    rcases hlog with rfl | rfl <;> exact .inr (.inr (.inr (.inl ⟨hr, hd, rfl, rfl⟩)))
  | _ => exact .inr (.inr (.inr (.inl ⟨hr, hd, rfl, rfl⟩)))

theorem reset_ends (h : Fires r st x o) (hr : o.st.reset = true) :
    o.st.finished = true ∨ (∃ t ∈ o.push, t.ends = true) ∨
      st.reset = true ∧ (Task.sect r x).ends = false := by
  cases h with
  | reset_set | reset_again | broadcast => exact .inr (.inl ⟨_, List.mem_cons_self, rfl⟩)
  | finish_again h => exact .inl h
  | finish_now => exact .inl rfl
  | ignored h => cases h <;> exact .inr (.inr ⟨hr, rfl⟩)
  | refused h => cases h <;> exact .inr (.inr ⟨hr, rfl⟩)
  | _ => exact .inr (.inr ⟨hr, rfl⟩)

/-- A direction is closed when its queue is empty, and nothing is queued afterwards. -/
theorem localClosed (h : Fires r st x o) (hq : st.localClosed = true → st.sendQ = []) :
    o.st.localClosed = true → o.st.sendQ = [] := by
  cases h with
  | write_queued hp hr hl hc => simp [Stream.enqueue, hl]
  | closeWrite_now hr hl hc hq | loop_close hr hq hc => exact fun _ => hq
  | loop_data hr hq' hc =>
    intro hl
    have := hq hl
    simp [hq'] at this
  | _ => exact hq

theorem finished_mono (h : Fires r st x o) (hf : st.finished = true) : o.st.finished = true := by
  cases h with
  | finish_now => rfl
  | _ => exact hf

/-- `finish` takes the stream out of the table. -/
theorem detaches_of_finished (h : Fires r st x o) (hf : o.st.finished = true) :
    st.finished = true ∨ .detach r ∈ o.push := by
  cases h with
  | finish_now => exact .inr (by simp)
  | _ => exact .inl hf

end Stream.Fires

namespace View

variable {r : Ref} {v v' : View}

/-- The last `Read` that returned has returned bytes, and none has returned `io.EOF`. -/
def Drained (r : Ref) (v : View) : Prop :=
  (v.log.filterMap Event.reading).getLast? = some true ∧ .readFailed r .eof ∉ v.log

/-- **A stream that is done is finished, or will be**: a goroutine is about to notice, or the next
`Read` will; or the write of its `APP_CLOSE` failed, which ends the session. -/
structure Tidy (r : Ref) (v : View) : Prop where
  flushed : v.st.localClosed = true → v.st.sendQ = []
  reset : v.st.reset = true → v.st.finished = true ∨ ∃ t ∈ v.tasks, t.ends = true
  done : v.st.reset = false → v.st.done = true → v.st.finished = true ∨
    (∃ t ∈ v.tasks, t.settling = true) ∨ v.Drained r ∨ ∃ id, .appClose id ∈ v.lost
  gone : v.st.finished = true → v.listed = false ∨ .detach r ∈ v.tasks

theorem eof_not_mem {log : List Event} (h : false ∉ log.filterMap Event.reading) :
    .readFailed r .eof ∉ log :=
  fun hm => h (List.mem_filterMap.mpr ⟨_, hm, rfl⟩)

theorem Initial.tidy (h : Initial r v) : v.Tidy r := by
  cases h <;> constructor <;> simp [Stream.done]

/-- A step that enters no critical section leaves what will end the stream, or goes on to it. -/
theorem Step.settling_mem {t : Task} (hs : Step r v none v') (h : t ∈ v.tasks)
    (ht : t.settling = true) :
    (∃ t ∈ v'.tasks, t.settling = true) ∨ ∃ id, .appClose id ∈ v'.lost := by
  cases t with
  | sect r' x => exact .inl ⟨_, hs.sect_mem h, ht⟩
  | emit r' x =>
    obtain rfl : x = .close := by cases x <;> simp [Task.settling] at ht ⊢
    have hrest {t : Task} {rest new : Multiset Task} (htasks : v.tasks = t ::ₘ rest)
        (hne : t ≠ .emit r' .close) :
        ∃ t ∈ new + rest, t.settling = true :=
      ⟨_, Multiset.mem_add.mpr
        (.inr ((Multiset.mem_cons.mp (htasks ▸ h)).resolve_left hne.symm)), ht⟩
    cases hs with
    | @sent x rest htasks =>
      -- `maybeFinish` follows the `APP_CLOSE`
      by_cases heq : Task.emit r x = .emit r' .close
      · obtain ⟨rfl, rfl⟩ := Task.emit.inj heq
        exact .inl ⟨.sect r .maybeFinish, by simp [Emission.sent], rfl⟩
      · exact .inl (hrest htasks heq)
    | @lost x rest htasks =>
      -- an `APP_CLOSE` that is not written makes the session fail
      by_cases heq : Task.emit r x = .emit r' .close
      · obtain ⟨rfl, rfl⟩ := Task.emit.inj heq
        exact .inr ⟨v.st.id, by simp [Emission.message]⟩
      · exact .inl (hrest htasks heq)
    | lead htasks hl => exact .inl (hrest htasks (by rintro rfl; cases hl))
    | detach htasks =>
      obtain ⟨t, hm, ht⟩ : ∃ t ∈ ({.sect r .detachBytes} : Multiset Task) + _, t.settling = true :=
        hrest htasks (by simp)
      exact .inl ⟨t, by simpa using hm, ht⟩
    | arrive | call => exact .inl ⟨_, by simp [h], ht⟩
    | fail hl htasks =>
      refine .inl ⟨_, Multiset.mem_cons_of_mem ?_, ht⟩
      rcases htasks with htasks | htasks <;> simpa [htasks] using h
    | down => exact .inl ⟨_, h, ht⟩
  | _ => simp [Task.settling] at ht

/-- A stream that has left the table does not come back, and `detach` takes it out. -/
theorem Step.gone {a : Option Section} (hs : Step r v a v')
    (h : v.listed = false ∨ .detach r ∈ v.tasks) : v'.listed = false ∨ .detach r ∈ v'.tasks := by
  have hrest {t : Task} {rest new : Multiset Task} (htasks : v.tasks = t ::ₘ rest)
      (hne : t ≠ .detach r) : v.listed = false ∨ .detach r ∈ new + rest :=
    h.imp_right fun h =>
      Multiset.mem_add.mpr (.inr ((Multiset.mem_cons.mp (htasks ▸ h)).resolve_left hne.symm))
  cases hs with
  | sect htasks hf => exact hrest htasks (by simp)
  | sent htasks | lost htasks => exact hrest htasks (by simp)
  | lead htasks hl => exact hrest htasks (by rintro rfl; cases hl)
  | detach | fail => exact .inl rfl
  | arrive => exact h.imp_right fun h => by simp [h]
  | call => exact h.imp_right fun h => by simp [h]
  | down => exact h

theorem Step.tidy {a : Option Section} (hs : Step r v a v') (hrec : v.Receiver r) (h : v.Tidy r) :
    v'.Tidy r := by
  cases a with
  | none =>
    obtain ⟨hst, hlog⟩ := hs.quiet
    refine ⟨hst ▸ h.flushed, fun hr => ?_, fun hr hd => ?_, fun hf => hs.gone (h.gone (hst ▸ hf))⟩
    · rw [hst] at hr ⊢
      refine (h.reset hr).imp_right fun ⟨t, ht, he⟩ => ?_
      cases t with
      | sect r' x => exact ⟨_, hs.sect_mem ht, he⟩
      | _ => simp [Task.ends] at he
    · rw [hst] at hr hd ⊢
      rcases h.done hr hd with hf | ⟨t, ht, he⟩ | hdr | ⟨id, hlost⟩
      · exact .inl hf
      · rcases hs.settling_mem ht he with hmem | hlost
        · exact .inr (.inl hmem)
        · exact .inr (.inr (.inr hlost))
      · exact .inr (.inr (.inl (by rwa [Drained, hlog])))
      · exact .inr (.inr (.inr ⟨id, hs.grows.2.1.subset hlost⟩))
  | some x =>
    have hgone := fun hf => hs.gone (h.gone hf)
    cases hs with
    | @sect _ o rest ht hf =>
      have hpush {t : Task} (hm : t ∈ o.push) (hr : t.ref? = some r) :
          t ∈ own r o.push + rest :=
        Multiset.mem_add.mpr (.inl (Multiset.mem_filter.mpr ⟨Multiset.mem_coe.mpr hm, hr⟩))
      have hrest {p : Task → Bool} (hex : ∃ t ∈ v.tasks, p t = true)
          (hx : p (.sect r x) = false) : ∃ t ∈ own r o.push + rest, p t = true := by
        obtain ⟨t, hm, hp⟩ := hex
        rcases Multiset.mem_cons.mp (ht ▸ hm) with rfl | hm
        · simp [hx] at hp
        · exact ⟨t, Multiset.mem_add.mpr (.inr hm), hp⟩
      have hown {p : Task → Bool} (hp : ∀ t, p t = true → t.ref? ≠ none)
          (hex : ∃ t ∈ o.push, p t = true) : ∃ t ∈ own r o.push + rest, p t = true := by
        obtain ⟨t, hm, ht⟩ := hex
        exact ⟨t, hpush hm ((hf.push_ref t hm).resolve_right (hp t ht)), ht⟩
      refine ⟨hf.localClosed h.flushed, fun hr => ?_, fun hr hd => ?_, fun hfin => ?_⟩
      · rcases hf.reset_ends hr with hfin | hex | ⟨hr, hx⟩
        · exact .inl hfin
        · refine .inr (hown (fun t ht => ?_) hex)
          exact Task.ref?_ne_none_of_settling (Task.settling_of_ends ht)
        · exact (h.reset hr).imp hf.finished_mono fun hex => hrest hex hx
      · rcases hf.done hr hd with hfin | hex | hread | ⟨hr, hd, hlog, hx⟩ | ⟨hl, hq⟩
        · exact .inl hfin
        · exact .inr (.inl (hown (fun t => Task.ref?_ne_none_of_settling) hex))
        · refine .inr (.inr (.inl ?_))
          refine ⟨by simp [List.filterMap_append, hread.1], ?_⟩
          -- after `io.EOF` there is nothing left to read
          rw [List.mem_append, not_or]
          exact ⟨fun hm => hread.2 (hrec.eof hm).2, eof_not_mem (by simp [hread.1])⟩
        · rcases h.done hr hd with hfin | hex | hdr | hlost
          · exact .inl (hf.finished_mono hfin)
          · exact .inr (.inl (hrest hex hx))
          · refine .inr (.inr (.inl ?_))
            refine ⟨by simpa [List.filterMap_append, hlog] using hdr.1, ?_⟩
            rw [List.mem_append, not_or]
            exact ⟨hdr.2, eof_not_mem (by simp [hlog])⟩
          · exact .inr (.inr (.inr hlost))
        · exact absurd (h.flushed hl) hq
      · rcases hf.detaches_of_finished hfin with hold | hm
        · exact hgone hold
        · exact .inr (hpush hm rfl)

end View

namespace Session

variable {cfg : Config} {ok : Session → Label → Prop} {s s' : Session} {r : Ref} {st : Stream}
variable {n : Next} {l : Label} {task : Task}

theorem tidy (h : Reaches step ok (new cfg) s) (hst : s.heap[r]? = some st) :
    (s.view r st).Tidy r :=
  (view_inductive (I := fun r v => v.Handshake ∧ v.Receiver r ∧ v.Tidy r)
    (fun _ _ hi => ⟨hi.handshake, hi.receiver, hi.tidy⟩)
    (fun _ _ _ _ hs hv => ⟨hs.handshake hv.1, hs.receiver hv.1 hv.2.1, hs.tidy hv.2.1 hv.2.2⟩)
    h hst).2.2

/-! ## Failed writes -/

/-- An `APP_CLOSE` that could not be written ends the session, or is about to. -/
def Failed (s : Session) : Prop :=
  ∀ r id, ⟨some r, .app (.appClose id)⟩ ∈ s.lost →
    s.closed = true ∨ .fail (some r) ∈ pending s.threads

theorem Acts.lost_close {id : UInt32} (ha : Acts s task n)
    (hm : ⟨some r, .app (.appClose id)⟩ ∈ n.sess.lost) :
    ⟨some r, .app (.appClose id)⟩ ∈ s.lost ∨ .fail (some r) ∈ n.push := by
  cases ha with
  | @emit_lost r' x st hst hno =>
    rcases List.mem_append.mp hm with hm | hm
    · exact .inl hm
    · have heq := List.mem_singleton.mp hm
      cases x <;> simp_all [Emission.message, Emission.failed]
  | reject_lost | error_lost =>
    rcases List.mem_append.mp hm with hm | hm
    · exact .inl hm
    · simp at hm
  | detach => exact .inl (by unfold delete at hm; split_ifs at hm <;> exact hm)
  | _ => exact .inl hm

theorem failed (h : Reaches step ok (new cfg) s) : s.Failed := by
  refine h.invariant (I := Failed) (by simp [Failed, new]) fun s s' l _ _ hs ih r id hm => ?_
  rcases (moves_of_step hs).run_or_starts with
    ⟨i, c, task, rest, n, -, ht, ha, rfl⟩ | ⟨ts, hst⟩ | rfl
  · obtain ⟨others, hold, hnew⟩ := pending_advance ht
    rcases ha.lost_close hm with hm | hm
    · rcases ih r id hm with hc | hf
      · exact .inl (ha.closed hc)
      · rcases Multiset.mem_cons.mp (hold ▸ hf) with rfl | hf
        · -- `fail` runs
          cases ha with
          | fail_again hc => exact .inl hc
          | fail_now => exact .inl rfl
        · exact .inr (by simp [hnew, hf])
    · exact .inr (by simp [hnew, hm])
  · rw [hst.lost] at hm
    rcases ih r id hm with hc | hf
    · exact .inl (hst.closed.trans hc)
    · exact .inr (by simp [hst.pending, hf])
  · exact ih r id hm

/-! ## Release -/

/-- **A stream that both sides closed is released.** In a session that is not closed: when both
directions of a stream are closed, nothing is left to send or to read, and no goroutine is at work
on it but those that are parked, the stream is finished and has left the table; unless the last
`Read` that returned has returned bytes, and no `Read` has yet returned `io.EOF`. -/
theorem released (h : Reachable cfg s) (hopen : s.closed = false) (hst : s.heap[r]? = some st)
    (hl : st.localClosed = true) (hr : st.remoteClosed = true) (hs : st.sendQ = [])
    (hi : st.inQ = []) (hidle : ∀ t ∈ s.tasksOf r, t.parked = true) :
    (st.finished = true ∧ r ∉ s.streams.map Prod.snd) ∨
      (s.view r st).Drained r := by
  have ht := tidy h hst
  have hnone {t : Task} (hm : t ∈ s.tasksOf r) : t.settling = false := by
    have := hidle t hm
    unfold Task.parked at this
    split at this <;> simp_all [Task.settling]
  have hfin : st.finished = true ∨ (s.view r st).Drained r := by
    -- a stream that is reset is finished by `setReset`
    cases hreset : st.reset with
    | true =>
      refine .inl ((ht.reset hreset).resolve_right fun ⟨t, hm, he⟩ => ?_)
      have := Task.settling_of_ends he
      simp [hnone hm] at this
    | false =>
      rcases ht.done hreset (by simp [view, viewOf, Stream.done, hl, hr, hs, hi]) with
        hf | ⟨t, hm, he⟩ | hd | ⟨id, hlost⟩
      · exact .inl hf
      · exact absurd he (by simp [hnone hm])
      · exact .inr hd
      · -- the session would be closed, or a goroutine about to close it
        obtain ⟨⟨ref, msg⟩, he, hm⟩ := List.mem_filterMap.mp hlost
        obtain ⟨rfl, rfl⟩ := Sent.app?_eq_some hm
        rcases failed h r id he with hc | hf
        · simp [hopen] at hc
        · simpa [Task.parked] using hidle _ (mem_tasksOf.mpr ⟨hf, rfl⟩)
  refine hfin.imp_left fun hf => ⟨hf, ?_⟩
  have hgone := (ht.gone hf).resolve_right fun hm => by simpa [Task.parked] using hidle _ hm
  simpa [view, viewOf] using hgone

/-- The steps by which `Open` opens a stream, the peer closes its direction after the bytes `data`,
and the write loop parks. -/
def openAndClosed (data : Bytes) : List Label :=
  List.flatten
    [[.call (.open (text "svc") []), .run 1 .go, .run 1 .go,
        .recv (Outgoing.app (.appAccept 1 [] 1)).frame], .replicate 3 (.run 0 .go),
      [.run 1 (.select .ready)], .replicate 4 (.run 1 .go),
      [.recv (Outgoing.app (.appData 1 data)).frame], .replicate 2 (.run 0 .go),
      [.recv (Outgoing.app (.appClose 1)).frame], .replicate 3 (.run 0 .go), [.run 2 .go]]

/-- The application reads a byte and `io.EOF`, and closes its direction. -/
theorem released_eof :
    ∃ s st, Reachable { role := .host } s ∧ s.heap[0]? = some st ∧ st.localClosed = true ∧
      st.remoteClosed = true ∧ st.finished = true ∧ 0 ∉ s.streams.map Prod.snd := by
  obtain ⟨s, hs, hp⟩ := exists_reaches_of_run step Always (new { role := .host })
    (fun s => s.threads == [[], [], [.sect 0 (.writeLoopWait 0), .wgDone], [], [], []] &&
      !s.closed && s.heap[0]?.any fun st : Stream => st.localClosed && st.remoteClosed &&
        decide (st.sendQ = []) && decide (st.inQ = []) &&
        decide (((s.log.filter fun e => e.ref? = some 0).filterMap Event.reading).getLast? =
          some false))
    (List.flatten
      [openAndClosed [7], [.call (.read 0 1)], .replicate 3 (.run 3 .go), [.call (.read 0 1)],
        .replicate 2 (.run 4 .go), [.call (.closeWrite 0)], .replicate 7 (.run 5 .go)])
    (by decide)
  simp only [Bool.and_eq_true, beq_iff_eq, Option.any_eq_true, Bool.not_eq_true',
    decide_eq_true_eq] at hp
  obtain ⟨⟨hthreads, hopen⟩, st, hst, ⟨⟨⟨hl, hr⟩, hq⟩, hi⟩, hlast⟩ := hp
  have hidle : ∀ t ∈ s.tasksOf 0, t.parked = true := by
    simp [tasksOf, hthreads, Task.parked]
  obtain ⟨hfin, hgone⟩ := (released hs hopen hst hl hr hq hi hidle).resolve_right fun hd => by
    simp [View.Drained, view, viewOf, hlast] at hd
  exact ⟨s, st, hs, hst, hl, hr, hfin, hgone⟩

-- A `Read` that returns the last byte after both sides closed leaves the stream in the table.
example : (run step Always
    (List.flatten
      [openAndClosed [7], [.call (.closeWrite 0)], .replicate 3 (.run 3 .go), [.call (.read 0 1)],
        .replicate 3 (.run 4 .go)])
    (new { role := .host })).any (fun s => s.streams == [(1, 0)] &&
      s.threads == [[], [], [.sect 0 (.writeLoopWait 0), .wgDone], [], []] &&
      s.heap[0]?.any Stream.done) = true := by
  decide

end Session

end Mvcp.App
