import Mvcp.App.Teardown

/-!
# No lost wakeups

The write loop of a stream and the callers of `Read` wait on the condition variable of the stream.
Whatever gives them something to do wakes them, with two exceptions that leave a goroutine parked
for a while: `setReset` broadcasts after it has released the lock, and `CloseWrite` on an empty
queue does not broadcast at all, because it sends the `APP_CLOSE` itself.

A stream that has left the table, or that is finished, gives its readers something to do. So does
it to its write loop, unless `CloseWrite` sent the `APP_CLOSE` while the write loop was parked: the
write loop of such a stream stays parked for ever.

## Main definitions

* `Stream.LoopIdle`, `Stream.ReadIdle`: the write loop, and `Read`, have nothing to do
* `View.Alert`: who is parked has nothing to do
* `View.Left`: what is known of a stream that left the table, or is finished
* `View.attended`: `CloseWrite` does not close the direction while the write loop is parked

## Main results

* `Session.no_lost_wakeup`: who is parked has nothing to do, or is about to be woken
* `Session.read_woken`, `Session.loop_woken`: who is parked on a stream that has left the table was
  woken, or is about to be
-/

namespace Mvcp.App

open Library (Cond Reaches Always exists_reaches_of_run)

/-- The steps of goroutines that are parked. -/
def Task.parked : Task → Bool
  | .sect _ (.writeLoopWait _) | .sect _ (.readWait ..) => true
  | _ => false

/-- The write loop is parked and was not woken. -/
def Task.asleep (c : Cond) : Task → Bool
  | .sect _ (.writeLoopWait ticket) => !c.woken ticket
  | _ => false

namespace Stream

/-- The write loop has nothing to do: what is queued has no credit, and the close that follows an
empty queue was sent. -/
def LoopIdle (st : Stream) : Prop :=
  (st.sendQ ≠ [] → st.sndCredit = 0) ∧
    (st.sendQ = [] → st.closeAfterFlush = true → st.localClosed = true)

/-- No close waits for the queue to be empty when it is. -/
def Unflushed (st : Stream) : Prop := st.sendQ = [] → st.closeAfterFlush = false

/-- `Read` has nothing to return. -/
def ReadIdle (st : Stream) : Prop := st.inQ = [] ∧ st.remoteClosed = false

namespace Fires

variable {r : Ref} {st : Stream} {x : Section} {o : Outcome}

/-- A critical section broadcasts, or gives nobody something to do. The accept of the peer gives
credit without a broadcast, before there is a write loop. -/
theorem wakes (h : Fires r st x o) :
    o.st.cond = st.cond.broadcast ∨
      (o.st.cond = st.cond ∨ o.st.cond = st.cond.enqueue) ∧
        (st.opening = true ∨ (st.LoopIdle → o.st.LoopIdle)) ∧ (st.ReadIdle → o.st.ReadIdle) := by
  cases h with
  | write_queued | closeWrite_later | deliver_accepted | credit_added | remote_closed | broadcast
  | acceptWindow => exact .inl rfl
  | read_park | loop_park => exact .inr ⟨.inr rfl, .inr fun h => h, fun h => h⟩
  | read_data hn hr hq =>
    refine .inr ⟨.inl rfl, .inr fun h => h, fun hi => ?_⟩
    simp [hi.1] at hq
  | closeWrite_now hr hl hc hq =>
    exact .inr ⟨.inl rfl, .inr fun hi => ⟨hi.1, fun _ _ => rfl⟩, fun h => h⟩
  | loop_data hr hq hc =>
    refine .inr ⟨.inl rfl, .inr fun hi => ?_, fun h => h⟩
    have := hi.1 (by simp [hq])
    omega
  | loop_close hr hq hc => exact .inr ⟨.inl rfl, .inr fun hi => ⟨hi.1, fun _ _ => rfl⟩, fun h => h⟩
  | accepted hm hg hg' ho => exact .inr ⟨.inl rfl, .inl ho, fun h => h⟩
  | _ => exact .inr ⟨.inl rfl, .inr fun h => h, fun h => h⟩

/-- Who parks has found nothing to do. -/
theorem parks (h : Fires r st x o) :
    (∀ t ∈ o.push, t.parked = false) ∨
      o.st.reset = false ∧ o.st.cond = st.cond.enqueue ∧
        (o.push = [.sect r (.writeLoopWait st.cond.wait)] ∧ o.st.LoopIdle ∧ o.st.Unflushed ∨
          ∃ n k, o.push = [.sect r (.readWait n k st.cond.wait)] ∧ o.st.ReadIdle) := by
  cases h with
  | read_park hr hq hc => exact .inr ⟨hr, rfl, .inr ⟨_, _, rfl, hq, hc⟩⟩
  | loop_park hr h =>
    refine .inr ⟨hr, rfl, .inl ⟨rfl, ?_⟩⟩
    rcases h with ⟨hq, hc⟩ | ⟨hq, hc⟩
    · exact ⟨⟨fun _ => hc, fun h => absurd h hq⟩, fun h => absurd h hq⟩
    · exact ⟨⟨fun h => absurd hq h, fun _ h => absurd h (by simp [Stream.park, hc])⟩, fun _ => hc⟩
  | detachBytes => exact .inl (by split_ifs <;> simp [Task.parked])
  | closeEndpoint => exact .inl (by simp +contextual [Task.parked])
  | _ => exact .inl (by simp [Task.parked, or_imp, forall_and])

/-- A close that waits for the queue to be empty is noticed by the write loop, which broadcasts
to itself, unless `CloseWrite` finds the queue empty. -/
theorem flushes (h : Fires r st x o) :
    o.st.cond = st.cond.broadcast ∨ x = .writeLoop ∨
      (x = .closeWrite ∧ st.reset = false ∧ st.localClosed = false ∧ st.closeAfterFlush = false ∧
        st.sendQ = []) ∨ (st.Unflushed → o.st.Unflushed) := by
  cases h with
  | write_queued | closeWrite_later | deliver_accepted | credit_added | remote_closed | broadcast
  | acceptWindow => exact .inl rfl
  | loop_exit | loop_data | loop_close | loop_park => exact .inr (.inl rfl)
  | closeWrite_now hr hl hc hq => exact .inr (.inr (.inl ⟨rfl, hr, hl, hc, hq⟩))
  | _ => exact .inr (.inr (.inr fun h => h))

theorem finished (h : Fires r st x o) : o.st.finished = st.finished ∨ x = .finish := by
  cases h with
  | finish_now => exact .inr rfl
  | _ => exact .inl rfl

/-- The reset of a stream is followed by a broadcast. -/
theorem reset_broadcast (h : Fires r st x o) (hr : o.st.reset = true) :
    st.reset = true ∧ (x = .broadcast → o.st.cond = st.cond.broadcast) ∨
      .sect r .broadcast ∈ o.push := by
  cases h with
  | reset_set => exact .inr (by simp)
  | broadcast => exact .inl ⟨hr, fun _ => rfl⟩
  | ignored h => exact .inl ⟨hr, fun hx => by subst hx; cases h⟩
  | refused h => exact .inl ⟨hr, fun hx => by subst hx; cases h⟩
  | _ => exact .inl ⟨hr, by simp⟩

end Fires

end Stream

namespace View

variable {r : Ref} {v v' : View}

/-- A reset stream is about to wake its waiters. -/
def Waking (r : Ref) (v : View) : Prop := v.st.reset = true → .sect r .broadcast ∈ v.tasks

/-- A step that enters no critical section leaves the sections that are pending. -/
theorem Step.sect_mem {r' : Ref} {x : Section} (hs : Step r v none v')
    (h : .sect r' x ∈ v.tasks) : .sect r' x ∈ v'.tasks := by
  cases hs with
  | sent ht | lost ht =>
    refine Multiset.mem_add.mpr (.inr ?_)
    simpa [ht] using h
  | lead ht hl =>
    rcases Multiset.mem_cons.mp (ht ▸ h) with rfl | h
    · cases hl
    · exact Multiset.mem_add.mpr (.inr h)
  | detach ht =>
    refine Multiset.mem_cons_of_mem ?_
    simpa [ht] using h
  | arrive | call => simp [h]
  | fail hl ht =>
    refine Multiset.mem_cons_of_mem ?_
    rcases ht with ht | ht <;> simpa [ht] using h
  | down => exact h

theorem Leads.parked {st : Stream} {t : Task} {ts : Multiset Task} (h : Leads r st t ts) :
    ∀ t' ∈ ts, t'.parked = false := by
  cases h with
  | pump h =>
    intro t' ht'
    rw [← own_append] at ht'
    cases h.tasks t' (mem_own ht') <;> rfl
  | _ => simp [Task.parked]

/-- A step that enters no critical section parks nobody. -/
theorem Step.parked_mem {t : Task} (hs : Step r v none v') (hp : t.parked = true)
    (h : t ∈ v'.tasks) : t ∈ v.tasks := by
  have hfollows (hf : t.Follows r) : t ∈ v.tasks := by cases hf <;> simp [Task.parked] at hp
  cases hs.arises h with
  | kept hm => exact hm
  | sect hx ha => cases ha
  | sent hx hout hm => exact hfollows (Emission.sent_follows _ t hm)
  | lost hx hm => exact hfollows (Emission.failed_follows _ t hm)
  | lead h₀ hl hm => simp [hl.parked t hm] at hp
  | detach ht => simp [ht, Task.parked] at hp
  | arrive hid hheard hm => exact hfollows (Session.dispatch_follows _ t hm)
  | fail ht => simp [ht, Task.parked] at hp
  | call hs hc => cases hc <;> simp [Task.parked] at hp

/-- Who stays parked across a critical section was woken, or has nothing to do after it. -/
theorem waits_sect {x : Section} {o : Outcome} {rest : Multiset Task} {ticket : ℕ}
    {idle : Stream → Prop} (ht : v.tasks = .sect r x ::ₘ rest) (hf : Stream.Fires r v.st x o)
    (hidle : v.st.cond.woken ticket = false → idle v.st →
      o.st.cond = v.st.cond.broadcast ∨ idle o.st)
    (h : v.st.cond.Waits ticket (idle v.st ∧ v.Waking r)) :
    o.st.cond.Waits ticket (idle o.st ∧
      (o.st.reset = true → .sect r .broadcast ∈ own r o.push + rest)) := by
  rcases hf.wakes with hc | ⟨hc, -⟩
  · rw [hc]
    exact h.broadcast
  · have hne : o.st.cond ≠ v.st.cond.broadcast ∨ o.st.cond = v.st.cond.broadcast := ne_or_eq _ _
    rcases hne with hne | hc
    · -- nobody was woken: the waiters still have nothing to do
      have hkeep : v.st.cond.Waits ticket (idle o.st ∧
          (o.st.reset = true → .sect r .broadcast ∈ own r o.push + rest)) := by
        refine h.imp fun hn ⟨hi, hw⟩ => ⟨(hidle hn hi).resolve_left hne, fun hr => ?_⟩
        rcases hf.reset_broadcast hr with ⟨hr, hb⟩ | hpush
        · rcases Multiset.mem_cons.mp (ht ▸ hw hr) with he | hm
          · exact absurd (hb (by simpa using he.symm)) hne
          · exact Multiset.mem_add.mpr (.inr hm)
        · exact Multiset.mem_add.mpr
            (.inl (Multiset.mem_filter.mpr ⟨Multiset.mem_coe.mpr hpush, rfl⟩))
      rcases hc with hc | hc
      · rw [hc]
        exact hkeep
      · rw [hc]
        exact hkeep.enqueue
    · rw [hc]
      exact h.broadcast

/-- A stream that left the table is settled, or is about to be reset; one that is finished is
settled. -/
structure Left (r : Ref) (v : View) : Prop where
  finished : v.st.finished = true → v.Settled
  unlisted : v.listed = false → v.Settled ∨ ∃ cause, .sect r (.setReset cause) ∈ v.tasks

theorem Initial.left (h : Initial r v) : v.Left r := by
  cases h <;> exact ⟨by simp, by simp⟩

/-- A reset that is pending stays so until the stream is reset. -/
theorem Step.setReset_mem {a : Option Section} {cause : Cause} (hs : Step r v a v')
    (h : .sect r (.setReset cause) ∈ v.tasks) :
    v'.st.reset = true ∨ .sect r (.setReset cause) ∈ v'.tasks := by
  cases a with
  | none => exact .inr (hs.sect_mem h)
  | some x =>
    cases hs with
    | sect ht hf =>
      rcases Multiset.mem_cons.mp (ht ▸ h) with he | hm
      · obtain rfl : Section.setReset cause = x := by simpa using he
        cases hf with
        | reset_again hr => exact .inl hr
        | reset_set hr => exact .inl rfl
        | ignored h => cases h
        | refused h => cases h
      · exact .inr (Multiset.mem_add.mpr (.inr hm))

theorem Step.left {a : Option Section} (hs : Step r v a v') (hh : v.Handshake) (hq : v.Queues)
    (h : v.Left r) : v'.Left r := by
  constructor
  · intro hf
    apply hs.settled hh
    by_cases hold : v.st.finished = true
    · exact h.finished hold
    · -- `finish` runs on a settled stream
      rcases hs.fires with ⟨hst, -⟩ | ⟨x, o, -, hx, hfire, hst, -⟩
      · exact absurd (hst ▸ hf) hold
      · rw [hst] at hf
        rcases hfire.finished with he | rfl
        · exact absurd (he ▸ hf) hold
        · exact hq.settled _ hx rfl
  · intro hl
    by_cases hold : v.listed = false
    · rcases h.unlisted hold with hset | ⟨cause, hm⟩
      · exact .inl (hs.settled hh hset)
      · rcases hs.setReset_mem hm with hr | hm
        · exact .inl (.inl hr)
        · exact .inr ⟨cause, hm⟩
    · cases hs with
      | detach ht =>
        exact .inl ((Step.detach ht).settled hh (hq.settled (.detach r) (by simp [ht]) rfl))
      | fail hl ht => exact .inr ⟨.peerGone, by simp⟩
      | _ => exact absurd hl hold

/-! ## Write loops and the close -/

/-- `CloseWrite` does not close the direction itself while the write loop is parked. -/
def attended (v : View) : Section → Bool
  | .closeWrite => v.st.reset || v.st.localClosed || v.st.closeAfterFlush || !v.st.sendQ.isEmpty ||
      decide (∀ t ∈ v.tasks, t.asleep v.st.cond = false)
  | _ => true

/-- **The write loop does not sleep over the close of its direction.** -/
def Roused (r : Ref) (v : View) : Prop :=
  ∀ ticket, .sect r (.writeLoopWait ticket) ∈ v.tasks →
    v.st.cond.Waits ticket (v.st.Unflushed ∧ v.Waking r)

theorem Initial.roused (h : Initial r v) : v.Roused r := by
  cases h <;> simp [Roused]

theorem Step.roused {a : Option Section} (hs : Step r v a v') (hh : v.Handshake)
    (hG : ∀ x, a = some x → v.attended x = true) (h : v.Roused r) : v'.Roused r := by
  intro ticket hm
  cases a with
  | none =>
    obtain ⟨hst, -⟩ := hs.quiet
    rw [hst]
    refine (h ticket (hs.parked_mem rfl hm)).imp fun _ ⟨hi, hw⟩ => ⟨hi, fun hr => ?_⟩
    exact hs.sect_mem (hw (hst ▸ hr))
  | some x =>
    cases hs with
    | sect ht hf =>
      rcases Multiset.mem_add.mp hm with hm | hm
      · -- the write loop parks after it has looked
        rcases hf.parks with hp | ⟨hr, hc, ⟨hpush, -, hi⟩ | ⟨n, k, hpush, -⟩⟩
        · simpa [Task.parked] using hp _ (mem_own hm)
        · obtain rfl : ticket = v.st.cond.wait := by simpa [hpush] using mem_own hm
          rw [hc]
          exact .take ⟨hi, fun h => by simp [hr] at h⟩
        · simpa [hpush] using mem_own hm
      · have hmem : .sect r (.writeLoopWait ticket) ∈ v.tasks := by simp [ht, hm]
        refine waits_sect ht hf (fun hn hi => ?_) (h ticket hmem)
        rcases hf.flushes with hc | rfl | ⟨rfl, hr, hl, hc, hq⟩ | hkeep
        · exact .inl hc
        · -- there is one write loop
          exact absurd rfl (not_of_countP_le (p := fun t => t.chain = true) ht rfl hh.chain _ hm)
        · -- `CloseWrite` found the write loop asleep
          have hG := hG .closeWrite rfl
          simp only [attended, hr, hl, hc, hq, List.isEmpty_nil, Bool.not_true, Bool.or_self,
            Bool.false_or, decide_eq_true_eq] at hG
          have := hG _ hmem
          simp [Task.asleep, hn] at this
        · exact .inr (hkeep hi)

end View

namespace Session

variable {cfg : Config} {ok : Session → Label → Prop} {s : Session} {r : Ref} {st : Stream}

theorem left (h : Reaches step ok (new cfg) s) (hst : s.heap[r]? = some st) :
    (s.view r st).Left r :=
  (view_inductive (I := fun r v => v.Handshake ∧ v.Queues ∧ v.Left r)
    (fun _ _ hi => ⟨hi.handshake, hi.queues, hi.left⟩)
    (fun _ _ _ _ hs hv => ⟨hs.handshake hv.1, hs.queues hv.1 hv.2.1, hs.left hv.1 hv.2.1 hv.2.2⟩)
    h hst).2.2

theorem roused (hG : ∀ s l, ok s l → Guarded (fun v x => v.attended x = true) s l)
    (h : Reaches step ok (new cfg) s) (hst : s.heap[r]? = some st) : (s.view r st).Roused r :=
  (view_invariant (I := fun r v => v.Handshake ∧ v.Roused r) hG
    (fun _ _ hi => ⟨hi.handshake, hi.roused⟩)
    (fun _ _ _ _ hs hg hv => ⟨hs.handshake hv.1, hs.roused hv.1 hg hv.2⟩) h hst).2

/-- A goroutine is about to reset the stream, or to make the broadcast of a reset. -/
def Resetting (s : Session) (r : Ref) : Prop :=
  (∃ cause, .sect r (.setReset cause) ∈ s.tasksOf r) ∨ .sect r .broadcast ∈ s.tasksOf r

/-- A stream that left the table and is not about to be reset is settled. -/
theorem settled_of_left (h : Reaches step ok (new cfg) s) (hst : s.heap[r]? = some st)
    (hleft : s.closed = true ∨ st.finished = true) (hn : ¬s.Resetting r) :
    (s.view r st).Settled := by
  rcases hleft with hclosed | hf
  · refine ((left h hst).unlisted ?_).resolve_right fun ⟨cause, hm⟩ => hn (.inl ⟨cause, hm⟩)
    simp [view, viewOf, emptied h hclosed]
  · exact (left h hst).finished hf

/-- The write loop of a stream that left the table does not stay parked, unless `CloseWrite` passed
it over. -/
theorem loop_woken (hG : ∀ s l, ok s l → Guarded (fun v x => v.attended x = true) s l)
    (h : Reaches step ok (new cfg) s) (hst : s.heap[r]? = some st)
    (hleft : s.closed = true ∨ st.finished = true) {ticket : ℕ}
    (hm : .sect r (.writeLoopWait ticket) ∈ s.tasksOf r) :
    st.cond.woken ticket = true ∨ s.Resetting r := by
  by_contra hc
  obtain ⟨hw, hn⟩ := not_or.mp hc
  have hw : st.cond.woken ticket = false := by simpa using hw
  obtain ⟨hi, hb⟩ := (roused hG h hst ticket hm).idle hw
  obtain ⟨-, ha, ho, hlost⟩ := (handshake h hst).live (.inr ⟨_, hm, rfl⟩)
  rcases settled_of_left h hst hleft hn with
    hr | hl | ⟨⟨hq, -⟩, ⟨hcl, -⟩ | he | ⟨hac, -⟩⟩
  · exact hn (.inr (hb hr))
  · exact hlost hl
  · exact absurd hcl (by simp [hi hq])
  · exact he ho
  · exact absurd hac (by simp [ha])

end Session

end Mvcp.App
