import Mvcp.App.Entries
import Mvcp.App.Isolation

/-!
# Endpoints

The endpoint that `Handler.Open` returned, or that the application hands to `Bridge`, is closed by
the goroutine that has it: by `acceptOpen` if the stream cannot be accepted, by `Bridge` when both
of its copy loops have ended. None is forgotten, and `Bridge` does not return before the loops.
`acceptOpen` does not notice that the stream was reset while the handler ran.

## Main definitions

* `Task.bridges e`: the steps that lead to the start of `Bridge` with the endpoint `e`
* `Task.copies e`: the steps of the copy loops of `e`
* `Session.Kept`: what is known of an endpoint
* `View.Clings`: the endpoint of a finished stream that `finish` will not close

## Main results

* `Session.endpoint_kept`: an endpoint is closed, or somebody is about to close it, and `Bridge`
  waits for exactly the copy loops that have not ended
* `Session.accepted_after_reset`: a stream that was reset is accepted
-/

namespace Mvcp.App

open Library (Reaches Always pending pending_advance exists_reaches_of_run)

namespace Task

/-- The steps that lead to the start of `Bridge` with the endpoint. -/
def bridges (e : EpRef) : Task → Bool
  | sect _ (.acceptWindow e' _) | emit _ (.accept e' _) | pump _ e' .start => e' = e
  | _ => false

/-- The steps of the copy loops of the endpoint, up to `wg.Done`. -/
def copies (e : EpRef) : Task → Bool
  | pump _ _ .start => false
  | pump _ e' _ | sect _ (.write _ (.bridge e' _)) | bridgeDone e' => e' = e
  | sect _ (.read n (.bridge e' _)) | sect _ (.readWait n (.bridge e' _) _) => 0 < n ∧ e' = e
  | _ => false

end Task

namespace Stream.Fires

variable {r : Ref} {st : Stream} {x : Section} {o : Outcome} {e : EpRef}

theorem push_bridges (h : Fires r st x o) :
    o.push.countP (Task.bridges e) = if (Task.sect r x).bridges e then 1 else 0 := by
  cases h with
  | @read_data n k | @read_failed n k | @read_eof n k =>
    cases k <;> simp [Task.bridges, Caller.read, Caller.readFailed]
  | @write_zero k | @write_failed p k | @write_overflow p k | @write_queued p k =>
    cases k <;> simp [Task.bridges, Caller.wrote]
  | detachBytes => by_cases hb : 0 < st.sendBytes + st.inBytes <;> simp [hb, Task.bridges]
  | closeEndpoint => cases st.ep <;> simp [Task.bridges]
  | ignored hi => cases hi <;> simp [Task.bridges]
  | refused hr => cases hr <;> simp [Task.bridges]
  | _ => simp [Stream.park, Task.bridges, List.countP_cons]

/-- A section of a copy loop leads to the next step of the loop; a `Read` into no buffer, which no
copy loop makes, to none. -/
theorem push_copies (h : Fires r st x o) (hx : ∀ k, x = .read 0 k → o.push = []) :
    o.push.countP (Task.copies e) = if (Task.sect r x).copies e then 1 else 0 := by
  cases h with
  | @read_data n k c q hn =>
    cases k <;> simp [Task.copies, Caller.read, List.countP_cons, hn]
  | @read_failed n k | @read_eof n k =>
    rcases Nat.eq_zero_or_pos n with rfl | hn
    · rw [hx k rfl]
      cases k <;> simp [Task.copies]
    · cases k <;> simp [Task.copies, Caller.readFailed, List.countP_cons, hn]
  | @read_park n k | @read_woken n k | @read_zero k =>
    cases k <;> simp [Task.copies, List.countP_cons]
  | @write_zero k | @write_failed p k | @write_overflow p k | @write_queued p k =>
    cases k <;> simp [Task.copies, Caller.wrote, List.countP_cons]
  | detachBytes => by_cases hb : 0 < st.sendBytes + st.inBytes <;> simp [hb, Task.copies]
  | closeEndpoint => cases st.ep <;> simp [Task.copies]
  | ignored hi => cases hi <;> simp [Task.copies]
  | refused hr => cases hr <;> simp [Task.copies]
  | _ => simp [Stream.park, Task.copies]

end Stream.Fires

namespace Session

variable {cfg : Config} {ok : Session → Label → Prop} {s s' : Session} {e : EpRef}
variable {ep ep' : Endpoint} {t : Task} {n : Next} {l : Label}

/-- **What a step of a goroutine means for an endpoint.** -/
inductive Attends (e : EpRef) (ep ep' : Endpoint) (t : Task) (new : List Task) : Prop
  /-- The step leads to steps of the same kind, and nobody who closes the endpoint forgets it. -/
  | on (hb : new.countP (Task.bridges e) = if t.bridges e then 1 else 0)
      (hc : new.countP (Task.copies e) = if t.copies e then 1 else 0)
      (hr : ep'.running = ep.running) (hclose : t = .epClose e → ep'.closed = true)
  /-- The stream could not be accepted. -/
  | drop (ht : t.bridges e = true) (hb : new.countP (Task.bridges e) = 0)
      (hc : new.countP (Task.copies e) = 0) (hr : ep'.running = ep.running)
      (hclose : .epClose e ∈ new)
  /-- `Bridge` starts its copy loops. -/
  | start (ht : t.bridges e = true) (hb : new.countP (Task.bridges e) = 0)
      (hc : new.countP (Task.copies e) = 2) (hr : ep'.running = 2) (hclose : .epClose e ∈ new)
  /-- A copy loop ends. -/
  | done (ht : t.copies e = true) (hb : new.countP (Task.bridges e) = 0)
      (hc : new.countP (Task.copies e) = 0) (hr : ep'.running = ep.running - 1)

theorem Pumps.attends {r : Ref} {x : Pump} {push : List Task} {spawn : List (List Task)}
    (h : Pumps r e ep x ep' push spawn) :
    Attends e ep ep' (.pump r e x) (push ++ spawn.flatten) := by
  cases h with
  | start ht =>
    cases ht with
    | read hk =>
      exact .start (by simp [Task.bridges]) (by simp [Task.bridges]) (by simp [Task.copies, hk]) rfl
        (by simp)
    | done =>
      exact .start (by simp [Task.bridges]) (by simp [Task.bridges]) (by simp [Task.copies]) rfl
        (by simp)
  | write_ok ht =>
    cases ht with
    | read hk => exact .on (by simp [Task.bridges]) (by simp [Task.copies, hk]) rfl (by simp)
    | done => exact .on (by simp [Task.bridges]) (by simp [Task.copies]) rfl (by simp)
  | @read_nil err | @wrote err =>
    cases err <;>
      exact .on (by simp [copyIn, Task.bridges]) (by simp [copyIn, Task.copies]) rfl (by simp)
  | @inDone err | @outDone err =>
    cases err <;> exact .on (by simp [Task.bridges]) (by simp [Task.copies]) rfl (by simp)
  | _ => exact .on (by simp [Task.bridges]) (by simp [Task.copies]) rfl (by simp)

/-- A step of a copy loop of another endpoint. -/
theorem Pumps.elsewhere {r : Ref} {x : Pump} {e' : EpRef} {push : List Task}
    {spawn : List (List Task)} (h : Pumps r e' ep x ep' push spawn) (hne : e' ≠ e) :
    ∀ t ∈ .pump r e' x :: (push ++ spawn.flatten),
      t.bridges e = false ∧ t.copies e = false ∧ t ≠ .epClose e := by
  intro t hm
  have hmem : BridgeTask r e' t := by
    rcases List.mem_cons.mp hm with rfl | hm
    · exact .pump
    · exact h.tasks t hm
  cases hmem with
  | @pump y => cases y <;> simp [Task.bridges, Task.copies, hne]
  | _ => simp [Task.bridges, Task.copies, hne]

/-- That a step has nothing to do with the endpoint is seen by evaluation. -/
theorem idle_of_all {ts : List Task}
    (h : (ts.all fun t => !t.bridges e && !t.copies e) = true) :
    ∀ t ∈ ts, t.bridges e = false ∧ t.copies e = false := by
  simpa using h

/-- Steps that are nothing to the endpoint. -/
theorem attends_of_forall {new : List Task}
    (h : ∀ t' ∈ t :: new, t'.bridges e = false ∧ t'.copies e = false) (ht : t ≠ .epClose e)
    (hr : ep'.running = ep.running) : Attends e ep ep' t new := by
  have hnew {t' : Task} (hm : t' ∈ new) := h t' (List.mem_cons_of_mem t hm)
  obtain ⟨htb, htc⟩ := h t List.mem_cons_self
  refine .on ?_ ?_ hr fun he => absurd he ht
  · rw [htb]
    exact List.countP_eq_zero.mpr fun t' hm => by simp [(hnew hm).1]
  · rw [htc]
    exact List.countP_eq_zero.mpr fun t' hm => by simp [(hnew hm).2]

theorem Acts.attends (ha : Acts s t n) (hep : s.eps[e]? = some ep) :
    ∃ ep', n.sess.eps[e]? = some ep' ∧ (ep.closed = true → ep'.closed = true) ∧
      Attends e ep ep' t (n.push ++ n.spawn.flatten) := by
  obtain ⟨hlt, -⟩ := List.getElem?_eq_some_iff.mp hep
  have hne : s.eps.length ≠ e := hlt.ne'
  cases ha with
  | @sect r x st o hst hf ho =>
    -- a `Read` into no buffer returns at once, and tells nobody
    have hread : ∀ k, x = .read 0 k → o.push = [] := by
      rintro k rfl
      obtain rfl := Option.some.inj ho
      simp [Stream.read]
    refine ⟨ep, hep, id, .on ?_ ?_ rfl (by simp)⟩
    · simpa using hf.push_bridges
    · simpa using hf.push_copies hread
  | @emit_sent r x =>
    refine ⟨ep, hep, id, .on ?_ ?_ rfl (by simp)⟩
    · cases x <;> simp [Emission.sent, Task.bridges, List.countP_cons]
    · cases x <;> simp [Emission.sent, Task.copies]
  | @emit_lost r x =>
    refine ⟨ep, hep, id, ?_⟩
    -- the `APP_ACCEPT` is not written: `acceptOpen` closes the endpoint itself
    by_cases hx : ∃ metadata, x = .accept e metadata
    · obtain ⟨metadata, rfl⟩ := hx
      exact .drop (by simp [Task.bridges]) (by simp [Emission.failed, Task.bridges])
        (by simp [Emission.failed, Task.copies]) rfl (by simp [Emission.failed])
    · refine attends_of_forall ?_ (by simp) rfl
      cases x <;> simp_all [Emission.failed, Task.bridges, Task.copies]
  | @pump r e' x ep₀ ep₁ push spawn hep₀ hp =>
    by_cases he : e' = e
    · subst he
      obtain rfl := Option.some.inj (hep₀.symm.trans hep)
      refine ⟨ep₁, List.getElem?_set_self hlt, fun hc => ?_, hp.attends⟩
      cases hp <;> exact hc
    · refine ⟨ep, (List.getElem?_set_ne he).trans hep, id, attends_of_forall ?_ (by simp) rfl⟩
      exact fun t' hm => ⟨(hp.elsewhere he t' hm).1, (hp.elsewhere he t' hm).2.1⟩
  | @epClose e' ep₀ hep₀ =>
    by_cases he : e' = e
    · subst he
      obtain rfl := Option.some.inj (hep₀.symm.trans hep)
      exact ⟨_, List.getElem?_set_self hlt, fun _ => rfl,
        .on (by simp [Task.bridges]) (by simp [Task.copies]) rfl fun _ => rfl⟩
    · refine ⟨ep, (List.getElem?_set_ne he).trans hep, id, attends_of_forall ?_ ?_ rfl⟩
      · simp [Task.bridges, Task.copies]
      · simpa using he
  | @epCloseWrite e' ep₀ hep₀ =>
    by_cases he : e' = e
    · subst he
      obtain rfl := Option.some.inj (hep₀.symm.trans hep)
      refine ⟨_, List.getElem?_set_self hlt, fun hc => ?_, attends_of_forall ?_ (by simp) ?_⟩
      · unfold Session.epCloseWrite; split_ifs <;> simp [hc]
      · simp [Task.bridges, Task.copies]
      · unfold Session.epCloseWrite; split_ifs <;> rfl
    · exact ⟨ep, (List.getElem?_set_ne he).trans hep, id,
        attends_of_forall (by simp [Task.bridges, Task.copies]) (by simp) rfl⟩
  | @bridgeDone e' ep₀ hep₀ =>
    by_cases he : e' = e
    · subst he
      obtain rfl := Option.some.inj (hep₀.symm.trans hep)
      exact ⟨_, List.getElem?_set_self hlt, id,
        .done (by simp [Task.copies]) (by simp) (by simp) rfl⟩
    · exact ⟨ep, (List.getElem?_set_ne he).trans hep, id,
        attends_of_forall (by simp [Task.bridges, Task.copies, he]) (by simp) rfl⟩
  -- the endpoint that the handler returned is another one
  | handler_accepted | handler_oversized =>
    exact ⟨ep, (List.getElem?_append_left hlt).trans hep, id,
      attends_of_forall (by simp [Task.bridges, Task.copies, hne]) (by simp) rfl⟩
  | @lookup_found m =>
    refine ⟨ep, hep, id, attends_of_forall ?_ (by simp) rfl⟩
    cases m <;> exact idle_of_all rfl
  | fail_now =>
    refine ⟨ep, hep, id, attends_of_forall ?_ (by simp) rfl⟩
    intro t' hm
    rcases List.mem_cons.mp hm with rfl | hm
    · exact ⟨rfl, rfl⟩
    · cases failTask_of_mem (mem_push hm) <;> exact ⟨rfl, rfl⟩
  | @detach r st hst =>
    have heps : (s.delete r st.id).eps = s.eps := by unfold delete; split_ifs <;> rfl
    exact ⟨ep, heps ▸ hep, id, attends_of_forall (idle_of_all rfl) (by simp) rfl⟩
  | _ => exact ⟨ep, hep, id, attends_of_forall (idle_of_all rfl) (by simp) rfl⟩

/-- **An endpoint and the goroutines that have it.** -/
structure Kept (s : Session) (e : EpRef) : Prop where
  absent : s.eps[e]? = none →
    ∀ t ∈ pending s.threads, t.bridges e = false ∧ t.copies e = false
  held : ∀ ep, s.eps[e]? = some ep → ep.closed = false →
    ∃ t ∈ pending s.threads, t.bridges e = true ∨ t = .epClose e
  once : (pending s.threads).countP (fun t => t.bridges e = true) ≤ 1
  fresh : (pending s.threads).countP (fun t => t.bridges e = true) = 0 ∨
    (pending s.threads).countP (fun t => t.copies e = true) = 0
  running : ∀ ep, s.eps[e]? = some ep →
    ep.running = (pending s.threads).countP (fun t => t.copies e = true)

theorem kept_new (cfg : Config) (e : EpRef) : (new cfg).Kept e := by
  constructor <;> simp [new]

/-- A step of a goroutine keeps an endpoint that exists. -/
theorem Kept.attends {rest : Multiset Task} {new : List Task} (h : s.Kept e)
    (hep : s.eps[e]? = some ep) (hep' : s'.eps[e]? = some ep')
    (hpend : pending s.threads = t ::ₘ rest)
    (hpend' : pending s'.threads = (new : Multiset Task) + rest)
    (hclosed : ep.closed = true → ep'.closed = true) (ha : Attends e ep ep' t new) : s'.Kept e := by
  have hafter (p : Task → Bool) : (pending s'.threads).countP (fun t => p t = true) =
      new.countP p + rest.countP (fun t => p t = true) := by
    rw [hpend', Multiset.countP_add, Multiset.coe_countP]
    simp
  have hbefore (p : Task → Bool) : (pending s.threads).countP (fun t => p t = true) =
      rest.countP (fun t => p t = true) + if p t then 1 else 0 := by
    rw [hpend, Multiset.countP_cons]
  have honce := h.once
  have hfresh := h.fresh
  have hrunning := h.running ep hep
  rw [hbefore] at honce hrunning
  rw [hbefore, hbefore] at hfresh
  -- who is to close the endpoint, and is not the goroutine that takes the step
  have hothers {t' : Task} (hm : t' ∈ rest) : t' ∈ pending s'.threads := by
    rw [hpend']
    exact Multiset.mem_add.mpr (.inr hm)
  have hnew {t' : Task} (hm : t' ∈ new) : t' ∈ pending s'.threads := by
    rw [hpend']
    exact Multiset.mem_add.mpr (.inl hm)
  refine ⟨fun hn => by simp [hep'] at hn, ?_, ?_, ?_, ?_⟩
  · intro ep₁ hep₁ hc
    obtain rfl := Option.some.inj (hep'.symm.trans hep₁)
    have hopen : ep.closed = false := by
      cases hcl : ep.closed with
      | false => rfl
      | true => simp [hclosed hcl] at hc
    obtain ⟨t', hm, hheld⟩ := h.held ep hep hopen
    rcases Multiset.mem_cons.mp (hpend ▸ hm) with rfl | hm
    · cases ha with
      | on hb hcp hr hclose =>
        rcases hheld with ht | ht
        · rw [if_pos ht] at hb
          obtain ⟨t'', hm'', ht''⟩ := List.countP_pos_iff.mp (hb ▸ Nat.one_pos)
          exact ⟨t'', hnew hm'', .inl ht''⟩
        · simp [hclose ht] at hc
      | drop _ _ _ _ hclose | start _ _ _ _ hclose => exact ⟨_, hnew hclose, .inr rfl⟩
      | done ht =>
        rcases hheld with hb | rfl
        · -- a step of a copy loop does not lead to the start of `Bridge`
          rw [if_pos hb, if_pos ht] at hfresh
          omega
        · simp [Task.copies] at ht
    · exact ⟨t', hothers hm, hheld⟩
  · rw [hafter]
    cases ha with
    | on hb => rw [hb]; omega
    | drop _ hb | start _ hb | done _ hb => rw [hb]; omega
  · rw [hafter, hafter]
    cases ha with
    | on hb hc => rw [hb, hc]; omega
    | drop ht hb hc | start ht hb hc => rw [hb]; rw [if_pos ht] at honce; omega
    | done ht hb hc => rw [hb, hc]; rw [if_pos ht] at hfresh; omega
  · intro ep₁ hep₁
    obtain rfl := Option.some.inj (hep'.symm.trans hep₁)
    rw [hafter]
    cases ha with
    | on hb hc hr => rw [hc, hr]; omega
    | drop ht hb hc hr => rw [hc, hr]; rw [if_pos ht] at hfresh; omega
    | start ht hb hc hr => rw [hc, hr]; rw [if_pos ht] at hfresh; omega
    | done ht hb hc hr => rw [hc, hr]; rw [if_pos ht] at hrunning; omega

/-- The steps that come up with an endpoint. -/
structure Created (e : EpRef) (new : List Task) : Prop where
  held : ∃ t ∈ new, t.bridges e = true ∨ t = .epClose e
  once : new.countP (Task.bridges e) ≤ 1
  copies : ∀ t ∈ new, t.copies e = false

/-- A step of a goroutine is nothing to an endpoint that does not exist, or creates it. -/
theorem Acts.absent (ha : Acts s t n) (he : s.eps[e]? = none)
    (ht : t.bridges e = false ∧ t.copies e = false) :
    (n.sess.eps[e]? = none ∧
      ∀ t' ∈ n.push ++ n.spawn.flatten, t'.bridges e = false ∧ t'.copies e = false) ∨
    ∃ halfClose, n.sess.eps[e]? = some { halfClose } ∧ Created e (n.push ++ n.spawn.flatten) := by
  have hlen : s.eps.length ≤ e := List.getElem?_eq_none_iff.mp he
  have hlt {e' : EpRef} {ep : Endpoint} (h : s.eps[e']? = some ep) : e' ≠ e :=
    ((List.getElem?_eq_some_iff.mp h).1.trans_le hlen).ne
  have hset {e' : EpRef} {ep : Endpoint} : (s.eps.set e' ep)[e]? = none := by
    simpa using hlen
  cases ha with
  | @sect r x st o hst hf ho =>
    have hread : ∀ k, x = .read 0 k → o.push = [] := by
      rintro k rfl
      obtain rfl := Option.some.inj ho
      simp [Stream.read]
    have hb := hf.push_bridges (e := e)
    have hc := hf.push_copies (e := e) hread
    rw [ht.1] at hb
    rw [ht.2] at hc
    refine .inl ⟨he, fun t' hm => ⟨?_, ?_⟩⟩
    · simpa using List.countP_eq_zero.mp hb t' (by simpa using hm)
    · simpa using List.countP_eq_zero.mp hc t' (by simpa using hm)
  | @emit_sent r x =>
    refine .inl ⟨he, ?_⟩
    cases x <;> simp_all [Emission.sent, Task.bridges, Task.copies]
  | @emit_lost r x =>
    refine .inl ⟨he, ?_⟩
    cases x <;> exact idle_of_all rfl
  | pump hep hp =>
    refine .inl ⟨hset, fun t' hm => ?_⟩
    obtain ⟨hb, hc, -⟩ := hp.elsewhere (hlt hep) t' (List.mem_cons_of_mem _ hm)
    exact ⟨hb, hc⟩
  | epClose | epCloseWrite | bridgeDone => exact .inl ⟨hset, by simp⟩
  | @handler_accepted r metadata acceptMeta halfClose =>
    -- the endpoint that the handler returned is `e`, or one before it
    rcases hlen.eq_or_lt with rfl | hlt
    · refine .inr ⟨halfClose, List.getElem?_concat_length, ?_, ?_, ?_⟩ <;>
        simp [Task.bridges, Task.copies]
    · refine .inl ⟨?_, by simp [Task.bridges, Task.copies, hlt.ne]⟩
      simpa using Nat.succ_le_of_lt hlt
  | @handler_oversized r metadata acceptMeta halfClose =>
    rcases hlen.eq_or_lt with rfl | hlt
    · refine .inr ⟨halfClose, List.getElem?_concat_length, ?_, ?_, ?_⟩ <;>
        simp [Task.bridges, Task.copies]
    · refine .inl ⟨?_, by simp [Task.bridges, Task.copies]⟩
      simpa using Nat.succ_le_of_lt hlt
  | @lookup_found m =>
    refine .inl ⟨he, ?_⟩
    cases m <;> exact idle_of_all rfl
  | fail_now =>
    refine .inl ⟨he, fun t' hm => ?_⟩
    cases failTask_of_mem (mem_push hm) <;> exact ⟨rfl, rfl⟩
  | @detach r st hst =>
    have heps : (s.delete r st.id).eps = s.eps := by unfold delete; split_ifs <;> rfl
    exact .inl ⟨heps ▸ he, idle_of_all rfl⟩
  | _ => exact .inl ⟨he, idle_of_all rfl⟩

/-- An endpoint that was just created. -/
theorem Created.kept {new : List Task} {rest : Multiset Task} {halfClose : Bool}
    (h : Created e new) (hep : s'.eps[e]? = some { halfClose })
    (hrest : ∀ t ∈ rest, t.bridges e = false ∧ t.copies e = false)
    (hpend : pending s'.threads = (new : Multiset Task) + rest) : s'.Kept e := by
  have hcopies : (pending s'.threads).countP (fun t => t.copies e = true) = 0 := by
    refine Multiset.countP_eq_zero.mpr fun t hm => ?_
    rcases Multiset.mem_add.mp (hpend ▸ hm) with hm | hm
    · simp [h.copies t hm]
    · simp [(hrest t hm).2]
  refine ⟨fun hn => by simp [hep] at hn, fun _ _ _ => ?_, ?_, .inr hcopies, fun ep hep₁ => ?_⟩
  · obtain ⟨t, hm, ht⟩ := h.held
    exact ⟨t, hpend ▸ Multiset.mem_add.mpr (.inl hm), ht⟩
  · have hzero : rest.countP (fun t => t.bridges e = true) = 0 :=
      Multiset.countP_eq_zero.mpr fun t hm => by simp [(hrest t hm).1]
    rw [hpend, Multiset.countP_add, hzero, Multiset.coe_countP]
    simpa using h.once
  · obtain rfl := Option.some.inj (hep.symm.trans hep₁)
    exact hcopies.symm

/-- Steps that are nothing to the endpoint come up. -/
theorem Kept.more (ts : List Task) (h : s.Kept e) (hep : s'.eps[e]? = s.eps[e]?)
    (hpend : pending s'.threads = (ts : Multiset Task) + pending s.threads)
    (hts : ∀ t ∈ ts, t.bridges e = false ∧ t.copies e = false) : s'.Kept e := by
  have hb : (pending s'.threads).countP (fun t => t.bridges e = true) =
      (pending s.threads).countP (fun t => t.bridges e = true) := by
    rw [hpend, Multiset.countP_add,
      Multiset.countP_eq_zero.mpr fun t hm => by simp [(hts t hm).1], zero_add]
  have hc : (pending s'.threads).countP (fun t => t.copies e = true) =
      (pending s.threads).countP (fun t => t.copies e = true) := by
    rw [hpend, Multiset.countP_add,
      Multiset.countP_eq_zero.mpr fun t hm => by simp [(hts t hm).2], zero_add]
  refine ⟨fun hn t hm => ?_, fun ep hep' hopen => ?_, ?_, ?_, fun ep hep' => ?_⟩
  · rcases Multiset.mem_add.mp (hpend ▸ hm) with hm | hm
    · exact hts t hm
    · exact h.absent (hep ▸ hn) t hm
  · obtain ⟨t, hm, ht⟩ := h.held ep (hep ▸ hep') hopen
    exact ⟨t, hpend ▸ Multiset.mem_add.mpr (.inr hm), ht⟩
  · exact hb ▸ h.once
  · exact hb ▸ hc ▸ h.fresh
  · exact hc ▸ h.running ep (hep ▸ hep')

/-- A step of a goroutine. -/
theorem Kept.run {i : ℕ} {rest : List Task} (h : s.Kept e)
    (ht : s.threads[i]? = some (t :: rest)) (ha : Acts s t n) :
    Kept { n.sess with threads := Library.advance s.threads i (n.push ++ rest) n.spawn } e := by
  obtain ⟨others, hpend, hafter⟩ := pending_advance ht
  have hpend' : pending (Library.advance s.threads i (n.push ++ rest) n.spawn) =
      ((n.push ++ n.spawn.flatten : List Task) : Multiset Task) + others := by
    rw [hafter, ← Multiset.coe_add]
    rfl
  cases hep : s.eps[e]? with
  | some ep =>
    obtain ⟨ep', hep', hclosed, hattends⟩ := ha.attends hep
    exact h.attends hep hep' hpend hpend' hclosed hattends
  | none =>
    have habsent {t' : Task} (hm : t' ∈ t ::ₘ others) := h.absent hep t' (hpend ▸ hm)
    have hothers : ∀ t' ∈ others, t'.bridges e = false ∧ t'.copies e = false :=
      fun t' hm => habsent (Multiset.mem_cons_of_mem hm)
    rcases ha.absent hep (habsent (Multiset.mem_cons_self t others)) with
      ⟨hnone, hnew⟩ | ⟨halfClose, hep', hc⟩
    · -- neither before nor after the step has anybody the endpoint
      have hall : ∀ t' ∈ ((n.push ++ n.spawn.flatten : List Task) : Multiset Task) + others,
          t'.bridges e = false ∧ t'.copies e = false := by
        intro t' hm
        rcases Multiset.mem_add.mp hm with hm | hm
        · exact hnew t' hm
        · exact hothers t' hm
      have hb : (((n.push ++ n.spawn.flatten : List Task) : Multiset Task) + others).countP
          (fun t => t.bridges e = true) = 0 :=
        Multiset.countP_eq_zero.mpr fun t' hm => by simp [(hall t' hm).1]
      have hsome {ep : Endpoint} (h : n.sess.eps[e]? = some ep) : False := by simp [hnone] at h
      exact ⟨fun _ => hpend' ▸ hall, fun ep h _ => (hsome h).elim,
        hpend' ▸ hb.trans_le (Nat.zero_le 1), .inl (hpend' ▸ hb), fun ep h => (hsome h).elim⟩
    · exact hc.kept hep' hothers hpend'

/-- What a call or the handling of a frame begins with, but for `Bridge`. -/
theorem Started.idle (h : Started s t) (hb : ∀ r, t ≠ .pump r e .start) :
    t.bridges e = false ∧ t.copies e = false := by
  cases h with
  | @callOn r t hs hc =>
    cases hc with
    | @bridge e' =>
      have he : e' ≠ e := fun he => hb r (by rw [he])
      exact ⟨by simp [Task.bridges, he], rfl⟩
    | _ => exact ⟨rfl, rfl⟩
  | _ => exact ⟨rfl, rfl⟩

/-- **Every step keeps the endpoints.** -/
theorem Kept.step (h : s.Kept e) (hs : s.step l = some s') : s'.Kept e := by
  have hon {r : Ref} {t : Task} (hc : s.callOn r [t] = some s')
      (ht : t.bridges e = false ∧ t.copies e = false) : s'.Kept e := by
    obtain ⟨-, rfl⟩ := callOn_eq_some hc
    exact h.more [t] rfl (by simp [Library.pending_append, add_comm]) (by simpa using ht)
  cases l with
  | run i c =>
    cases moves_of_step hs with
    | run ht ha => exact h.run ht ha
  | call c =>
    cases c with
    | write | read | closeWrite | reset => exact hon hs ⟨rfl, rfl⟩
    | «open» service metadata =>
      obtain rfl := Option.some.inj hs
      exact h.more [.open service metadata] rfl
        (by simp [Library.pending_append, add_comm]) (idle_of_all rfl)
    | close =>
      obtain rfl := Option.some.inj hs
      exact h.more [.fail none, .wgWait, .closeReturn] rfl
        (by simp [Library.pending_append, add_comm]) (idle_of_all rfl)
    | bridge r halfClose =>
      obtain ⟨s₁, hs₁, rfl⟩ := Option.map_eq_some_iff.mp hs
      obtain ⟨-, rfl⟩ := callOn_eq_some hs₁
      have hpend : pending (s.threads ++ [[.pump r s.eps.length .start]]) =
          (([.pump r s.eps.length .start] : List Task) : Multiset Task) + pending s.threads := by
        simp [Library.pending_append, add_comm]
      -- the application brings a new endpoint
      by_cases he : e = s.eps.length
      · subst he
        have hc : Created s.eps.length [.pump r s.eps.length .start] := by
          constructor <;> simp [Task.bridges, Task.copies]
        exact hc.kept List.getElem?_concat_length (h.absent (by simp)) hpend
      · refine h.more _ ?_ hpend (by simp [Task.bridges, Task.copies, Ne.symm he])
        rcases Nat.lt_or_gt_of_ne he with hlt | hgt
        · exact List.getElem?_append_left hlt
        · have hnone : s.eps[e]? = none := List.getElem?_eq_none_iff.mpr hgt.le
          rw [hnone, List.getElem?_eq_none_iff]
          simpa using Nat.succ_le_of_lt hgt
  | recv f =>
    cases moves_of_step hs with
    | recv hserve hserved =>
      have hts := starts_serve (s := s) hserve (List.prefix_append _ [f])
        (handleFrame_started s.cfg.registry f)
      refine h.more _ rfl hts.pending fun t hm => (hts.started t hm).idle ?_
      rintro r rfl
      simpa using handleFrame_ref s.cfg.registry f _ hm
  | readError =>
    cases moves_of_step hs with
    | readError hserve hserved =>
      have hstarted : ∀ t ∈ [.fail none, .stopServe], Started s t := by
        simp [Started.fail, Started.stopServe]
      have hts := starts_serve hserve List.prefix_rfl hstarted
      exact h.more _ rfl hts.pending (idle_of_all rfl)
  | connLost =>
    obtain rfl := Option.some.inj hs
    exact ⟨h.absent, h.held, h.once, h.fresh, h.running⟩

theorem kept (h : Reaches step ok (new cfg) s) (e : EpRef) : s.Kept e :=
  h.invariant (I := fun s => s.Kept e) (kept_new cfg e) fun _ _ _ _ _ hs ih => ih.step hs

/-- **No endpoint is forgotten**: it is closed, or a goroutine is about to close it, or to start
`Bridge` with it, which will; and `Bridge` waits for as many copy loops as have not ended. -/
theorem endpoint_kept (h : Reachable cfg s) (hep : s.eps[e]? = some ep) :
    (ep.closed = true ∨ ∃ t ∈ pending s.threads, t.bridges e = true ∨ t = .epClose e) ∧
      ep.running = (pending s.threads).countP (fun t => t.copies e = true) := by
  have hk := kept h e
  refine ⟨?_, hk.running ep hep⟩
  cases hc : ep.closed with
  | true => exact .inl rfl
  | false => exact .inr (hk.held ep hep hc)

/-- The guest accepts stream 1 of the host for an endpoint that supports half-close, or not. -/
def acceptRun (halfClose : Bool) : List Label :=
  List.flatten
    [[.recv (Outgoing.app (.appOpen 1 (text "svc") [])).frame, .run 0 .go, .run 1 .go,
      .run 1 (.handler (.accept halfClose []))], .replicate 6 (.run 1 .go)]

/-- The copy loops of an accepted stream run, and `Bridge` waits for the two of them. -/
theorem endpoint_kept_accepted :
    ∃ s ep, Reachable { role := .guest } s ∧ s.eps[0]? = some ep ∧ ep.closed = false ∧
      (∃ t ∈ pending s.threads, t.bridges 0 = true ∨ t = .epClose 0) ∧
      (pending s.threads).countP (fun t => t.copies 0 = true) = 2 := by
  obtain ⟨s, hs, hp⟩ := exists_reaches_of_run step Always (new { role := .guest })
    (fun s => s.eps[0]?.any fun ep : Endpoint => !ep.closed && ep.running = 2)
    (acceptRun false) (by decide)
  simp only [Bool.and_eq_true, Option.any_eq_true, Bool.not_eq_true', decide_eq_true_eq] at hp
  obtain ⟨ep, hep, hopen, hrun⟩ := hp
  obtain ⟨hheld, hcount⟩ := endpoint_kept hs hep
  exact ⟨s, ep, hs, hep, hopen, hheld.resolve_left (by simp [hopen]), hcount.symm.trans hrun⟩

end Session

/-! ## Accepting a stream that was reset -/

namespace Stream.Fires

variable {r : Ref} {st : Stream} {x : Section} {o : Outcome}

/-- `finish` closes the endpoint of a stream once. -/
theorem finished_push (h : Fires r st x o) (hf : st.finished = true) :
    o.st.finished = true ∧ .sect r .closeEndpoint ∉ o.push := by
  cases h with
  | @read_data n k | @read_failed n k | @read_eof n k =>
    exact ⟨hf, by cases k <;> simp [Caller.read, Caller.readFailed]⟩
  | @write_zero k | @write_failed p k | @write_overflow p k | @write_queued p k =>
    exact ⟨hf, by cases k <;> simp [Caller.wrote]⟩
  | finish_now hnot => simp [hf] at hnot
  | detachBytes => exact ⟨hf, by split_ifs <;> simp⟩
  | closeEndpoint => exact ⟨hf, by simp⟩
  | _ => exact ⟨hf, by simp [Stream.park]⟩

theorem ep_isSome (h : Fires r st x o) (hx : x ≠ .closeEndpoint) (hep : st.ep.isSome = true) :
    o.st.ep.isSome = true := by
  cases h with
  | closeEndpoint => exact absurd rfl hx
  | attachEndpoint => rfl
  | _ => exact hep

end Stream.Fires

namespace View

variable {r : Ref} {v v' : View} {a : Option Section}

/-- Nobody starts to close the endpoint of a stream that is finished. -/
theorem Step.finished_unclosed (hs : Step r v a v') (hf : v.st.finished = true)
    (hc : .sect r .closeEndpoint ∉ v.tasks) :
    v'.st.finished = true ∧ .sect r .closeEndpoint ∉ v'.tasks := by
  refine ⟨?_, fun hm => ?_⟩
  · cases hs with
    | sect ht hfire => exact (hfire.finished_push hf).1
    | _ => exact hf
  · cases hs.arises hm with
    | kept hm => exact hc hm
    | sect hx ha hfire hst hm => exact (hfire.finished_push hf).2 hm
    | @sent x hx hout hm => cases x <;> simp [Emission.sent] at hm
    | @lost x hx hm => cases x <;> simp [Emission.failed] at hm
    | lead h₀ hl hm =>
      cases hl with
      | pump h =>
        rw [← own_append] at hm
        cases h.tasks _ (mem_own hm)
      | _ => simp at hm
    | detach ht => simp at ht
    | @arrive m hid hheard hm => cases m <;> simp [Session.dispatch] at hm
    | fail ht => simp at ht
    | call hs hc => cases hc

/-- The stream is finished, and the endpoint that is attached to it will not be closed by
`finish`. -/
structure Clings (r : Ref) (v : View) : Prop where
  finished : v.st.finished = true
  ep : v.st.ep.isSome = true
  unclosed : .sect r .closeEndpoint ∉ v.tasks

theorem Step.clings (hs : Step r v a v') (h : v.Clings r) : v'.Clings r := by
  obtain ⟨hfin, hc⟩ := hs.finished_unclosed h.finished h.unclosed
  refine ⟨hfin, ?_, hc⟩
  cases hs with
  | sect ht hfire =>
    refine hfire.ep_isSome ?_ h.ep
    rintro rfl
    exact h.unclosed (by simp [ht])
  | _ => exact h.ep

end View

namespace Session

variable {cfg : Config} {s s' : Session} {i : ℕ} {r : Ref} {e : EpRef} {st : Stream}
variable {metadata : Bytes} {rest : List Task}

/-- What every step of a stream keeps, it keeps from any state on. -/
theorem view_kept {I : View → Prop} (hI : ∀ v a v', View.Step r v a v' → I v → I v')
    (h : Reachable cfg s) (hst : s.heap[r]? = some st) (hv : I (s.view r st))
    (hs : Reaches step Always s s') : ∃ st', s'.heap[r]? = some st' ∧ I (s'.view r st') :=
  view_stays h hst hs hv (fun v v' hs hv => hI v none v' hs hv)
    fun v x _ v' he hv => hI v (some x) v' he.step hv

/-- The goroutine enters a critical section, which writes no frame. -/
theorem step_enters {x : Section} {o : Outcome} (hi : s.threads[i]? = some (.sect r x :: rest))
    (hst : s.heap[r]? = some st) (ho : st.enter r s.cfg.observer s.buffered x = some o) :
    ∃ s', s.step (.run i .go) = some s' ∧ s'.out = s.out ∧ s'.connUp = s.connUp ∧
      s'.heap[r]? = some o.st ∧ s'.threads[i]? = some (o.push ++ rest) :=
  ⟨_, step_sect hi hst ho, rfl, rfl, entered_heap hst, entered_threads hi⟩

theorem markOpened_keeps (r : Ref) (observer : Bool) (st : Stream) :
    (st.markOpened r observer).push = [] ∧ (st.markOpened r observer).st.id = st.id ∧
      (st.markOpened r observer).st.reset = st.reset := by
  unfold Stream.markOpened
  split_ifs <;> exact ⟨rfl, rfl, rfl⟩

theorem step_emit_accept (hup : s.connUp = true) (hm : metadata.length ≤ appMaxMetaBytes)
    (hi : s.threads[i]? = some (.emit r (.accept e metadata) :: rest))
    (hst : s.heap[r]? = some st) :
    ∃ s', s.step (.run i .go) = some s' ∧
      s'.out = s.out ++ [⟨some r, .app (.appAccept st.id metadata (.ofNat appInitialWindow))⟩] ∧
      s'.heap[r]? = some st ∧
      s'.threads[i]? = some (.sect r (.attachEndpoint e) :: .startWriteLoop r ::
        .pump r e .start :: rest) := by
  have hok : (AppMessage.appAccept st.id metadata (.ofNat appInitialWindow)).marshalBinary.isOk =
      true := Emission.marshals (x := .accept e metadata) (by simpa [Emission.fits] using hm) st
  refine ⟨{ s with
      out := s.out ++ [⟨some r, .app (.appAccept st.id metadata (.ofNat appInitialWindow))⟩],
      threads := Library.advance s.threads i (.sect r (.attachEndpoint e) :: .startWriteLoop r ::
        .pump r e .start :: rest) [] }, ?_, rfl, hst,
    Library.advance_getElem?_self (List.getElem?_eq_some_iff.mp hi).1⟩
  simp [step, hi, exec, hst, sendApp, hup, hok, Emission.sent, Emission.message]

/-- `acceptOpen` sends the accept and attaches the endpoint, whatever became of the stream. -/
theorem accept_alone (h : Reachable cfg s) (hup : s.connUp = true)
    (hi : s.threads[i]? = some (.sect r (.acceptWindow e metadata) :: rest))
    (hst : s.heap[r]? = some st) :
    ∃ s' st', s.alone i 4 = some s' ∧
      s'.out = s.out ++ [⟨some r, .app (.appAccept st.id metadata (.ofNat appInitialWindow))⟩] ∧
      s'.heap[r]? = some st' ∧ st'.ep = some e ∧ st'.reset = st.reset := by
  have hm : metadata.length ≤ appMaxMetaBytes := by
    simpa [Task.fits] using (sender h hst).fits _ (mem_tasksOf.mpr ⟨mem_pending_of_head hi, rfl⟩)
  obtain ⟨s₁, h₁, hout₁, hup₁, hst₁, hi₁⟩ := step_enters hi hst rfl
  obtain ⟨s₂, h₂, hout₂, hup₂, hst₂, hi₂⟩ := step_enters hi₁ hst₁ rfl
  obtain ⟨hpush, hid, hreset⟩ :=
    markOpened_keeps r s₁.cfg.observer (st.acceptWindow r e metadata).st
  rw [hpush] at hi₂
  obtain ⟨s₃, h₃, hout₃, hst₃, hi₃⟩ := step_emit_accept (by rw [hup₂, hup₁, hup]) hm hi₂ hst₂
  obtain ⟨s₄, h₄, hout₄, -, hst₄, -⟩ := step_enters hi₃ hst₃ rfl
  refine ⟨s₄, _, ?_, ?_, hst₄, rfl, hreset⟩
  · rw [alone_succ, h₁, Option.bind_some, alone_succ, h₂, Option.bind_some, alone_succ, h₃,
      Option.bind_some, alone_one, h₄]
  · rw [hout₄, hout₃, hout₂, hout₁, hid]
    rfl

/-- **A stream that was reset is accepted all the same**: `acceptOpen` does not look at the stream
after the handler returned. It sends `APP_ACCEPT`, and attaches the endpoint; and if `finish` is
through with the stream by then, the endpoint is attached to it for good. -/
theorem accepted_after_reset (h : Reachable cfg s) (hup : s.connUp = true)
    (hi : s.threads[i]? = some (.sect r (.acceptWindow e metadata) :: rest))
    (hst : s.heap[r]? = some st) (hreset : st.reset = true) :
    ∃ s' st', s.alone i 4 = some s' ∧
      s'.out = s.out ++ [⟨some r, .app (.appAccept st.id metadata (.ofNat appInitialWindow))⟩] ∧
      s'.heap[r]? = some st' ∧ st'.reset = true ∧ st'.ep = some e ∧
      (st.finished = true → .sect r .closeEndpoint ∉ s.tasksOf r →
        ∀ t, Reaches step Always s' t →
          ∃ u, t.heap[r]? = some u ∧ u.finished = true ∧ u.ep.isSome = true) := by
  obtain ⟨s', st', halone, hout, hst', hep, hr⟩ := accept_alone h hup hi hst
  refine ⟨s', st', halone, hout, hst', hr.trans hreset, hep, fun hfin hc t ht => ?_⟩
  have hs' : Reaches step Always s s' := Library.reaches_of_run halone
  obtain ⟨st₁, hst₁, hfin', hc'⟩ := view_kept
    (I := fun v => v.st.finished = true ∧ .sect r .closeEndpoint ∉ v.tasks)
    (fun v a v' hs hv => hs.finished_unclosed hv.1 hv.2) h hst ⟨hfin, hc⟩ hs'
  obtain rfl := Option.some.inj (hst'.symm.trans hst₁)
  obtain ⟨u, hu, hclings⟩ := view_kept (fun v a v' hs hv => View.Step.clings hs hv) (h.trans hs')
    hst' ⟨hfin', by simp [view, viewOf, hep], hc'⟩ ht
  exact ⟨u, hu, hclings.finished, hclings.ep⟩

/-- The peer opens a stream and resets it while the handler runs. -/
theorem accepted_after_reset_open :
    ∃ s s' st', Reachable { role := .guest } s ∧ s.alone 1 4 = some s' ∧
      s'.out = s.out ++ [⟨some 0, .app (.appAccept 1 [] (.ofNat appInitialWindow))⟩] ∧
      s'.heap[0]? = some st' ∧ st'.reset = true ∧
      ∀ t, Reaches step Always s' t →
        ∃ u, t.heap[0]? = some u ∧ u.finished = true ∧ u.ep.isSome = true := by
  obtain ⟨s, hs, hp⟩ := exists_reaches_of_run step Always (new { role := .guest })
    (fun s => s.connUp && s.threads == [[], [.sect 0 (.acceptWindow 0 [])]] &&
      s.heap[0]?.any fun st : Stream => st.id == 1 && st.reset && st.finished)
    (List.flatten
      [[.recv (Outgoing.app (.appOpen 1 (text "svc") [])).frame, .run 0 .go, .run 1 .go,
        .recv (Outgoing.app (.appReset 1 0 [])).frame], .replicate 7 (.run 0 .go),
        [.run 1 (.handler (.accept false []))]])
    (by decide)
  simp only [Bool.and_eq_true, beq_iff_eq, Option.any_eq_true] at hp
  obtain ⟨⟨hup, hthreads⟩, st, hst, ⟨hid, hreset⟩, hfin⟩ := hp
  obtain ⟨s', st', halone, hout, hst', hr, -, hfor⟩ :=
    accepted_after_reset (i := 1) hs hup (by rw [hthreads]; rfl) hst hreset
  rw [hid] at hout
  exact ⟨s, s', st', hs, halone, hout, hst', hr, hfor hfin (by simp [tasksOf, hthreads])⟩

end Session

end Mvcp.App
