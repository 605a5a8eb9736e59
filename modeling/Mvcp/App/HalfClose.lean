import Mvcp.App.Endpoints
import Mvcp.App.Shutdown

/-!
# Half-close

Both copy loops of `Bridge` call `closeWrite(ep)` when they end, also the one that reads from the
endpoint. Whichever ends first closes the endpoint for the other: what the peer sends after the end
of the endpoint's input is not written to the endpoint.

## Main definitions

* `Endpoint.shut`: the endpoint is closed, or closed for writing
* `Session.ConnLike`: neither `Write` nor `ReadFrom` of such an endpoint takes a byte

## Main results

* `Session.shut_of_running`: when one copy loop is left, the endpoint is closed for writing
* `Session.half_close_cuts`: it takes no byte from then on
-/

namespace Mvcp.App

open Library (Reaches Always exists_reaches_of_run)

/-- `Write` on the endpoint fails. -/
def Endpoint.shut (ep : Endpoint) : Bool := ep.closed || ep.writeClosed

theorem Endpoint.shut_epCloseWrite (ep : Endpoint) : (Session.epCloseWrite ep).shut = true := by
  unfold Session.epCloseWrite
  split_ifs <;> simp [Endpoint.shut]

theorem Stream.Fires.not_bridgeDone {r : Ref} {st : Stream} {x : Section} {o : Outcome} {e : EpRef}
    (h : Fires r st x o) : .bridgeDone e ∉ o.push := by
  cases h with
  | @read_data n k | @read_failed n k | @read_eof n k =>
    cases k <;> simp [Caller.read, Caller.readFailed]
  | @write_zero k | @write_failed p k | @write_overflow p k | @write_queued p k =>
    cases k <;> simp [Caller.wrote]
  | detachBytes => by_cases hb : 0 < st.sendBytes + st.inBytes <;> simp [hb]
  | closeEndpoint => cases st.ep <;> simp
  | ignored hi => cases hi <;> simp
  | refused hr => cases hr <;> simp
  | _ => simp [Stream.park]

namespace Session

variable {cfg : Config} {ok : Session → Label → Prop} {s s' : Session} {e : EpRef}
variable {ep ep' : Endpoint} {t : Task} {n : Next} {l : Label} {before after rest : List Task}

/-- An endpoint whose `Write` fails stays so, and only a `Write` that fails may change what it has
taken. -/
theorem Acts.shut (ha : Acts s t n) (hep : s.eps[e]? = some ep) (hs : ep.shut = true) :
    ∃ ep', n.sess.eps[e]? = some ep' ∧ ep'.shut = true ∧
      (ep'.written = ep.written ∨ ∃ r p, t = .pump r e (.writeEp p)) := by
  obtain ⟨hlt, -⟩ := List.getElem?_eq_some_iff.mp hep
  have hset {e' : EpRef} {ep₀ ep₁ : Endpoint} (hep₀ : s.eps[e']? = some ep₀)
      (hshut : ep₀.shut = true → ep₁.shut = true)
      (hw : ep₁.written = ep₀.written ∨ ∃ r p, t = .pump r e' (.writeEp p)) :
      ∃ ep', (s.eps.set e' ep₁)[e]? = some ep' ∧ ep'.shut = true ∧
        (ep'.written = ep.written ∨ ∃ r p, t = .pump r e (.writeEp p)) := by
    by_cases he : e' = e
    · subst he
      obtain rfl := Option.some.inj (hep₀.symm.trans hep)
      exact ⟨ep₁, List.getElem?_set_self hlt, hshut hs, hw⟩
    · exact ⟨ep, (List.getElem?_set_ne he).trans hep, hs, .inl rfl⟩
  cases ha with
  -- a copy loop hands bytes over, but reopens nothing
  | @pump r e' x ep₀ ep₁ push spawn hep₀ hp =>
    refine hset hep₀ (fun h => ?_) ?_
    · cases hp <;> exact h
    · cases hp with
      | write_ok | write_failed => exact .inr ⟨r, _, rfl⟩
      | _ => exact .inl rfl
  | epClose hep₀ => exact hset hep₀ (fun _ => rfl) (.inl rfl)
  | bridgeDone hep₀ => exact hset hep₀ id (.inl rfl)
  | epCloseWrite hep₀ =>
    refine hset hep₀ (fun _ => Endpoint.shut_epCloseWrite _) (.inl ?_)
    unfold Session.epCloseWrite
    split_ifs <;> rfl
  | handler_accepted | handler_oversized =>
    exact ⟨ep, (List.getElem?_append_left hlt).trans hep, hs, .inl rfl⟩
  | @detach r st hst =>
    have heps : (s.delete r st.id).eps = s.eps := by unfold delete; split_ifs <;> rfl
    exact ⟨ep, heps ▸ hep, hs, .inl rfl⟩
  | _ => exact ⟨ep, hep, hs, .inl rfl⟩

theorem Moves.shut (hm : Moves s l s') (hep : s.eps[e]? = some ep) (hs : ep.shut = true) :
    ∃ ep', s'.eps[e]? = some ep' ∧ ep'.shut = true ∧
      (ep'.written = ep.written ∨ ∃ i c r p rest, l = .run i c ∧
        s.threads[i]? = some (.pump r e (.writeEp p) :: rest)) := by
  cases hm with
  | @run i c t rest n ht ha =>
    obtain ⟨ep', hep', hs', hw⟩ := ha.shut hep hs
    refine ⟨ep', hep', hs', hw.imp_right ?_⟩
    rintro ⟨r, p, rfl⟩
    exact ⟨i, c, r, p, rest, rfl, ht⟩
  | callOn =>
    obtain ⟨hlt, -⟩ := List.getElem?_eq_some_iff.mp hep
    exact ⟨ep, (List.getElem?_append_left hlt).trans hep, hs, .inl rfl⟩
  | _ => exact ⟨ep, hep, hs, .inl rfl⟩

theorem eq_of_append_bridgeDone {ts : List Task} {e' : EpRef}
    (h : ts ++ [.bridgeDone e'] = before ++ .bridgeDone e :: after) (hts : .bridgeDone e ∉ ts) :
    before = ts ∧ e' = e := by
  rcases List.append_eq_append_iff.mp h with ⟨us, rfl, hus⟩ | ⟨us, rfl, hus⟩
  · cases us with
    | nil =>
      obtain ⟨he, -⟩ := List.cons.inj hus
      exact ⟨List.append_nil _, Task.bridgeDone.inj he⟩
    | cons u us => simp at hus
  · cases us with
    | nil =>
      obtain ⟨he, -⟩ := List.cons.inj hus
      exact ⟨(List.append_nil _).symm, (Task.bridgeDone.inj he).symm⟩
    | cons u us =>
      obtain ⟨rfl, -⟩ := List.cons.inj hus
      simp at hts

/-- A copy loop that has ended calls `closeWrite(ep)` before `wg.Done`. -/
theorem Acts.push_bridgeDone (ha : Acts s t n) (hp : n.push = before ++ .bridgeDone e :: after) :
    .epCloseWrite e ∈ before := by
  have hnot (h : .bridgeDone e ∉ n.push) : .epCloseWrite e ∈ before :=
    (h (by simp [hp])).elim
  cases ha with
  | sect hst hf => exact hnot hf.not_bridgeDone
  | @emit_sent r x => exact hnot fun hm => by cases x.sent_follows (r := r) _ hm
  | @emit_lost r x => exact hnot fun hm => by cases x.failed_follows (r := r) _ hm
  | @pump r e' x ep ep' push spawn hep h =>
    cases h with
    | @inDone err =>
      have hts : ((err.map fun m => Task.emit r (.reset (.bridge m))).toList ++
          [.sect r .closeWrite, .epCloseWrite e']) ++ [.bridgeDone e'] =
          before ++ .bridgeDone e :: after := by simpa using hp
      obtain ⟨rfl, rfl⟩ := eq_of_append_bridgeDone hts (by cases err <;> simp)
      simp
    | @outDone err =>
      have hts : ((err.map fun m => Task.emit r (.reset (.bridge m))).toList ++
          [.epCloseWrite e']) ++ [.bridgeDone e'] = before ++ .bridgeDone e :: after := by
        simpa using hp
      obtain ⟨rfl, rfl⟩ := eq_of_append_bridgeDone hts (by cases err <;> simp)
      simp
    | @read_nil err | @wrote err => exact hnot (by cases err <;> simp [copyIn])
    | write_ok ht => exact hnot (by cases ht <;> simp)
    | _ => exact hnot (by simp)
  | @lookup_found m r => exact hnot fun hm => by cases dispatch_follows (r := r) m _ hm
  | _ => exact hnot (by simp)

/-- A goroutine that is about to call `wg.Done` of `Bridge` has called `closeWrite(ep)`, or will do
so first. -/
def Shutting (s : Session) (ts : List Task) : Prop :=
  ∀ e before after, ts = before ++ .bridgeDone e :: after →
    .epCloseWrite e ∈ before ∨ ∃ ep, s.eps[e]? = some ep ∧ ep.shut = true

theorem Shutting.run (h : s.Shutting (t :: rest)) (ha : Acts s t n) :
    n.sess.Shutting (n.push ++ rest) := by
  intro e before after hts
  -- the call of `wg.Done` was there before the step
  have hold (us : List Task) (hbefore : before = n.push ++ us)
      (hrest : rest = us ++ .bridgeDone e :: after) :
      .epCloseWrite e ∈ before ∨ ∃ ep, n.sess.eps[e]? = some ep ∧ ep.shut = true := by
    rcases h e (t :: us) after (by rw [hrest]; rfl) with hm | ⟨ep, hep, hs⟩
    · rcases List.mem_cons.mp hm with rfl | hm
      · cases ha with
        | epCloseWrite hep =>
          obtain ⟨hlt, -⟩ := List.getElem?_eq_some_iff.mp hep
          exact .inr ⟨_, List.getElem?_set_self hlt, Endpoint.shut_epCloseWrite _⟩
      · exact .inl (hbefore ▸ List.mem_append_right _ hm)
    · obtain ⟨ep', hep', hs', -⟩ := ha.shut hep hs
      exact .inr ⟨ep', hep', hs'⟩
  rcases List.append_eq_append_iff.mp hts with ⟨us, hbefore, hrest⟩ | ⟨us, hpush, hus⟩
  · exact hold us hbefore hrest
  · cases us with
    | nil => exact hold [] (by simpa using hpush.symm) (by simpa using hus.symm)
    | cons u us =>
      obtain ⟨rfl, -⟩ := List.cons.inj hus
      exact .inl (ha.push_bridgeDone hpush)

theorem shutting (h : Reaches step ok (new cfg) s) : ∀ ts ∈ s.threads, s.Shutting ts := by
  have hnone {s : Session} {ts : List Task} (hts : ∀ e, .bridgeDone e ∉ ts) : s.Shutting ts := by
    intro e before after he
    exact (hts e (by simp [he])).elim
  refine threads_invariant (P := Shutting) ?_ ?_ ?_ ?_ ?_ ?_ h
  · intro s l s' ts _ hm hP e before after hts
    refine (hP e before after hts).imp_right ?_
    rintro ⟨ep, hep, hs⟩
    obtain ⟨ep', hep', hs', -⟩ := hm.shut hep hs
    exact ⟨ep', hep', hs'⟩
  · intro s t rest n _ ha hP
    exact hP.run ha
  · intro s ts us hP
    exact hP
  · intro s ts hts
    apply hnone
    cases hts <;> simp
  · intro s ts hts
    apply hnone
    cases hts with
    | callOn hc => cases hc <;> simp
    | frame =>
      intro e hm
      cases handleFrame_started (s := s) _ _ _ hm with
      | callOn _ hc => cases hc
    | _ => simp
  · intro s
    exact hnone (by simp)

/-- The goroutine is about to hand bytes to an endpoint that is closed, or closed for writing. -/
def writesShut (s : Session) (i : ℕ) : Bool :=
  match s.threads[i]? with
  | some (.pump _ e (.writeEp _) :: _) => s.eps[e]?.any Endpoint.shut
  | _ => false

/-- Neither `Write` nor `ReadFrom` of an endpoint that is closed, or closed for writing, takes a
byte, as with a closed `net.Conn`. -/
def connLike (s : Session) : Label → Bool
  | .run i (.epWrite k _) => k = 0 || !s.writesShut i
  | .run i (.epReadFrom _) => !s.writesShut i
  | _ => true

def ConnLike (s : Session) (l : Label) : Prop := s.connLike l = true

instance : DecidableRel ConnLike := fun s l => inferInstanceAs (Decidable (s.connLike l = true))

theorem running_of_concat {eps : List Endpoint} {halfClose : Bool}
    (h : (eps ++ [{ halfClose := halfClose }])[e]? = some ep) (hone : ep.running = 1) :
    eps[e]? = some ep := by
  rw [List.getElem?_append] at h
  split_ifs at h with hlt
  · exact h
  · rw [List.getElem?_singleton] at h
    split_ifs at h with he
    obtain rfl := Option.some.inj h
    simp at hone

/-- `running` comes to be one by `wg.Done` alone. -/
theorem Acts.running_one (ha : Acts s t n) (hep' : n.sess.eps[e]? = some ep')
    (hone : ep'.running = 1) :
    t = .bridgeDone e ∨ ∃ ep, s.eps[e]? = some ep ∧ ep.running = 1 := by
  have hset {e' : EpRef} {ep₀ ep₁ : Endpoint} (hep₀ : s.eps[e']? = some ep₀)
      (h : (s.eps.set e' ep₁)[e]? = some ep')
      (hrun : ep₁.running = 1 → t = .bridgeDone e' ∨ ep₀.running = 1) :
      t = .bridgeDone e ∨ ∃ ep, s.eps[e]? = some ep ∧ ep.running = 1 := by
    by_cases he : e' = e
    · subst he
      rw [List.getElem?_set_self (List.getElem?_eq_some_iff.mp hep₀).1] at h
      obtain rfl := Option.some.inj h
      exact (hrun hone).imp_right fun h => ⟨ep₀, hep₀, h⟩
    · exact .inr ⟨ep', (List.getElem?_set_ne he).symm.trans h, hone⟩
  cases ha with
  | @pump r e' x ep₀ ep₁ push spawn hep₀ hp =>
    refine hset hep₀ hep' fun h => .inr ?_
    cases hp with
    | start => simp at h
    | _ => exact h
  | epClose hep₀ => exact hset hep₀ hep' .inr
  | bridgeDone hep₀ => exact hset hep₀ hep' fun _ => .inl rfl
  | epCloseWrite hep₀ =>
    refine hset hep₀ hep' fun h => .inr ?_
    unfold Session.epCloseWrite at h
    split_ifs at h <;> exact h
  | handler_accepted | handler_oversized =>
    exact .inr ⟨ep', running_of_concat hep' hone, hone⟩
  | @detach r st hst =>
    have heps : (s.delete r st.id).eps = s.eps := by unfold delete; split_ifs <;> rfl
    exact .inr ⟨ep', heps ▸ hep', hone⟩
  | _ => exact .inr ⟨ep', hep', hone⟩

theorem step_running_one (hs : s.step l = some s') (hep' : s'.eps[e]? = some ep')
    (hone : ep'.running = 1) :
    (∃ rest, .bridgeDone e :: rest ∈ s.threads) ∨ ∃ ep, s.eps[e]? = some ep ∧ ep.running = 1 := by
  have hsame (h : s'.eps = s.eps) : ∃ ep, s.eps[e]? = some ep ∧ ep.running = 1 :=
    ⟨ep', h ▸ hep', hone⟩
  cases l with
  | run i c =>
    cases moves_of_step hs with
    | @run _ _ t rest n ht ha =>
      refine (ha.running_one hep' hone).imp_left ?_
      rintro rfl
      exact ⟨rest, List.mem_of_getElem? ht⟩
  | call c =>
    right
    cases c with
    | write | read | closeWrite | reset =>
      obtain ⟨-, rfl⟩ := callOn_eq_some hs
      exact hsame rfl
    | «open» | close =>
      obtain rfl := Option.some.inj hs
      exact hsame rfl
    | bridge r halfClose =>
      obtain ⟨s₁, hs₁, rfl⟩ := Option.map_eq_some_iff.mp hs
      exact ⟨ep', running_of_concat hep' hone, hone⟩
  | recv | readError | connLost =>
    right
    cases moves_of_step hs
    exact hsame rfl

/-- **The copy loop that ends first closes the endpoint for the other.** -/
theorem shut_of_running (h : Reaches step ok (new cfg) s) :
    ∀ (e : EpRef) (ep : Endpoint), s.eps[e]? = some ep → ep.running = 1 → ep.shut = true := by
  refine h.invariant (I := fun s => ∀ (e : EpRef) (ep : Endpoint), s.eps[e]? = some ep →
    ep.running = 1 → ep.shut = true) (by simp [new]) ?_
  intro s s' l hr _ hs ih e ep' hep' hone
  have hkeep {ep : Endpoint} (hep : s.eps[e]? = some ep) (hshut : ep.shut = true) :
      ep'.shut = true := by
    obtain ⟨ep₁, hep₁, hs₁, -⟩ := (moves_of_step hs).shut hep hshut
    rwa [Option.some.inj (hep'.symm.trans hep₁)]
  rcases step_running_one hs hep' hone with ⟨rest, hm⟩ | ⟨ep, hep, hrun⟩
  · -- nothing is left of the loop before `wg.Done`, so `closeWrite(ep)` has been called
    rcases shutting hr _ hm e [] rest rfl with hnil | ⟨ep, hep, hshut⟩
    · simp at hnil
    · exact hkeep hep hshut
  · exact hkeep hep (ih e ep hep hrun)

/-- **An endpoint that is closed for writing takes nothing more.** -/
theorem written_step (hok : ConnLike s l) (hs : s.step l = some s') (hep : s.eps[e]? = some ep)
    (hshut : ep.shut = true) :
    ∃ ep', s'.eps[e]? = some ep' ∧ ep'.shut = true ∧ ep'.written = ep.written := by
  obtain ⟨ep', hep', hshut', hw | ⟨i, c, r, p, rest, rfl, ht⟩⟩ := (moves_of_step hs).shut hep hshut
  · exact ⟨ep', hep', hshut', hw⟩
  refine ⟨ep', hep', hshut', ?_⟩
  have hwrites : s.writesShut i = true := by simp [writesShut, ht, hep, hshut]
  simp only [step, ht, exec, pump, hep, Option.bind_eq_bind, Option.bind_some] at hs
  cases c with
  | epReadFrom k => simp [ConnLike, connLike, hwrites] at hok
  | epWrite k err =>
    obtain rfl : k = 0 := by simpa [ConnLike, connLike, hwrites] using hok
    obtain ⟨n, hn, rfl⟩ := Option.map_eq_some_iff.mp hs
    dsimp only at hn
    split_ifs at hn
    obtain rfl := Option.some.inj hn
    obtain ⟨hlt, -⟩ := List.getElem?_eq_some_iff.mp hep
    obtain rfl : { ep with written := ep.written ++ p.take 0 } = ep' :=
      Option.some.inj ((List.getElem?_set_self hlt).symm.trans hep')
    simp
  | _ => simp at hs

/-- **A half-close of the endpoint cuts the other direction.** Once one copy loop has ended, the
endpoint takes no further byte, whatever the peer still sends and the other loop still reads from
the stream; `Write` and `ReadFrom` of an endpoint that is closed for writing are taken to fail
without effect. -/
theorem half_close_cuts (h : Reachable cfg s) (hep : s.eps[e]? = some ep) (hone : ep.running = 1)
    (hr : Reaches step ConnLike s s') :
    ∃ ep', s'.eps[e]? = some ep' ∧ ep'.shut = true ∧ ep'.written = ep.written := by
  have hshut := shut_of_running h e ep hep hone
  refine hr.invariant (I := fun s => ∃ ep', s.eps[e]? = some ep' ∧ ep'.shut = true ∧
    ep'.written = ep.written) ⟨ep, hep, hshut, rfl⟩ ?_
  rintro s s' l - hok hs ⟨ep₁, hep₁, hshut₁, hw₁⟩
  obtain ⟨ep', hep', hshut', hw'⟩ := written_step hok hs hep₁ hshut₁
  exact ⟨ep', hep', hshut', hw'.trans hw₁⟩

/-- The endpoint reaches the end of its input first. The byte that the host sends afterwards is read
from the stream, is not written to the endpoint, and the stream is reset. -/
theorem half_close_cuts_byte :
    ∃ s s' ep ep' st, Reachable { role := .guest } s ∧ s.eps[0]? = some ep ∧ ep.running = 1 ∧
      Reaches step ConnLike s s' ∧ .read 0 [7] ∈ s'.log ∧ s'.heap[0]? = some st ∧
      st.reset = true ∧ s'.eps[0]? = some ep' ∧ ep'.written = ep.written := by
  obtain ⟨s, hs, hp⟩ := exists_reaches_of_run step Always (new { role := .guest })
    (fun s => s.eps[0]?.any (fun ep : Endpoint => ep.running = 1) &&
      (Library.run step ConnLike
        (List.flatten
          [[.recv (Outgoing.app (.appData 1 [7])).frame], .replicate 2 (.run 0 .go),
            .replicate 3 (.run 4 .go), [.run 4 (.epWrite 0 (some (.other (text "closed") false)))],
            .replicate 3 (.run 4 .go)]) s).any
        fun s => s.log.contains (.read 0 [7]) && s.heap[0]?.any Stream.reset)
    (List.flatten
      [acceptRun true, [.run 3 (.epRead [] (some .eof))], .replicate 6 (.run 3 .go)])
    (by decide)
  simp only [Bool.and_eq_true, Option.any_eq_true, decide_eq_true_eq] at hp
  obtain ⟨⟨ep, hep, hone⟩, s', hrun, hread, st, hst, hreset⟩ := hp
  have hr := Library.reaches_of_run hrun
  obtain ⟨ep', hep', -, hw⟩ := half_close_cuts hs hep hone hr
  exact ⟨s, s', ep, ep', st, hs, hep, hone, hr, by simpa using hread, hst, hreset, hep', hw⟩

end Session

end Mvcp.App
