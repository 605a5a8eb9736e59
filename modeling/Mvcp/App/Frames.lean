import Mvcp.App.Pairing

/-!
# Frames between two sessions

A session writes only frames that the session on the other side accepts, as long as the texts it
is given fit the `uint16` length prefix of `WriteString`: the texts of the handler's errors, those
that the application hands to `Reset`, and those of the errors with which `Bridge` resets a
stream. A longer text overflows its prefix, and the peer closes the connection for the frame.

## Main definitions

* `Session.Rejects`: `handleFrame` answers a frame with an `ERROR` frame and ends the session
* `Session.brief`: the texts that a step hands over fit their length prefix

## Main results

* `Net.frames_accepted`: no frame is rejected in a run whose texts fit
* `Net.frame_rejected`: a session whose handler refuses a stream with a long text
-/

namespace Mvcp.App

open Library (Reaches Always run reaches_of_run exists_reaches_of_run pending pending_advance
  pending_append)

/-! ## Rejected frames -/

/-- `handleFrame` sends an `ERROR` frame and ends the session. -/
def Session.Rejects (registry : Registry) (f : Frame) : Prop :=
  ∃ code message, .sendError code message ∈ Session.handleFrame registry f

/-- `handleFrame` rejects the frames without a message it can act on. -/
theorem Session.rejects_iff {registry : Registry} {f : Frame} :
    Session.Rejects registry f ↔ f.app? registry = none := by
  unfold Session.Rejects Session.handleFrame Frame.app?
  split_ifs with hf
  · simp
  · cases hd : decodeMessage registry f.typ f.body with
    | error err => simp
    | ok msg =>
      cases msg with
      | other => simp
      | app m => cases m <;> simp

/-- A rejection whose text overflows its length prefix is rejected itself. -/
theorem Outgoing.rejects_of_overlong {registry : Registry} {id : UInt32} {code : UInt16}
    {message : Bytes} (h : 2 ^ 16 ≤ message.length) :
    Session.Rejects registry (Outgoing.app (.appReject id code message)).frame := by
  rw [Session.rejects_iff, Outgoing.app?_eq registry rfl,
    show (AppMessage.appReject id code message).unmarshal =
      unmarshalCoded "app_reject" AppMessage.appReject from rfl, unmarshalCoded_append]
  -- the prefix says fewer bytes than follow
  have hlen : (message.drop (message.length % 2 ^ 16)).length ≠ 0 := by
    have := Nat.mod_lt message.length (show 0 < 2 ^ 16 by decide)
    rw [List.length_drop]
    omega
  rw [noTrailing, if_pos hlen]
  rfl

/-! ## Texts that fit -/

/-- The step writes no `ERROR` frame, and no text that overflows its length prefix. -/
def Task.legible : Task → Bool
  | .emit _ (.reject _ message) | .sendReject _ _ message => message.length < 2 ^ 16
  | .emit _ (.reset cause) => cause.toError.message.length < 2 ^ 16
  | .sendError .. => false
  | _ => true

/-- The causes whose text the source spells out. -/
def Cause.fixed : Cause → Bool
  | .peer .. | .app .. | .bridge _ => false
  | _ => true

theorem Cause.legible_of_fixed {r : Ref} {cause : Cause} (h : cause.fixed = true) :
    (Task.emit r (.reset cause)).legible = true := by
  cases cause <;> first | rfl | simp [Cause.fixed] at h

theorem Stream.Refuses.fixed {st : Stream} {x : Section} {cause : Cause}
    (h : st.Refuses x cause) : cause.fixed = true := by
  cases h <;> rfl

/-- A critical section gives no text of its own. -/
theorem Stream.Fires.push_legible {r : Ref} {st : Stream} {x : Section} {o : Outcome}
    (h : Stream.Fires r st x o) : ∀ t ∈ o.push, t.legible = true := by
  cases h with
  | @write_overflow p k cause hr hc =>
    have hfixed : cause.fixed = true := by rcases hc with rfl | rfl <;> rfl
    simp only [List.forall_mem_cons, Caller.forall_wrote]
    exact ⟨Cause.legible_of_fixed hfixed, fun _ _ _ => rfl⟩
  | refused h => simpa using Cause.legible_of_fixed h.fixed
  | detachBytes => split_ifs <;> simp [Task.legible]
  | closeEndpoint => simp [Task.legible]
  | _ => simp [Stream.park, Task.legible]

namespace Session

variable {s s' : Session} {t : Task} {c : Choice} {n : Next} {l : Label} {i : ℕ}

/-- The texts that the step hands over are shorter than 65536 bytes: those of `Reset` calls of the
application, those of the handler's errors, and those with which `Bridge` resets a stream. -/
def brief (s : Session) : Label → Bool
  | .call (.reset _ _ message) => message.length < 2 ^ 16
  | .run i c =>
    match (s.threads[i]? : Option (List Task)), c with
    | some (.handlerOpen .. :: _), .handler (.refuse _ message) => message.length < 2 ^ 16
    | some (.pump _ _ (.inDone (some message)) :: _), _
    | some (.pump _ _ (.outDone (some message)) :: _), _ => message.length < 2 ^ 16
    | _, _ => true
  | _ => true

/-- Only a handler and `Bridge` come with texts of their own. -/
theorem Acts.push_legible (ha : Acts s t n)
    (hhandler : ∀ r metadata, t ≠ .handlerOpen r metadata)
    (hpump : ∀ r e message, t = .pump r e (.inDone (some message)) ∨
      t = .pump r e (.outDone (some message)) → message.length < 2 ^ 16) :
    ∀ t' ∈ n.push ++ n.spawn.flatten, t'.legible = true := by
  have hfollows {r : Ref} {t : Task} (h : t.Follows r) : t.legible = true := by cases h <;> rfl
  cases ha with
  | sect hst hf ho => simpa using hf.push_legible
  | @emit_sent r x => exact fun t' ht' => hfollows (x.sent_follows t' (mem_push ht'))
  | @emit_lost r x => exact fun t' ht' => hfollows (x.failed_follows t' (mem_push ht'))
  | @pump r e x ep ep' push spawn hep hp =>
    cases hp with
    | @inDone err =>
      cases err with
      | none => simp [Task.legible]
      | some message =>
        have : (Task.emit r (.reset (.bridge message))).legible = true :=
          decide_eq_true (hpump r e message (.inl rfl))
        simp [this, show (Task.sect r .closeWrite).legible = true from rfl,
          show (Task.epCloseWrite e).legible = true from rfl,
          show (Task.bridgeDone e).legible = true from rfl]
    | @outDone err =>
      cases err with
      | none => simp [Task.legible]
      | some message =>
        have : (Task.emit r (.reset (.bridge message))).legible = true :=
          decide_eq_true (hpump r e message (.inr rfl))
        simp [this, show (Task.epCloseWrite e).legible = true from rfl,
          show (Task.bridgeDone e).legible = true from rfl]
    | @read_nil err => cases err <;> simp [copyIn, Task.legible]
    | @wrote err => cases err <;> simp [copyIn, Task.legible]
    | start ht | write_ok ht => cases ht <;> simp [Task.legible]
    | _ => simp [Task.legible]
  -- the other texts are fixed
  | @open_canceled r =>
    have := Cause.legible_of_fixed (r := r) (show Cause.openTimeout.fixed = true from rfl)
    simpa [this] using (show (Task.openFail (some r) .contextDone).legible = true from rfl)
  | open_refused h =>
    cases h <;>
      simpa using (show (Task.sendReject _ _ (text _)).legible = true from rfl)
  | handler_refused => exact absurd rfl (hhandler _ _)
  | handler_oversized h => exact absurd rfl (hhandler _ _)
  | handler_accepted h => exact absurd rfl (hhandler _ _)
  | @lookup_found m => exact fun t' ht' => hfollows (dispatch_follows m t' (mem_push ht'))
  | @no_handler r metadata hh =>
    have : (Task.emit r (.reject errorCodeAppLocalError (text "no handler configured"))).legible =
        true := rfl
    simp [this, show (Task.detach r).legible = true from rfl]
  | fail_now hc hrefs =>
    intro t' ht'
    cases failTask_of_mem (mem_push ht') <;> rfl
  | _ => simp [Task.legible]

theorem handlerReturn_legible {r : Ref} {res : HandlerResult}
    (h : ∀ code message, res = .refuse code message → message.length < 2 ^ 16) :
    ∀ t ∈ (s.handlerReturn r res).push ++ (s.handlerReturn r res).spawn.flatten,
      t.legible = true := by
  cases res with
  | refuse code message => simpa [handlerReturn, Task.legible] using h code message rfl
  | accept halfClose metadata =>
    simp only [handlerReturn]
    split_ifs
    · have : (Task.emit r (.reject errorCodeAppProtocolError
          (text "accept meta too large"))).legible = true := rfl
      simp [this, show (Task.detach r).legible = true from rfl,
        show (Task.epClose s.eps.length).legible = true from rfl]
    · simp [Task.legible]

/-- **What a goroutine does next is legible, if the texts fit.** -/
theorem exec_legible {rest : List Task} (h : s.exec t c = some n)
    (ht : s.threads[i]? = some (t :: rest)) (hb : s.brief (.run i c) = true) :
    ∀ t' ∈ n.push ++ n.spawn.flatten, t'.legible = true := by
  simp only [brief, ht] at hb
  cases t with
  | handlerOpen r metadata =>
    cases c with
    | handler res =>
      obtain rfl := Option.some.inj h
      refine handlerReturn_legible ?_
      rintro code message rfl
      simpa using hb
    | _ => simp [exec] at h
  | pump r e x =>
    refine (acts_of_exec h).push_legible (by simp) ?_
    rintro r' e' message (he | he) <;> cases he <;> simpa using hb
  | _ => exact (acts_of_exec h).push_legible (by simp) (by simp)

/-! ## Legible sessions -/

/-- The session has written, and is about to write, only what its peer can decode. -/
structure Legible (s : Session) : Prop where
  tasks : ∀ t ∈ pending s.threads, t.legible = true
  out : ∀ e ∈ s.out, ∃ m, e.msg = .app m ∧ m.marshalBinary.isOk = true ∧ m.StringsFit

theorem legible_new (cfg : Config) : (new cfg).Legible := ⟨by simp [new], by simp [new]⟩

theorem Emission.stringsFit {r : Ref} {st : Stream} {x : Emission}
    (hs : validAppService st.service = true) (h : (Task.emit r x).legible = true) :
    (x.message st).StringsFit := by
  cases x with
  | «open» metadata =>
    exact Nat.lt_of_le_of_lt (length_le_of_validAppService hs) (by decide)
  | reject code message => exact of_decide_eq_true (p := message.length < 2 ^ 16) h
  | reset cause => exact of_decide_eq_true (p := cause.toError.message.length < 2 ^ 16) h
  | _ => trivial

theorem Acts.legible_out (ha : Acts s t n) (hd : s.Departures) (ht : t.legible = true) :
    n.sess.out = s.out ∨ ∃ ref m, n.sess.out = s.out ++ [⟨ref, .app m⟩] ∧
      m.marshalBinary.isOk = true ∧ m.StringsFit := by
  cases ha with
  | emit_sent hst h =>
    exact .inr ⟨_, _, rfl, h.1, Emission.stringsFit (hd.services _ (mem_origins hst)) ht⟩
  | @reject_sent id code message h =>
    exact .inr ⟨_, _, rfl, h.1, of_decide_eq_true (p := message.length < 2 ^ 16) ht⟩
  | error_sent h => simp [Task.legible] at ht
  | detach hst => exact .inl (by unfold delete; split_ifs <;> rfl)
  | _ => exact .inl rfl

theorem Legible.run {rest : List Task} (h : s.Legible) (hd : s.Departures)
    (ht : s.threads[i]? = some (t :: rest)) (hex : s.exec t c = some n)
    (hb : s.brief (.run i c) = true) : (s.after i n rest).Legible := by
  obtain ⟨others, h₁, h₂⟩ := pending_advance ht
  refine ⟨fun t' ht' => ?_, fun e he => ?_⟩
  · rw [show pending (s.after i n rest).threads = _ from h₂ n.push n.spawn] at ht'
    rcases Multiset.mem_add.mp ht' with hm | hm
    · exact exec_legible hex ht hb t' (by simpa [pending] using hm)
    · exact h.tasks t' (by simp [h₁, hm])
  · rcases (acts_of_exec hex).legible_out hd (h.tasks t (by simp [h₁])) with
      hout | ⟨ref, m, hout, hm⟩
    · exact h.out e (hout ▸ he)
    · rcases List.mem_append.mp (hout ▸ he) with he | he
      · exact h.out e he
      · obtain rfl := List.mem_singleton.mp he
        exact ⟨m, rfl, hm⟩

/-- The session starts with more steps, and writes nothing. -/
theorem Legible.more {ts : List Task} (h : s.Legible) (hout : s'.out = s.out)
    (hp : pending s'.threads = (ts : Multiset Task) + pending s.threads)
    (hts : ∀ t ∈ ts, t.legible = true) : s'.Legible := by
  refine ⟨fun t ht => ?_, hout ▸ h.out⟩
  rcases Multiset.mem_add.mp (hp ▸ ht) with ht | ht
  · exact hts t ht
  · exact h.tasks t ht

theorem Legible.append {ts : List Task} {eps : List Endpoint} (h : s.Legible)
    (hts : ∀ t ∈ ts, t.legible = true) :
    Legible { s with threads := s.threads ++ [ts], eps } :=
  h.more rfl (by simp [pending_append, add_comm]) hts

/-- A call starts with a legible step, if the text of a `Reset` fits. -/
theorem Legible.call {a : Call} (h : s.Legible) (hs : s.call a = some s')
    (hb : s.brief (.call a) = true) : s'.Legible := by
  have hon {r : Ref} {t : Task} (hc : s.callOn r [t] = some s') (ht : t.legible = true) :
      s'.Legible := by
    obtain ⟨-, rfl⟩ := callOn_eq_some hc
    exact h.append (by simpa using ht)
  cases a with
  | «open» service metadata =>
    obtain rfl := Option.some.inj hs
    exact h.append (by simp [Task.legible])
  | close =>
    obtain rfl := Option.some.inj hs
    exact h.append (by simp [Task.legible])
  | bridge r halfClose =>
    obtain ⟨u, hu, rfl⟩ := Option.map_eq_some_iff.mp hs
    obtain ⟨-, rfl⟩ := callOn_eq_some hu
    exact h.append (by simp [Task.legible])
  | reset r code message => exact hon hs hb
  | write r p => exact hon hs rfl
  | read r k => exact hon hs rfl
  | closeWrite r => exact hon hs rfl

/-- **A step of a session whose texts fit, on a frame it can decode, keeps it legible.** -/
theorem Legible.step (h : s.Legible) (hd : s.Departures) (hs : s.step l = some s')
    (hb : s.brief l = true)
    (hrecv : ∀ f, l = .recv f → f.app? s.cfg.registry ≠ none) : s'.Legible := by
  cases l with
  | run i c =>
    simp only [Session.step] at hs
    split at hs
    · next t rest ht =>
      obtain ⟨n, hn, rfl⟩ := Option.map_eq_some_iff.mp hs
      exact h.run hd ht hn hb
    · simp at hs
  | call a => exact h.call hs hb
  | recv f =>
    cases moves_of_step hs with
    | recv h0 hserved =>
      -- `Serve` goes on with the one step that handles the message
      refine h.more rfl (starts_serve h0 List.prefix_rfl (handleFrame_started _ _)).pending ?_
      rcases handleFrame_cases s.cfg.registry f with ⟨t, m, ht, hm, -⟩ | ⟨hn, -⟩
      · rw [ht]
        cases t <;> simp_all [Task.message?, Task.legible]
      · exact absurd hn (hrecv f rfl)
  | readError =>
    cases moves_of_step hs with
    | readError h0 hserved =>
      refine h.more rfl (starts_serve h0 List.prefix_rfl ?_).pending ?_
      · simp [Started.fail, Started.stopServe]
      · simp [Task.legible]
  | connLost =>
    obtain rfl := Option.some.inj hs
    exact ⟨h.tasks, h.out⟩

end Session

namespace Net

variable {n n' : Net} {ρ : Role}

/-- The texts of the step fit their length prefix. -/
def brief (n : Net) (l : Role × Label) : Prop := (n.side l.1).brief l.2 = true

instance (n : Net) (l : Role × Label) : Decidable (n.brief l) :=
  inferInstanceAs (Decidable (_ = true))

theorem legible {cfg : Role → Config} (h : Reaches step brief (new cfg) n) (ρ : Role) :
    (n.side ρ).Legible := by
  refine h.invariant (I := fun n => ∀ ρ, (n.side ρ).Legible) ?_ ?_ ρ
  · intro ρ
    rw [side_new]
    exact Session.legible_new _
  · rintro n n' ⟨σ, l⟩ hr hok hs ih ρ
    have hj := joined hr
    obtain ⟨s', hs', rfl, hrecv⟩ := step_cases hs
    rcases eq_or_eq_other ρ σ with rfl | rfl
    · rw [side_set_self]
      refine (ih ρ).step (hj.departures ρ) hs' hok fun f hl => ?_
      -- the frame is one that the other side wrote
      have hf := hrecv f hl
      rw [wire, List.head?_map, Option.map_eq_some_iff] at hf
      obtain ⟨e, he, rfl⟩ := hf
      obtain ⟨m, hm, hok, hfit⟩ :=
        (ih ρ.other).out e (List.mem_of_mem_drop (List.mem_of_mem_head? he))
      rw [hm, Outgoing.app?_fit hok hfit]
      simp
    · rw [side_set_other]
      exact ih σ.other

/-- **No frame that one session writes is rejected by the other, and neither ever answers with an
`ERROR` frame, in a run whose texts fit.** -/
theorem frames_accepted {cfg : Role → Config} (h : Reaches step brief (new cfg) n) (ρ : Role) :
    (∀ e ∈ (n.side ρ).out, ¬Session.Rejects (n.side ρ.other).cfg.registry e.msg.frame) ∧
      ∀ code message, .sendError code message ∉ pending (n.side ρ).threads := by
  have hl := legible h ρ
  constructor
  · intro e he
    obtain ⟨m, hm, hok, hfit⟩ := hl.out e he
    rw [Session.rejects_iff, hm, Outgoing.app?_fit hok hfit]
    simp
  · intro code message hm
    have := hl.tasks _ hm
    simp [Task.legible] at this

/-- The host opens a stream, and the guest accepts it. -/
theorem frames_accepted_open :
    ∃ n, Reaches step brief (new fun _ => { role := .host }) n ∧ n.guest.out.length = 1 ∧
      ∀ e ∈ n.guest.out, ¬Session.Rejects n.host.cfg.registry e.msg.frame := by
  obtain ⟨n, hn, ht⟩ := exists_reaches_of_run step brief (new fun _ => { role := .host })
    (fun n => n.guest.out.length == 1) openRun (by decide)
  exact ⟨n, hn, by simpa using ht, (frames_accepted hn .guest).1⟩

/-- **A handler refuses a stream with a text of 65536 bytes**: the host rejects the frame. -/
theorem frame_rejected :
    ∃ n, Reaches step Always (new fun _ => { role := .host }) n ∧
      ∃ e ∈ n.guest.out, Session.Rejects n.host.cfg.registry e.msg.frame := by
  -- the run is the same for every text
  have hrun (message : Bytes) : ∃ n, run step Always
      [(.host, .call (.open (text "svc") [])), (.host, .run 1 .go), (.host, .run 1 .go),
        (.guest, .recv (Outgoing.app (.appOpen 1 (text "svc") [])).frame), (.guest, .run 0 .go),
        (.guest, .run 1 .go), (.guest, .run 1 (.handler (.refuse none message))),
        (.guest, .run 1 .go), (.guest, .run 1 .go), (.guest, .run 1 .go)]
      (new fun _ => { role := .host }) = some n ∧
        n.guest.out = [⟨some 0, .app (.appReject 1 errorCodeAppLocalError message)⟩] :=
    ⟨_, rfl, rfl⟩
  obtain ⟨message, hlen⟩ : ∃ message : Bytes, 2 ^ 16 ≤ message.length :=
    ⟨List.replicate (2 ^ 16) 7, by rw [List.length_replicate]⟩
  obtain ⟨n, hn, hout⟩ := hrun message
  exact ⟨n, reaches_of_run hn, _, by rw [hout]; exact List.mem_singleton.mpr rfl,
    Outgoing.rejects_of_overlong hlen⟩

end Net

end Mvcp.App
