import Mvcp.Rpc.Calls
import Mathlib.Data.List.Basic

/-!
# The frames of a call

The frames the read loop finds for a call travel through its `inbox`, the hand of its forwarder and
its `out` channel. Nothing is lost on the way until `send` discards a frame, which it may do once
the call is abandoned; the frames on the channel have no gap as long as `send` discards every
frame after the first one it discarded.

## Main definitions

* `Call.held`: the frame in the hand of the forwarder
* `View.Settled`, `View.Routes`: what a call is before it is registered, and which frames it is sent
* `View.Flow`: the frames of a call on their way to the channel
* `NoResume`: `send` accepts no frame of a call after it has discarded one

## Main results

* `Client.delivered_contiguous`: with `NoResume`, the frames on the channel are the first frames
  read for the call
* `Client.gap_of_cancelled`: without it, they need not be
-/

namespace Mvcp.Rpc

theorem mem_dropLast_mono {xs ys : List StreamFrame} (h : xs <+: ys) {f : StreamFrame}
    (hf : f ∈ xs.dropLast) : f ∈ ys.dropLast := by
  obtain ⟨zs, rfl⟩ := h
  cases zs with
  | nil => simpa using hf
  | cons z zs =>
    rw [List.dropLast_append_of_ne_nil (by simp)]
    exact List.mem_append_left _ ((List.dropLast_prefix _).subset hf)

namespace Call

/-- The frame in the hand of the forwarder. -/
def held (c : Call) : List StreamFrame :=
  match c.forwarder with
  | .holding f => [f]
  | _ => []

/-- The frames `send` put into the inbox that the forwarder has not dropped. -/
def accepted (c : Call) : List StreamFrame := c.delivered ++ c.held ++ c.inbox

variable {closed : Bool} {c c' : Call} {o : Op} {e : Effect}

/-- Only a new call is about to register. -/
theorem Steps.phase_of_add (h : Steps closed c o c' e) (hp : c'.phase = .add) :
    c.phase = .add := by
  cases h with
  | receive =>
    dsimp only at hp
    split_ifs at hp
  | take | push | quit | cancel => exact hp
  | watchContext | watchShut | watchFinish | watchRemove => exact hp
  | consume hs => simp [hs] at hp
  | _ => simp at hp

/-- A call that is not registered registers, or has its context cancelled. -/
theorem Steps.of_add (h : Steps closed c o c' e) (hp : c.phase = .add)
    (hr : c.registered = false) (hw : c.watcher = .none) :
    e = .insert ∧ c' = { c with phase := .write, registered := true } ∨
      e = .none ∧ c' = { c with ctxDone := true } := by
  cases h with
  | add => exact .inl ⟨rfl, rfl⟩
  | cancel => exact .inr ⟨rfl, rfl⟩
  | take hr' | push hr' | quit hr' => simp [hr] at hr'
  | watchContext hw' | watchShut hw' | watchFinish hw' | watchRemove hw' => simp [hw] at hw'
  | receiveClosed hp' | receiveContext hp' | receiveShut hp' => simp [awaits, hp] at hp'
  | writeStream hp' | writeCall hp' | writeFail hp' | receive hp' | receiveAgain hp' | finish hp'
  | remove hp' | consume hp' => simp [hp] at hp'

end Call

namespace View

variable {v v' : View} {a : Act}

/-! ## Before a call is registered -/

/-- Before it is registered a call has no frame and no entry. -/
structure Settled (v : View) : Prop where
  unregistered : v.call.registered = false ↔ v.call.phase = .add
  watcher : v.call.phase = .add → v.call.watcher = .none ∧ v.call.forwarder = .idle
  frames : v.call.phase = .add → v.call.read = [] ∧ v.call.accepted = [] ∧ v.call.received = [] ∧
    v.call.out = []
  flags : v.call.phase = .add → v.call.lost = false ∧ v.call.done = false ∧
    v.call.outClosed = false
  listed : v.call.phase = .add → v.listed = false ∧ v.hand = none ∧ v.clearing = false

theorem Fresh.settled (h : v.Fresh) : v.Settled := by
  obtain ⟨id, isStream, typ, flags, body, hc⟩ := h.call
  refine ⟨?_, fun _ => ?_, fun _ => ?_, fun _ => ?_, fun _ => ⟨h.listed, h.hand, h.clearing⟩⟩ <;>
    simp [hc, Call.accepted, Call.held]

theorem Settled.not_add (h : v.Settled) (hr : v.call.registered = true) : v.call.phase ≠ .add := by
  intro hp
  simp [h.unregistered.mpr hp] at hr

theorem Settled.registered (h : v.Settled) (hp : v.call.phase ≠ .add) :
    v.call.registered = true := by
  simpa using mt h.unregistered.mp hp

/-- A step that leaves the phase of a registered call alone. -/
theorem Settled.same (h : v.Settled) (hp : v'.call.phase = v.call.phase)
    (hr : v'.call.registered = v.call.registered) (hne : v.call.phase ≠ .add) : v'.Settled := by
  refine ⟨by rw [hp, hr]; exact h.unregistered, ?_, ?_, ?_, ?_⟩ <;>
    exact fun hadd => absurd (hp.symm.trans hadd) hne

theorem Step.settled (hs : v.Step a v') (h : v.Settled) : v'.Settled := by
  cases hs with
  | @op o call' e he hst =>
    by_cases hp : v.call.phase = .add
    · obtain ⟨hi, -⟩ | ⟨rfl, rfl⟩ := hst.of_add hp (h.unregistered.mpr hp) (h.watcher hp).1
      · exact absurd hi he
      · refine ⟨h.unregistered, h.watcher, h.frames, h.flags, fun hp => ?_⟩
        simpa using h.listed hp
    · have hp' : call'.phase ≠ .add := fun hadd => hp (hst.phase_of_add hadd)
      refine ⟨?_, ?_, ?_, ?_, ?_⟩
      · have hreg := hst.registered
        simp [hreg, h.registered hp, hp']
      all_goals exact fun hadd => absurd hadd hp'
  | insert hst =>
    cases hst with
    | add hp => exact ⟨by simp, by simp, by simp, by simp, by simp⟩
  | unlist =>
    exact ⟨h.unregistered, h.watcher, h.frames, h.flags, fun hp => ⟨rfl, (h.listed hp).2⟩⟩
  | look hl hr => exact h.same rfl rfl (h.not_add hr)
  | miss hl hr => exact h.same rfl rfl (h.not_add hr)
  | accept hh =>
    refine h.same rfl rfl fun hp => ?_
    simp [(h.listed hp).2.1] at hh
  | drop hh =>
    refine h.same rfl rfl fun hp => ?_
    simp [(h.listed hp).2.1] at hh
  | clear hcl =>
    refine h.same rfl rfl fun hp => ?_
    simp [(h.listed hp).2.2] at hcl
  | shut =>
    refine ⟨h.unregistered, h.watcher, h.frames, fun hp => ?_, fun hp => ⟨rfl, (h.listed hp).2⟩⟩
    have hf := h.flags hp
    exact ⟨hf.1, by simp [hf.2.1, (h.listed hp).1], hf.2.2⟩

/-! ## The frames of a call -/

/-- Which frames a call is sent: while it is pending, every frame read under its id; the last frame
sent to it is the response, and only that one. -/
structure Routes (v : View) : Prop where
  since : v.call.read <+: v.since
  listed : v.listed = true → v.call.read = v.since
  last : ∀ f ∈ v.call.read.dropLast, f.more = true
  final : v.listed = true → v.hand = none → v.clearing = false → ∀ f ∈ v.call.read, f.more = true
  hand : ∀ f, v.hand = some f → v.call.read.getLast? = some f
  idle : v.hand ≠ none → v.clearing = false

theorem Fresh.routes (h : v.Fresh) : v.Routes := by
  obtain ⟨id, isStream, typ, flags, body, hc⟩ := h.call
  refine ⟨?_, ?_, ?_, ?_, ?_, ?_⟩ <;> simp [hc, h.hand, h.listed, h.since]

/-- The frame in hand is the last one read, so all of them have `More` when it has. -/
theorem Routes.more {f : StreamFrame} (h : v.Routes) (hh : v.hand = some f) (hm : f.more = true) :
    ∀ g ∈ v.call.read, g.more = true := by
  intro g hg
  rw [← List.dropLast_append_getLast? f (h.hand f hh), List.mem_append, List.mem_singleton] at hg
  rcases hg with hg | rfl
  · exact h.last g hg
  · exact hm

/-- The frame in hand leaves it. -/
theorem Routes.leave {f : StreamFrame} (h : v.Routes) (hh : v.hand = some f)
    (hread : v'.call.read = v.call.read) (hl : v'.listed = v.listed) (hs : v'.since = v.since)
    (hh' : v'.hand = none) (hcl : v'.clearing = !f.more) : v'.Routes := by
  refine ⟨?_, ?_, ?_, ?_, by simp [hh'], by simp [hh']⟩
  · rw [hread, hs]
    exact h.since
  · rw [hread, hs, hl]
    exact h.listed
  · rw [hread]
    exact h.last
  · intro _ _ hcl'
    rw [hread]
    apply h.more hh
    simpa [hcl] using hcl'

theorem Step.routes (hs : v.Step a v') (hset : v.Settled) (h : v.Routes) : v'.Routes := by
  cases hs with
  | op he hst =>
    have hread := hst.framed.read
    refine ⟨?_, ?_, ?_, ?_, ?_, h.idle⟩
    · simpa [hread] using h.since
    · intro hl
      simp only [Bool.and_eq_true] at hl
      simpa [hread] using h.listed hl.1
    · simpa [hread] using h.last
    · intro hl hh hcl
      simp only [Bool.and_eq_true] at hl
      simpa [hread] using h.final hl.1 hh hcl
    · simpa [hread] using h.hand
  | insert hst =>
    cases hst with
    | add hp =>
      have hread := (hset.frames hp).1
      have hhand := (hset.listed hp).2.1
      refine ⟨?_, ?_, ?_, ?_, ?_, ?_⟩ <;> simp [hread, hhand]
  | unlist => exact ⟨h.since, by simp, h.last, by simp, h.hand, h.idle⟩
  | @look f hl hr hh hcl hc =>
    -- while the call is pending it misses nothing, so the new frame is the next one for both
    have hread : v.call.read ++ [f] = v.since ++ [f] := by rw [h.listed hl]
    refine ⟨hread ▸ List.prefix_rfl, fun _ => hread, ?_, by simp, by simp, fun _ => hcl⟩
    simpa using h.final hl hh hcl
  | miss hl hr =>
    refine ⟨h.since.trans (List.prefix_append _ _), ?_, h.last, ?_, h.hand, h.idle⟩
    · simp [hl]
    · simp [hl]
  | accept hh hroom => exact h.leave hh rfl rfl rfl rfl rfl
  | drop hh hd => exact h.leave hh rfl rfl rfl rfl rfl
  | clear hcl => exact ⟨h.since, by simp, h.last, by simp, h.hand, by simp⟩
  | shut hc => exact ⟨h.since, by simp, h.last, by simp, h.hand, h.idle⟩

/-! ## Nothing is lost on the way to the channel -/

/-- The frames of a call on their way from the read loop to the consumer. -/
structure Flow (v : View) : Prop where
  /-- The channel is a queue. -/
  buffer : v.call.delivered = v.call.received ++ v.call.out
  /-- Only an abandoned call loses a frame in `send`. -/
  lost : v.call.lost = true → v.call.done = true
  /-- Until then every frame read is on the channel or on its way there. -/
  whole : v.call.lost = false → v.call.forwarder ≠ .exited →
    v.call.accepted ++ v.hand.toList = v.call.read
  /-- What is on the channel stays a beginning of what is read once the forwarder is gone. -/
  delivered : v.call.lost = false → v.call.delivered <+: v.call.read

theorem Fresh.flow (h : v.Fresh) : v.Flow := by
  obtain ⟨id, isStream, typ, flags, body, hc⟩ := h.call
  refine ⟨?_, ?_, ?_, ?_⟩ <;> simp [hc, h.hand, Call.accepted, Call.held]

end View

namespace Call

variable {closed : Bool} {c c' : Call} {o : Op} {e : Effect}

/-- What a step of a call does to the frames on their way: the forwarder moves them on until it
exits. -/
structure Forwards (c c' : Call) : Prop where
  accepted : c'.forwarder ≠ .exited → c.forwarder ≠ .exited ∧ c'.accepted = c.accepted
  delivered : c'.delivered <+: c.delivered ++ c.held
  buffer : c.delivered = c.received ++ c.out → c'.delivered = c'.received ++ c'.out

/-- A step that leaves the forwarder and the channel alone. -/
theorem Forwards.same (hf : c'.forwarder = c.forwarder) (hi : c'.inbox = c.inbox)
    (hd : c'.delivered = c.delivered) (hr : c'.received = c.received) (ho : c'.out = c.out) :
    Forwards c c' := by
  refine ⟨fun hx => ⟨hf ▸ hx, ?_⟩, ?_, ?_⟩
  · simp only [Call.accepted, held, hf, hi, hd]
  · rw [hd]
    exact List.prefix_append _ _
  · intro hb
    rw [hd, hr, ho, hb]

/-- The consumer takes a frame from the channel. -/
theorem Forwards.consume {f : StreamFrame} {rest : List StreamFrame} (ho : c.out = f :: rest)
    (hf : c'.forwarder = c.forwarder) (hi : c'.inbox = c.inbox)
    (hd : c'.delivered = c.delivered) (hr : c'.received = c.received ++ [f])
    (ho' : c'.out = rest) : Forwards c c' := by
  refine ⟨fun hx => ⟨hf ▸ hx, ?_⟩, ?_, ?_⟩
  · simp only [Call.accepted, held, hf, hi, hd]
  · rw [hd]
    exact List.prefix_append _ _
  · intro hb
    rw [hd, hr, ho', hb, ho, List.append_assoc]
    rfl

theorem Steps.forwards (h : Steps closed c o c' e) : Forwards c c' := by
  cases h with
  | receive hp ho => exact .consume ho rfl rfl rfl rfl rfl
  | receiveAgain hp ho => exact .consume ho rfl rfl rfl rfl rfl
  | consume hp ho => exact .consume ho rfl rfl rfl rfl rfl
  | take hr hf hi =>
    refine ⟨fun _ => ⟨by simp [hf], ?_⟩, ?_, fun hb => hb⟩
    · simp [Call.accepted, held, hf, hi]
    · exact List.prefix_append _ _
  | @push f hr hf ho =>
    refine ⟨fun hx => ⟨by simp [hf], ?_⟩, ?_, ?_⟩
    · -- the forwarder goes on, so the frame was not the response
      have hm : f.more = true := by
        by_contra hm
        exact hx (if_neg hm)
      simp [Call.accepted, held, hf, hm]
    · simp [held, hf]
    · intro hb
      simp [hb]
  | quit hr hf hd => exact ⟨fun hx => absurd rfl hx, List.prefix_append _ _, fun hb => hb⟩
  | _ => exact .same rfl rfl rfl rfl rfl

/-- The frames on the channel are still the first ones read. -/
theorem Forwards.delivered_read (h : Forwards c c') (hr : c'.read = c.read)
    (hd : c.delivered <+: c.read) (ha : c.forwarder ≠ .exited → c.accepted <+: c.read) :
    c'.delivered <+: c'.read := by
  rw [hr]
  by_cases hx : c.forwarder = .exited
  · have hdel := h.delivered
    rw [held, hx, List.append_nil] at hdel
    exact hdel.trans hd
  · exact h.delivered.trans ((List.prefix_append _ _).trans (ha hx))

theorem Steps.done (h : Steps closed c o c' e) (hd : c.done = true) : c'.done = true := by
  cases h with
  | finish | watchFinish => rfl
  | _ => exact hd

end Call

namespace View

variable {v v' : View} {a : Act}

theorem Step.flow (hs : v.Step a v') (h : v.Flow) : v'.Flow := by
  cases hs with
  | op he hst =>
    have hf := hst.framed
    have hfw := hst.forwards
    refine ⟨hfw.buffer h.buffer, ?_, ?_, ?_⟩
    · intro hlost
      apply hst.done
      exact h.lost (hf.lost ▸ hlost)
    · intro hlost hx
      obtain ⟨hx', hacc⟩ := hfw.accepted hx
      have hw := h.whole (hf.lost ▸ hlost) hx'
      rw [← hacc] at hw
      exact hw.trans hf.read.symm
    · intro hlost
      have hlost' := hf.lost.symm.trans hlost
      apply hfw.delivered_read hf.read (h.delivered hlost')
      exact fun hx => ⟨_, h.whole hlost' hx⟩
  | insert hst =>
    cases hst with
    | add hp => exact ⟨h.buffer, h.lost, h.whole, h.delivered⟩
  | unlist => exact ⟨h.buffer, h.lost, h.whole, h.delivered⟩
  | miss => exact ⟨h.buffer, h.lost, h.whole, h.delivered⟩
  | clear => exact ⟨h.buffer, h.lost, h.whole, h.delivered⟩
  | look hl hr hh hcl hc =>
    refine ⟨h.buffer, h.lost, fun hlost hx => ?_, fun hlost => ?_⟩
    · have hw := h.whole hlost hx
      rw [hh, Option.toList_none, List.append_nil] at hw
      exact congrArg (· ++ _) hw
    · exact (h.delivered hlost).trans (List.prefix_append _ _)
  | accept hh hroom =>
    refine ⟨h.buffer, h.lost, fun hlost hx => ?_, h.delivered⟩
    have hw := h.whole hlost hx
    rw [hh] at hw
    simpa [Call.accepted, Call.held] using hw
  | drop hh hd => exact ⟨h.buffer, fun _ => hd, by simp, by simp⟩
  | shut hc =>
    refine ⟨h.buffer, fun hlost => ?_, h.whole, h.delivered⟩
    simp [h.lost hlost]

/-! ## No gaps -/

/-- The frames of a call that are on their way or on the channel are the first ones read for it. -/
structure Contiguous (v : View) : Prop where
  accepted : v.call.forwarder ≠ .exited → v.call.accepted <+: v.call.read
  delivered : v.call.delivered <+: v.call.read

theorem Fresh.contiguous (h : v.Fresh) : v.Contiguous := by
  obtain ⟨id, isStream, typ, flags, body, hc⟩ := h.call
  constructor <;> simp [hc, Call.accepted, Call.held]

/-- `send` accepts no frame of a call after it has discarded one. -/
def Resumes (v : View) (a : Act) : Prop := a = .accept ∧ v.call.lost = true

theorem Step.contiguous (hs : v.Step a v') (hg : ¬ v.Resumes a) (hflow : v.Flow)
    (h : v.Contiguous) : v'.Contiguous := by
  cases hs with
  | op he hst =>
    have hf := hst.framed
    have hfw := hst.forwards
    constructor
    · intro hx
      obtain ⟨hx', hacc⟩ := hfw.accepted hx
      show Call.accepted _ <+: Call.read _
      rw [hacc, hf.read]
      exact h.accepted hx'
    · exact hfw.delivered_read hf.read h.delivered h.accepted
  | insert hst =>
    cases hst with
    | add hp => exact ⟨h.accepted, h.delivered⟩
  | look =>
    constructor
    · exact fun hx => (h.accepted hx).trans (List.prefix_append _ _)
    · exact h.delivered.trans (List.prefix_append _ _)
  | accept hh hroom =>
    refine ⟨fun hx => ?_, h.delivered⟩
    -- nothing has been discarded, so the frame is the one after those that are on their way
    have hlost : v.call.lost = false := by
      by_contra hlost
      exact hg ⟨rfl, by simpa using hlost⟩
    have hw := hflow.whole hlost hx
    rw [hh] at hw
    show Call.accepted _ <+: v.call.read
    rw [← hw]
    simp [Call.accepted, Call.held]
  | _ => exact ⟨h.accepted, h.delivered⟩

end View

namespace Client

open View Library

/-- `send` accepts no frame of a call after it has discarded one. -/
def NoResume (s : Client) (l : Label) : Prop :=
  match s.loop, l with
  | .sending c _ _, .loop .go => (s.calls[c]?.all fun call => !call.lost) = true
  | _, _ => True

instance (s : Client) (l : Label) : Decidable (s.NoResume l) := by
  unfold NoResume
  split <;> infer_instance

variable {s : Client}

theorem NoResume.guarded {l : Label} (h : s.NoResume l) :
    s.Guarded (fun v a => ¬ v.Resumes a) l := by
  rintro c call a hc hcause ⟨rfl, hlost⟩
  cases hcause with
  | accept hl =>
    simp only [NoResume, hl, hc] at h
    have hlost' : call.lost = true := hlost
    simp [hlost'] at h

/-- What holds of the view of each call in every run. -/
theorem view_flow {ok : Client → Label → Prop} (h : Reached ok s) :
    ∀ (c : ℕ) (call : Call), s.calls[c]? = some call →
      (s.view c call).Settled ∧ (s.view c call).Routes ∧ (s.view c call).Flow :=
  view_invariant (G := fun _ _ => True) (I := fun v => v.Settled ∧ v.Routes ∧ v.Flow)
    (fun _ _ _ _ _ _ _ _ => trivial) (fun _ hv => ⟨hv.settled, hv.routes, hv.flow⟩)
    (fun _ _ _ hs _ ⟨h₁, h₂, h₃⟩ => ⟨hs.settled h₁, hs.routes h₁ h₂, hs.flow h₃⟩) h

/-- **Without a gap**: as long as `send` accepts no frame of a call after it has discarded one,
the frames that were ever on the channel of a stream are the first frames read under its id since
it was registered. When the response is among them, so is everything before it. -/
theorem delivered_contiguous (h : Reached NoResume s) {c : ℕ} {call : Call}
    (hc : s.calls[c]? = some call) :
    call.delivered <+: s.sinceOf call ∧
      ∀ f ∈ call.delivered, f.more = false →
        ∀ fs gs, s.sinceOf call = fs ++ f :: gs → (∀ g ∈ fs, g.more = true) →
          fs ++ [f] <+: call.delivered := by
  obtain ⟨-, hroutes, -⟩ := view_flow h c call hc
  have hcon : (s.view c call).Flow ∧ (s.view c call).Contiguous :=
    view_invariant (G := fun v a => ¬ v.Resumes a) (I := fun v => v.Flow ∧ v.Contiguous)
      (fun _ _ hok => hok.guarded) (fun _ hv => ⟨hv.flow, hv.contiguous⟩)
      (fun _ _ _ hs hg ⟨h₁, h₂⟩ => ⟨hs.flow h₁, hs.contiguous hg h₁ h₂⟩) h c call hc
  have hpre : call.delivered <+: s.sinceOf call := hcon.2.delivered.trans hroutes.since
  refine ⟨hpre, ?_⟩
  intro f hf hm fs gs hsince hfs
  -- the response is not among the frames before it, so the channel holds more than those
  rw [hsince] at hpre
  have hlen : fs.length < call.delivered.length := by
    by_contra hle
    have hsub : call.delivered <+: fs :=
      List.prefix_of_prefix_length_le hpre (List.prefix_append _ _) (Nat.not_lt.mp hle)
    simp [hfs f (hsub.subset hf)] at hm
  have hend : fs ++ [f] <+: fs ++ f :: gs := ⟨gs, by simp⟩
  apply List.prefix_of_prefix_length_le hend hpre
  simpa [Nat.succ_le_iff] using hlen

/-- A stream that is registered and written, with the read loop running. -/
def streamOpened : List Label :=
  [.start, .spawn, .call true 0x20 0 [], .op 0 (.run .go), .op 0 (.run .go), .loop .go]

/-- The context of the stream is cancelled and its watcher runs up to `finish`. -/
def streamCancelled : List Label :=
  [.op 0 .cancel, .op 0 (.watch .ctx), .op 0 (.watch .go)]

/-- A stream that is cancelled after its first frame: the second is discarded, the first is
delivered. -/
theorem delivered_contiguous_cancelled :
    ∃ s call, Reached NoResume s ∧ s.calls[0]? = some call ∧ call.ctxDone = true ∧
      s.sinceOf call = [⟨0x21, [1], true⟩, ⟨0x21, [2], false⟩] ∧
      call.delivered = [⟨0x21, [1], true⟩] ∧ call.delivered <+: s.sinceOf call := by
  obtain ⟨s, hs, ht⟩ := exists_reaches_of_run step NoResume {}
    (fun s => s.calls[0]?.any fun call => call.ctxDone &&
      s.sinceOf call == [⟨0x21, [1], true⟩, ⟨0x21, [2], false⟩] &&
      call.delivered == [⟨0x21, [1], true⟩])
    (streamOpened ++ [.loop (.frame ⟨0x21, 0, 1, [1]⟩), .loop .go, .loop .go] ++ streamCancelled ++
      [.loop .go, .loop (.frame ⟨0x21, flagResponse, 1, [2]⟩), .loop .go, .loop .done,
        .op 0 (.forward .go), .op 0 (.forward .go)]) (by decide)
  simp only [Option.any_eq_true, Bool.and_eq_true, beq_iff_eq] at ht
  obtain ⟨call, hc, ⟨hd, hsince⟩, hdel⟩ := ht
  exact ⟨s, call, hs, hc, hd, hsince, hdel, (delivered_contiguous hs hc).1⟩

/-- **A gap on the channel.** The stream is cancelled before its first frame arrives; `send`
discards that frame, and accepts the response, which the forwarder puts on the channel. -/
theorem gap_of_cancelled :
    ∃ s call, Reached Always s ∧ s.calls[0]? = some call ∧ call.isStream = true ∧
      s.sinceOf call = [⟨0x21, [1], true⟩, ⟨0x21, [2], false⟩] ∧
      call.delivered = [⟨0x21, [2], false⟩] ∧ ¬ call.delivered <+: s.sinceOf call := by
  obtain ⟨s, hs, ht⟩ := exists_reaches_of_run step Always {}
    (fun s => s.calls[0]?.any fun call => call.isStream &&
      s.sinceOf call == [⟨0x21, [1], true⟩, ⟨0x21, [2], false⟩] &&
      call.delivered == [⟨0x21, [2], false⟩])
    (streamOpened ++ streamCancelled ++ [.loop (.frame ⟨0x21, 0, 1, [1]⟩), .loop .go, .loop .done,
      .loop .go, .loop (.frame ⟨0x21, flagResponse, 1, [2]⟩), .loop .go, .loop .go,
      .op 0 (.forward .go), .op 0 (.forward .go)]) (by decide)
  simp only [Option.any_eq_true, Bool.and_eq_true, beq_iff_eq] at ht
  obtain ⟨call, hc, ⟨hd, hsince⟩, hdel⟩ := ht
  refine ⟨s, call, hs, hc, hd, hsince, hdel, ?_⟩
  rw [hsince, hdel]
  decide

end Client

end Mvcp.Rpc
