import Mvcp.Rpc.Delivery

/-!
# A response and the disconnect after it

When the connection fails, `shutdown` closes `closeCh` and finishes every pending call while
frames may still be in the hand of the read loop, in the `inbox`, in the hand of the forwarder or
in `out`. The `select` statements of `send`, of the forwarder and of `receive` then have several
ready branches. A response that has been read reaches its caller if they let the frames through
first.

## Main definitions

* `Call.waiting`: the caller has no result yet and its context is not cancelled
* `Took`, `Reply`: what a caller took from the channel, by where it stands
* `View.Drains`: no `select` abandons a waiting call while one of its frames is on its way
* `View.Kept`: what follows for a call along a run

## Main results

* `Client.response_survives`: with `Drains`, a response that was read is delivered
* `Client.response_lost`: without it, the caller may get `client closed` in its place
-/

namespace Mvcp.Rpc

open Library

/-! ## What the caller took -/

/-- Nothing, or the `STARTED` frame, which `Call` skips. -/
def Header (fs : List StreamFrame) : Prop := fs = [] ∨ ∃ st, fs = [st] ∧ st.typ = typeSTARTED

/-- The frames of a `Call` that is answered by `f`. -/
def Reply (fs : List StreamFrame) (f : StreamFrame) : Prop :=
  fs = [f] ∧ f.typ ≠ typeSTARTED ∨ ∃ st, fs = [st, f] ∧ st.typ = typeSTARTED

theorem Header.not_reply {fs : List StreamFrame} {f : StreamFrame} (h : Header fs) :
    ¬ Reply fs f := by
  rintro (⟨rfl, hf⟩ | ⟨st, rfl, -⟩)
  · obtain h | ⟨st, h, hst⟩ := h
    · simp at h
    · obtain rfl := List.singleton_inj.mp h
      exact hf hst
  · obtain h | ⟨st, h, -⟩ := h <;> simp at h

/-- A `Call` is answered once. -/
theorem Reply.unique {fs gs : List StreamFrame} {f g : StreamFrame} (h : Reply fs f)
    (h' : Reply gs g) (hp : fs <+: gs) : f = g := by
  rcases h with ⟨rfl, hf⟩ | ⟨st, rfl, hst⟩ <;> rcases h' with ⟨rfl, hg⟩ | ⟨st', rfl, hst'⟩
  · simpa using hp
  · obtain ⟨rfl, -⟩ := List.cons_prefix_cons.mp hp
    exact absurd hst' hf
  · simpa using hp.length_le
  · obtain ⟨rfl, hp⟩ := List.cons_prefix_cons.mp hp
    simpa using hp

/-- What a caller with the result `r` took from the channel. -/
def Gave : Result → List StreamFrame → Prop
  | .ok r, fs => ∃ f, Reply fs f ∧ r = ⟨f.typ, f.body⟩
  | .error _, fs => Header fs

/-- What a caller took from the channel, by where it stands. -/
def Took : Phase → List StreamFrame → Prop
  | .add, fs | .write, fs | .receive, fs => fs = []
  | .receiveAgain, fs => ∃ st, fs = [st] ∧ st.typ = typeSTARTED
  | .finish r, fs | .remove r, fs | .returned r, fs => Gave r fs
  | .streaming, _ => True

namespace Call

/-- The result of the call, once its caller has one. -/
def result? (c : Call) : Option Result :=
  match c.phase with
  | .finish r | .remove r | .returned r => some r
  | _ => none

/-- The caller has no result yet, and its context is not cancelled. -/
def waiting (c : Call) : Bool := !c.ctxDone && c.result?.isNone

theorem awaits_header {c : Call} (h : c.awaits) (ht : Took c.phase c.received) :
    Header c.received := by
  rcases h with hp | hp <;> rw [hp] at ht
  · exact .inl ht
  · exact .inr ht

/-- What a call keeps along every run: which phases it goes through, and when its channel is
closed. -/
structure Phased (c : Call) : Prop where
  streaming : c.phase = .streaming → c.isStream = true
  awaits : c.awaits → c.isStream = false
  took : Took c.phase c.received
  closing : c.outClosed = true ↔ c.forwarder = .exited
  final : ∀ f ∈ c.delivered, f.more = false → c.forwarder = .exited

variable {closed : Bool} {c c' : Call} {o : Op} {e : Effect}

/-- A step that leaves the forwarder alone. -/
theorem Phased.kept (h : c.Phased) (ho : c'.outClosed = c.outClosed)
    (hf : c'.forwarder = c.forwarder) (hd : c'.delivered = c.delivered)
    (hs : c'.phase = .streaming → c'.isStream = true) (ha : c'.awaits → c'.isStream = false)
    (ht : Took c'.phase c'.received) : c'.Phased := by
  refine ⟨hs, ha, ht, ?_, ?_⟩
  · rw [ho, hf]
    exact h.closing
  · rw [hf, hd]
    exact h.final

/-- A step that leaves the caller alone. -/
theorem Phased.moved (h : c.Phased) (hp : c'.phase = c.phase) (hs : c'.isStream = c.isStream)
    (hr : c'.received = c.received) (hc : c'.outClosed = true ↔ c'.forwarder = .exited)
    (hf : ∀ f ∈ c'.delivered, f.more = false → c'.forwarder = .exited) : c'.Phased := by
  refine ⟨?_, ?_, ?_, hc, hf⟩
  · rw [hp, hs]
    exact h.streaming
  · rw [Call.awaits, hp, hs]
    exact h.awaits
  · rw [hp, hr]
    exact h.took

theorem Steps.phased (h : Steps closed c o c' e) (hc : c.Phased) : c'.Phased := by
  have ht := hc.took
  cases h with
  | add hp =>
    rw [hp] at ht
    exact hc.kept rfl rfl rfl (by simp) (by simp [Call.awaits]) ht
  | writeStream hp hs => exact hc.kept rfl rfl rfl (fun _ => hs) (by simp [Call.awaits]) trivial
  | writeCall hp hs =>
    rw [hp] at ht
    exact hc.kept rfl rfl rfl (by simp) (fun _ => hs) ht
  | writeFail hp =>
    rw [hp] at ht
    exact hc.kept rfl rfl rfl (by simp) (by simp [Call.awaits]) (.inl ht)
  | @receive f rest hp ho =>
    have hs := hc.awaits (.inl hp)
    rw [hp] at ht
    have hrec : c.received ++ [f] = [f] := by rw [show c.received = [] from ht, List.nil_append]
    by_cases hst : f.typ = typeSTARTED
    · simp only [if_pos hst]
      exact hc.kept rfl rfl rfl (by simp) (fun _ => hs) ⟨f, hrec, hst⟩
    · simp only [if_neg hst]
      exact hc.kept rfl rfl rfl (by simp) (by simp [Call.awaits]) ⟨f, .inl ⟨hrec, hst⟩, rfl⟩
  | @receiveAgain f rest hp ho =>
    rw [hp] at ht
    obtain ⟨st, hrec, hst⟩ := ht
    refine hc.kept rfl rfl rfl (by simp) (by simp [Call.awaits]) ⟨f, .inr ⟨st, ?_, hst⟩, rfl⟩
    simp [hrec]
  | receiveClosed hp | receiveContext hp | receiveShut hp =>
    have hh := awaits_header hp ht
    exact hc.kept rfl rfl rfl (by simp) (by simp [Call.awaits]) hh
  | finish hp | remove hp =>
    rw [hp] at ht
    exact hc.kept rfl rfl rfl (by simp) (by simp [Call.awaits]) ht
  | consume hp ho =>
    refine hc.kept rfl rfl rfl hc.streaming hc.awaits ?_
    simp [hp, Took]
  | take hr hf hi =>
    refine hc.moved rfl rfl rfl ?_ ?_
    · have hcl := hc.closing
      simpa [hf] using hcl
    · intro g hg hm
      exact absurd (hc.final g hg hm) (by simp [hf])
  | @push f hr hf ho =>
    refine hc.moved rfl rfl rfl ?_ ?_
    · cases f.more <;> simp
    · intro g hg hm
      -- a response before this frame would have ended the forwarder
      rcases List.mem_append.mp hg with hg | hg
      · exact absurd (hc.final g hg hm) (by simp [hf])
      · obtain rfl := List.mem_singleton.mp hg
        simp [hm]
  | quit hr hf hd => exact hc.moved rfl rfl rfl (by simp) (fun _ _ _ => rfl)
  | watchContext | watchShut | watchFinish | watchRemove | cancel =>
    exact hc.moved rfl rfl rfl hc.closing hc.final

/-! ### How a waiting call changes -/

theorem waiting_iff : c.waiting = true ↔ c.ctxDone = false ∧ c.result? = none := by
  simp [waiting]

theorem Steps.ctxDone (h : Steps closed c o c' e) (hd : c'.ctxDone = false) :
    c.ctxDone = false := by
  cases h with
  | cancel => simp at hd
  | _ => exact hd

theorem Steps.result (h : Steps closed c o c' e) (hr : c'.result? = none) : c.result? = none := by
  cases h with
  | add hp | writeStream hp | writeCall hp | writeFail hp | receive hp | receiveAgain hp =>
    simp [result?, hp]
  | receiveClosed hp | receiveContext hp | receiveShut hp =>
    rcases hp with hp | hp <;> simp [result?, hp]
  | finish | remove => simp [result?] at hr
  | _ => exact hr

theorem Steps.waiting (h : Steps closed c o c' e) (hw : c'.waiting = true) : c.waiting = true := by
  rw [waiting_iff] at hw ⊢
  exact ⟨h.ctxDone hw.1, h.result hw.2⟩

theorem Steps.isStream (h : Steps closed c o c' e) : c'.isStream = c.isStream := by
  cases h <;> rfl

/-- A caller gets its result while it awaits a frame, or when its request is not written. -/
theorem Steps.result_cases (h : Steps closed c o c' e) (hr : c'.result? ≠ none) :
    c.result? ≠ none ∨ c.awaits ∨ o = .run .fail := by
  cases h with
  | add | writeStream | writeCall => simp [result?] at hr
  | writeFail => exact .inr (.inr rfl)
  | receive hp => exact .inr (.inl (.inl hp))
  | receiveAgain hp => exact .inr (.inl (.inr hp))
  | receiveClosed hp | receiveContext hp | receiveShut hp => exact .inr (.inl hp)
  | finish hp | remove hp => exact .inl (by simp [result?, hp])
  | _ => exact .inl hr

/-- A caller that has its result takes no other frame. -/
theorem Steps.received (h : Steps closed c o c' e) (hr : c.result? ≠ none) :
    c'.received = c.received := by
  cases h with
  | receive hp | receiveAgain hp | consume hp => simp [result?, hp] at hr
  | _ => rfl

/-- Who finishes a call that is still waiting: the watcher. -/
theorem Steps.done_cases (h : Steps closed c o c' e) (hw : c'.waiting = true)
    (hd : c'.done = true) : c.done = true ∨ c.watcher = .finish := by
  cases h with
  | finish => simp [waiting_iff, result?] at hw
  | watchFinish hw' => exact .inr hw'
  | _ => exact .inl hd

/-- The watcher leaves its `select`. -/
theorem Steps.watcher_cases (h : Steps closed c o c' e) (hw : c'.waiting = true) :
    c'.watcher = c.watcher ∨ c'.watcher = .waiting ∨ closed = true ∨
      c.watcher ≠ .none ∧ c.watcher ≠ .waiting := by
  cases h with
  | writeStream => exact .inr (.inl rfl)
  | watchContext _ hc =>
    rw [waiting_iff] at hw
    simp [hc] at hw
  | watchShut _ hc => exact .inr (.inr (.inl hc))
  | watchFinish hw' | watchRemove hw' => exact .inr (.inr (.inr (by simp [hw'])))
  | _ => exact .inl rfl

/-- The forwarder exits: after the response, or because the call is finished. -/
theorem Steps.exited_cases (h : Steps closed c o c' e) (hx : c'.forwarder = .exited) :
    c.forwarder = .exited ∧ c'.delivered = c.delivered ∨
      (∃ f ∈ c'.delivered, f.more = false) ∨
      o = .forward .done ∧ c.done = true ∧ c.forwarder ≠ .exited ∧ c'.delivered = c.delivered := by
  cases h with
  | take => simp at hx
  | @push f =>
    refine .inr (.inl ⟨f, by simp, ?_⟩)
    cases hm : f.more with
    | false => rfl
    | true => simp [hm] at hx
  | quit hr hf hd => exact .inr (.inr ⟨rfl, hd, hf, rfl⟩)
  | _ => exact .inl ⟨hx, rfl⟩

/-- A call fails: the request is not written, its context is done, its channel is closed or the
client is. -/
theorem Steps.error_cases (h : Steps closed c o c' e) {x : CallError}
    (hr : c'.result? = some (.error x)) :
    c.result? = some (.error x) ∧ c'.received = c.received ∨
      c.result? = none ∧ c'.received = c.received ∧
        (o = .run .fail ∨ c.ctxDone = true ∨ c.out = [] ∧ c.outClosed = true ∨
          o = .run .closed ∧ closed = true) := by
  cases h with
  | add | writeStream | writeCall => simp [result?] at hr
  | @receive f =>
    by_cases hst : f.typ = typeSTARTED <;> simp [result?, hst] at hr
  | receiveAgain => simp [result?] at hr
  | writeFail hp => exact .inr ⟨by simp [result?, hp], rfl, .inl rfl⟩
  | receiveClosed hp ho hc =>
    refine .inr ⟨?_, rfl, .inr (.inr (.inl ⟨ho, hc⟩))⟩
    rcases hp with hp | hp <;> simp [result?, hp]
  | receiveContext hp hc =>
    refine .inr ⟨?_, rfl, .inr (.inl hc)⟩
    rcases hp with hp | hp <;> simp [result?, hp]
  | receiveShut hp hc =>
    refine .inr ⟨?_, rfl, .inr (.inr (.inr ⟨rfl, hc⟩))⟩
    rcases hp with hp | hp <;> simp [result?, hp]
  | finish hp | remove hp => exact .inl ⟨by simpa [result?, hp] using hr, rfl⟩
  | consume hp => simp [result?, hp] at hr
  | _ => exact .inl ⟨hr, rfl⟩

end Call

namespace View

variable {v v' : View} {a : Act}

/-- No frame of the call is on its way to the channel. -/
def Idle (v : View) : Prop := v.hand = none ∧ v.call.held = [] ∧ v.call.inbox = []

instance (v : View) : Decidable v.Idle := inferInstanceAs (Decidable (_ ∧ _ ∧ _))

/-- No `select` abandons a waiting call while one of its frames is on its way, and its request is
written. -/
def Drains (v : View) : Act → Prop
  | .op (.run .closed) => v.call.waiting = true → v.Idle ∧ v.call.out = []
  | .op (.run .fail) => v.call.waiting = false
  | .op (.forward .done) => v.call.waiting = true → v.Idle
  | .drop => v.call.waiting = true → v.hand = none
  | _ => True

instance (v : View) (a : Act) : Decidable (v.Drains a) := by
  unfold Drains
  split <;> infer_instance

/-- Every frame read for the call is on the channel, and no other will be read. -/
structure Drained (v : View) : Prop where
  closed : v.closed = true
  hand : v.hand = none
  delivered : v.call.delivered = v.call.read

/-- What a call keeps along a run that drains it. -/
structure Kept (v : View) : Prop where
  lost : v.call.waiting = true → v.call.lost = false
  /-- A waiting call is finished by the shutdown of the client only. -/
  done : v.call.waiting = true → v.call.done = true → v.closed = true
  watcher : v.call.waiting = true →
    v.call.watcher = .none ∨ v.call.watcher = .waiting ∨ v.closed = true
  /-- The channel is closed after the response, or after the last frame there is. -/
  exited : v.call.waiting = true → v.call.forwarder = .exited →
    (∃ f ∈ v.call.delivered, f.more = false) ∨ v.Drained
  stream : v.call.ctxDone = false → v.call.isStream = true → v.call.result? = none
  taken : v.call.ctxDone = false → v.call.received <+: v.call.read
  /-- A call that failed has taken all there is. -/
  error : v.call.ctxDone = false → ∀ x, v.call.result? = some (.error x) →
    (∃ f ∈ v.call.received, f.more = false) ∨
      v.closed = true ∧ v.hand = none ∧ v.call.received = v.call.read

theorem Fresh.kept (h : v.Fresh) : v.Kept := by
  obtain ⟨id, isStream, typ, flags, body, hc⟩ := h.call
  refine ⟨?_, ?_, ?_, ?_, ?_, ?_, ?_⟩ <;> simp [hc, Call.result?]

theorem Fresh.phased (h : v.Fresh) : v.call.Phased := by
  obtain ⟨id, isStream, typ, flags, body, hc⟩ := h.call
  refine ⟨?_, ?_, ?_, ?_, ?_⟩ <;> simp [hc, Call.awaits, Took]

theorem Step.phased (hs : v.Step a v') (h : v.call.Phased) : v'.call.Phased := by
  cases hs with
  | op he hst => exact hst.phased h
  | insert hst =>
    exact (hst.phased h).moved rfl rfl rfl (hst.phased h).closing (hst.phased h).final
  | unlist | miss | clear => exact h
  | look | accept | drop | shut => exact h.moved rfl rfl rfl h.closing h.final

/-- With nothing on its way, what is on the channel is all there is. -/
theorem Idle.delivered (hi : v.Idle) (hf : v.Flow) (hl : v.call.lost = false)
    (hx : v.call.forwarder ≠ .exited) : v.call.delivered = v.call.read := by
  have hw := hf.whole hl hx
  obtain ⟨hh, hheld, hin⟩ := hi
  simpa [Call.accepted, hh, hheld, hin] using hw

/-- A step that leaves the caller and the forwarder alone. -/
theorem Kept.same (h : v.Kept) (hc : v'.call.ctxDone = v.call.ctxDone)
    (hp : v'.call.phase = v.call.phase) (hs : v'.call.isStream = v.call.isStream)
    (hl : v.call.waiting = true → v'.call.lost = false)
    (hd : v'.call.done = true → v.call.done = true ∨ v'.closed = true)
    (hw : v'.call.watcher = v.call.watcher) (hf : v'.call.forwarder = v.call.forwarder)
    (hdel : v'.call.delivered = v.call.delivered) (hrec : v'.call.received = v.call.received)
    (hread : v.call.read <+: v'.call.read)
    (hclosed : v.closed = true →
      v'.closed = true ∧ v'.call.read = v.call.read ∧ (v.hand = none → v'.hand = none)) :
    v'.Kept := by
  have hres : v'.call.result? = v.call.result? := by rw [Call.result?, hp, Call.result?]
  have hwait : v'.call.waiting = v.call.waiting := by rw [Call.waiting, hc, hres, Call.waiting]
  refine ⟨hwait ▸ hl, ?_, ?_, ?_, ?_, ?_, ?_⟩
  · intro hw' hd'
    rw [hwait] at hw'
    rcases hd hd' with hd' | hcl
    · exact (hclosed (h.done hw' hd')).1
    · exact hcl
  · intro hw'
    rw [hwait] at hw'
    rw [hw]
    rcases h.watcher hw' with hn | hn | hcl
    · exact .inl hn
    · exact .inr (.inl hn)
    · exact .inr (.inr (hclosed hcl).1)
  · intro hw' hx
    rw [hwait] at hw'
    rw [hf] at hx
    rcases h.exited hw' hx with hfin | hdr
    · exact .inl (hdel ▸ hfin)
    · obtain ⟨hcl, hread, hhand⟩ := hclosed hdr.closed
      exact .inr ⟨hcl, hhand hdr.hand, hdel.trans (hdr.delivered.trans hread.symm)⟩
  · rw [hc, hs, hres]
    exact h.stream
  · rw [hc, hrec]
    exact fun hc' => (h.taken hc').trans hread
  · intro hc' x hx
    rw [hc] at hc'
    rw [hres] at hx
    rw [hrec]
    rcases h.error hc' x hx with hfin | ⟨hcl, hhand, hall⟩
    · exact .inl hfin
    · obtain ⟨hcl, hread, hhand'⟩ := hclosed hcl
      exact .inr ⟨hcl, hhand' hhand, hall.trans hread.symm⟩

/-- The steps of the goroutines of a call. -/
theorem Kept.op {o : Op} {call' : Call} {e : Effect} (h : v.Kept)
    (hst : v.call.Steps v.closed o call' e) (hg : v.Drains (.op o)) (hflow : v.Flow)
    (hflow' : v'.Flow) (hph : v.call.Phased)
    (hv : v' = { v with call := call', listed := v'.listed }) : v'.Kept := by
  have hf := hst.framed
  obtain ⟨hcall, hclosed, hhand⟩ :
      v'.call = call' ∧ v'.closed = v.closed ∧ v'.hand = v.hand := by
    rw [hv]
    exact ⟨rfl, rfl, rfl⟩
  have hlost (hw : v.call.waiting = true) : v'.call.lost = false := by
    rw [hcall, hf.lost]
    exact h.lost hw
  refine ⟨?_, ?_, ?_, ?_, ?_, ?_, ?_⟩
  · intro hw
    exact hlost (hst.waiting (hcall ▸ hw))
  · intro hw hd
    rw [hcall] at hw hd
    rw [hclosed]
    rcases hst.done_cases hw hd with hd | hwat
    · exact h.done (hst.waiting hw) hd
    · simpa [hwat] using h.watcher (hst.waiting hw)
  · intro hw
    rw [hcall] at hw ⊢
    rw [hclosed]
    have hw₀ := h.watcher (hst.waiting hw)
    rcases hst.watcher_cases hw with heq | hn | hcl | ⟨hn, hn'⟩
    · rw [heq]
      exact hw₀
    · exact .inr (.inl hn)
    · exact .inr (.inr hcl)
    · exact .inr (.inr ((hw₀.resolve_left hn).resolve_left hn'))
  · intro hw hx
    rw [hcall] at hw hx ⊢
    have hw₀ := hst.waiting hw
    have hdrained (hdel : call'.delivered = v.call.delivered) (hdr : v.Drained) : v'.Drained := by
      refine ⟨hclosed.trans hdr.closed, hhand.trans hdr.hand, ?_⟩
      rw [hcall, hdel, hf.read]
      exact hdr.delivered
    rcases hst.exited_cases hx with ⟨hx₀, hdel⟩ | hfin | ⟨rfl, hd, hx₀, hdel⟩
    · rcases h.exited hw₀ hx₀ with hfin | hdr
      · exact .inl (hdel ▸ hfin)
      · exact .inr (hdrained hdel hdr)
    · exact .inl hfin
    · -- the forwarder quits a waiting call: nothing is on its way
      have hidle : v.Idle := hg hw₀
      have hall := hidle.delivered hflow (h.lost hw₀) hx₀
      exact .inr (hdrained hdel ⟨h.done hw₀ hd, hidle.1, hall⟩)
  · intro hc hs
    rw [hcall] at hc hs ⊢
    rw [hst.isStream] at hs
    have hres := h.stream (hst.ctxDone hc) hs
    by_contra hres'
    rcases hst.result_cases hres' with hsome | haw | rfl
    · exact hsome hres
    · simp [hph.awaits haw] at hs
    · have hno : v.call.waiting = false := hg
      simp [Call.waiting_iff.mpr ⟨hst.ctxDone hc, hres⟩] at hno
  · intro hc
    have hc₀ := hst.ctxDone (hcall ▸ hc)
    by_cases hres : v.call.result? = none
    · -- the caller takes from the channel, which is a beginning of what was read
      have hw := Call.waiting_iff.mpr ⟨hc₀, hres⟩
      exact List.IsPrefix.trans ⟨_, hflow'.buffer.symm⟩ (hflow'.delivered (hlost hw))
    · rw [hcall, hst.received hres, hf.read]
      exact h.taken hc₀
  · intro hc x hx
    rw [hcall] at hc hx ⊢
    have hc₀ := hst.ctxDone hc
    rw [hclosed, hhand, hf.read]
    rcases hst.error_cases hx with ⟨hx₀, hrec⟩ | ⟨hx₀, hrec, hcause⟩
    · rw [hrec]
      exact h.error hc₀ x hx₀
    · have hw₀ : v.call.waiting = true := Call.waiting_iff.mpr ⟨hc₀, hx₀⟩
      -- once the channel is empty, the caller has taken all of it
      have hall (ho : v.call.out = []) (hx : v.call.forwarder = .exited) :
          (∃ f ∈ v.call.received, f.more = false) ∨
            v.closed = true ∧ v.hand = none ∧ v.call.received = v.call.read := by
        have hb := hflow.buffer
        rw [ho, List.append_nil] at hb
        rw [← hb]
        rcases h.exited hw₀ hx with hfin | hdr
        · exact .inl hfin
        · exact .inr ⟨hdr.closed, hdr.hand, hdr.delivered⟩
      rw [hrec]
      rcases hcause with rfl | hctx | ⟨ho, hcl⟩ | ⟨rfl, hcl⟩
      · have hno : v.call.waiting = false := hg
        simp [hw₀] at hno
      · simp [hctx] at hc₀
      · exact hall ho (hph.closing.mp hcl)
      · obtain ⟨hidle, ho⟩ := hg hw₀
        by_cases hx : v.call.forwarder = .exited
        · exact hall ho hx
        · have hb := hflow.buffer
          rw [ho, List.append_nil] at hb
          exact .inr ⟨hcl, hidle.1, hb ▸ hidle.delivered hflow (h.lost hw₀) hx⟩

theorem Step.kept (hs : v.Step a v') (hg : v.Drains a) (hflow : v.Flow) (hph : v.call.Phased)
    (h : v.Kept) : v'.Kept := by
  have hflow' := hs.flow hflow
  cases hs with
  | op he hst => exact h.op hst hg hflow hflow' hph rfl
  | @insert o call' born hst =>
    have hop : Kept { v with call := call', listed := true } :=
      h.op hst hg hflow ⟨hflow'.buffer, hflow'.lost, hflow'.whole, hflow'.delivered⟩ hph rfl
    exact hop.same rfl rfl rfl hop.lost .inl rfl rfl rfl rfl List.prefix_rfl
      fun hcl => ⟨hcl, rfl, id⟩
  | unlist | miss | clear =>
    exact h.same rfl rfl rfl h.lost .inl rfl rfl rfl rfl List.prefix_rfl fun hcl => ⟨hcl, rfl, id⟩
  | look hl hr hh hclr hc =>
    exact h.same rfl rfl rfl h.lost .inl rfl rfl rfl rfl (List.prefix_append _ _)
      fun hcl => by simp [hc] at hcl
  | accept hh hroom =>
    exact h.same rfl rfl rfl h.lost .inl rfl rfl rfl rfl List.prefix_rfl
      fun hcl => ⟨hcl, rfl, fun _ => rfl⟩
  | drop hh hd =>
    refine h.same rfl rfl rfl ?_ .inl rfl rfl rfl rfl List.prefix_rfl
      fun hcl => ⟨hcl, rfl, fun _ => rfl⟩
    intro hw
    have hno : v.hand = none := hg hw
    simp [hh] at hno
  | shut hc =>
    exact h.same rfl rfl rfl h.lost (fun _ => .inr rfl) rfl rfl rfl rfl List.prefix_rfl
      fun hcl => by simp [hc] at hcl

/-! ## What the caller gets -/

/-- When the response is on the channel, so is everything that was read. -/
theorem Routes.delivered_eq {f : StreamFrame} (h : v.Routes)
    (hd : v.call.delivered <+: v.call.read) (hf : f ∈ v.call.delivered) (hm : f.more = false) :
    v.call.delivered = v.call.read := by
  obtain ⟨rest, hrest⟩ := hd
  rcases List.eq_nil_or_concat rest with rfl | ⟨init, g, rfl⟩
  · rw [← hrest, List.append_nil]
  · -- a frame read after the response would make it one of those before the last
    have hlast := h.last f (by rw [← hrest]; simp [← List.append_assoc, hf])
    simp [hm] at hlast

/-- A stream whose channel is closed has got every frame. -/
theorem Kept.closed_stream (h : v.Kept) (hr : v.Routes) (hflow : v.Flow) (hph : v.call.Phased)
    (hs : v.call.isStream = true) (hc : v.call.ctxDone = false) (ho : v.call.outClosed = true) :
    v.call.delivered = v.call.read := by
  have hw := Call.waiting_iff.mpr ⟨hc, h.stream hc hs⟩
  rcases h.exited hw (hph.closing.mp ho) with ⟨f, hf, hm⟩ | hdr
  · exact hr.delivered_eq (hflow.delivered (h.lost hw)) hf hm
  · exact hdr.delivered

/-- A caller with a result has got the reply. -/
theorem Kept.result_ok {r : Result} {f : StreamFrame} (h : v.Kept) (hr : v.Routes)
    (hph : v.call.Phased) (hc : v.call.ctxDone = false) (hres : v.call.result? = some r)
    (hf : Reply v.call.read f) : r = .ok ⟨f.typ, f.body⟩ := by
  have hgave : Gave r v.call.received := by
    have ht := hph.took
    unfold Call.result? at hres
    split at hres <;> simp_all [Took]
  have htaken := h.taken hc
  cases r with
  | ok resp =>
    obtain ⟨g, hg, rfl⟩ := hgave
    rw [hg.unique hf htaken]
  | error x =>
    exfalso
    rcases h.error hc x hres with ⟨st, hst, hm⟩ | ⟨-, -, hall⟩
    · -- the frame that was skipped is not the last one read
      obtain hnil | ⟨st', hst', htyp⟩ := (hgave : Header _)
      · simp [hnil] at hst
      · rw [hst', List.mem_singleton] at hst
        subst hst
        rw [hst'] at htaken
        rcases hf with ⟨hread, hne⟩ | ⟨st', hread, -⟩
        · rw [hread] at htaken
          obtain rfl : st = f := by simpa using htaken
          exact hne htyp
        · rw [hread] at htaken
          obtain rfl : st = st' := (List.cons_prefix_cons.mp htaken).1
          have hlast := hr.last st (by simp [hread])
          simp [hm] at hlast
    · exact (hgave : Header _).not_reply (hall ▸ hf)

/-! ## The way of a frame to the caller -/

/-- How far a caller is from its result. -/
def rank : Phase → ℕ
  | .add => 6
  | .write => 5
  | .receive => 4
  | .receiveAgain => 3
  | .finish _ => 2
  | .remove _ => 1
  | .returned _ | .streaming => 0

/-- How many steps the frames of a call and its caller have left. -/
def weight (v : View) : ℕ :=
  4 * v.hand.toList.length + 3 * v.call.inbox.length + 2 * v.call.held.length +
    v.call.out.length + rank v.call.phase

/-- The view gets closer to its end, with the same frames read. -/
structure Advances (v v' : View) : Prop where
  weight : v'.weight < v.weight
  read : v'.call.read = v.call.read
  ctxDone : v'.call.ctxDone = v.call.ctxDone
  isStream : v'.call.isStream = v.call.isStream

end View

namespace Client

open View

variable {s : Client} {c : ℕ} {call call' : Call}

/-- No `select` abandons a waiting call while one of its frames is on its way, and its request is
written. -/
def Drains (s : Client) : Label → Prop
  | .op c o => ∀ call ∈ s.calls[c]?, (s.view c call).Drains (.op o)
  | .loop .done =>
    match s.loop with
    | .sending c _ _ => ∀ call ∈ s.calls[c]?, call.waiting = false
    | _ => True
  | _ => True

/-- The call to which the read loop sends a frame. -/
def target? (s : Client) : Option ℕ :=
  match s.loop with
  | .sending c _ _ => some c
  | _ => none

theorem drains_done : s.Drains (.loop .done) ↔
    ∀ c ∈ s.target?, ∀ call ∈ s.calls[c]?, call.waiting = false := by
  cases hl : s.loop <;> simp [Drains, target?, hl]

instance (s : Client) (l : Label) : Decidable (s.Drains l) := by
  cases l with
  | op c o =>
    exact inferInstanceAs (Decidable (∀ call ∈ s.calls[c]?, (s.view c call).Drains (.op o)))
  | loop x =>
    cases x with
    | done => exact decidable_of_iff _ drains_done.symm
    | _ => exact .isTrue trivial
  | _ => exact .isTrue trivial

theorem Drains.guarded {l : Label} (h : s.Drains l) : s.Guarded View.Drains l := by
  intro c call a hc hcause
  cases hcause with
  | op => exact h call hc
  | drop =>
    intro hw
    have hw' : call.waiting = true := hw
    show s.handOf c = none
    unfold handOf
    split
    · next c' id f hl =>
      simp only [Drains, hl] at h
      refine if_neg fun hcc => ?_
      simp [h call (hcc ▸ hc)] at hw'
    · rfl
  | _ => trivial

/-- What holds of each call along a run that drains them. -/
theorem view_kept (h : Reached Drains s) (hc : s.calls[c]? = some call) :
    (s.view c call).Flow ∧ call.Phased ∧ (s.view c call).Kept :=
  view_invariant (G := View.Drains) (I := fun v => v.Flow ∧ v.call.Phased ∧ v.Kept)
    (fun _ _ hok => hok.guarded) (fun _ hv => ⟨hv.flow, hv.phased, hv.kept⟩)
    (fun _ _ _ hs hg ⟨h₁, h₂, h₃⟩ => ⟨hs.flow h₁, hs.phased h₂, hs.kept hg h₁ h₂ h₃⟩) h c call hc

/-- A goroutine of a call takes its step. -/
theorem step_op {o : Op} {e : Effect} (hc : s.calls[c]? = some call)
    (h : call.step s.closed o = some (call', e)) (he : e ≠ .insert) :
    ∃ u, s.step (.op c o) = some u ∧ u.calls[c]? = some call' ∧ u.handOf c = s.handOf c := by
  refine ⟨{ s with calls := s.calls.set c call' }.effect c call' e, ?_, ?_, ?_⟩
  · simp [step, stepOp, hc, h]
  · have hlt := (List.getElem?_eq_some_iff.mp hc).1
    rw [effect_calls]
    simp [settled, he, hlt]
  · simp [handOf]

/-- The read loop puts the frame in its hand into the inbox. -/
theorem step_accept {f : StreamFrame} (hc : s.calls[c]? = some call) (hh : s.handOf c = some f)
    (hroom : call.inbox.length < chanSize) :
    ∃ u, s.step (.loop .go) = some u ∧
      u.calls[c]? = some { call with inbox := call.inbox ++ [f] } ∧ u.handOf c = none := by
  unfold handOf at hh
  split at hh
  · next c' id g hl =>
    split_ifs at hh with hcc
    subst hcc
    obtain rfl := Option.some.inj hh
    have hlt := (List.getElem?_eq_some_iff.mp hc).1
    refine ⟨{ s with
      loop := afterSend c' id g
      calls := s.calls.set c' { call with inbox := call.inbox ++ [g] } }, ?_, ?_, ?_⟩
    · simp [step, stepLoop, hl, hc, hroom]
    · simp [hlt]
    · simp only [handOf, afterSend]
      split_ifs <;> rfl
  · simp at hh

/-- The call has a step that brings it closer to its end. -/
def Ready (s : Client) (c : ℕ) (call : Call) : Prop :=
  ∃ l u call', s.Drains l ∧ s.step l = some u ∧ u.calls[c]? = some call' ∧
    (s.view c call).Advances (u.view c call')

theorem ready_op {o : Op} {e : Effect} (hc : s.calls[c]? = some call)
    (h : call.step s.closed o = some (call', e)) (he : e ≠ .insert)
    (hg : (s.view c call).Drains (.op o))
    (hw : ∀ v : View, v.call = call' → v.hand = s.handOf c → v.weight < (s.view c call).weight)
    (hctx : call'.ctxDone = call.ctxDone) : s.Ready c call := by
  obtain ⟨u, hu, hcall', hhand⟩ := step_op hc h he
  have hst := Call.steps_of_step h
  refine ⟨_, u, call', ?_, hu, hcall', ⟨hw _ rfl hhand, hst.framed.read, hctx, hst.isStream⟩⟩
  intro call₀ hcall₀
  obtain rfl := Option.some.inj (hc.symm.trans hcall₀)
  exact hg

/-- A frame that is not on the channel yet can move on. -/
theorem ready_forward (hflow : (s.view c call).Flow) (hc : s.calls[c]? = some call)
    (hreg : call.registered = true) (hout : call.out = []) (hx : call.forwarder ≠ .exited)
    (hlost : call.lost = false) (hne : call.delivered ≠ call.read) : s.Ready c call := by
  cases hf : call.forwarder with
  | exited => exact absurd hf hx
  | holding f =>
    have hstep : call.step s.closed (.forward .go) = some ({ call with
        out := [f]
        delivered := call.delivered ++ [f]
        forwarder := if f.more then .idle else .exited
        outClosed := !f.more }, .none) := by
      simp [Call.step, Call.forward, hreg, hf, hout, chanSize]
    refine ready_op hc hstep (by simp) trivial ?_ rfl
    intro v hv hh
    simp only [weight, hv, hh, view, Call.held, hf, hout]
    split_ifs <;> simp
  | idle =>
    cases hin : call.inbox with
    | cons f rest =>
      have hstep : call.step s.closed (.forward .go) =
          some ({ call with forwarder := .holding f, inbox := rest }, .none) := by
        simp [Call.step, Call.forward, hreg, hf, hin]
      refine ready_op hc hstep (by simp) trivial ?_ rfl
      intro v hv hh
      simp only [weight, hv, hh, view, Call.held, hf, hin]
      simp
      omega
    | nil =>
      cases hh : s.handOf c with
      | none =>
        have hidle : (s.view c call).Idle := ⟨hh, by simp [view, Call.held, hf], hin⟩
        exact absurd (hidle.delivered hflow hlost hx) hne
      | some f =>
        obtain ⟨u, hu, hcall', hhand⟩ := step_accept hc hh (by simp [hin, chanSize])
        refine ⟨.loop .go, u, _, trivial, hu, hcall', ⟨?_, rfl, rfl, rfl⟩⟩
        simp [weight, view, hhand, hh, hin, Call.held]

/-- The caller takes its next step. -/
theorem ready_run {e : Effect} (hc : s.calls[c]? = some call)
    (h : call.step s.closed (.run .go) = some (call', e)) (he : e ≠ .insert)
    (hin : call'.inbox = call.inbox) (hf : call'.forwarder = call.forwarder)
    (hout : call'.out.length ≤ call.out.length) (hp : rank call'.phase < rank call.phase)
    (hctx : call'.ctxDone = call.ctxDone) : s.Ready c call := by
  refine ready_op hc h he trivial ?_ hctx
  intro v hv hh
  simp only [weight, hv, hh, view, Call.held, hf, hin]
  omega

/-- A stream whose response was read ends with all its frames received. -/
theorem ready_stream (h : Reached Drains s) (hc : s.calls[c]? = some call)
    (hs : call.isStream = true) (hctx : call.ctxDone = false) {f : StreamFrame}
    (hf : f ∈ call.read) (hm : f.more = false) :
    (call.outClosed = true ∧ call.received = call.read) ∨ s.Ready c call := by
  obtain ⟨hset, hroutes, -⟩ := view_flow h c call hc
  obtain ⟨hflow, hph, hkept⟩ := view_kept h hc
  have hres : call.result? = none := hkept.stream hctx hs
  have hlost : call.lost = false := hkept.lost (Call.waiting_iff.mpr ⟨hctx, hres⟩)
  cases hp : call.phase with
  | add =>
    rw [show call.read = [] from (hset.frames hp).1] at hf
    simp at hf
  | receive => simp [hph.awaits (.inl hp)] at hs
  | receiveAgain => simp [hph.awaits (.inr hp)] at hs
  | finish r | remove r | returned r => simp [Call.result?, hp] at hres
  | write =>
    have hstep : call.step s.closed (.run .go) =
        some ({ call with phase := .streaming, watcher := .waiting }, .send) := by
      simp [Call.step, Call.run, hp, hs]
    exact .inr (ready_run hc hstep (by simp) rfl rfl le_rfl (by simp [rank, hp]) rfl)
  | streaming =>
    cases ho : call.out with
    | cons g rest =>
      have hstep : call.step s.closed .consume =
          some ({ call with out := rest, received := call.received ++ [g] }, .none) := by
        simp [Call.step, Call.consume, hp, ho]
      refine .inr (ready_op hc hstep (by simp) trivial ?_ rfl)
      intro v hv hh
      simp [weight, hv, hh, view, Call.held, ho]
    | nil =>
      have hb : call.delivered = call.received := by
        have hb := hflow.buffer
        rwa [show (s.view c call).call.out = [] from ho, List.append_nil] at hb
      by_cases hx : call.forwarder = .exited
      · have hcl := hph.closing.mpr hx
        exact .inl ⟨hcl, hb ▸ hkept.closed_stream hroutes hflow hph hs hctx hcl⟩
      · have hreg := hset.registered (show call.phase ≠ .add by simp [hp])
        refine .inr (ready_forward hflow hc hreg ho hx hlost ?_)
        -- the response on the channel would have ended the forwarder
        exact fun hall => hx (hph.final f (hall ▸ hf) hm)

/-- A caller that awaits a frame can take it, or the frame can move on. -/
theorem ready_awaits (h : Reached Drains s) (hc : s.calls[c]? = some call) (haw : call.awaits)
    (hctx : call.ctxDone = false) {f : StreamFrame} (hf : Reply call.read f) :
    s.Ready c call := by
  obtain ⟨hset, hroutes, -⟩ := view_flow h c call hc
  obtain ⟨hflow, hph, hkept⟩ := view_kept h hc
  have hres : call.result? = none := by
    rcases haw with hp | hp <;> simp [Call.result?, hp]
  have hwait := Call.waiting_iff.mpr ⟨hctx, hres⟩
  have hlost : call.lost = false := hkept.lost hwait
  cases ho : call.out with
  | cons g rest =>
    have hstep : ∃ p, rank p < rank call.phase ∧ call.step s.closed (.run .go) =
        some ({ call with out := rest, received := call.received ++ [g], phase := p }, .none) := by
      rcases haw with hp | hp
      · refine ⟨if g.typ = typeSTARTED then .receiveAgain else .finish (.ok ⟨g.typ, g.body⟩),
          ?_, ?_⟩
        · rw [hp]
          split_ifs <;> simp [rank]
        · simp [Call.step, Call.run, hp, ho]
      · refine ⟨.finish (.ok ⟨g.typ, g.body⟩), by simp [rank, hp], ?_⟩
        simp [Call.step, Call.run, hp, ho]
    obtain ⟨p, hp, hstep⟩ := hstep
    exact ready_run hc hstep (by simp) rfl rfl (by simp [ho]) hp rfl
  | nil =>
    have hb : call.delivered = call.received := by
      have hb := hflow.buffer
      rwa [show (s.view c call).call.out = [] from ho, List.append_nil] at hb
    have hhead : Header call.received := Call.awaits_header haw hph.took
    -- what the caller has taken is not the reply, so there is more to come
    have hne : call.delivered ≠ call.read := by
      intro hall
      exact hhead.not_reply (hb ▸ hall ▸ hf)
    have hx : call.forwarder ≠ .exited := by
      intro hx
      rcases hkept.exited hwait hx with ⟨g, hg, hm⟩ | hdr
      · exact hne (hroutes.delivered_eq (hflow.delivered hlost) hg hm)
      · exact hne hdr.delivered
    have hreg := hset.registered (show call.phase ≠ .add by rcases haw with hp | hp <;> simp [hp])
    exact ready_forward hflow hc hreg ho hx hlost hne

/-- A caller whose reply was read returns it. -/
theorem ready_call (h : Reached Drains s) (hc : s.calls[c]? = some call)
    (hs : call.isStream = false) (hctx : call.ctxDone = false) {f : StreamFrame}
    (hf : Reply call.read f) :
    call.phase = .returned (.ok ⟨f.typ, f.body⟩) ∨ s.Ready c call := by
  obtain ⟨hset, hroutes, -⟩ := view_flow h c call hc
  obtain ⟨hflow, hph, hkept⟩ := view_kept h hc
  cases hp : call.phase with
  | add =>
    rw [show call.read = [] from (hset.frames hp).1] at hf
    exact absurd hf (Header.not_reply (.inl rfl))
  | write =>
    have hstep : call.step s.closed (.run .go) =
        some ({ call with phase := .receive }, .send) := by
      simp [Call.step, Call.run, hp, hs]
    exact .inr (ready_run hc hstep (by simp) rfl rfl le_rfl (by simp [rank, hp]) rfl)
  | receive => exact .inr (ready_awaits h hc (.inl hp) hctx hf)
  | receiveAgain => exact .inr (ready_awaits h hc (.inr hp) hctx hf)
  | finish r =>
    have hstep : call.step s.closed (.run .go) =
        some ({ call with done := true, phase := .remove r }, .none) := by
      simp [Call.step, Call.run, hp]
    exact .inr (ready_run hc hstep (by simp) rfl rfl le_rfl (by simp [rank, hp]) rfl)
  | remove r =>
    have hstep : call.step s.closed (.run .go) =
        some ({ call with phase := .returned r }, .delete) := by
      simp [Call.step, Call.run, hp]
    exact .inr (ready_run hc hstep (by simp) rfl rfl le_rfl (by simp [rank, hp]) rfl)
  | returned r =>
    have hres : call.result? = some r := by simp [Call.result?, hp]
    rw [hkept.result_ok hroutes hph hctx hres hf]
    exact .inl rfl
  | streaming => simp [hph.streaming hp] at hs

/-- A call that has a step closer to its end until it is there gets there, with the frames read
so far. -/
theorem exists_reaches_of_ready {D : Call → Prop}
    (hready : ∀ (t : Client) (call' : Call), Reached Drains t → t.calls[c]? = some call' →
      call'.read = call.read → call'.ctxDone = call.ctxDone → call'.isStream = call.isStream →
      D call' ∨ t.Ready c call')
    (h : Reached Drains s) (hc : s.calls[c]? = some call) :
    ∃ t call', Reaches step Drains s t ∧ t.calls[c]? = some call' ∧ call'.read = call.read ∧
      D call' := by
  let same (t : Client) (call' : Call) : Prop := t.calls[c]? = some call' ∧
    call'.read = call.read ∧ call'.ctxDone = call.ctxDone ∧ call'.isStream = call.isStream
  let left (t : Client) : ℕ := t.calls[c]?.elim 0 fun call' => (t.view c call').weight
  have hgo (t : Client) (ht : Reached Drains t ∧ ∃ call', same t call') :
      (∃ call', same t call' ∧ D call') ∨ ∃ l u, t.Drains l ∧ t.step l = some u ∧
        (Reached Drains u ∧ ∃ call', same u call') ∧ left u < left t := by
    obtain ⟨ht, call', hsame⟩ := ht
    obtain ⟨hc', hread, hctx, hstream⟩ := hsame
    rcases hready t call' ht hc' hread hctx hstream with hD | ⟨l, u, call'', hok, hu, hc'', hadv⟩
    · exact .inl ⟨call', ⟨hc', hread, hctx, hstream⟩, hD⟩
    · refine .inr ⟨l, u, hok, hu, ⟨ht.tail hok hu, call'', hc'', ?_, ?_, ?_⟩, ?_⟩
      · exact hadv.read.trans hread
      · exact hadv.ctxDone.trans hctx
      · exact hadv.isStream.trans hstream
      · simpa [left, hc', hc''] using hadv.weight
  obtain ⟨t, ht, -, call', ⟨hc', hread, -⟩, hD⟩ :=
    exists_reaches_of_measure left hgo ⟨h, call, hc, rfl, rfl, rfl⟩
  exact ⟨t, call', ht, hc', hread, hD⟩

/-- **A response that was read is delivered.** As long as no `select` abandons a waiting call while
one of its frames is on its way, and requests are written, a read error after the response does not
matter to a call whose context is not cancelled. A stream whose response was read has got all its
frames when its channel is closed, and gets there. A caller whose reply was read gets no other
result, and gets it. -/
theorem response_survives (h : Reached Drains s) (hc : s.calls[c]? = some call)
    (hctx : call.ctxDone = false) :
    (call.isStream = true → (∃ f ∈ call.read, f.more = false) →
      (call.outClosed = true → call.delivered = call.read) ∧
      ∃ t call', Reaches step Drains s t ∧ t.calls[c]? = some call' ∧
        call'.outClosed = true ∧ call'.received = call.read) ∧
    (call.isStream = false → ∀ f, Reply call.read f →
      (∀ r, call.result? = some r → r = .ok ⟨f.typ, f.body⟩) ∧
      ∃ t call', Reaches step Drains s t ∧ t.calls[c]? = some call' ∧
        call'.phase = .returned (.ok ⟨f.typ, f.body⟩)) := by
  obtain ⟨-, hroutes, -⟩ := view_flow h c call hc
  obtain ⟨hflow, hph, hkept⟩ := view_kept h hc
  constructor
  · rintro hs ⟨f, hf, hm⟩
    refine ⟨hkept.closed_stream hroutes hflow hph hs hctx, ?_⟩
    obtain ⟨t, call', ht, hc', hread, hcl, hrec⟩ := exists_reaches_of_ready
      (D := fun call' => call'.outClosed = true ∧ call'.received = call'.read)
      (fun t call' ht hc' hread hctx' hs' =>
        ready_stream ht hc' (hs'.trans hs) (hctx'.trans hctx) (hread ▸ hf) hm) h hc
    exact ⟨t, call', ht, hc', hcl, hrec.trans hread⟩
  · intro hs f hf
    refine ⟨fun r hr => hkept.result_ok hroutes hph hctx hr hf, ?_⟩
    obtain ⟨t, call', ht, hc', -, hret⟩ := exists_reaches_of_ready
      (D := fun call' => call'.phase = .returned (.ok ⟨f.typ, f.body⟩))
      (fun t call' ht hc' hread hctx' hs' =>
        ready_call ht hc' (hs'.trans hs) (hctx'.trans hctx) (hread ▸ hf)) h hc
    exact ⟨t, call', ht, hc', hret⟩

/-- A caller whose response is in the inbox when the read loop shuts the client down. -/
def responseRead : List Label :=
  [.start, .spawn, .call false 0x20 0 [], .op 0 (.run .go), .op 0 (.run .go), .loop .go,
    .loop (.frame ⟨0x21, flagResponse, 1, [7]⟩), .loop .go, .loop .go, .loop .go, .loop .go,
    .loop .error, .loop .go, .loop .go]

/-- The client is closed while the response is in the inbox, and the caller returns it. -/
theorem response_survives_shutdown :
    ∃ s call, Reached Drains s ∧ s.closed = true ∧ s.calls[0]? = some call ∧
      call.phase = .receive ∧ call.inbox = [⟨0x21, [7], false⟩] ∧
      ∃ t call', Reaches step Drains s t ∧ t.calls[0]? = some call' ∧
        call'.phase = .returned (.ok ⟨0x21, [7]⟩) := by
  obtain ⟨s, hs, ht⟩ := exists_reaches_of_run step Drains {}
    (fun s => s.closed && s.calls[0]?.any fun call => call.phase == .receive &&
      call.inbox == [⟨0x21, [7], false⟩] && !call.ctxDone && !call.isStream &&
      call.read == [⟨0x21, [7], false⟩]) responseRead (by decide)
  simp only [Option.any_eq_true, Bool.and_eq_true, beq_iff_eq, Bool.not_eq_true'] at ht
  obtain ⟨hcl, call, hc, ⟨⟨⟨hp, hin⟩, hctx⟩, hstream⟩, hread⟩ := ht
  have hreply : Reply call.read ⟨0x21, [7], false⟩ := .inl ⟨hread, by decide⟩
  obtain ⟨-, hgo⟩ := (response_survives hs hc hctx).2 hstream _ hreply
  exact ⟨s, call, hs, hcl, hc, hp, hin, hgo⟩

/-- **A response is lost.** The response of the call was read, the peer closes the connection, and
`receive` takes the branch of `closeCh`: `Call` returns `client closed`, though its context is not
cancelled and nobody called `Close`. -/
theorem response_lost :
    ∃ s call, Reached Always s ∧ s.closers = [] ∧ s.calls[0]? = some call ∧
      call.ctxDone = false ∧ call.read = [⟨0x21, [7], false⟩] ∧
      call.phase = .returned (.error .clientClosed) := by
  obtain ⟨s, hs, ht⟩ := exists_reaches_of_run step Always {}
    (fun s => s.closers.isEmpty && s.calls[0]?.any fun call => !call.ctxDone &&
      call.read == [⟨0x21, [7], false⟩] && call.phase == .returned (.error .clientClosed))
    (responseRead ++ [.op 0 (.run .closed), .op 0 (.run .go), .op 0 (.run .go)]) (by decide)
  simp only [Option.any_eq_true, Bool.and_eq_true, beq_iff_eq, Bool.not_eq_true',
    List.isEmpty_iff] at ht
  obtain ⟨hcl, call, hc, ⟨hctx, hread⟩, hp⟩ := ht
  exact ⟨s, call, hs, hcl, hc, hctx, hread, hp⟩

end Client

end Mvcp.Rpc
