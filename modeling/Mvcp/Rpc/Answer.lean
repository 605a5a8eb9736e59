import Mvcp.Rpc.Response

/-!
# What a call returns

`Call` skips one frame of the type `STARTED` and returns the next frame of its channel, whatever
its flags are. It returns the response of the server when the server sends nothing else before the
response. It returns an intermediate frame when the server sends one: a chunk of a stream, or a
second `STARTED`.

## Main definitions

* `Prompt`: what the server sends before the response, for a `Call` to return the response
* `View.Orderly`: a `Call` takes the frames read for it in their order, without a gap

## Main results

* `Client.call_returns_response_iff`: a `Call` returns the response exactly when the server is
  prompt
* `Client.call_returns_chunk`: a chunk returned in place of the response
-/

namespace Mvcp.Rpc

open Library

/-- The server sends nothing before the response, or one `STARTED`. -/
def Prompt (fs : List StreamFrame) : Prop := Header (fs.takeWhile (·.more))

/-- What comes before the response among the frames that a reply begins. -/
theorem Reply.prompt_iff {fs gs : List StreamFrame} {f : StreamFrame} (h : Reply fs f)
    (hp : fs <+: gs) (hlast : ∀ g ∈ fs.dropLast, g.more = true) :
    Prompt gs ↔ f.more = false := by
  obtain ⟨rest, rfl⟩ := hp
  rcases h with ⟨rfl, hf⟩ | ⟨st, rfl, hst⟩
  · cases hm : f.more with
    | false => simp [Prompt, Header, hm]
    | true =>
      -- an intermediate frame that is no notification
      simp only [Prompt, List.singleton_append, List.takeWhile_cons, hm, if_true]
      refine iff_of_false ?_ (by simp)
      rintro (hnil | ⟨st, hst, htyp⟩)
      · simp at hnil
      · obtain ⟨rfl, -⟩ := List.cons.inj hst
        exact hf htyp
  · have hst' : st.more = true := hlast st (by simp)
    cases hm : f.more with
    | false => simp [Prompt, Header, hst', hm, hst]
    | true =>
      -- two intermediate frames
      simp only [Prompt, List.cons_append, List.nil_append, List.takeWhile_cons, hst', hm, if_true]
      refine iff_of_false ?_ (by simp)
      rintro (hnil | ⟨st', hst', -⟩)
      · simp at hnil
      · simp at hst'

namespace View

variable {v v' : View} {a : Act}

/-- **A `Call` takes the frames read for it in their order, without a gap.** Only `shutdown`
abandons a caller that has no result yet, and then the read loop sends it nothing any more. -/
structure Orderly (v : View) : Prop where
  watcher : v.call.watcher = .none
  done : v.call.result? = none → v.call.done = true → v.closed = true
  lost : v.call.result? = none → v.call.lost = true → v.closed = true ∧ v.hand = none
  contiguous : v.call.result? = none → v.Contiguous
  received : v.call.received <+: v.call.read

theorem Fresh.orderly (h : v.Fresh) : v.Orderly := by
  have hcon := h.contiguous
  obtain ⟨id, isStream, typ, flags, body, hc⟩ := h.call
  refine ⟨?_, ?_, ?_, fun _ => hcon, ?_⟩ <;> simp [hc]

/-- A caller without a result is sent no frame after one was discarded. -/
theorem Orderly.not_resumes (h : v.Orderly) (hr : v.call.result? = none) (hs : v.Step a v') :
    ¬ v.Resumes a := by
  rintro ⟨rfl, hlost⟩
  cases hs with
  | accept hh hroom => simp [(h.lost hr hlost).2] at hh

/-- The step of a goroutine of a `Call`. -/
theorem Orderly.op {o : Op} {call' : Call} {e : Effect} {listed : Bool} (h : v.Orderly)
    (hst : v.call.Steps v.closed o call' e) (hs : v.call.isStream = false) (hflow : v.Flow)
    (hcon : v.call.result? = none → Contiguous { v with call := call', listed }) :
    Orderly { v with call := call', listed } := by
  have hframed := hst.framed
  refine ⟨?_, ?_, ?_, fun hr => hcon (hst.result hr), ?_⟩
  · cases hst with
    | writeStream hp hs' => simp [hs] at hs'
    | watchContext hw | watchShut hw | watchFinish hw | watchRemove hw => simp [h.watcher] at hw
    | _ => exact h.watcher
  · intro hr hd
    have hres := hst.result hr
    cases hst with
    | finish hp => simp [Call.result?] at hr
    | watchFinish hw => simp [h.watcher] at hw
    | _ => exact h.done hres hd
  · intro hr hl
    exact h.lost (hst.result hr) (hframed.lost ▸ hl)
  · show call'.received <+: call'.read
    rw [hframed.read]
    by_cases hr : v.call.result? = none
    · -- what was taken is the beginning of what was on the channel
      have hdel : call'.delivered <+: call'.read := (hcon hr).delivered
      rw [hframed.read, hst.forwards.buffer hflow.buffer] at hdel
      exact (List.prefix_append _ _).trans hdel
    · rw [hst.received hr]
      exact h.received

theorem Step.isStream (hs : v.Step a v') : v'.call.isStream = v.call.isStream := by
  cases hs with
  | op he hst => exact hst.isStream
  | insert hst => exact hst.isStream
  | _ => rfl

/-- **Every step of a `Call` keeps the order of its frames.** -/
theorem Step.orderly (hs : v.Step a v') (hstream : v.call.isStream = false) (hflow : v.Flow)
    (h : v.Orderly) : v'.Orderly := by
  have hcon (hr : v.call.result? = none) : v'.Contiguous :=
    hs.contiguous (h.not_resumes hr hs) hflow (h.contiguous hr)
  cases hs with
  | op he hst => exact h.op hst hstream hflow hcon
  | insert hst =>
    cases hst with
    | add hp => exact ⟨h.watcher, fun _ => h.done (by simp [Call.result?, hp]),
        fun _ => h.lost (by simp [Call.result?, hp]), fun _ => hcon (by simp [Call.result?, hp]),
        h.received⟩
  | unlist | clear | miss => exact ⟨h.watcher, h.done, h.lost, hcon, h.received⟩
  | look hl hr hh hcl hc =>
    refine ⟨h.watcher, h.done, ?_, hcon, h.received.trans (List.prefix_append _ _)⟩
    intro hres hlost
    -- nothing was discarded on an open client
    simp [(h.lost hres hlost).1] at hc
  | accept hh hroom =>
    exact ⟨h.watcher, h.done, fun hr hlost => ⟨(h.lost hr hlost).1, rfl⟩, hcon, h.received⟩
  | drop hh hd =>
    exact ⟨h.watcher, h.done, fun hr _ => ⟨h.done hr hd, rfl⟩, hcon, h.received⟩
  | shut hc =>
    refine ⟨h.watcher, fun _ _ => rfl, ?_, hcon, h.received⟩
    intro hr hlost
    exact ⟨rfl, (h.lost hr hlost).2⟩

end View

namespace Client

open View

variable {s : Client} {c : ℕ} {call : Call} {resp : Response}

/-- What holds of the view of each `Call` in every run. -/
theorem view_orderly {ok : Client → Label → Prop} (h : Reached ok s)
    (hc : s.calls[c]? = some call) (hs : call.isStream = false) :
    (s.view c call).call.Phased ∧ (s.view c call).Orderly := by
  have hinv : (s.view c call).Flow ∧ (s.view c call).call.Phased ∧
      ((s.view c call).call.isStream = false → (s.view c call).Orderly) :=
    view_invariant (G := fun _ _ => True)
      (I := fun v => v.Flow ∧ v.call.Phased ∧ (v.call.isStream = false → v.Orderly))
      (fun _ _ _ _ _ _ _ _ => trivial)
      (fun _ hv => ⟨hv.flow, hv.phased, fun _ => hv.orderly⟩)
      (fun _ _ _ hst _ ⟨h₁, h₂, h₃⟩ => ⟨hst.flow h₁, hst.phased h₂, fun hs' =>
        hst.orderly (hst.isStream ▸ hs') h₁ (h₃ (hst.isStream ▸ hs'))⟩) h c call hc
  exact ⟨hinv.2.1, hinv.2.2 hs⟩

/-- A frame that was read for a call is one of those the client has handled since the call was
registered. -/
theorem exists_heard {ok : Client → Label → Prop} (h : Reached ok s)
    (hc : s.calls[c]? = some call) {g : StreamFrame} (hg : g ∈ call.read) :
    ∃ f ∈ s.heard.drop call.born, f.msgID = call.id ∧ streamFrame f = g := by
  obtain ⟨-, hroutes, -⟩ := view_flow h c call hc
  have hmem : g ∈ s.sinceOf call := hroutes.since.subset hg
  unfold sinceOf at hmem
  split_ifs at hmem
  · obtain ⟨f, hf, rfl⟩ := List.mem_map.mp hmem
    obtain ⟨hf, hid⟩ := List.mem_filter.mp hf
    exact ⟨f, hf, by simpa using hid, rfl⟩
  · simp at hmem

/-- **A `Call` returns the response exactly when the server is prompt**: the frame it took last, and
whose type and body it returns, carried `IS_RESPONSE`, if and only if the server sent nothing but
one `STARTED` before the response. -/
theorem call_returns_response_iff (h : Reached Always s) (hc : s.calls[c]? = some call)
    (hs : call.isStream = false) (hp : call.phase = .returned (.ok resp)) :
    (∃ f ∈ s.heard.drop call.born, f.msgID = call.id ∧ isResponse f = true ∧
      call.received.getLast? = some (streamFrame f) ∧ resp = ⟨f.typ, f.body⟩) ↔
      Prompt (s.sinceOf call) := by
  obtain ⟨-, hroutes, -⟩ := view_flow h c call hc
  obtain ⟨hph, hord⟩ := view_orderly h hc hs
  have hread : call.received <+: call.read := hord.received
  obtain ⟨g, hg, rfl⟩ : ∃ g, Reply call.received g ∧ resp = ⟨g.typ, g.body⟩ := by
    have ht := hph.took
    rwa [show (s.view c call).call.phase = .returned (.ok resp) from hp] at ht
  have hgl : call.received.getLast? = some g := by
    rcases hg with ⟨he, -⟩ | ⟨st, he, -⟩ <;> simp [he]
  -- the frames before the one returned are not the last one read
  have hlast : ∀ g' ∈ call.received.dropLast, g'.more = true := fun g' hg' =>
    hroutes.last g' (mem_dropLast_mono hread hg')
  have hsince : call.received <+: s.sinceOf call := hread.trans hroutes.since
  rw [hg.prompt_iff hsince hlast]
  constructor
  · rintro ⟨f, -, -, hresp, hfl, -⟩
    obtain rfl : g = streamFrame f := Option.some.inj (hgl.symm.trans hfl)
    simp [streamFrame, hresp]
  · intro hm
    obtain ⟨f, hf, hid, rfl⟩ := exists_heard h hc (hread.subset (List.mem_of_getLast? hgl))
    refine ⟨f, hf, hid, ?_, hgl, rfl⟩
    simpa [streamFrame] using hm

/-- A `Call` whose request is written, with the read loop waiting for a frame. -/
def callWritten : List Label :=
  [.start, .spawn, .call false 0x10 0 [], .op 0 (.run .go), .op 0 (.run .go), .loop .go]

/-- The read loop gets a frame, hands it to the call, and the forwarder puts it on the channel. -/
def frameForwarded (f : Frame) : List Label :=
  [.loop (.frame f), .loop .go, .loop .go] ++ (if isResponse f then [.loop .go] else []) ++
    [.loop .go, .op 0 (.forward .go), .op 0 (.forward .go)]

/-- The server sends a `STARTED` and the response, which `Call` returns. -/
theorem call_returns_response_started :
    ∃ s call, Reached Always s ∧ s.calls[0]? = some call ∧
      call.phase = .returned (.ok ⟨0x12, [7]⟩) ∧
      ∃ f ∈ s.heard.drop call.born, f.msgID = call.id ∧ isResponse f = true ∧
        call.received.getLast? = some (streamFrame f) ∧
        (⟨0x12, [7]⟩ : Response) = ⟨f.typ, f.body⟩ := by
  obtain ⟨s, hs, ht⟩ := exists_reaches_of_run step Always {}
    (fun s => s.calls[0]?.any fun call => call.phase == .returned (.ok ⟨0x12, [7]⟩) &&
      !call.isStream && s.sinceOf call == [⟨typeSTARTED, [0], true⟩, ⟨0x12, [7], false⟩])
    (callWritten ++ frameForwarded ⟨typeSTARTED, 0, 1, [0]⟩ ++
      frameForwarded ⟨0x12, flagResponse, 1, [7]⟩ ++
      [.op 0 (.run .go), .op 0 (.run .go), .op 0 (.run .go), .op 0 (.run .go)]) (by decide)
  simp only [Option.any_eq_true, Bool.and_eq_true, beq_iff_eq, Bool.not_eq_true'] at ht
  obtain ⟨call, hc, ⟨hp, hstream⟩, hsince⟩ := ht
  refine ⟨s, call, hs, hc, hp, (call_returns_response_iff hs hc hstream hp).mpr ?_⟩
  rw [hsince]
  exact .inr ⟨_, rfl, rfl⟩

/-- **A chunk is returned.** The server answers with a chunk of a stream and then the response:
`Call` returns the chunk. -/
theorem call_returns_chunk :
    ∃ s call, Reached Always s ∧ s.calls[0]? = some call ∧ call.isStream = false ∧
      s.heard = [⟨0x11, flagStreamMore, 1, [5]⟩, ⟨0x12, flagResponse, 1, [7]⟩] ∧
      call.phase = .returned (.ok ⟨0x11, [5]⟩) := by
  obtain ⟨s, hs, ht⟩ := exists_reaches_of_run step Always {}
    (fun s => s.calls[0]?.any fun call => !call.isStream &&
      s.heard == [⟨0x11, flagStreamMore, 1, [5]⟩, ⟨0x12, flagResponse, 1, [7]⟩] &&
      call.phase == .returned (.ok ⟨0x11, [5]⟩))
    (callWritten ++ frameForwarded ⟨0x11, flagStreamMore, 1, [5]⟩ ++
      frameForwarded ⟨0x12, flagResponse, 1, [7]⟩ ++
      [.op 0 (.run .go), .op 0 (.run .go), .op 0 (.run .go)]) (by decide)
  simp only [Option.any_eq_true, Bool.and_eq_true, beq_iff_eq, Bool.not_eq_true'] at ht
  obtain ⟨call, hc, ⟨hstream, hheard⟩, hp⟩ := ht
  exact ⟨s, call, hs, hc, hstream, hheard, hp⟩

end Client

end Mvcp.Rpc
