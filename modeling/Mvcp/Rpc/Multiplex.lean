import Mvcp.Rpc.Server

/-!
# Multiplexing

Many calls share one connection, and the frames written for them are told apart by their id. A
frame finds its way back to the call whose request it answers because the ids of all calls differ
(fewer than `2^32` were made), a request is written once and read once, and nothing with the id of
a call is on the wire before its request.

## Main definitions

* `upToFinal`: the frames up to and including the first response
* `Client.Requests`: the requests a client has written
* `Net.Wired`, `Net.Served`, `Net.Early`: the read loop, `Serve` and the wire

## Main results

* `Net.multiplexed`: each request is dispatched at most once, and a call gets the frames written
  for its own request, in order and without a gap
-/

namespace Mvcp.Rpc

open Library

/-- The frames up to and including the first response. -/
def upToFinal : List StreamFrame → List StreamFrame
  | [] => []
  | f :: fs => if f.more then f :: upToFinal fs else [f]

/-- A beginning of the frames that goes on after no response ends with the first one. -/
theorem prefix_upToFinal {xs ys : List StreamFrame} (h : xs <+: ys)
    (hm : ∀ f ∈ xs.dropLast, f.more = true) : xs <+: upToFinal ys := by
  induction xs generalizing ys with
  | nil => exact List.nil_prefix
  | cons x xs ih =>
    obtain ⟨zs, rfl⟩ := h
    rw [List.cons_append, upToFinal]
    cases xs with
    | nil => split_ifs <;> simp
    | cons x' xs =>
      rw [if_pos (hm x (by simp)), List.cons_prefix_cons]
      refine ⟨rfl, ih (List.prefix_append _ _) fun f hf => hm f ?_⟩
      rw [List.dropLast_cons_of_ne_nil (by simp)]
      exact List.mem_cons_of_mem _ hf

/-! ## The requests of a client -/

namespace Call

variable {closed : Bool} {c c' : Call} {o : Op} {e : Effect}

/-- The request of the call is not written yet. -/
def Unsent (c : Call) : Prop := c.phase = .add ∨ c.phase = .write

theorem Steps.unsent (h : Steps closed c o c' e) (hu : c'.Unsent) : c.Unsent := by
  cases h with
  | add hp => exact .inl hp
  | @receive f =>
    by_cases hst : f.typ = typeSTARTED <;> simp [Unsent, hst] at hu
  | take | push | quit | cancel => exact hu
  | watchContext | watchShut | watchFinish | watchRemove => exact hu
  | consume hp => simp [Unsent, hp] at hu
  | _ => simp [Unsent] at hu

/-- A forwarder adds no frame. -/
theorem Steps.accepted_subset (h : Steps closed c o c' e) : ∀ f ∈ c'.accepted, f ∈ c.accepted := by
  cases h with
  | take hr hf hi => simp [accepted, held, hf, hi]
  | push hr hf ho =>
    intro g hg
    simp only [accepted, held] at hg ⊢
    rw [hf]
    split_ifs at hg <;> simpa using hg
  | quit hr hf hd =>
    intro g hg
    simp only [accepted, held, List.append_nil, List.mem_append] at hg ⊢
    exact hg.imp_left .inl
  | _ => exact fun f hf => hf

/-- A request is written once. -/
theorem Steps.send (h : Steps closed c o c' .send) : c.phase = .write ∧ ¬ c'.Unsent := by
  cases h with
  | writeStream hp => exact ⟨hp, by simp [Unsent]⟩
  | writeCall hp => exact ⟨hp, by simp [Unsent]⟩

end Call

namespace View

variable {v v' : View} {a : Act}

theorem Step.request (hs : v.Step a v') : v'.call.request = v.call.request := by
  cases hs with
  | op he hst => exact hst.request
  | insert hst => exact hst.request
  | _ => rfl

theorem Step.unsent (hs : v.Step a v') (h : v'.call.Unsent) : v.call.Unsent := by
  cases hs with
  | op he hst => exact hst.unsent h
  | insert hst => exact hst.unsent h
  | _ => exact h

/-- A call is sent only frames that were read for it. -/
def Owned (v : View) : Prop := ∀ f ∈ v.call.accepted, f ∈ v.call.read

theorem Fresh.owned (h : v.Fresh) : v.Owned := by
  obtain ⟨id, isStream, typ, flags, body, hc⟩ := h.call
  simp [Owned, hc, Call.accepted, Call.held]

theorem Step.owned (hs : v.Step a v') (hr : v.Routes) (h : v.Owned) : v'.Owned := by
  cases hs with
  | op he hst =>
    intro f hf
    rw [show Call.read _ = v.call.read from hst.framed.read]
    exact h f (hst.accepted_subset f hf)
  | insert hst =>
    intro f hf
    rw [show Call.read _ = v.call.read from hst.framed.read]
    exact h f (hst.accepted_subset f hf)
  | look => exact fun f hf => List.mem_append_left _ (h f hf)
  | @accept f hh _ =>
    intro g hg
    have hlast := List.mem_of_mem_getLast? (hr.hand f hh)
    rcases List.mem_append.mp hg with hg | hg
    · exact h g (List.mem_append_left _ hg)
    · rcases List.mem_append.mp hg with hg | hg
      · exact h g (List.mem_append_right _ hg)
      · exact List.mem_singleton.mp hg ▸ hlast
  | _ => exact h

end View

/-- The read loop holds no frame that it has not handled, and has not exited. -/
def Loop.calm : Loop → Prop
  | .got _ | .exited => False
  | _ => True

namespace Client

variable {s u : Client} {l : Label}

/-- A call that exists goes on. -/
theorem step_call (hr : s.Routed) (h : s.step l = some u) {c : ℕ} {call : Call}
    (hc : s.calls[c]? = some call) :
    ∃ call', u.calls[c]? = some call' ∧ s.Evolves l c (s.view c call) (u.view c call') := by
  have hlt := (List.getElem?_eq_some_iff.mp hc).1
  have hle : s.calls.length ≤ u.calls.length := by
    rcases step_msgID h with ⟨-, hlen⟩ | ⟨-, hlen⟩ <;> omega
  obtain ⟨call', hc'⟩ : ∃ call', u.calls[c]? = some call' :=
    ⟨_, List.getElem?_eq_getElem (hlt.trans_le hle)⟩
  refine ⟨call', hc', ?_⟩
  rcases step_view hr (moves_of_step h) hc' with ⟨hnone, -⟩ | ⟨call₀, hc₀, hev⟩
  · simp [hnone] at hc
  · obtain rfl := Option.some.inj (hc.symm.trans hc₀)
    exact hev

theorem Evolves.request {c : ℕ} {v v' : View} (h : s.Evolves l c v v') :
    v'.call.request = v.call.request ∧ (v'.call.Unsent → v.call.Unsent) := by
  rcases h with rfl | ⟨a, -, hst⟩
  · exact ⟨rfl, fun h => h⟩
  · exact ⟨hst.request, hst.unsent⟩

/-- A step writes no request, or the one of a call that was about to. -/
theorem step_sent (h : s.step l = some u) :
    u.sent = s.sent ∨ ∃ c call call', s.calls[c]? = some call ∧ u.calls[c]? = some call' ∧
      call.Unsent ∧ ¬ call'.Unsent ∧ call'.request = call.request ∧
      u.sent = s.sent ++ [(c, call.request)] := by
  cases moves_of_step h with
  | start => split_ifs <;> exact .inl rfl
  | @op c call call' o e hc hst =>
    cases e with
    | send =>
      have hlt := (List.getElem?_eq_some_iff.mp hc).1
      have hreq := hst.request
      refine .inr ⟨c, call, call', hc, ?_, .inr hst.send.1, hst.send.2, hreq, ?_⟩
      · simp [effect, hlt]
      · simp [effect, hreq]
    | none | insert | delete => exact .inl rfl
  | _ => exact .inl rfl

/-- The requests a client has written: each is the one of its call, and no call has two. -/
structure Requests (s : Client) : Prop where
  call : ∀ e ∈ s.sent, ∃ call, s.calls[e.1]? = some call ∧ e.2 = call.request ∧ ¬ call.Unsent
  nodup : (s.sent.map Prod.fst).Nodup

theorem requests {ok : Client → Label → Prop} (h : Reached ok s) : s.Requests := by
  refine Reaches.invariant (I := Requests) h ⟨by simp, by simp⟩ ?_
  intro t u l ht _ hs ih
  -- what was written before is still so
  have hold (e : ℕ × Frame) (he : e ∈ t.sent) :
      ∃ call, u.calls[e.1]? = some call ∧ e.2 = call.request ∧ ¬ call.Unsent := by
    obtain ⟨call, hc, hreq, hsent⟩ := ih.call e he
    obtain ⟨call', hc', hev⟩ := step_call (routed ht) hs hc
    refine ⟨call', hc', hreq.trans hev.request.1.symm, ?_⟩
    exact fun hu => hsent (hev.request.2 hu)
  rcases step_sent hs with heq | ⟨c, call, call', hc, hc', hun, hsent, hreq, heq⟩
  · rw [← heq] at hold
    exact ⟨hold, heq ▸ ih.nodup⟩
  · constructor
    · intro e he
      rw [heq, List.mem_append, List.mem_singleton] at he
      rcases he with he | rfl
      · exact hold e he
      · exact ⟨call', hc', hreq.symm, hsent⟩
    · rw [heq, List.map_append, List.nodup_append]
      refine ⟨ih.nodup, by simp, ?_⟩
      intro d hd d' hd' hdd
      simp only [List.map_cons, List.map_nil, List.mem_singleton] at hd'
      obtain ⟨e, he, rfl⟩ := List.mem_map.mp hd
      -- the call had not written its request
      obtain ⟨call₀, hc₀, -, hsent₀⟩ := ih.call e he
      rw [hdd, hd', hc] at hc₀
      exact hsent₀ (Option.some.inj hc₀ ▸ hun)

/-- What was on the channel of a call was read for it. -/
theorem delivered_subset {ok : Client → Label → Prop} (h : Reached ok s) {c : ℕ} {call : Call}
    (hc : s.calls[c]? = some call) : ∀ f ∈ call.delivered, f ∈ call.read := by
  have hown : (s.view c call).Settled ∧ (s.view c call).Routes ∧ (s.view c call).Owned :=
    view_invariant (G := fun _ _ => True) (I := fun v => v.Settled ∧ v.Routes ∧ v.Owned)
      (fun _ _ _ _ _ _ _ _ => trivial) (fun _ hv => ⟨hv.settled, hv.routes, hv.owned⟩)
      (fun _ _ _ hs _ ⟨h₁, h₂, h₃⟩ => ⟨hs.settled h₁, hs.routes h₁ h₂, hs.owned h₂ h₃⟩) h c call hc
  intro f hf
  exact hown.2.2 f (List.mem_append_left _ (List.mem_append_left _ hf))

/-! ## The read loop and the wire -/

/-- What a step does to the frames that the read loop reads and handles. -/
inductive Reads (s : Client) : Label → Client → Prop
  | same {l : Label} {u : Client} (hl : u.loop = s.loop) (hh : u.heard = s.heard) : Reads s l u
  | calm {l : Label} {u : Client} (hl : s.loop.calm) (hu : u.loop.calm ∨ u.loop = .exited)
      (hh : u.heard = s.heard) : Reads s l u
  | frame {f : Frame} {u : Client} (hl : s.loop = .reading) (hu : u.loop = .got f)
      (hh : u.heard = s.heard) : Reads s (.loop (.frame f)) u
  | handled {f : Frame} {l : Label} {u : Client} (hl : s.loop = .got f) (hu : u.loop.calm)
      (hh : u.heard = s.heard ++ [f]) : Reads s l u
  | quit {f : Frame} {l : Label} {u : Client} (hl : s.loop = .got f) (hu : u.loop = .exited)
      (hh : u.heard = s.heard) : Reads s l u

theorem reads_loop {x : LoopChoice} (h : s.stepLoop x = some u) : Reads s (.loop x) u := by
  unfold stepLoop at h
  split at h
  · next hl =>
    obtain rfl := Option.some.inj h
    refine .calm (by simp [hl, Loop.calm]) ?_ rfl
    cases s.cancelled <;> simp [Loop.calm]
  · next f hl =>
    split_ifs at h
    obtain rfl := Option.some.inj h
    exact .frame hl rfl rfl
  · next hl =>
    obtain rfl := Option.some.inj h
    exact .calm (by simp [hl, Loop.calm]) (.inl trivial) rfl
  · next hl =>
    obtain rfl := Option.some.inj h
    refine .calm (by simp [hl, Loop.calm]) ?_ rfl
    cases s.cancelled <;> simp [Loop.calm]
  · next hl =>
    split_ifs at h
    · obtain rfl := Option.some.inj h
      exact .calm (by simp [hl, Loop.calm]) (.inr rfl) rfl
    · obtain rfl := Option.some.inj h
      exact .calm (by simp [hl, Loop.calm]) (.inl trivial) rfl
  · next hl =>
    -- in `wg.Wait` the read loop is stuck
    simp [wg, hl] at h
  · next f hl =>
    -- the frame is dropped when the client was closed meanwhile
    split_ifs at h
    · obtain rfl := Option.some.inj h
      exact .quit hl rfl rfl
    · split at h
      · obtain rfl := Option.some.inj h
        exact .handled hl trivial rfl
      · obtain ⟨call, -, h⟩ := Option.bind_eq_some_iff.mp h
        obtain rfl := Option.some.inj h
        exact .handled hl trivial rfl
  · next c id f hl =>
    obtain ⟨call, -, h⟩ := Option.bind_eq_some_iff.mp h
    split_ifs at h
    obtain rfl := Option.some.inj h
    refine .calm (by simp [hl, Loop.calm]) (.inl ?_) rfl
    simp only [afterSend]
    split_ifs <;> trivial
  · next c id f hl =>
    obtain ⟨call, -, h⟩ := Option.bind_eq_some_iff.mp h
    split_ifs at h
    obtain rfl := Option.some.inj h
    refine .calm (by simp [hl, Loop.calm]) (.inl ?_) rfl
    simp only [afterSend]
    split_ifs <;> trivial
  · next c id hl =>
    obtain rfl := Option.some.inj h
    exact .calm (by simp [hl, Loop.calm]) (.inl trivial) rfl
  · simp at h

theorem reads_of_step (h : s.step l = some u) : Reads s l u := by
  cases l with
  | loop x => exact reads_loop h
  | start =>
    obtain rfl := Option.some.inj h
    split_ifs with hl
    · exact .calm (by simp [hl, Loop.calm]) (.inl trivial) rfl
    · exact .same rfl rfl
  | spawn =>
    simp only [step] at h
    split_ifs at h with hl
    obtain rfl := Option.some.inj h
    exact .calm (by simp [hl, Loop.calm]) (.inl trivial) rfl
  | op c o =>
    cases moves_of_step h with
    | op => exact .same (by simp) (by simp)
  | _ => cases moves_of_step h <;> exact .same rfl rfl

/-- A frame is read by an idle read loop. -/
theorem step_frame {f : Frame} (h : s.step (.loop (.frame f)) = some u) :
    s.loop = .reading ∧ u.loop = .got f ∧ u.heard = s.heard := by
  simp only [step, stepLoop] at h
  split at h <;> simp_all
  obtain ⟨-, rfl⟩ := h
  exact ⟨rfl, rfl⟩

theorem sent_mono (h : s.step l = some u) {k : ℕ} {e : ℕ × Frame} (he : s.sent[k]? = some e) :
    u.sent[k]? = some e := by
  rcases step_sent h with heq | ⟨c, call, call', -, -, -, -, -, heq⟩
  · rw [heq]
    exact he
  · rw [heq, List.getElem?_append_left (List.getElem?_eq_some_iff.mp he).1]
    exact he

end Client

namespace Net

variable {n m : Net} {l : NetLabel}

/-- The steps of a client and a server on one connection. -/
inductive Moves (n : Net) : NetLabel → Net → Prop
  | client {l : Label} {c : Client} (hl : clientLabel l = true) (h : n.client.step l = some c) :
      Moves n (.client l) { n with client := c }
  | deliver {e : ℕ × Frame} {c : Client} (he : n.toClient[n.taken]? = some e)
      (h : n.client.step (.loop (.frame e.2)) = some c) :
      Moves n .deliver { n with client := c, taken := n.taken + 1 }
  | handle {typ : UInt8} :
      Moves n (.handle typ)
        { n with server := { n.server with handlers := typ :: n.server.handlers } }
  | serve {e : ℕ × Frame} (he : n.client.sent[n.server.read]? = some e)
      (hs : n.server.serving = .reading) :
      Moves n .serve { n with server := n.server.handleFrame e.2 }
  | reply {k : ℕ} {msgID : UInt32} (hs : n.server.serving = .replying k msgID) :
      Moves n .reply
        { n with
          server := { n.server with serving := .reading }
          toClient := n.toClient ++ [(k, unknownType msgID)] }
  | stop (hs : n.server.serving = .reading) :
      Moves n .stop { n with server := { n.server with serving := .ended } }
  | write {j : ℕ} {a : Answer} {job : Job} (hj : n.server.jobs[j]? = some job) :
      Moves n (.write j a)
        { n with
          server := { n.server with
            jobs := n.server.jobs.set j { job with written := job.written ++ [a.frame job.req] } }
          toClient := n.toClient ++ [(job.origin, a.frame job.req)] }

theorem moves_of_step (h : n.step l = some m) : Moves n l m := by
  cases l with
  | client l =>
    simp only [step] at h
    split_ifs at h with hl
    obtain ⟨c, hc, rfl⟩ := Option.map_eq_some_iff.mp h
    exact .client hl hc
  | deliver =>
    obtain ⟨e, he, h⟩ := Option.bind_eq_some_iff.mp h
    obtain ⟨c, hc, h⟩ := Option.bind_eq_some_iff.mp h
    obtain rfl := Option.some.inj h
    exact .deliver he hc
  | handle typ =>
    obtain rfl := Option.some.inj h
    exact .handle
  | serve =>
    obtain ⟨e, he, h⟩ := Option.bind_eq_some_iff.mp h
    split_ifs at h with hs
    obtain rfl := Option.some.inj h
    exact .serve he hs.1
  | reply =>
    simp only [step] at h
    split at h
    · next hs =>
      obtain rfl := Option.some.inj h
      exact .reply hs
    · simp at h
  | stop =>
    simp only [step] at h
    split_ifs at h with hs
    obtain rfl := Option.some.inj h
    exact .stop hs
  | write j a =>
    obtain ⟨job, hj, h⟩ := Option.bind_eq_some_iff.mp h
    dsimp only at h
    split_ifs at h
    obtain rfl := Option.some.inj h
    exact .write hj

/-- The client of a net runs as a client. -/
theorem client_reached (h : n.Reached) : Client.Reached Always n.client := by
  have h₀ : Client.Reached Always ({} : Net).client := .refl
  refine Reaches.invariant (I := fun n => Client.Reached Always n.client) h h₀ ?_
  intro t u l _ _ hs ih
  cases moves_of_step hs with
  | client hl h => exact ih.tail trivial h
  | deliver he h => exact ih.tail trivial h
  | _ => exact ih

/-- The frames the read loop has handled are the first ones on the wire; the one it holds is the
next. -/
structure Wired (n : Net) : Prop where
  heard : n.client.heard <+: n.toClient.map Prod.snd
  got : ∀ f, n.client.loop = .got f → n.taken = n.client.heard.length + 1 ∧
    (n.toClient.map Prod.snd)[n.client.heard.length]? = some f
  calm : n.client.loop.calm → n.taken = n.client.heard.length

theorem prefix_concat {xs ys : List Frame} {f : Frame} (h : xs <+: ys)
    (hf : ys[xs.length]? = some f) : xs ++ [f] <+: ys := by
  obtain ⟨rest, rfl⟩ := h
  cases rest with
  | nil => simp at hf
  | cons g rest =>
    obtain rfl : g = f := by simpa using hf
    exact ⟨rest, by simp⟩

/-- More frames are written. -/
theorem Wired.append (h : n.Wired) {e : ℕ × Frame} (hw : m.toClient = n.toClient ++ [e])
    (hc : m.client = n.client) (ht : m.taken = n.taken) : m.Wired := by
  constructor
  · rw [hc, hw, List.map_append]
    exact h.heard.trans (List.prefix_append _ _)
  · rw [hc, ht, hw, List.map_append]
    intro f hl
    obtain ⟨htaken, hf⟩ := h.got f hl
    refine ⟨htaken, ?_⟩
    rw [List.getElem?_append_left (List.getElem?_eq_some_iff.mp hf).1]
    exact hf
  · rw [hc, ht]
    exact h.calm

theorem wired (h : n.Reached) : n.Wired := by
  refine Reaches.invariant (I := Wired) h ⟨by simp, by simp, by simp⟩ ?_
  intro t u l ht hok hs ih
  cases moves_of_step hs with
  | @client l c hl h =>
    cases Client.reads_of_step h with
    | same hl hh => exact ⟨hh ▸ ih.heard, hh ▸ hl ▸ ih.got, hh ▸ hl ▸ ih.calm⟩
    | calm hl hu hh =>
      refine ⟨hh ▸ ih.heard, fun f hf => ?_, fun _ => hh ▸ ih.calm hl⟩
      have hf : c.loop = .got f := hf
      rcases hu with hu | hu <;> simp [hf, Loop.calm] at hu
    | frame => simp [clientLabel] at hl
    -- the frame in hand is the next one on the wire
    | handled hl hu hh =>
      obtain ⟨htaken, hf⟩ := ih.got _ hl
      refine ⟨hh ▸ prefix_concat ih.heard hf, fun f hf => ?_, fun _ => ?_⟩
      · have hf : c.loop = .got f := hf
        simp [hf, Loop.calm] at hu
      · show t.taken = _
        rw [htaken, hh, List.length_append, List.length_singleton]
    | quit hl hu hh =>
      refine ⟨hh ▸ ih.heard, fun f hf => ?_, fun hc => ?_⟩
      · have hf : c.loop = .got f := hf
        simp [hf] at hu
      · simp [hu, Loop.calm] at hc
  | deliver he h =>
    obtain ⟨hl, hu, hh⟩ := Client.step_frame h
    -- the read loop holds nothing when it reads
    have htaken := ih.calm (by simp [hl, Loop.calm])
    refine ⟨hh ▸ ih.heard, fun f hf => ?_, fun hc => ?_⟩
    · obtain rfl := Loop.got.inj (hu.symm.trans hf)
      refine ⟨by simp [hh, htaken], ?_⟩
      simp [hh, ← htaken, he]
    · simp [hu, Loop.calm] at hc
  | reply | write => exact ih.append rfl rfl rfl
  | handle | serve | stop => exact ⟨ih.heard, ih.got, ih.calm⟩

/-! ## The server and the wire -/

/-- The request at the position `k` has the id `msgID`. -/
def Asked (n : Net) (k : ℕ) (msgID : UInt32) : Prop :=
  ∃ c f, n.client.sent[k]? = some (c, f) ∧ f.msgID = msgID

/-- What was written for the request at the position `k`: the frames of its one handler, or the
error of the server. -/
def Answered (n : Net) (k : ℕ) : Prop :=
  (∃ job ∈ n.server.jobs, job.origin = k ∧ n.writtenFor k = job.written) ∨
    (∀ job ∈ n.server.jobs, job.origin ≠ k) ∧
      (n.writtenFor k = [] ∨ ∃ msgID, n.Asked k msgID ∧ n.writtenFor k = [unknownType msgID])

/-- What the server writes answers a request that it has read. -/
structure Served (n : Net) : Prop where
  jobs : ∀ job ∈ n.server.jobs, job.origin < n.server.read ∧ n.Asked job.origin job.req.msgID
  nodup : (n.server.jobs.map Job.origin).Nodup
  replying : ∀ k msgID, n.server.serving = .replying k msgID → k < n.server.read ∧
    n.Asked k msgID ∧ (∀ job ∈ n.server.jobs, job.origin ≠ k) ∧ n.writtenFor k = []
  wire : ∀ e ∈ n.toClient, e.1 < n.server.read ∧ n.Asked e.1 e.2.msgID
  answered : ∀ k, n.Answered k

theorem writtenFor_append (e : ℕ × Frame) (h : m.toClient = n.toClient ++ [e]) (k : ℕ) :
    m.writtenFor k = n.writtenFor k ++ if e.1 = k then [e.2] else [] := by
  by_cases hk : e.1 = k <;> simp [writtenFor, h, hk]

/-- Nothing is written for a request that is not read. -/
theorem Served.unread (h : n.Served) {k : ℕ} (hk : n.server.read ≤ k) : n.writtenFor k = [] := by
  rw [writtenFor, List.map_eq_nil_iff, List.filter_eq_nil_iff]
  intro e he hek
  have hlt := (h.wire e he).1
  rw [beq_iff_eq] at hek
  omega

/-- A job is the only one for its request. -/
theorem Served.job_unique (h : n.Served) {i j : ℕ} {a b : Job}
    (ha : n.server.jobs[i]? = some a) (hb : n.server.jobs[j]? = some b)
    (hab : a.origin = b.origin) : i = j := by
  have hi : (n.server.jobs.map Job.origin)[i]? = some a.origin := by simp [ha]
  have hj : (n.server.jobs.map Job.origin)[j]? = some a.origin := by simp [hb, hab]
  exact (List.getElem?_inj (List.getElem?_eq_some_iff.mp hi).1 h.nodup).mp (hi.trans hj.symm)

/-- The client takes a step. -/
theorem Served.client (h : n.Served) (hs : m.server = n.server) (hw : m.toClient = n.toClient)
    (hsent : ∀ k msgID, n.Asked k msgID → m.Asked k msgID) : m.Served := by
  have hwritten (k : ℕ) : m.writtenFor k = n.writtenFor k := by rw [writtenFor, hw, writtenFor]
  refine ⟨?_, by rw [hs]; exact h.nodup, ?_, ?_, ?_⟩
  · intro job hj
    rw [hs] at hj ⊢
    exact (h.jobs job hj).imp_right (hsent _ _)
  · intro k msgID hr
    rw [hs] at hr ⊢
    obtain ⟨hk, hask, hno, hwr⟩ := h.replying k msgID hr
    exact ⟨hk, hsent _ _ hask, hno, (hwritten k).trans hwr⟩
  · intro e he
    rw [hw] at he
    rw [hs]
    exact (h.wire e he).imp_right (hsent _ _)
  · intro k
    rcases h.answered k with ⟨job, hj, hk, hwr⟩ | ⟨hno, hwr⟩
    · exact .inl ⟨job, hs ▸ hj, hk, (hwritten k).trans hwr⟩
    · refine .inr ⟨hs ▸ hno, ?_⟩
      rw [hwritten]
      exact hwr.imp_right fun ⟨msgID, hask, hwr⟩ => ⟨msgID, hsent _ _ hask, hwr⟩

/-- `Serve` reads a frame. -/
theorem Served.handleFrame (h : n.Served) (hr : n.server.serving = .reading) {e : ℕ × Frame}
    (he : n.client.sent[n.server.read]? = some e) :
    Served { n with server := n.server.handleFrame e.2 } := by
  have hask : n.Asked n.server.read e.2.msgID := ⟨e.1, e.2, he, rfl⟩
  have hjobs (job : Job) (hj : job ∈ n.server.jobs) : job.origin < n.server.read + 1 :=
    (h.jobs job hj).1.trans (Nat.lt_succ_self _)
  have hfresh (job : Job) (hj : job ∈ n.server.jobs) : job.origin ≠ n.server.read :=
    Nat.ne_of_lt (h.jobs job hj).1
  have hwire (e : ℕ × Frame) (he : e ∈ n.toClient) : e.1 < n.server.read + 1 :=
    (h.wire e he).1.trans (Nat.lt_succ_self _)
  unfold Server.handleFrame
  dsimp only
  split_ifs with hresp hhand
  · -- a response is skipped
    refine ⟨fun job hj => ⟨hjobs job hj, (h.jobs job hj).2⟩, h.nodup, by simp [hr],
      fun e he => ⟨hwire e he, (h.wire e he).2⟩, h.answered⟩
  · -- the handler of the type gets the request
    refine ⟨?_, ?_, by simp [hr], fun e he => ⟨hwire e he, (h.wire e he).2⟩, ?_⟩
    · intro job hj
      rcases List.mem_append.mp hj with hj | hj
      · exact ⟨hjobs job hj, (h.jobs job hj).2⟩
      · obtain rfl := List.mem_singleton.mp hj
        exact ⟨Nat.lt_succ_self _, hask⟩
    · rw [List.map_append, List.nodup_append]
      refine ⟨h.nodup, by simp, ?_⟩
      intro k hk k' hk'
      obtain ⟨job, hj, rfl⟩ := List.mem_map.mp hk
      simp only [List.map_cons, List.map_nil, List.mem_singleton] at hk'
      exact hk' ▸ hfresh job hj
    · intro k
      by_cases hk : k = n.server.read
      · exact .inl ⟨_, List.mem_append_right _ (List.mem_singleton_self _), hk.symm,
          h.unread hk.ge⟩
      · rcases h.answered k with ⟨job, hj, hjk, hwr⟩ | ⟨hno, hwr⟩
        · exact .inl ⟨job, List.mem_append_left _ hj, hjk, hwr⟩
        · refine .inr ⟨fun job hj => ?_, hwr⟩
          rcases List.mem_append.mp hj with hj | hj
          · exact hno job hj
          · obtain rfl := List.mem_singleton.mp hj
            exact Ne.symm hk
  · -- no handler: `Serve` answers itself
    refine ⟨fun job hj => ⟨hjobs job hj, (h.jobs job hj).2⟩, h.nodup, ?_,
      fun e he => ⟨hwire e he, (h.wire e he).2⟩, h.answered⟩
    intro k msgID hk
    obtain ⟨rfl, rfl⟩ := Serving.replying.inj hk
    exact ⟨Nat.lt_succ_self _, hask, hfresh, h.unread le_rfl⟩

/-- `sendError` writes its frame. -/
theorem Served.reply (h : n.Served) {k : ℕ} {msgID : UInt32}
    (hr : n.server.serving = .replying k msgID) :
    Served { n with
      server := { n.server with serving := .reading }
      toClient := n.toClient ++ [(k, unknownType msgID)] } := by
  obtain ⟨hk, hask, hno, hempty⟩ := h.replying k msgID hr
  refine ⟨h.jobs, h.nodup, by simp, ?_, ?_⟩
  · intro e he
    rcases List.mem_append.mp he with he | he
    · exact h.wire e he
    · obtain rfl := List.mem_singleton.mp he
      exact ⟨hk, hask⟩
  · intro k'
    unfold Answered
    rw [writtenFor_append (n := n) (k, unknownType msgID) rfl k']
    by_cases hkk : k = k'
    · subst hkk
      refine .inr ⟨hno, .inr ⟨msgID, hask, ?_⟩⟩
      simp [hempty]
    · rw [if_neg hkk, List.append_nil]
      exact h.answered k'

/-- A handler writes a frame. -/
theorem Served.write (h : n.Served) {j : ℕ} {job : Job} (hj : n.server.jobs[j]? = some job)
    (a : Answer) :
    Served { n with
      server := { n.server with
        jobs := n.server.jobs.set j { job with written := job.written ++ [a.frame job.req] } }
      toClient := n.toClient ++ [(job.origin, a.frame job.req)] } := by
  obtain ⟨hread, hask⟩ := h.jobs job (List.mem_of_getElem? hj)
  have hlt := (List.getElem?_eq_some_iff.mp hj).1
  let job' : Job := { job with written := job.written ++ [a.frame job.req] }
  -- the job is the same, but for what it has written
  have horigin : (n.server.jobs.set j job').map Job.origin = n.server.jobs.map Job.origin := by
    refine List.ext_getElem? fun i => ?_
    by_cases hij : j = i
    · subst hij
      rw [List.getElem?_map, List.getElem?_set_self hlt, List.getElem?_map, hj]
      rfl
    · simp [hij]
  have hno {k : ℕ} (hno : ∀ x ∈ n.server.jobs, x.origin ≠ k) :
      ∀ x ∈ n.server.jobs.set j job', x.origin ≠ k := by
    intro x hx
    rcases List.mem_or_eq_of_mem_set hx with hx | rfl
    · exact hno x hx
    · exact hno job (List.mem_of_getElem? hj)
  refine ⟨?_, ?_, ?_, ?_, ?_⟩
  · intro x hx
    rcases List.mem_or_eq_of_mem_set hx with hx | rfl
    · exact h.jobs x hx
    · exact ⟨hread, hask⟩
  · exact horigin ▸ h.nodup
  · intro k msgID hr
    obtain ⟨hk, hask', hno', hempty⟩ := h.replying k msgID hr
    refine ⟨hk, hask', hno hno', ?_⟩
    rw [writtenFor_append (n := n) (job.origin, a.frame job.req) rfl k,
      if_neg (hno' job (List.mem_of_getElem? hj)), hempty]
    rfl
  · intro e he
    rcases List.mem_append.mp he with he | he
    · exact h.wire e he
    · obtain rfl := List.mem_singleton.mp he
      refine ⟨hread, ?_⟩
      rw [Answer.frame_msgID]
      exact hask
  · intro k
    unfold Answered
    rw [writtenFor_append (n := n) (job.origin, a.frame job.req) rfl k]
    by_cases hk : job.origin = k
    · subst hk
      refine .inl ⟨job', List.mem_set hlt _, rfl, ?_⟩
      rcases h.answered job.origin with ⟨x, hx, hxo, hwr⟩ | ⟨hno', -⟩
      · obtain ⟨i, hi⟩ := List.mem_iff_getElem?.mp hx
        obtain rfl := h.job_unique hi hj hxo
        obtain rfl := Option.some.inj (hi.symm.trans hj)
        simp [hwr, job']
      · exact absurd rfl (hno' job (List.mem_of_getElem? hj))
    · rw [if_neg hk, List.append_nil]
      rcases h.answered k with ⟨x, hx, hxo, hwr⟩ | ⟨hno', hwr⟩
      · obtain ⟨i, hi⟩ := List.mem_iff_getElem?.mp hx
        have hij : j ≠ i := by
          rintro rfl
          obtain rfl := Option.some.inj (hi.symm.trans hj)
          exact hk hxo
        refine .inl ⟨x, List.mem_of_getElem? (i := i) ?_, hxo, hwr⟩
        rw [List.getElem?_set_ne hij]
        exact hi
      · exact .inr ⟨hno hno', hwr⟩

theorem served (h : n.Reached) : n.Served := by
  refine Reaches.invariant (I := Served) h ⟨by simp, by simp, by simp, by simp, ?_⟩ ?_
  · exact fun k => .inr ⟨by simp, .inl rfl⟩
  · intro t u l _ _ hs ih
    cases moves_of_step hs with
    | client hl h => exact ih.client rfl rfl fun k msgID ⟨c, f, hk, hid⟩ =>
        ⟨c, f, Client.sent_mono h hk, hid⟩
    | deliver he h => exact ih.client rfl rfl fun k msgID ⟨c, f, hk, hid⟩ =>
        ⟨c, f, Client.sent_mono h hk, hid⟩
    | handle => exact ⟨ih.jobs, ih.nodup, ih.replying, ih.wire, ih.answered⟩
    | serve he hr => exact ih.handleFrame hr he
    | reply hr => exact ih.reply hr
    | stop => exact ⟨ih.jobs, ih.nodup, by simp, ih.wire, ih.answered⟩
    | write hj => exact ih.write hj _

/-! ## Frames and calls -/

/-- The ids of all calls differ. -/
theorem id_unique (h : n.Reached) (hlt : n.client.calls.length < 2 ^ 32) {c d : ℕ}
    {call call' : Call} (hc : n.client.calls[c]? = some call)
    (hd : n.client.calls[d]? = some call') (hid : call.id = call'.id) : c = d := by
  have hnum := Client.numbered (client_reached h)
  have hc' := (List.getElem?_eq_some_iff.mp hc).1
  have hd' := (List.getElem?_eq_some_iff.mp hd).1
  have heq : idOf c = idOf d := by rw [← hnum.ids c call hc, ← hnum.ids d call' hd, hid]
  unfold idOf idCount at heq
  omega

/-- A frame with the id of a call answers its request. -/
theorem asked_call (h : n.Reached) (hlt : n.client.calls.length < 2 ^ 32) {c : ℕ} {call : Call}
    (hc : n.client.calls[c]? = some call) {e : ℕ × Frame} (he : e ∈ n.toClient)
    (hid : e.2.msgID = call.id) :
    n.client.sent[e.1]? = some (c, call.request) ∧ ¬ call.Unsent := by
  obtain ⟨-, d, f, hsent, hf⟩ := (served h).wire e he
  obtain ⟨call', hd, hreq, hun⟩ := (Client.requests (client_reached h)).call (d, f)
    (List.mem_of_getElem? hsent)
  dsimp only at hreq hd
  have hid' : call'.id = call.id := by
    rw [← hid, ← hf, hreq]
    rfl
  obtain rfl := id_unique h hlt hd hc hid'
  obtain rfl := Option.some.inj (hd.symm.trans hc)
  exact ⟨hreq ▸ hsent, hun⟩

end Net

namespace Client

variable {s u : Client} {l : Label}

/-- A registered call was registered before, or is registered by the step. -/
theorem step_born (h : s.step l = some u) {c : ℕ} {call' : Call} (hc' : u.calls[c]? = some call')
    (hr : call'.registered = true) :
    ∃ call, s.calls[c]? = some call ∧ call'.id = call.id ∧
      (call.registered = true ∧ call'.born = call.born ∨
        call.Unsent ∧ call'.born = s.heard.length ∧ u.heard = s.heard) := by
  cases moves_of_step h with
  | start =>
    have hc : s.calls[c]? = some call' := by
      split_ifs at hc' <;> exact hc'
    exact ⟨call', hc, rfl, .inl ⟨hr, rfl⟩⟩
  | call =>
    rw [List.getElem?_append] at hc'
    split_ifs at hc' with hlt
    · exact ⟨call', hc', rfl, .inl ⟨hr, rfl⟩⟩
    · obtain ⟨_, he⟩ := List.getElem?_eq_some_iff.mp hc'
      rw [List.getElem_singleton] at he
      simp [← he] at hr
  | @op c₀ call call₁ o e hc hst =>
    rw [effect_calls] at hc'
    rcases getElem?_set_cases hc' with ⟨rfl, rfl⟩ | ⟨-, hc'⟩
    · -- `addPending` registers the call before its request is written
      by_cases he : e = .insert
      · subst he
        refine ⟨call, hc, hst.framed.id, .inr ⟨?_, rfl, by simp⟩⟩
        cases hst with
        | add hp => exact .inl hp
      · have hset : s.settled call₁ e = call₁ := by simp [settled, he]
        rw [hset] at hr ⊢
        have hreg := hst.registered
        rw [beq_eq_false_iff_ne.mpr he, Bool.or_false] at hreg
        exact ⟨call, hc, hst.framed.id, .inl ⟨hreg ▸ hr, hst.framed.born⟩⟩
    · exact ⟨call', hc', rfl, .inl ⟨hr, rfl⟩⟩
  | look hl hcl hf hcall =>
    rcases getElem?_set_cases hc' with ⟨rfl, rfl⟩ | ⟨-, hc'⟩
    · exact ⟨_, hcall, rfl, .inl ⟨hr, rfl⟩⟩
    · exact ⟨call', hc', rfl, .inl ⟨hr, rfl⟩⟩
  | accept hl hcall | drop hl hcall =>
    rcases getElem?_set_cases hc' with ⟨rfl, rfl⟩ | ⟨-, hc'⟩
    · exact ⟨_, hcall, rfl, .inl ⟨hr, rfl⟩⟩
    · exact ⟨call', hc', rfl, .inl ⟨hr, rfl⟩⟩
  | shutCloser | shutLoop =>
    simp only [shut, List.getElem?_mapIdx, Option.map_eq_some_iff] at hc'
    obtain ⟨call, hcall, rfl⟩ := hc'
    refine ⟨call, hcall, ?_⟩
    split_ifs at hr ⊢ <;> exact ⟨rfl, .inl ⟨hr, rfl⟩⟩
  | _ => exact ⟨call', hc', rfl, .inl ⟨hr, rfl⟩⟩

end Client

namespace Net

variable {n m : Net} {l : NetLabel}

/-- Frames handled before a call was registered do not have its id. -/
def Early (n : Net) : Prop :=
  ∀ (c : ℕ) (call : Call), n.client.calls[c]? = some call → call.registered = true →
    ∀ f ∈ n.client.heard.take call.born, f.msgID ≠ call.id

/-- A step of the client keeps it. -/
theorem Early.client {c : Client} {l : Label} (h : n.Early) (hr : n.Reached)
    (hlt : n.client.calls.length < 2 ^ 32) (hs : n.client.step l = some c)
    (hm : m.client = c) : m.Early := by
  intro i call' hc' hreg f hf
  rw [hm] at hc' hf
  obtain ⟨call, hc, hid, ⟨hreg₀, hborn⟩ | ⟨hun, hborn, hheard⟩⟩ := Client.step_born hs hc' hreg
  · have hb := (Client.routed (client_reached hr)).born call (List.mem_of_getElem? hc)
    have htake : c.heard.take call'.born = n.client.heard.take call.born := by
      rw [hborn]
      cases Client.reads_of_step hs with
      | handled _ _ hh => rw [hh, List.take_append_of_le_length hb]
      | same _ hh | calm _ _ hh | frame _ _ hh | quit _ _ hh => rw [hh]
    rw [hid]
    exact h i call hc hreg₀ f (htake ▸ hf)
  · -- the request is not written, so nothing answers it
    intro hfid
    have hmem : f ∈ n.toClient.map Prod.snd :=
      (wired hr).heard.subset (hheard ▸ List.mem_of_mem_take hf)
    obtain ⟨e, he, rfl⟩ := List.mem_map.mp hmem
    exact (asked_call hr hlt hc he (hfid.trans hid)).2 hun

theorem early (h : n.Reached) (hlt : n.client.calls.length < 2 ^ 32) : n.Early := by
  refine Reaches.invariant (I := fun n => n.client.calls.length < 2 ^ 32 → n.Early) h
    (by simp [Early]) ?_ hlt
  intro t u l ht _ hs ih hlt
  -- calls are never removed
  have hmono {c : Client} {l : Label} (hc : t.client.step l = some c)
      (hlt : c.calls.length < 2 ^ 32) : t.client.calls.length < 2 ^ 32 := by
    rcases Client.step_msgID hc with ⟨-, hlen⟩ | ⟨-, hlen⟩ <;> omega
  cases moves_of_step hs with
  | client hl h => exact (ih (hmono h hlt)).client ht (hmono h hlt) h rfl
  | deliver he h => exact (ih (hmono h hlt)).client ht (hmono h hlt) h rfl
  | _ => exact ih hlt

/-- The frames written for the request of a call are the ones with its id. -/
theorem writtenFor_eq (h : n.Reached) (hlt : n.client.calls.length < 2 ^ 32) {c k : ℕ}
    {call : Call} {f : Frame} (hc : n.client.calls[c]? = some call)
    (hk : n.client.sent[k]? = some (c, f)) :
    n.writtenFor k = (n.toClient.map Prod.snd).filter fun g => g.msgID == call.id := by
  have hreqs := Client.requests (client_reached h)
  rw [writtenFor, List.filter_map]
  congr 1
  apply List.filter_congr
  intro e he
  rw [Bool.eq_iff_iff, beq_iff_eq, Function.comp_apply, beq_iff_eq]
  constructor
  · rintro rfl
    obtain ⟨-, c', f', hsent, hid⟩ := (served h).wire e he
    obtain ⟨rfl, rfl⟩ := Prod.mk.inj (Option.some.inj (hk.symm.trans hsent))
    obtain ⟨call', hc', hreq, -⟩ := hreqs.call (c, f) (List.mem_of_getElem? hk)
    obtain rfl := Option.some.inj (hc.symm.trans hc')
    rw [← hid, show f = call.request from hreq]
    rfl
  · intro hid
    obtain ⟨hsent, -⟩ := asked_call h hlt hc he hid
    -- a call writes one request
    have hi : (n.client.sent.map Prod.fst)[e.1]? = some c := by simp [hsent]
    have hj : (n.client.sent.map Prod.fst)[k]? = some c := by simp [hk]
    exact (List.getElem?_inj (List.getElem?_eq_some_iff.mp hi).1 hreqs.nodup).mp (hi.trans hj.symm)

/-- What the read loop handled for a call are the first frames written for its request. -/
theorem since_writtenFor (h : n.Reached) (hlt : n.client.calls.length < 2 ^ 32) {c k : ℕ}
    {call : Call} {f : Frame} (hc : n.client.calls[c]? = some call)
    (hk : n.client.sent[k]? = some (c, f)) :
    n.client.sinceOf call <+: (n.writtenFor k).map streamFrame := by
  rw [writtenFor_eq h hlt hc hk]
  unfold Client.sinceOf
  split_ifs with hr
  · apply List.IsPrefix.map
    have hearly : (n.client.heard.take call.born).filter (fun g => g.msgID == call.id) = [] := by
      rw [List.filter_eq_nil_iff]
      intro g hg
      simpa using early h hlt c call hc hr g hg
    have hall : (n.client.heard.drop call.born).filter (fun g => g.msgID == call.id) =
        n.client.heard.filter fun g => g.msgID == call.id := by
      conv_rhs => rw [← List.take_append_drop call.born n.client.heard, List.filter_append, hearly]
      rfl
    rw [hall]
    exact (wired h).heard.filter _
  · exact List.nil_prefix

/-- A frame that was read for a call answers its request. -/
theorem asked_of_since (h : n.Reached) (hlt : n.client.calls.length < 2 ^ 32) {c : ℕ}
    {call : Call} (hc : n.client.calls[c]? = some call) {g : StreamFrame}
    (hg : g ∈ n.client.sinceOf call) : ∃ e ∈ n.client.sent, e.1 = c := by
  unfold Client.sinceOf at hg
  split_ifs at hg
  · obtain ⟨f, hf, -⟩ := List.mem_map.mp hg
    obtain ⟨hf, hid⟩ := List.mem_filter.mp hf
    have hmem := (wired h).heard.subset (List.mem_of_mem_drop hf)
    obtain ⟨e, he, rfl⟩ := List.mem_map.mp hmem
    obtain ⟨hsent, -⟩ := asked_call h hlt hc he (beq_iff_eq.mp hid)
    exact ⟨_, List.mem_of_getElem? hsent, rfl⟩
  · simp at hg

/-- **Multiplexing is faithful.** While fewer than `2^32` calls are made on a connection, each call
writes at most one request and each request is dispatched to at most one handler; what is written
for a request are the frames of that handler, or the error of the server. A call gets no frame of
another request; as long as it is not abandoned, it gets the frames written for its own request in
order, up to and including the first response, and `More` is false on that one only. -/
theorem multiplexed (h : n.Reached) (hlt : n.client.calls.length < 2 ^ 32) :
    (n.client.sent.map Prod.fst).Nodup ∧ (n.server.jobs.map Job.origin).Nodup ∧
    (∀ k, n.Answered k) ∧
    ∀ (c : ℕ) (call : Call), n.client.calls[c]? = some call →
      ((∀ e ∈ n.client.sent, e.1 ≠ c) → call.delivered = []) ∧
      ∀ k f, n.client.sent[k]? = some (c, f) → f = call.request ∧
        (∀ g ∈ call.delivered, g ∈ (n.writtenFor k).map streamFrame) ∧
        (call.done = false →
          call.delivered <+: upToFinal ((n.writtenFor k).map streamFrame) ∧
          ∀ g ∈ call.delivered.dropLast, g.more = true) := by
  have hcl := client_reached h
  have hreqs := Client.requests hcl
  have hserved := served h
  refine ⟨hreqs.nodup, hserved.nodup, hserved.answered, ?_⟩
  intro c call hc
  obtain ⟨-, hroutes, hflow⟩ := Client.view_flow hcl c call hc
  have hsub (g : StreamFrame) (hg : g ∈ call.delivered) : g ∈ n.client.sinceOf call :=
    hroutes.since.subset (Client.delivered_subset hcl hc g hg)
  constructor
  · intro hno
    -- a frame of the call answers a request, which would be its own
    by_contra hne
    obtain ⟨g, hg⟩ := List.exists_mem_of_ne_nil _ hne
    obtain ⟨e, he, hec⟩ := asked_of_since h hlt hc (hsub g hg)
    exact hno e he hec
  · intro k f hk
    have hpre := since_writtenFor h hlt hc hk
    refine ⟨?_, fun g hg => hpre.subset (hsub g hg), fun hdone => ?_⟩
    · obtain ⟨call', hc', hreq, -⟩ := hreqs.call (c, f) (List.mem_of_getElem? hk)
      obtain rfl := Option.some.inj (hc.symm.trans hc')
      exact hreq
    · -- a call that is not abandoned has lost nothing
      have hlost : call.lost = false := by
        cases hl : call.lost with
        | false => rfl
        | true => exact (hflow.lost hl).symm.trans hdone
      have hread : call.delivered <+: call.read := hflow.delivered hlost
      have hmore : ∀ g ∈ call.delivered.dropLast, g.more = true := by
        intro g hg
        exact hroutes.last g (mem_dropLast_mono hread hg)
      exact ⟨prefix_upToFinal (hread.trans (hroutes.since.trans hpre)) hmore, hmore⟩

/-- Two calls on one connection, each with a handler that answers it; the answers come in the
other order. -/
theorem multiplexed_two :
    ∃ n : Net, n.Reached ∧ n.client.calls.length = 2 ∧
      (∃ call, n.client.calls[0]? = some call ∧ call.delivered = [⟨0x21, [1], false⟩] ∧
        call.delivered <+: upToFinal ((n.writtenFor 0).map streamFrame)) ∧
      n.writtenFor 1 = [⟨0x22, flagStreamMore, 2, [2]⟩] := by
  obtain ⟨n, hn, ht⟩ := exists_reaches_of_run step Always {}
    (fun n => n.client.calls.length == 2 && n.client.sent[0]? == some (0, ⟨0x20, 0, 1, []⟩) &&
      n.writtenFor 1 == [⟨0x22, flagStreamMore, 2, [2]⟩] &&
      n.client.calls[0]?.any fun call => !call.done && call.delivered == [⟨0x21, [1], false⟩])
    [.handle 0x20, .client .start, .client .spawn, .client (.call false 0x20 0 []),
      .client (.call true 0x20 0 []), .client (.op 0 (.run .go)), .client (.op 1 (.run .go)),
      .client (.op 0 (.run .go)), .client (.op 1 (.run .go)), .serve, .serve,
      .write 1 (.stream 0x22 [2]), .write 0 (.respond 0x21 [1]),
      .client (.loop .go), .deliver, .client (.loop .go), .client (.loop .go),
      .client (.loop .go), .deliver, .client (.loop .go), .client (.loop .go),
      .client (.op 0 (.forward .go)), .client (.op 0 (.forward .go))] (by decide)
  simp only [Bool.and_eq_true, beq_iff_eq, Option.any_eq_true, Bool.not_eq_true'] at ht
  obtain ⟨⟨⟨hlen, hsent⟩, hwr⟩, call, hc, hdone, hdel⟩ := ht
  obtain ⟨-, -, -, hcalls⟩ := multiplexed hn (by omega)
  obtain ⟨-, -, hpre⟩ := (hcalls 0 call hc).2 0 _ hsent
  exact ⟨n, hn, hlen, ⟨call, hc, hdel, (hpre hdone).1⟩, hwr⟩

end Net

end Mvcp.Rpc
