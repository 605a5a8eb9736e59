import Mvcp.Rpc.Multiplex
import Mvcp.Wire.Framing

/-!
# A client and a server on a byte stream

`Net` joins the client and the server by queues of frames. Here they are joined by a connection that
carries bytes: requests and answers are handed over as their encodings, arrive in pieces of any
size, and are read back with `ReadMVCPFrame`. The client and the server reach the same states as on
the queues, oversized frames included: the reader refuses those, and finds no other frame in their
place.

## Main definitions

* `ByteNet`, `ByteNet.step`: the client, the server and the bytes between them
* `Net.Sized`: the frames written fit their length field

## Main results

* `Net.sized`: the invariant of the queues
* `ByteNet.refines_queues`: the same states are reached on the byte stream as on the queues
-/

namespace Mvcp.Rpc

open Library (Reaches Always Link)

namespace Client

variable {s u : Client} {l : Label}

/-- The requests of the calls of a client are those of its calls before, or that of a new call. -/
theorem step_requests (h : s.step l = some u) : ∀ call ∈ u.calls,
    (∃ call₀ ∈ s.calls, call.request = call₀.request) ∨
      ∃ isStream typ flags, l = .call isStream typ flags call.request.body := by
  have hset {c : ℕ} {call call' x : Call} (hx : x ∈ s.calls.set c call')
      (hc : s.calls[c]? = some call) (hreq : call'.request = call.request) :
      ∃ call₀ ∈ s.calls, x.request = call₀.request := by
    rcases List.mem_or_eq_of_mem_set hx with hx | rfl
    · exact ⟨x, hx, rfl⟩
    · exact ⟨call, List.mem_of_getElem? hc, hreq⟩
  have hshut : ∀ x ∈ s.shut.calls, ∃ call₀ ∈ s.calls, x.request = call₀.request := by
    intro x hx
    obtain ⟨i, hi, rfl⟩ := List.mem_mapIdx.mp hx
    refine ⟨s.calls[i], List.getElem_mem hi, ?_⟩
    split_ifs <;> rfl
  intro call hcall
  cases moves_of_step h with
  | start =>
    refine .inl ⟨call, ?_, rfl⟩
    split_ifs at hcall <;> exact hcall
  | call =>
    rcases List.mem_append.mp hcall with hcall | hcall
    · exact .inl ⟨call, hcall, rfl⟩
    · obtain rfl := List.mem_singleton.mp hcall
      exact .inr ⟨_, _, _, rfl⟩
  | @op c call₀ call' o e hc hst =>
    cases e with
    | insert =>
      have hcall : call ∈ s.calls.set c { call' with born := s.heard.length } := by
        simpa [effect, Client.insert] using hcall
      exact .inl (hset hcall hc hst.request)
    | none | delete | send => exact .inl (hset hcall hc hst.request)
  | look _ _ _ hc => exact .inl (hset hcall hc rfl)
  | accept _ hc => exact .inl (hset hcall hc rfl)
  | drop _ hc => exact .inl (hset hcall hc rfl)
  | shutCloser | shutLoop => exact .inl (hshut call hcall)
  | _ => exact .inl ⟨call, hcall, rfl⟩

/-- Who reads a frame writes none. -/
theorem sent_frame {f : Frame} (h : s.step (.loop (.frame f)) = some u) : u.sent = s.sent := by
  simp only [step, stepLoop] at h
  split at h <;> simp_all
  obtain ⟨-, rfl⟩ := h
  rfl

/-- The read loop takes no frame that is too large. -/
theorem admissible_of_frame {f : Frame} (h : s.step (.loop (.frame f)) = some u) :
    f.Admissible := by
  simp only [step, stepLoop] at h
  split at h <;> simp_all [Frame.Admissible]

end Client

/-! ## The queues -/

theorem Server.read_handleFrame (s : Server) (f : Frame) :
    (s.handleFrame f).read = s.read + 1 := by
  unfold Server.handleFrame
  split_ifs <;> rfl

namespace Net

variable {n m : Net} {l : NetLabel}

/-- The requests that `Serve` has not read. -/
def requests (n : Net) : List Frame := (n.client.sent.drop n.server.read).map Prod.snd

/-- The answers that the client has not read. -/
def answers (n : Net) : List Frame := (n.toClient.drop n.taken).map Prod.snd

/-- **The frames written fit their length field**, and no more were read than written. -/
structure Sized (n : Net) : Prop where
  calls : ∀ call ∈ n.client.calls, call.request.Writable
  sent : ∀ e ∈ n.client.sent, e.2.Writable
  toClient : ∀ e ∈ n.toClient, e.2.Writable
  read_le : n.server.read ≤ n.client.sent.length
  taken_le : n.taken ≤ n.toClient.length

theorem writable_of_fits {f : Frame} (h : fits f.body = true) : f.Writable := by
  simpa only [fits, decide_eq_true_eq, Frame.Writable] using h

theorem writable_unknownType (msgID : UInt32) : (unknownType msgID).Writable := by
  -- the body does not depend on the id
  have hfits : fits (unknownType 0).body = true := by decide
  exact writable_of_fits (f := unknownType msgID) hfits

/-- A step of the client writes no request, or the one of a call. -/
theorem Sized.client {c : Client} {l : Label} (h : n.Sized) (hs : n.client.step l = some c)
    (hl : ∀ isStream typ flags body, l = .call isStream typ flags body → fits body = true) :
    (∀ call ∈ c.calls, call.request.Writable) ∧ (∀ e ∈ c.sent, e.2.Writable) ∧
      n.client.sent <+: c.sent := by
  refine ⟨fun call hc => ?_, ?_⟩
  · rcases Client.step_requests hs call hc with ⟨call₀, hc₀, hreq⟩ | ⟨isStream, typ, flags, rfl⟩
    · exact hreq ▸ h.calls call₀ hc₀
    · exact writable_of_fits (hl isStream typ flags _ rfl)
  · rcases Client.step_sent hs with heq | ⟨i, call, call', hc, -, -, -, -, heq⟩
    · exact ⟨heq ▸ h.sent, heq ▸ List.prefix_rfl⟩
    · refine ⟨fun e he => ?_, heq ▸ List.prefix_append _ _⟩
      rcases List.mem_append.mp (heq ▸ he) with he | he
      · exact h.sent e he
      · obtain rfl := List.mem_singleton.mp he
        exact h.calls call (List.mem_of_getElem? hc)

theorem Sized.step (h : n.Sized) (hs : n.step l = some m) : m.Sized := by
  have hwrite {e : ℕ × Frame} (he : e.2.Writable) :
      (∀ e' ∈ n.toClient ++ [e], e'.2.Writable) ∧ n.taken ≤ (n.toClient ++ [e]).length := by
    refine ⟨fun e' he' => ?_, h.taken_le.trans (by simp)⟩
    rcases List.mem_append.mp he' with he' | he'
    · exact h.toClient e' he'
    · exact List.mem_singleton.mp he' ▸ he
  cases moves_of_step hs with
  | client hl hc =>
    obtain ⟨hcalls, hsent, hpre⟩ := h.client hc (by rintro _ _ _ _ rfl; exact hl)
    exact ⟨hcalls, hsent, h.toClient, h.read_le.trans hpre.length_le, h.taken_le⟩
  | deliver he hc =>
    obtain ⟨hcalls, hsent, hpre⟩ := h.client hc (by simp)
    exact ⟨hcalls, hsent, h.toClient, h.read_le.trans hpre.length_le,
      (List.getElem?_eq_some_iff.mp he).1⟩
  | serve he hserving =>
    refine ⟨h.calls, h.sent, h.toClient, ?_, h.taken_le⟩
    rw [Server.read_handleFrame]
    exact (List.getElem?_eq_some_iff.mp he).1
  | reply =>
    obtain ⟨hto, hle⟩ := hwrite (e := (_, unknownType _)) (writable_unknownType _)
    exact ⟨h.calls, h.sent, hto, h.read_le, hle⟩
  | @write j a job hj =>
    have hfits : (a.frame job.req).Writable := by
      simp only [step, hj, Option.bind_eq_bind, Option.bind_some] at hs
      split_ifs at hs with hf
      exact writable_of_fits hf
    obtain ⟨hto, hle⟩ := hwrite (e := (_, a.frame job.req)) hfits
    exact ⟨h.calls, h.sent, hto, h.read_le, hle⟩
  | handle | stop => exact ⟨h.calls, h.sent, h.toClient, h.read_le, h.taken_le⟩

theorem sized (h : n.Reached) : n.Sized :=
  Reaches.invariant (I := Sized) h ⟨by simp, by simp, by simp, by simp, by simp⟩
    fun _ _ _ _ _ hs ih => ih.step hs

theorem Sized.requests (h : n.Sized) : ∀ f ∈ n.requests, f.Writable := by
  intro f hf
  obtain ⟨e, he, rfl⟩ := List.mem_map.mp hf
  exact h.sent e (List.mem_of_mem_drop he)

theorem Sized.answers (h : n.Sized) : ∀ f ∈ n.answers, f.Writable := by
  intro f hf
  obtain ⟨e, he, rfl⟩ := List.mem_map.mp hf
  exact h.toClient e (List.mem_of_mem_drop he)

/-- The first frame of a queue is the next to be read. -/
theorem queue_eq_cons {es : List (ℕ × Frame)} {k : ℕ} {f : Frame} {fs : List Frame}
    (h : (es.drop k).map Prod.snd = f :: fs) :
    ∃ e, es[k]? = some e ∧ e.2 = f ∧ (es.drop (k + 1)).map Prod.snd = fs := by
  obtain ⟨e, rest, hdrop, he, hrest⟩ := List.map_eq_cons_iff.mp h
  refine ⟨e, ?_, he, ?_⟩
  · rw [← List.head?_drop, hdrop, List.head?_cons]
  · rw [← List.drop_drop, hdrop]
    exact hrest

/-- What a step adds to the requests and to the answers. -/
theorem Sized.queues (h : n.Sized) (hs : n.step l = some m) (hserve : l ≠ .serve)
    (hdeliver : l ≠ .deliver) :
    m.requests = n.requests ++ (m.client.sent.drop n.client.sent.length).map Prod.snd ∧
      m.answers = n.answers ++ (m.toClient.drop n.toClient.length).map Prod.snd := by
  cases moves_of_step hs with
  | client hl hc =>
    obtain ⟨-, -, es, hes⟩ := h.client hc (by rintro _ _ _ _ rfl; exact hl)
    simp [Net.requests, Net.answers, ← hes, List.drop_append_of_le_length h.read_le]
  | serve | deliver => contradiction
  | reply | write =>
    simp [Net.requests, Net.answers, List.drop_append_of_le_length h.taken_le]
  | handle | stop => simp [Net.requests, Net.answers]

end Net

/-! ## The connection -/

/-- The client, the server, and the bytes on their way to either. -/
structure ByteNet where
  net : Net := {}
  toServer : Link := {}
  toClient : Link := {}

inductive ByteLabel
  /-- The next `k` bytes arrive at the server. -/
  | arriveServer (k : ℕ)
  /-- The next `k` bytes arrive at the client. -/
  | arriveClient (k : ℕ)
  | net (l : NetLabel)

namespace ByteNet

/-- **One step.** `Serve` and the read loop read frames from the bytes that have arrived; whoever
writes a frame hands over its encoding. -/
def step (b : ByteNet) : ByteLabel → Option ByteNet
  | .arriveServer k => do
    let l ← b.toServer.arrive k
    return { b with toServer := l }
  | .arriveClient k => do
    let l ← b.toClient.arrive k
    return { b with toClient := l }
  | .net .serve => do
    let (f, l) ← b.toServer.take atEOF readMVCPFrame
    if b.net.server.serving = .reading then
      return { b with net := { b.net with server := b.net.server.handleFrame f }, toServer := l }
    else none
  | .net .deliver => do
    let (f, l) ← b.toClient.take atEOF readMVCPFrame
    let c ← b.net.client.step (.loop (.frame f))
    return { b with net := { b.net with client := c, taken := b.net.taken + 1 }, toClient := l }
  | .net l => do
    let n ← b.net.step l
    let asked := (n.client.sent.drop b.net.client.sent.length).map Prod.snd
    let answered := (n.toClient.drop b.net.toClient.length).map Prod.snd
    return { net := n,
             toServer := b.toServer.send (asked.flatMap encodeMVCPFrame),
             toClient := b.toClient.send (answered.flatMap encodeMVCPFrame) }

variable {b b' : ByteNet} {n : Net} {l : ByteLabel}

/-- The state after a step that reads no frame and leads the client and the server to `n`. -/
def wrote (b : ByteNet) (n : Net) : ByteNet where
  net := n
  toServer := b.toServer.send
    (((n.client.sent.drop b.net.client.sent.length).map Prod.snd).flatMap encodeMVCPFrame)
  toClient := b.toClient.send
    (((n.toClient.drop b.net.toClient.length).map Prod.snd).flatMap encodeMVCPFrame)

theorem step_net {l : NetLabel} (hserve : l ≠ .serve) (hdeliver : l ≠ .deliver) :
    b.step (.net l) = (b.net.step l).map b.wrote := by
  cases l with
  | serve | deliver => contradiction
  | _ =>
    simp only [step]
    cases b.net.step _ <;> rfl

/-- **The bytes on their way are the encodings of the frames on their way.** -/
structure Carried (b : ByteNet) : Prop where
  toServer : b.toServer.Carries encodeMVCPFrame b.net.requests
  toClient : b.toClient.Carries encodeMVCPFrame b.net.answers

/-- **A step on the byte stream is a step on the queues**, or the arrival of bytes. -/
theorem Carried.step (h : b.Carried) (hz : b.net.Sized) (hs : b.step l = some b') :
    b'.Carried ∧ (b'.net = b.net ∨ ∃ m, b.net.step m = some b'.net) := by
  cases l with
  | arriveServer k =>
    obtain ⟨l, hl, hb⟩ := Option.bind_eq_some_iff.mp hs
    obtain rfl := Option.some.inj hb
    exact ⟨⟨h.toServer.arrive hl, h.toClient⟩, .inl rfl⟩
  | arriveClient k =>
    obtain ⟨l, hl, hb⟩ := Option.bind_eq_some_iff.mp hs
    obtain rfl := Option.some.inj hb
    exact ⟨⟨h.toServer, h.toClient.arrive hl⟩, .inl rfl⟩
  | net l =>
    by_cases hserve : l = .serve
    · subst hserve
      obtain ⟨⟨f, l⟩, ht, hs⟩ := Option.bind_eq_some_iff.mp hs
      dsimp only at hs
      split_ifs at hs with hr
      obtain rfl := Option.some.inj hs
      obtain ⟨fs, hq, hfits, hl⟩ := h.toServer.take delimits_mvcp hz.requests ht
      obtain ⟨e, he, rfl, hfs⟩ := Net.queue_eq_cons hq
      refine ⟨⟨?_, h.toClient⟩, .inr ⟨.serve, ?_⟩⟩
      · simpa [Net.requests, Server.read_handleFrame, hfs] using hl
      · have hsize : frameHeaderSize + e.2.body.length ≤ maxFrameSize := hfits
        simp [Net.step, he, hr, hsize]
    by_cases hdeliver : l = .deliver
    · subst hdeliver
      obtain ⟨⟨f, l⟩, ht, hs⟩ := Option.bind_eq_some_iff.mp hs
      obtain ⟨c, hc, hb⟩ := Option.bind_eq_some_iff.mp hs
      obtain rfl := Option.some.inj hb
      obtain ⟨fs, hq, -, hl⟩ := h.toClient.take delimits_mvcp hz.answers ht
      obtain ⟨e, he, rfl, hfs⟩ := Net.queue_eq_cons hq
      refine ⟨⟨?_, ?_⟩, .inr ⟨.deliver, ?_⟩⟩
      · simpa [Net.requests, Client.sent_frame hc] using h.toServer
      · simpa [Net.answers, hfs] using hl
      · simp [Net.step, he, hc]
    rw [step_net hserve hdeliver] at hs
    obtain ⟨n, hn, rfl⟩ := Option.map_eq_some_iff.mp hs
    obtain ⟨hreq, hans⟩ := hz.queues hn hserve hdeliver
    refine ⟨⟨?_, ?_⟩, .inr ⟨l, hn⟩⟩
    · change (b.wrote n).toServer.Carries _ n.requests
      rw [hreq]
      exact h.toServer.send _
    · change (b.wrote n).toClient.Carries _ n.answers
      rw [hans]
      exact h.toClient.send _

/-- The states that a new client and a new server reach on a byte stream. -/
def Reached : ByteNet → Prop := Reaches step Always {}

theorem carried (h : b.Reached) : b.Carried ∧ b.net.Reached := by
  refine Reaches.invariant (I := fun b => b.Carried ∧ b.net.Reached) h ⟨⟨.empty, .empty⟩, .refl⟩ ?_
  rintro b b' l - - hs ⟨hc, hr⟩
  obtain ⟨hc', heq | ⟨m, hm⟩⟩ := hc.step (Net.sized hr) hs
  · exact ⟨hc', heq ▸ hr⟩
  · exact ⟨hc', Reaches.tail hr trivial hm⟩

/-! ## The other way -/

/-- All that is on its way to the server arrives. -/
theorem exists_arrivedServer (h : b.Reached) :
    ∃ b' : ByteNet, b'.Reached ∧ b'.net = b.net ∧ b'.toServer.transit = [] := by
  by_cases ht : b.toServer.transit = []
  · exact ⟨b, h, rfl, ht⟩
  · obtain ⟨l, hl, hnil⟩ := b.toServer.exists_arrive ht
    refine ⟨{ b with toServer := l },
      Reaches.tail (l := .arriveServer b.toServer.transit.length) h trivial ?_, rfl, hnil⟩
    simp [step, hl]

/-- All that is on its way to the client arrives. -/
theorem exists_arrivedClient (h : b.Reached) :
    ∃ b' : ByteNet, b'.Reached ∧ b'.net = b.net ∧ b'.toClient.transit = [] := by
  by_cases ht : b.toClient.transit = []
  · exact ⟨b, h, rfl, ht⟩
  · obtain ⟨l, hl, hnil⟩ := b.toClient.exists_arrive ht
    refine ⟨{ b with toClient := l },
      Reaches.tail (l := .arriveClient b.toClient.transit.length) h trivial ?_, rfl, hnil⟩
    simp [step, hl]

/-- A step on the queues can be taken on the byte stream. -/
theorem exists_step {l : NetLabel} (h : b.Reached) (hs : b.net.step l = some n) :
    ∃ b' : ByteNet, b'.Reached ∧ b'.net = n := by
  by_cases hserve : l = .serve
  · -- the request arrives before it is read
    subst hserve
    obtain ⟨b₁, h₁, hnet, htransit⟩ := exists_arrivedServer h
    rw [← hnet] at hs
    obtain ⟨e, he, hs⟩ := Option.bind_eq_some_iff.mp hs
    split_ifs at hs with hr
    obtain rfl := Option.some.inj hs
    have hq : b₁.net.requests =
        e.2 :: (b₁.net.client.sent.drop (b₁.net.server.read + 1)).map Prod.snd := by
      rw [Net.requests, List.drop_eq_getElem?_toList_append, he]
      rfl
    have hcar := (carried h₁).1.toServer
    rw [hq] at hcar
    obtain ⟨l', hl'⟩ := hcar.exists_take delimits_mvcp hr.2 htransit
    refine ⟨{ b₁ with net := { b₁.net with server := b₁.net.server.handleFrame e.2 },
                      toServer := l' }, Reaches.tail (l := .net .serve) h₁ trivial ?_, rfl⟩
    simp [step, hl', hr.1]
  by_cases hdeliver : l = .deliver
  · subst hdeliver
    obtain ⟨b₁, h₁, hnet, htransit⟩ := exists_arrivedClient h
    rw [← hnet] at hs
    obtain ⟨e, he, hs⟩ := Option.bind_eq_some_iff.mp hs
    obtain ⟨c, hc, hb⟩ := Option.bind_eq_some_iff.mp hs
    obtain rfl := Option.some.inj hb
    have hq : b₁.net.answers = e.2 :: (b₁.net.toClient.drop (b₁.net.taken + 1)).map Prod.snd := by
      rw [Net.answers, List.drop_eq_getElem?_toList_append, he]
      rfl
    have hcar := (carried h₁).1.toClient
    rw [hq] at hcar
    obtain ⟨l', hl'⟩ := hcar.exists_take delimits_mvcp (Client.admissible_of_frame hc) htransit
    refine ⟨{ b₁ with net := { b₁.net with client := c, taken := b₁.net.taken + 1 },
                      toClient := l' }, Reaches.tail (l := .net .deliver) h₁ trivial ?_, rfl⟩
    simp [step, hl', hc]
  · refine ⟨b.wrote n, Reaches.tail (l := .net l) h trivial ?_, rfl⟩
    rw [step_net hserve hdeliver, hs]
    rfl

/-- **The client and the server cannot tell a byte stream from queues of frames.** However the
connection cuts the bytes, they reach exactly the states that they reach when each reads the frames
the other wrote, one by one. No step writes a frame larger than its length field can say. -/
theorem refines_queues (n : Net) : (∃ b : ByteNet, b.Reached ∧ b.net = n) ↔ n.Reached := by
  constructor
  · rintro ⟨b, h, rfl⟩
    exact (carried h).2
  · intro h
    induction h with
    | refl => exact ⟨{}, .refl, rfl⟩
    | tail _ _ hs ih =>
      obtain ⟨b, hb, rfl⟩ := ih
      exact exists_step hb hs

end ByteNet

end Mvcp.Rpc
