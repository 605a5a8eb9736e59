import Mvcp.App.Handling

/-!
# Two sessions joined by a connection

A host and a guest session, joined by a reliable connection that keeps the order of frames: what
`Serve` reads on one side is the next frame that the other side wrote. Either side may lose the
connection at any time, and both run under every schedule.

## Main definitions

* `Net`, `Net.step`: the two sessions, and their steps
* `Net.Joined`: the sides are sessions, and the frames read are frames written

## Main results

* `Net.joined`: the invariant holds in every state reached
-/

namespace Mvcp

open Library (Reaches Always)

/-! ## Frames of the peer -/

namespace App

theorem AppMessage.exists_body {m : AppMessage} (h : m.marshalBinary.isOk = true) :
    ∃ body, m.marshalBinary = .ok body := by
  cases hb : m.marshalBinary with
  | ok body => exact ⟨body, rfl⟩
  | error e => simp [hb, Except.isOk, Except.toBool] at h

/-- The message of a frame is what the decoder of its type makes of its body. -/
theorem Outgoing.app?_eq (registry : Registry) {m : AppMessage} {body : Bytes}
    (h : m.marshalBinary = .ok body) :
    (Outgoing.app m).frame.app? registry = (m.unmarshal body).toOption := by
  have hframe : (Outgoing.app m).frame = { typ := m.typ, flags := 0, msgID := 0, body } := by
    simp [Outgoing.frame, h, Except.toOption]
  rw [hframe]
  simp only [Frame.app?, decodeMessage, appDecoder_typ]
  cases m.unmarshal body <;> simp [Except.map, Except.toOption]

theorem Outgoing.app?_frame (registry : Registry) {m : AppMessage}
    (hok : m.marshalBinary.isOk = true) (hs : m.ServiceValid) :
    (Outgoing.app m).frame.app? registry = some m ∨
      (Outgoing.app m).frame.app? registry = none := by
  obtain ⟨body, hbody⟩ := AppMessage.exists_body hok
  rw [Outgoing.app?_eq registry hbody]
  rcases unmarshalBinary_marshalBinary_or_error hbody hs with h | ⟨e, h⟩
  · exact .inl (by rw [h]; rfl)
  · exact .inr (by rw [h]; rfl)

/-- A message whose strings fit their length prefix is read back. -/
theorem Outgoing.app?_fit {registry : Registry} {m : AppMessage}
    (hok : m.marshalBinary.isOk = true) (hfit : m.StringsFit) :
    (Outgoing.app m).frame.app? registry = some m := by
  obtain ⟨body, hbody⟩ := AppMessage.exists_body hok
  rw [Outgoing.app?_eq registry hbody, unmarshalBinary_marshalBinary hbody hfit]
  rfl

theorem Outgoing.app?_core {registry : Registry} {m : AppMessage}
    (hok : m.marshalBinary.isOk = true) (hc : m.core = true) :
    (Outgoing.app m).frame.app? registry = some m := by
  refine Outgoing.app?_fit hok ?_
  cases m <;> simp_all [AppMessage.core, AppMessage.StringsFit]

theorem Outgoing.app?_error {registry : Registry} {code : UInt16} {message : Bytes} :
    (Outgoing.error code message).frame.app? registry = none := by
  simp [Outgoing.frame, Frame.app?, flagResponse]

/-! ## The net -/

/-- Two sessions joined by a connection. -/
structure Net where
  host : Session
  guest : Session

namespace Net

/-- The session of one side. -/
def side (n : Net) : Role → Session
  | .host => n.host
  | .guest => n.guest

def set (n : Net) (s : Session) : Role → Net
  | .host => { n with host := s }
  | .guest => { n with guest := s }

/-- The frames on their way to one side: written by the other, and not yet read. -/
def wire (n : Net) (ρ : Role) : List Frame :=
  ((n.side ρ.other).out.drop (n.side ρ).inbox.length).map fun e => e.msg.frame

/-- **One step of one side.** `Serve` reads the next frame of the other side. -/
def step (n : Net) : Role × Label → Option Net
  | (ρ, .recv f) =>
    if (n.wire ρ).head? = some f then ((n.side ρ).step (.recv f)).map (n.set · ρ) else none
  | (ρ, l) => ((n.side ρ).step l).map (n.set · ρ)

/-- A host and a guest session that have just started. -/
def new (cfg : Role → Config) : Net where
  host := Session.new { cfg .host with role := .host }
  guest := Session.new { cfg .guest with role := .guest }

/-- The host opens a stream and the guest accepts it; both streams are number `0` of their side.
The write loops are goroutine `2` of either side, and the loop of the guest's `Bridge` that reads
the stream is goroutine `4`. -/
def openRun : List (Role × Label) :=
  [(.host, .call (.open (text "svc") [])), (.host, .run 1 .go), (.host, .run 1 .go),
    (.guest, .recv (Outgoing.app (.appOpen 1 (text "svc") [])).frame), (.guest, .run 0 .go),
    (.guest, .run 1 .go), (.guest, .run 1 (.handler (.accept true []))), (.guest, .run 1 .go),
    (.guest, .run 1 .go), (.guest, .run 1 .go), (.guest, .run 1 .go), (.guest, .run 1 .go),
    (.guest, .run 1 .go),
    (.host, .recv (Outgoing.app (.appAccept 1 [] (UInt32.ofNat appInitialWindow))).frame),
    (.host, .run 0 .go), (.host, .run 0 .go), (.host, .run 0 .go),
    (.host, .run 1 (.select .ready)), (.host, .run 1 .go), (.host, .run 1 .go), (.host, .run 1 .go),
    (.host, .run 1 .go)]

variable {n n' : Net} {ρ : Role} {s : Session} {l : Label}

theorem other_other (ρ : Role) : ρ.other.other = ρ := by cases ρ <;> rfl

theorem other_ne (ρ : Role) : ρ.other ≠ ρ := by cases ρ <;> simp [Role.other]

@[simp] theorem side_set_self : (n.set s ρ).side ρ = s := by cases ρ <;> rfl

@[simp] theorem side_set_other : (n.set s ρ).side ρ.other = n.side ρ.other := by
  cases ρ <;> rfl

theorem side_set_other' : (n.set s ρ.other).side ρ = n.side ρ := by cases ρ <;> rfl

theorem side_new (cfg : Role → Config) (ρ : Role) :
    (new cfg).side ρ = Session.new { cfg ρ with role := ρ } := by
  cases ρ <;> rfl

/-- A step of the net is a step of one side. -/
theorem step_cases (h : n.step (ρ, l) = some n') : ∃ s', (n.side ρ).step l = some s' ∧
    n' = n.set s' ρ ∧ ∀ f, l = .recv f → (n.wire ρ).head? = some f := by
  cases l with
  | recv f =>
    simp only [step] at h
    split_ifs at h with hw
    obtain ⟨s', hs, rfl⟩ := Option.map_eq_some_iff.mp h
    exact ⟨s', hs, rfl, fun f' hf' => by cases hf'; exact hw⟩
  | _ =>
    simp only [step] at h
    obtain ⟨s', hs, rfl⟩ := Option.map_eq_some_iff.mp h
    exact ⟨s', hs, rfl, by simp⟩

/-- The runs of one side. -/
theorem side_reaches {ok : Net → Role × Label → Prop} {okS : Session → Label → Prop}
    (hok : ∀ n ρ l, ok n (ρ, l) → okS (n.side ρ) l) {cfg : Role → Config}
    (h : Reaches step ok (new cfg) n) (ρ : Role) :
    Reaches Session.step okS (Session.new { cfg ρ with role := ρ }) (n.side ρ) := by
  induction h with
  | refl => rw [side_new]; exact .refl
  | @tail m m' l hr hl hs ih =>
    obtain ⟨σ, l⟩ := l
    obtain ⟨s', hs', rfl, -⟩ := step_cases hs
    by_cases hσ : σ = ρ
    · subst hσ
      rw [side_set_self]
      exact ih.tail (hok _ _ _ hl) hs'
    · obtain rfl : σ = ρ.other := by cases σ <;> cases ρ <;> simp_all [Role.other]
      rw [side_set_other']
      exact ih

/-- The step enters no critical section but those that `G` admits. -/
def Guarded (G : View → Section → Bool) (n : Net) (l : Role × Label) : Prop :=
  (n.side l.1).guarded G l.2 = true

instance (G : View → Section → Bool) (n : Net) (l : Role × Label) : Decidable (Guarded G n l) :=
  inferInstanceAs (Decidable (_ = true))

end Net

namespace Session

variable {s s' : Session} {l : Label} {cfg : Config} {ok : Session → Label → Prop}

theorem Moves.out (hm : Moves s l s') : s.out <+: s'.out := by
  rcases hm.run_or_starts with ⟨i, c, t, rest, n, -, ht, ha, rfl⟩ | ⟨ts, hts⟩ | rfl
  · rcases ha.out with h | ⟨e, h, -⟩
    · exact h ▸ List.prefix_rfl
    · exact h ▸ List.prefix_append _ _
  · exact hts.out ▸ List.prefix_rfl
  · exact List.prefix_rfl

theorem Moves.inbox (hm : Moves s l s') : s'.cfg = s.cfg ∧
    (s'.inbox = s.inbox ∨ ∃ f, l = .recv f ∧ s'.inbox = s.inbox ++ [f]) := by
  cases hm with
  | run ht ha => exact ⟨ha.inbox.2, .inl ha.inbox.1⟩
  | recv h0 hs => exact ⟨rfl, .inr ⟨_, rfl, rfl⟩⟩
  | _ => exact ⟨rfl, .inl rfl⟩

theorem reaches_cfg (h : Reaches step ok (new cfg) s) : s.cfg = cfg :=
  h.invariant (I := fun s => s.cfg = cfg) rfl
    fun _ _ _ _ _ hs hc => (moves_of_step hs).inbox.1.trans hc

/-- The streams that a step creates. -/
theorem Moves.origins (hm : Moves s l s') (htab : s.Table) : s'.origins = s.origins ∨
    ∃ o, s'.origins = s.origins ++ [o] ∧ (o.inbound = false → o.born = s.inbox.length ∧
      ∀ p ∈ s.names, p.1 ≠ o.id) := by
  rcases hm.run_or_starts with ⟨i, c, t, rest, n, -, ht, ha, rfl⟩ | ⟨ts, hts⟩ | rfl
  · cases ha with
    | sect hst hf ho => exact .inl (Library.map_set_of_eq hst hf.origin)
    | detach hst => exact .inl (congrArg (List.map Stream.origin) (delete_heap _ _ _))
    | open_created hv hm hc hq hid =>
      exact .inr ⟨_, List.map_append, fun _ => ⟨rfl, fun p hp => htab.fresh hid hp⟩⟩
    | open_admitted h₀ hid hv hm hc hnew hq =>
      exact .inr ⟨_, List.map_append, by simp [Stream.origin]⟩
    | _ => exact .inl rfl
  · exact .inl (congrArg (List.map Stream.origin) hts.heap)
  · exact .inl rfl

/-! ## Initiator bits -/

/-- The initiator bit tells who opened a stream. -/
theorem Table.bit (h : s.Table) {o : Origin} (ho : o ∈ s.origins) :
    o.id &&& 0x80000000 = (if o.inbound then s.cfg.role.other else s.cfg.role).bit := by
  obtain ⟨st, hst, rfl⟩ := List.mem_map.mp ho
  have hname : st.name ∈ s.names := List.mem_map_of_mem hst
  cases hi : st.inbound with
  | true => simpa [Stream.origin, Stream.name, hi] using h.peers st.name hname hi
  | false =>
    have hm : st.id ∈ (List.range' 1 s.nextID).map (localID s.cfg.role) := by
      rw [← h.locals]
      exact List.mem_map_of_mem (List.mem_filter.mpr ⟨hname, by simp [Stream.name, hi]⟩)
    obtain ⟨k, hk, hid⟩ := List.mem_map.mp hm
    rw [List.mem_range'_1] at hk
    have := h.nextID_le
    simp only [maxLocalStreamID] at this
    simp only [Stream.origin, hi, ← hid]
    exact localID_bit (by omega)

end Session

/-! ## Frames read are frames written -/

namespace Net

/-- The sides are sessions, and the frames read are those that the other side wrote. -/
structure Wired (n : Net) : Prop where
  sides : ∀ ρ, ∃ cfg : Config, cfg.role = ρ ∧ Session.Reachable cfg (n.side ρ)
  wire : ∀ ρ, (n.side ρ).inbox =
    ((n.side ρ.other).out.take (n.side ρ).inbox.length).map fun e => e.msg.frame

variable {n n' : Net} {ρ : Role} {s : Session} {l : Label} {m : AppMessage} {e : Sent}

namespace Wired

variable (h : n.Wired)

include h

theorem role (ρ : Role) : (n.side ρ).cfg.role = ρ := by
  obtain ⟨cfg, hρ, hr⟩ := h.sides ρ
  rw [Session.reaches_cfg hr, hρ]

theorem table (ρ : Role) : (n.side ρ).Table :=
  have ⟨_, _, hr⟩ := h.sides ρ
  Session.reaches_table hr

theorem arrivals (ρ : Role) : (n.side ρ).Arrivals :=
  have ⟨_, _, hr⟩ := h.sides ρ
  Session.arrivals hr

theorem departures (ρ : Role) : (n.side ρ).Departures :=
  have ⟨_, _, hr⟩ := h.sides ρ
  Session.departures hr

theorem length_le (ρ : Role) : (n.side ρ).inbox.length ≤ (n.side ρ.other).out.length := by
  have := congrArg List.length (h.wire ρ)
  rw [List.length_map, List.length_take] at this
  omega

/-- The message that a frame carries is the one that was written. -/
theorem msg_of_app {registry : Registry} (he : e ∈ (n.side ρ).out)
    (hm : e.msg.frame.app? registry = some m) : e.msg = .app m := by
  cases hmsg : e.msg with
  | error code message =>
    rw [hmsg, Outgoing.app?_error] at hm
    simp at hm
  | app m' =>
    obtain ⟨hok, hs, -⟩ := (h.departures ρ).sent e he m' hmsg
    rw [hmsg] at hm
    rcases Outgoing.app?_frame registry hok hs with hd | hd
    · rw [Option.some.inj (hd.symm.trans hm)]
    · simp [hd] at hm

/-- A message read is a message written. -/
theorem written {k : ℕ} {f : Frame} {registry : Registry} (hf : (n.side ρ).inbox[k]? = some f)
    (hm : f.app? registry = some m) :
    ∃ e, (n.side ρ.other).out[k]? = some e ∧ e.msg = .app m := by
  rw [h.wire ρ, List.getElem?_map, Option.map_eq_some_iff] at hf
  obtain ⟨e, he, rfl⟩ := hf
  have he' : (n.side ρ.other).out[k]? = some e := by
    rw [List.getElem?_take] at he
    split_ifs at he
    exact he
  exact ⟨e, he', h.msg_of_app (List.mem_of_getElem? he') hm⟩

/-- Who opened a stream with the id. -/
theorem inbound_iff {o : Origin} (ho : o ∈ (n.side ρ).origins) :
    o.inbound = true ↔ o.id &&& 0x80000000 = ρ.other.bit := by
  have := (h.table ρ).bit ho
  rw [h.role ρ] at this
  rw [this]
  cases hi : o.inbound with
  | true => simp
  | false => simpa using (Role.bit_other_ne ρ).symm

theorem outbound_iff {o : Origin} (ho : o ∈ (n.side ρ).origins) :
    o.inbound = false ↔ o.id &&& 0x80000000 = ρ.bit := by
  have := (h.table ρ).bit ho
  rw [h.role ρ] at this
  rw [this]
  cases hi : o.inbound with
  | true => simpa using Role.bit_other_ne ρ
  | false => simp

/-- A frame for a stream, other than a rejection, is written for a stream with its id. -/
theorem ref_of_sent (he : e ∈ (n.side ρ).out) (hm : e.msg = .app m)
    (hrej : ∀ id code message, m ≠ .appReject id code message) :
    ∃ r o, e.ref = some r ∧ (n.side ρ).origins[r]? = some o ∧ m.streamID = o.id := by
  obtain ⟨-, -, hj | ⟨-, ⟨id, code, message, rfl⟩, -⟩⟩ := (h.departures ρ).sent e he m hm
  · exact hj
  · exact absurd rfl (hrej id code message)

/-- What one side asks for is a stream that it opened. -/
theorem opened_of_read {k : ℕ} {f : Frame} {registry : Registry} {id : UInt32}
    {service metadata : Bytes} (hf : (n.side ρ.other).inbox[k]? = some f)
    (hm : f.app? registry = some (.appOpen id service metadata)) (hid : id &&& 0x80000000 = ρ.bit) :
    ∃ e r o, (n.side ρ).out[k]? = some e ∧ e.msg = .app (.appOpen id service metadata) ∧
      e.ref = some r ∧ (n.side ρ).origins[r]? = some o ∧ o.inbound = false ∧ o.id = id := by
  obtain ⟨e, he, hmsg⟩ := h.written hf hm
  rw [other_other] at he
  obtain ⟨r, o, hr, ho, hoid⟩ := h.ref_of_sent (List.mem_of_getElem? he) hmsg (by simp)
  have hoid' : o.id = id := hoid.symm
  exact ⟨e, r, o, he, hmsg, hr, ho,
    (h.outbound_iff (List.mem_of_getElem? ho)).mpr (hoid' ▸ hid), hoid'⟩

/-- **A frame for a stream id of this side answers a stream of this side.** -/
theorem known (he : e ∈ (n.side ρ.other).out) (hm : e.msg = .app m)
    (hid : m.streamID &&& 0x80000000 = ρ.bit) :
    ∃ o ∈ (n.side ρ).origins, o.inbound = false ∧ o.id = m.streamID := by
  have hasked {k : ℕ} {f : Frame} {registry : Registry} {service metadata : Bytes}
      (hf : (n.side ρ.other).inbox[k]? = some f)
      (happ : f.app? registry = some (.appOpen m.streamID service metadata)) :
      ∃ o ∈ (n.side ρ).origins, o.inbound = false ∧ o.id = m.streamID := by
    obtain ⟨-, r, o, -, -, -, ho, hin, hoid⟩ := h.opened_of_read hf happ hid
    exact ⟨o, List.mem_of_getElem? ho, hin, hoid⟩
  obtain ⟨-, -, ⟨r, o, -, ho, hoid⟩ | ⟨-, -, service, metadata, hin⟩⟩ :=
    (h.departures ρ.other).sent e he m hm
  · -- the other side has a stream with the id, which this side opened
    have ho' := List.mem_of_getElem? ho
    have hin : o.inbound = true := by
      rw [h.inbound_iff ho', other_other, ← hoid, hid]
    obtain ⟨k, f, service, metadata, -, hf, happ⟩ := (h.arrivals ρ.other).opened o ho' hin
    exact hasked hf (hoid ▸ happ)
  · obtain ⟨f, hfm, happ⟩ := List.mem_filterMap.mp hin
    obtain ⟨k, hk⟩ := List.mem_iff_getElem?.mp hfm
    exact hasked hk happ

end Wired

/-- **The sides are sessions, the frames read are frames written, and no frame for a stream of
one side is written before the stream exists.** -/
structure Joined (n : Net) : Prop extends Wired n where
  early : ∀ ρ, ∀ o ∈ (n.side ρ).origins, o.inbound = false →
    ∀ e ∈ (n.side ρ.other).out.take o.born, ∀ m, e.msg = .app m → m.streamID ≠ o.id

theorem joined_new (cfg : Role → Config) : (new cfg).Joined where
  sides ρ := ⟨{ cfg ρ with role := ρ }, rfl, side_new cfg ρ ▸ .refl⟩
  wire ρ := by simp [side_new, Session.new]
  early ρ o ho := by simp [side_new, Session.new, Session.origins] at ho

theorem eq_or_eq_other (σ ρ : Role) : σ = ρ ∨ σ = ρ.other := by
  cases σ <;> cases ρ <;> simp [Role.other]

/-- The frames read stay frames written. -/
theorem Wired.wire_step {s' : Session} (h : n.Wired) (hm : Session.Moves (n.side ρ) l s')
    (hrecv : ∀ f, l = .recv f → (n.wire ρ).head? = some f) (σ : Role) :
    ((n.set s' ρ).side σ).inbox =
      (((n.set s' ρ).side σ.other).out.take ((n.set s' ρ).side σ).inbox.length).map
        fun e => e.msg.frame := by
  rcases eq_or_eq_other σ ρ with rfl | rfl
  · -- this side may have read the next frame
    rw [side_set_self, side_set_other]
    rcases hm.inbox.2 with hin | ⟨f, rfl, hin⟩
    · rw [hin]
      exact h.wire σ
    · have hf := hrecv f rfl
      rw [Net.wire, List.head?_map, List.head?_drop, Option.map_eq_some_iff] at hf
      obtain ⟨e, he, rfl⟩ := hf
      rw [hin, List.length_append, List.length_singleton, List.take_add_one, he, List.map_append,
        ← h.wire σ]
      rfl
  · -- the other side read none, and this side may have written one more
    rw [side_set_other, other_other, side_set_self]
    obtain ⟨es, hes⟩ := hm.out
    have hle := h.length_le ρ.other
    rw [other_other] at hle
    rw [← hes, List.take_append_of_le_length hle]
    simpa [other_other] using h.wire ρ.other

/-- No frame for a stream is written before the stream exists, after a step of one side. -/
theorem Joined.early_step {s' : Session} (h : n.Joined) (hm : Session.Moves (n.side ρ) l s')
    (σ : Role) : ∀ o ∈ ((n.set s' ρ).side σ).origins, o.inbound = false →
      ∀ e ∈ ((n.set s' ρ).side σ.other).out.take o.born, ∀ m, e.msg = .app m →
        m.streamID ≠ o.id := by
  intro o ho hin e he m hmsg
  rcases eq_or_eq_other σ ρ with rfl | rfl
  · rw [side_set_self] at ho
    rw [side_set_other] at he
    rcases hm.origins (h.table σ) with hor | ⟨o', hor, hnew⟩
    · exact h.early σ o (hor ▸ ho) hin e he m hmsg
    · rcases List.mem_append.mp (hor ▸ ho) with ho | ho
      · exact h.early σ o ho hin e he m hmsg
      · -- the stream is new, and whatever the other side writes is for streams known before
        obtain rfl := List.mem_singleton.mp ho
        obtain ⟨-, hfresh⟩ := hnew hin
        intro hid
        have hbit : m.streamID &&& 0x80000000 = σ.bit := by
          have ht := (hm.table (h.table σ)).bit (o := o) (hor ▸ by simp)
          rw [hm.inbox.1, h.role σ, hin] at ht
          rw [hid]
          simpa using ht
        obtain ⟨o'', ho'', -, hid''⟩ := h.known (List.mem_of_mem_take he) hmsg hbit
        obtain ⟨st, hst, rfl⟩ := List.mem_map.mp ho''
        exact hfresh st.name (List.mem_map_of_mem hst) (hid''.trans hid)
  · rw [side_set_other] at ho
    rw [other_other, side_set_self] at he
    obtain ⟨es, hes⟩ := hm.out
    have hle : o.born ≤ (n.side ρ).out.length :=
      ((h.arrivals ρ.other).born_le o ho).trans (by simpa [other_other] using h.length_le ρ.other)
    rw [← hes, List.take_append_of_le_length hle] at he
    exact h.early ρ.other o ho hin e (by rwa [other_other]) m hmsg

/-- **Two sessions joined by a connection stay so.** -/
theorem joined {ok : Net → Role × Label → Prop} {cfg : Role → Config}
    (h : Reaches step ok (new cfg) n) : n.Joined := by
  refine h.invariant (joined_new cfg) ?_
  rintro n n' ⟨ρ, l⟩ hr hok hs ih
  have hsides : ∀ σ,
      Reaches Session.step Always (Session.new { cfg σ with role := σ }) (n'.side σ) :=
    side_reaches (fun _ _ _ _ => trivial) (hr.tail hok hs)
  obtain ⟨s', hs', rfl, hrecv⟩ := step_cases hs
  have hm := Session.moves_of_step hs'
  exact {
    sides := fun σ => ⟨_, rfl, hsides σ⟩
    wire := ih.wire_step hm hrecv
    early := ih.early_step hm }

end Net

end App

end Mvcp
