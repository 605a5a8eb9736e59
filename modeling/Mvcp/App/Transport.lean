import Mvcp.App.Net
import Mvcp.Wire.Framing

/-!
# Two sessions on a byte stream

`Net` joins two sessions by queues of frames. What joins them in fact is a connection that carries
bytes: `WriteMVCPFrame` hands over the encoding of a frame, the bytes arrive in pieces of any size,
and `Serve` calls `ReadMVCPFrame` on what has arrived. This module puts the sessions on such a
connection, and shows that they cannot tell: the sessions reach the same states as in `Net`, as long
as no frame is larger than its length field can say.

## Main definitions

* `ByteNet`, `ByteNet.step`: the two sessions and the bytes between them
* `Net.Sized`, `ByteNet.Sized`: the sizes of the frames that a step writes fit the length field

## Main results

* `ByteNet.carried`: the bytes between the sessions are the encodings of the frames in the queues
* `ByteNet.refines`: the sessions reach the same states on the byte stream as on the queues
-/

namespace Mvcp.App

open Library (Reaches Always Link)

namespace Net

/-- The frames that a session writes in the step from `s` to `s'`. -/
def wrote (s s' : Session) : List Frame := (s'.out.drop s.out.length).map fun e => e.msg.frame

/-- The step writes no frame that is larger than its length field can say. -/
def Sized (n : Net) (l : Role × Label) : Prop :=
  ∀ s' ∈ (n.side l.1).step l.2, ∀ f ∈ wrote (n.side l.1) s', f.Writable

end Net

/-- Two sessions, and for each side the bytes on their way to it. -/
structure ByteNet where
  net : Net
  link : Role → Link := fun _ => {}

inductive ByteLabel
  /-- The next `k` bytes arrive. -/
  | arrive (k : ℕ)
  /-- `Serve` reads a frame from what has arrived. -/
  | serve
  /-- Any other step of the session. -/
  | other (l : Label)

namespace ByteNet

/-- **One step of one side.** -/
def step (b : ByteNet) : Role × ByteLabel → Option ByteNet
  | (ρ, .arrive k) => do
    let l ← (b.link ρ).arrive k
    return { b with link := Function.update b.link ρ l }
  | (ρ, .serve) => do
    let (f, l) ← (b.link ρ).take atEOF readMVCPFrame
    let s' ← (b.net.side ρ).step (.recv f)
    return { net := b.net.set s' ρ, link := Function.update b.link ρ l }
  | (_, .other (.recv _)) => none
  | (ρ, .other l) => do
    let s' ← (b.net.side ρ).step l
    let bytes := (Net.wrote (b.net.side ρ) s').flatMap encodeMVCPFrame
    return { net := b.net.set s' ρ,
             link := Function.update b.link ρ.other ((b.link ρ.other).send bytes) }

def new (cfg : Role → Config) : ByteNet := { net := .new cfg }

/-- The step writes no frame that is larger than its length field can say. -/
def Sized (b : ByteNet) : Role × ByteLabel → Prop
  | (ρ, .other l) => b.net.Sized (ρ, l)
  | _ => True

variable {cfg : Role → Config} {b b' : ByteNet} {n : Net} {ρ : Role} {l : Label} {s' : Session}

theorem step_other (hl : ∀ f, l ≠ .recv f) (h : b.step (ρ, .other l) = some b') :
    ∃ s', (b.net.side ρ).step l = some s' ∧
      b' = { net := b.net.set s' ρ,
             link := Function.update b.link ρ.other ((b.link ρ.other).send
               ((Net.wrote (b.net.side ρ) s').flatMap encodeMVCPFrame)) } := by
  cases l with
  | recv f => exact absurd rfl (hl f)
  | _ =>
    simp only [step, Option.bind_eq_bind, Option.bind_eq_some_iff, Option.pure_def,
      Option.some.injEq] at h
    obtain ⟨s', hs', rfl⟩ := h
    exact ⟨s', hs', rfl⟩

end ByteNet

/-! ## The queues after a step -/

namespace Net

variable {n : Net} {ρ : Role} {l : Label} {s' : Session} {f : Frame} {fs : List Frame}

theorem wire_set_self (hin : s'.inbox = (n.side ρ).inbox) : (n.set s' ρ).wire ρ = n.wire ρ := by
  simp [wire, hin]

theorem wire_set_recv (hin : s'.inbox = (n.side ρ).inbox ++ [f]) (hw : n.wire ρ = f :: fs) :
    (n.set s' ρ).wire ρ = fs := by
  have htail : (n.wire ρ).tail = fs := by rw [hw, List.tail_cons]
  rw [← htail]
  simp [wire, hin, ← List.drop_one, List.map_drop, List.drop_drop]

/-- What a session writes is put at the end of the queue to the other side. -/
theorem wire_set_other (h : n.Wired) (hm : Session.Moves (n.side ρ) l s') :
    (n.set s' ρ).wire ρ.other = n.wire ρ.other ++ wrote (n.side ρ) s' := by
  obtain ⟨es, hes⟩ := hm.out
  have hle : (n.side ρ.other).inbox.length ≤ (n.side ρ).out.length := by
    simpa [other_other] using h.length_le ρ.other
  simp [wire, wrote, other_other, ← hes, List.drop_append_of_le_length hle]

theorem wrote_recv (h : (n.side ρ).step (.recv f) = some s') :
    wrote (n.side ρ) s' = [] ∧ s'.inbox = (n.side ρ).inbox ++ [f] := by
  cases Session.moves_of_step h
  simp [wrote]

end Net

namespace ByteNet

variable {cfg : Role → Config} {b b' : ByteNet} {n : Net} {ρ : Role} {l : ByteLabel}

/-! ## The bytes between the sessions -/

/-- **The bytes on their way are the encodings of the frames on their way.** -/
structure Carried (b : ByteNet) : Prop where
  carries : ∀ ρ, (b.link ρ).Carries encodeMVCPFrame (b.net.wire ρ)
  writable : ∀ ρ, ∀ f ∈ b.net.wire ρ, f.Writable

theorem carried_new (cfg : Role → Config) : (new cfg).Carried where
  carries ρ := by
    have hnil : (Net.new cfg).wire ρ = [] := by simp [Net.wire, Net.side_new, Session.new]
    exact hnil ▸ .empty
  writable ρ := by simp [new, Net.wire, Net.side_new, Session.new]

/-- A link is replaced. -/
theorem carries_update {link : Role → Link} {n : Net} {l : Link}
    (hρ : l.Carries encodeMVCPFrame (n.wire ρ))
    (hother : (link ρ.other).Carries encodeMVCPFrame (n.wire ρ.other)) (σ : Role) :
    (Function.update link ρ l σ).Carries encodeMVCPFrame (n.wire σ) := by
  rcases Net.eq_or_eq_other σ ρ with rfl | rfl
  · rwa [Function.update_self]
  · rwa [Function.update_of_ne (Net.other_ne ρ)]

/-- **A step on the byte stream is a step on the queues**, or the arrival of bytes, of which the
sessions see nothing. -/
theorem Carried.step (h : b.Carried) (hw : b.net.Wired) (hok : b.Sized (ρ, l))
    (hs : b.step (ρ, l) = some b') : b'.Carried ∧
      (b'.net = b.net ∨ ∃ m, b.net.Sized (ρ, m) ∧ b.net.step (ρ, m) = some b'.net) := by
  cases l with
  | arrive k =>
    -- bytes arrive, and the sessions do not see them yet
    obtain ⟨l, hl, hb⟩ := Option.bind_eq_some_iff.mp hs
    obtain rfl := Option.some.inj hb
    exact ⟨⟨carries_update ((h.carries ρ).arrive hl) (h.carries _), h.writable⟩, .inl rfl⟩
  | serve =>
    obtain ⟨⟨f, l⟩, ht, hs⟩ := Option.bind_eq_some_iff.mp hs
    obtain ⟨s', hs', hb⟩ := Option.bind_eq_some_iff.mp hs
    obtain rfl := Option.some.inj hb
    -- `ReadMVCPFrame` gets the first frame on the wire, and leaves the bytes of the others
    obtain ⟨fs, hwire, -, hl⟩ := (h.carries ρ).take delimits_mvcp (h.writable ρ) ht
    obtain ⟨hnone, hin⟩ := Net.wrote_recv hs'
    have hself := Net.wire_set_recv hin hwire
    have hother : (b.net.set s' ρ).wire ρ.other = b.net.wire ρ.other := by
      rw [Net.wire_set_other hw (Session.moves_of_step hs'), hnone, List.append_nil]
    refine ⟨⟨carries_update (hself ▸ hl) (hother ▸ h.carries _), fun σ g hg => ?_⟩,
      .inr ⟨.recv f, fun s hs g hg => ?_, ?_⟩⟩
    · rcases Net.eq_or_eq_other σ ρ with rfl | rfl
      · exact h.writable _ g (by rw [hwire]; exact List.mem_cons_of_mem _ (hself ▸ hg))
      · exact h.writable _ g (hother ▸ hg)
    · obtain rfl := Option.some.inj (hs'.symm.trans hs)
      simp [hnone] at hg
    · simp [Net.step, hwire, hs']
  | other l =>
    -- any other step sends the frames that it writes
    have hl : ∀ f, l ≠ .recv f := by
      rintro f rfl
      simp [ByteNet.step] at hs
    obtain ⟨s', hs', rfl⟩ := step_other hl hs
    have hm := Session.moves_of_step hs'
    have hin : s'.inbox = (b.net.side ρ).inbox := by
      rcases hm.inbox.2 with hin | ⟨f, hf, -⟩
      · exact hin
      · exact absurd hf (hl f)
    have hself := Net.wire_set_self hin
    have hother := Net.wire_set_other hw hm
    refine ⟨⟨carries_update (ρ := ρ.other) ?_ ?_, fun σ g hg => ?_⟩, .inr ⟨l, hok, ?_⟩⟩
    · rw [hother]
      exact (h.carries _).send _
    · rw [Net.other_other, hself]
      exact h.carries ρ
    · rcases Net.eq_or_eq_other σ ρ with rfl | rfl
      · exact h.writable _ g (hself ▸ hg)
      · rcases List.mem_append.mp (hother ▸ hg) with hg | hg
        · exact h.writable _ g hg
        · exact hok s' hs' g hg
    · cases l <;> simp_all [Net.step]

/-- **The bytes between the sessions**, in every state reached, and the run on the queues that the
sessions have taken. -/
theorem carried (h : Reaches step Sized (new cfg) b) :
    b.Carried ∧ Reaches Net.step Net.Sized (Net.new cfg) b.net := by
  refine h.invariant (I := fun b => b.Carried ∧ Reaches Net.step Net.Sized (Net.new cfg) b.net)
    ⟨carried_new cfg, .refl⟩ ?_
  rintro b b' ⟨ρ, l⟩ - hok hs ⟨hc, hr⟩
  obtain ⟨hc', heq | ⟨m, hsized, hstep⟩⟩ := hc.step (Net.joined hr).toWired hok hs
  · exact ⟨hc', heq ▸ hr⟩
  · exact ⟨hc', hr.tail hsized hstep⟩

/-! ## The other way -/

/-- All that is on its way to one side arrives. -/
theorem exists_arrived (h : Reaches step Sized (new cfg) b) (ρ : Role) :
    ∃ b', Reaches step Sized (new cfg) b' ∧ b'.net = b.net ∧ (b'.link ρ).transit = [] := by
  by_cases ht : (b.link ρ).transit = []
  · exact ⟨b, h, rfl, ht⟩
  · obtain ⟨l, hl, hnil⟩ := (b.link ρ).exists_arrive ht
    refine ⟨{ b with link := Function.update b.link ρ l },
      h.tail (l := (ρ, .arrive (b.link ρ).transit.length)) trivial ?_, rfl, ?_⟩
    · simp [ByteNet.step, hl]
    · simp [hnil]

/-- A step on the queues can be taken on the byte stream. -/
theorem exists_step {l : Label} (h : Reaches step Sized (new cfg) b) (hok : b.net.Sized (ρ, l))
    (hs : b.net.step (ρ, l) = some n) : ∃ b', Reaches step Sized (new cfg) b' ∧ b'.net = n := by
  obtain ⟨s', hs', rfl, hrecv⟩ := Net.step_cases hs
  cases l with
  | recv f =>
    -- the frame arrives before it is read
    obtain ⟨b₁, h₁, hnet, htransit⟩ := exists_arrived h ρ
    rw [← hnet] at hs' hrecv ⊢
    obtain ⟨fs, hwire⟩ := List.head?_eq_some_iff.mp (hrecv f rfl)
    have hcar := (carried h₁).1.carries ρ
    rw [hwire] at hcar
    have hfits : f.Admissible := by
      simp only [Session.step] at hs'
      split_ifs at hs' with hread
      simp only [Bool.and_eq_true, Session.readable, decide_eq_true_eq] at hread
      exact hread.2
    obtain ⟨l', hl'⟩ := hcar.exists_take delimits_mvcp hfits htransit
    refine ⟨{ net := b₁.net.set s' ρ, link := Function.update b₁.link ρ l' },
      h₁.tail (l := (ρ, .serve)) trivial ?_, rfl⟩
    simp [ByteNet.step, hl', hs']
  | _ =>
    refine ⟨{ net := b.net.set s' ρ,
              link := Function.update b.link ρ.other ((b.link ρ.other).send
                ((Net.wrote (b.net.side ρ) s').flatMap encodeMVCPFrame)) },
      h.tail (l := (ρ, .other _)) hok ?_, rfl⟩
    simp [ByteNet.step, hs']

/-- **The sessions cannot tell a byte stream from a queue of frames.** However the connection cuts
the bytes, the sessions reach exactly the states that they reach when each reads the frames the
other wrote, one by one, as long as no frame is larger than its length field can say. -/
theorem refines (cfg : Role → Config) (n : Net) :
    (∃ b, Reaches step Sized (new cfg) b ∧ b.net = n) ↔
      Reaches Net.step Net.Sized (Net.new cfg) n := by
  constructor
  · rintro ⟨b, h, rfl⟩
    exact (carried h).2
  · intro h
    induction h with
    | refl => exact ⟨new cfg, .refl, rfl⟩
    | @tail m n l _ hok hs ih =>
      obtain ⟨b, hb, rfl⟩ := ih
      exact exists_step hb hok hs

end ByteNet

end Mvcp.App
