import Mvcp.Library.Framing
import Mvcp.Library.Run

/-!
# Links

One direction of a reliable connection, seen from its ends. The writer hands over bytes; they arrive
in segments of any size, and the reader takes frames from what has arrived. The frames that are on
their way determine the bytes of the link, however they are cut: what the reader takes is the next
frame that was written.

## Main definitions

* `Link`: the bytes that have not arrived, and the segments that have
* `Delimits`: the reader takes no frame for another, those too large for it included
* `Link.Carries`: the bytes of the link are the encodings of a list of frames

## Main results

* `Link.Carries.send`, `Link.Carries.arrive`, `Link.Carries.take`: what the steps of a link do to
  the frames it carries
* `Link.Carries.exists_take`: a frame that has arrived can be taken
-/

namespace Library

variable {E F α : Type} {short : List UInt8 → E} {p : Proc E (Except F α)}
  {encode : α → List UInt8} {fits writable : α → Prop}

/-- The process `p` is a framing, no encoding is empty, and `p` takes the encoding of a frame that
may be written for no other frame, even when it does not fit. -/
structure Delimits (short : List UInt8 → E) (p : Proc E (Except F α)) (encode : α → List UInt8)
    (fits writable : α → Prop) : Prop extends Framing short p encode fits where
  ne_nil : ∀ a, encode a ≠ []
  refuses : ∀ a, writable a → ¬fits a → ∀ rest b, (p.run short (encode a ++ rest)).result ≠ .ok b

/-- A frame at the front of encoded frames is the first of them. -/
theorem Delimits.eq_cons (h : Delimits short p encode fits writable) {as : List α} {a : α}
    {rest : List UInt8} (has : ∀ b ∈ as, writable b) (ha : fits a)
    (heq : as.flatMap encode = encode a ++ rest) :
    ∃ as', as = a :: as' ∧ as'.flatMap encode = rest := by
  have hrun := h.run_append a ha rest
  cases as with
  | nil => simp [h.ne_nil a] at heq
  | cons b as =>
    rw [← heq, List.flatMap_cons] at hrun
    by_cases hb : fits b
    · rw [h.run_append b hb] at hrun
      simp only [Proc.Ended.mk.injEq, Except.ok.injEq, true_and] at hrun
      obtain ⟨rfl, hrest⟩ := hrun
      exact ⟨as, rfl, hrest⟩
    · exact absurd (congrArg Proc.Ended.result hrun)
        (h.refuses b (has b List.mem_cons_self) hb _ a)

/-- The bytes that were written and have not arrived, and the segments that have arrived and were
not read. -/
structure Link where
  transit : List UInt8 := []
  arrived : List (List UInt8) := []

namespace Link

/-- The writer hands over bytes. -/
def send (l : Link) (bs : List UInt8) : Link := { l with transit := l.transit ++ bs }

/-- The next `k` bytes arrive. -/
def arrive (l : Link) (k : ℕ) : Option Link :=
  if 0 < k ∧ k ≤ l.transit.length then
    some { transit := l.transit.drop k, arrived := l.arrived ++ [l.transit.take k] }
  else none

/-- The reader takes a frame, if a whole one has arrived. -/
def take (short : List UInt8 → E) (p : Proc E (Except F α)) (l : Link) : Option (α × Link) :=
  match p.runSegments short l.arrived with
  | ⟨.ok a, _, rest⟩ => some (a, { l with arrived := [rest] })
  | _ => none

/-- The bytes of the link are the encodings of the frames. -/
def Carries (encode : α → List UInt8) (as : List α) (l : Link) : Prop :=
  l.arrived.flatten ++ l.transit = as.flatMap encode

namespace Carries

variable {as bs : List α} {a : α} {l l' : Link} {k : ℕ}

theorem empty : Carries encode [] {} := rfl

theorem send (h : Carries encode as l) (bs : List α) :
    Carries encode (as ++ bs) (l.send (bs.flatMap encode)) := by
  unfold Carries at h ⊢
  rw [Link.send, ← List.append_assoc, h, List.flatMap_append]

theorem arrive (h : Carries encode as l) (hl : l.arrive k = some l') : Carries encode as l' := by
  unfold Link.arrive at hl
  split_ifs at hl
  obtain rfl := Option.some.inj hl
  unfold Carries at h ⊢
  simpa using h

/-- **What the reader takes is the next frame that was written.** -/
theorem take (h : Carries encode as l) (hd : Delimits short p encode fits writable)
    (has : ∀ b ∈ as, writable b) (ht : l.take short p = some (a, l')) :
    ∃ as', as = a :: as' ∧ fits a ∧ Carries encode as' l' := by
  unfold Link.take at ht
  split at ht
  · next b written rest hrun =>
    simp only [Option.some.injEq, Prod.mk.injEq] at ht
    obtain ⟨rfl, rfl⟩ := ht
    rw [Proc.runSegments_eq] at hrun
    obtain ⟨hfits, hflat, -⟩ := hd.eq_of_run _ _ _ _ hrun
    -- what has not arrived yet follows what the reader left
    have hbytes : as.flatMap encode = encode b ++ (rest ++ l.transit) := by
      rw [← h, hflat, List.append_assoc]
    obtain ⟨as', rfl, hrest⟩ := hd.eq_cons has hfits hbytes
    exact ⟨as', rfl, hfits, by simpa [Carries] using hrest.symm⟩
  · simp at ht

/-- **A frame that has arrived can be taken.** -/
theorem exists_take (h : Carries encode (a :: as) l) (hd : Delimits short p encode fits writable)
    (ha : fits a) (ht : l.transit = []) : ∃ l', l.take short p = some (a, l') := by
  have hflat : l.arrived.flatten = encode a ++ as.flatMap encode := by
    simpa [Carries, ht] using h
  refine ⟨{ l with arrived := [as.flatMap encode] }, ?_⟩
  rw [Link.take, Proc.runSegments_eq, hflat, hd.run_append a ha]

end Carries

/-- All that was written arrives. -/
theorem exists_arrive (l : Link) (h : l.transit ≠ []) :
    ∃ l', l.arrive l.transit.length = some l' ∧ l'.transit = [] := by
  refine ⟨_, if_pos ⟨List.length_pos_iff.mpr h, Nat.le_refl _⟩, ?_⟩
  simp

end Link

end Library
