import Mvcp.Library.Process

/-!
# Framed streams

A connection hands its bytes over in segments of any size: one read returns a part of the next
segment, and a full read repeats until it has its bytes or the segments end. A process does not
see where the segments were cut. A framing is a reader that takes exactly the encoding of a frame
from the front of the stream; a framing that is repeated takes exactly a list of frames.

## Main definitions

* `fill n segs`: a full read of `n` symbols from segments
* `Proc.runSegments short p segs`: the process alone, on segmented input
* `Proc.times p k`: the process `p`, `k` times, until it fails
* `Proc.before q p k`: the process `q`, and then `p`, `k` times
* `Framing short p encode fits`: `p` reads the encodings of the frames that fit, and no others

## Main results

* `Proc.runSegments_eq`: a process runs on segments as on their concatenation
* `Framing.run_times_append`: a list of frames is read back from its concatenated encodings
* `Framing.eq_of_run_times`: what `k` reads consumed is the concatenated encodings of the results
* `Framing.run_before_eq_ok_iff`: frames that follow something else are read where that ends
-/

namespace Library

/-! ## Segments -/

/-- A full read of `n` symbols: it takes the next segment, or as much of it as is missing, until
it has `n` symbols or no segment is left. A full read of nothing does not read. -/
def fill {β : Type} : ℕ → List (List β) → List β × List (List β)
  | 0, segs => ([], segs)
  | _ + 1, [] => ([], [])
  | n + 1, seg :: segs =>
    if n + 1 < seg.length then (seg.take (n + 1), seg.drop (n + 1) :: segs)
    else
      let (got, rest) := fill (n + 1 - seg.length) segs
      (seg ++ got, rest)

/-- A full read takes the first symbols of the concatenation and leaves the others. -/
theorem fill_flatten {β : Type} (n : ℕ) (segs : List (List β)) :
    (fill n segs).1 = segs.flatten.take n ∧ (fill n segs).2.flatten = segs.flatten.drop n := by
  induction segs generalizing n with
  | nil => cases n <;> simp [fill]
  | cons seg segs ih =>
    cases n with
    | zero => simp [fill]
    | succ n =>
      simp only [fill, List.flatten_cons]
      split_ifs with h
      · rw [List.take_append_of_le_length (Nat.le_of_lt h),
          List.drop_append_of_le_length (Nat.le_of_lt h)]
        simp
      · obtain ⟨hgot, hrest⟩ := ih (n + 1 - seg.length)
        have hle : seg.length ≤ n + 1 := Nat.not_lt.mp h
        simp only [hgot, hrest, List.take_append, List.drop_append,
          List.take_of_length_le hle, List.drop_of_length_le hle, List.nil_append, and_self]

namespace Proc

variable {E F α : Type} {short : List UInt8 → E}

/-- The process alone, on input that arrives in segments. Reads are full reads. -/
def runSegments (short : List UInt8 → E) : Proc E α → List (List UInt8) → Ended α
  | done a, segs => ⟨a, [], segs.flatten⟩
  | write bs next, segs =>
    let e := runSegments short (next (.ok ())) segs
    { e with written := bs ++ e.written }
  | read n next, segs =>
    let (got, rest) := fill n segs
    if got.length = n then runSegments short (next (.ok got)) rest
    else runSegments short (next (.error (short got))) rest

/-- **A process does not see where its input was cut.** -/
theorem runSegments_eq (p : Proc E α) (segs : List (List UInt8)) :
    p.runSegments short segs = p.run short segs.flatten := by
  induction p generalizing segs with
  | done a => rfl
  | write bs next ih => simp only [runSegments, run, ih]
  | read n next ih =>
    obtain ⟨hgot, hrest⟩ := fill_flatten n segs
    simp only [runSegments, run, ih, hgot, hrest, List.length_take]
    by_cases hn : n ≤ segs.flatten.length
    · rw [if_pos (by omega), if_pos hn]
    · -- the segments end within the read: it took what there was
      have hle : segs.flatten.length ≤ n := Nat.le_of_lt (Nat.not_le.mp hn)
      rw [if_neg (by omega), if_neg hn, List.take_of_length_le hle, List.drop_of_length_le hle]

/-- The process `p`, `k` times, until it fails. -/
def times (p : Proc E (Except F α)) : ℕ → Proc E (Except F (List α))
  | 0 => pure (.ok [])
  | k + 1 => do
    match ← p with
    | .error e => return .error e
    | .ok a =>
      match ← p.times k with
      | .error e => return .error e
      | .ok as => return .ok (a :: as)

/-- The process `q`, and then `p`, `k` times, if `q` succeeds. -/
def before {G β : Type} (q : Proc E (Except G β)) (p : Proc E (Except F α)) (k : ℕ) :
    Proc E (Except G β × Except F (List α)) := do
  match ← q with
  | .error e => return (.error e, .ok [])
  | .ok b =>
    let as ← p.times k
    return (.ok b, as)

end Proc

/-! ## Framings -/

/-- The process `p` reads one frame: from the encoding of a frame that fits it returns the frame
and leaves what follows, and whatever it returns was encoded so. -/
structure Framing {E F α : Type} (short : List UInt8 → E) (p : Proc E (Except F α))
    (encode : α → List UInt8) (fits : α → Prop) : Prop where
  run_append : ∀ a, fits a → ∀ rest, p.run short (encode a ++ rest) = ⟨.ok a, [], rest⟩
  eq_of_run : ∀ input a written rest, p.run short input = ⟨.ok a, written, rest⟩ →
    fits a ∧ input = encode a ++ rest ∧ written = []

namespace Framing

variable {E F α : Type} {short : List UInt8 → E} {p : Proc E (Except F α)}
  {encode : α → List UInt8} {fits : α → Prop}

/-- A list of frames is read back from its concatenated encodings. -/
theorem run_times_append (h : Framing short p encode fits) {as : List α} (has : ∀ a ∈ as, fits a)
    (rest : List UInt8) :
    (p.times as.length).run short (as.flatMap encode ++ rest) = ⟨.ok as, [], rest⟩ := by
  induction as with
  | nil => rfl
  | cons a as ih =>
    have ha := h.run_append a (has a List.mem_cons_self) (as.flatMap encode ++ rest)
    have has' := ih fun b hb => has b (List.mem_cons_of_mem _ hb)
    simp only [List.length_cons, Proc.times, List.flatMap_cons, List.append_assoc, Proc.run_bind,
      ha, has', Proc.run_pure, List.append_nil]

/-- What `k` reads consumed is the concatenated encodings of what they returned. -/
theorem eq_of_run_times (h : Framing short p encode fits) {k : ℕ} {input written rest : List UInt8}
    {as : List α} (hrun : (p.times k).run short input = ⟨.ok as, written, rest⟩) :
    as.length = k ∧ (∀ a ∈ as, fits a) ∧ input = as.flatMap encode ++ rest ∧ written = [] := by
  induction k generalizing input written as with
  | zero =>
    simp only [Proc.times, Proc.run_pure, Proc.Ended.mk.injEq, Except.ok.injEq] at hrun
    obtain ⟨rfl, rfl, rfl⟩ := hrun
    simp
  | succ k ih =>
    simp only [Proc.times, Proc.run_bind] at hrun
    rcases hp : p.run short input with ⟨_ | a, w, rest₁⟩
    · simp [hp] at hrun
    rcases hk : (p.times k).run short rest₁ with ⟨_ | as', w', rest₂⟩
    · simp [hp, hk] at hrun
    · simp only [hp, hk, Proc.run_bind, Proc.run_pure, List.append_nil, Proc.Ended.mk.injEq,
        Except.ok.injEq] at hrun
      obtain ⟨rfl, rfl, rfl⟩ := hrun
      obtain ⟨hfit, rfl, rfl⟩ := h.eq_of_run _ _ _ _ hp
      obtain ⟨rfl, hfits, rfl, rfl⟩ := ih hk
      refine ⟨rfl, ?_, by simp, rfl⟩
      rintro b (_ | ⟨_, hb⟩)
      · exact hfit
      · exact hfits b hb

/-- **Frames behind a first part.** The frames are read where the first part ends. -/
theorem run_before_eq_ok_iff {G β : Type} {q : Proc E (Except G β)} {b : β} {as : List α} {k : ℕ}
    {input written rest : List UInt8} (h : Framing short p encode fits) :
    (q.before p k).run short input = ⟨(.ok b, .ok as), written, rest⟩ ↔
      q.run short input = ⟨.ok b, written, as.flatMap encode ++ rest⟩ ∧ as.length = k ∧
        ∀ a ∈ as, fits a := by
  constructor
  · intro hrun
    simp only [Proc.before, Proc.run_bind] at hrun
    rcases hq : q.run short input with ⟨e | b', w, unread⟩
    · simp [hq] at hrun
    rcases hk : (p.times k).run short unread with ⟨e | as', w', rest'⟩
    · simp [hq, hk] at hrun
    obtain ⟨hlen, hfits, hunread, rfl⟩ := h.eq_of_run_times hk
    obtain ⟨⟨rfl, rfl⟩, rfl, rfl⟩ : (b' = b ∧ as' = as) ∧ w = written ∧ rest' = rest := by
      simpa [hq, hk] using hrun
    exact ⟨by rw [hunread], hlen, hfits⟩
  · rintro ⟨hq, rfl, hfits⟩
    simp [Proc.before, hq, h.run_times_append hfits rest]

end Framing

end Library
