import Mvcp.Library.Run

/-!
# Sequential processes on a byte connection

A process writes bytes, reads a fixed number of bytes, and ends with a result. It is told the
outcome of each operation, and decides itself what a failure means. Alone, a process runs on the
bytes that will arrive; two processes run against each other over a reliable FIFO connection,
their operations interleaved in any order, and an operation may fail at any time.

## Main definitions

* `Proc E α`: a process with operation errors `E` and results `α`
* `Proc.run short p input`: the process alone, on `input` and then the end of the stream
* `Proc.Ends bad p`, `Proc.Aborts bad p`: every result is bad, and every result after a failed
  operation is
* `Duplex`: two processes joined by a connection, with `Duplex.step`

## Main results

* `Proc.run_bind`: a sequence of two processes runs one after the other
* `Duplex.ended`: a party whose result is not bad has run as it would alone on the bytes it took,
  and these are the first bytes the other party wrote
-/

namespace Library

/-- A sequential process on a byte connection. -/
inductive Proc (E α : Type)
  | done (a : α)
  | write (bs : List UInt8) (next : Except E Unit → Proc E α)
  | read (n : ℕ) (next : Except E (List UInt8) → Proc E α)

namespace Proc

variable {E α β : Type}

/-- The process `p`, then the process its result selects. -/
def bind : Proc E α → (α → Proc E β) → Proc E β
  | done a, f => f a
  | write bs next, f => .write bs fun r => (next r).bind f
  | read n next, f => .read n fun r => (next r).bind f

instance : Monad (Proc E) where
  pure := .done
  bind := .bind

/-- How a process ended: its result, the bytes it wrote, and the bytes it left unread. -/
structure Ended (α : Type) where
  result : α
  written : List UInt8
  unread : List UInt8

/-- The process alone. A read takes the next bytes of `input`; when too few are left it takes
them all and fails with the error `short` gives. Writes succeed. -/
def run (short : List UInt8 → E) : Proc E α → List UInt8 → Ended α
  | done a, input => ⟨a, [], input⟩
  | write bs next, input =>
    let e := run short (next (.ok ())) input
    { e with written := bs ++ e.written }
  | read n next, input =>
    if n ≤ input.length then run short (next (.ok (input.take n))) (input.drop n)
    else run short (next (.error (short input))) []

/-- The result, once there is one. -/
def result? : Proc E α → Option α
  | done a => some a
  | write _ _ | read _ _ => none

theorem result?_eq_some {p : Proc E α} {a : α} : p.result? = some a ↔ p = .done a := by
  cases p <;> simp [result?]

variable {short : List UInt8 → E}

@[simp] theorem run_pure (a : α) (input : List UInt8) :
    run short (pure a) input = ⟨a, [], input⟩ := rfl

/-- A sequence of two processes runs one after the other. -/
@[simp] theorem run_bind (p : Proc E α) (f : α → Proc E β) (input : List UInt8) :
    run short (p >>= f) input =
      let e := run short p input
      let e' := run short (f e.result) e.unread
      { e' with written := e.written ++ e'.written } := by
  show run short (p.bind f) input = _
  induction p generalizing input with
  | done a => rfl
  | write bs next ih =>
    simp only [bind, run]
    rw [ih]
    simp
  | read n next ih =>
    simp only [bind, run]
    split_ifs
    · exact ih _ _
    · exact ih _ _

/-! ## Failed operations -/

/-- Every result of the process is bad. -/
def Ends (bad : α → Prop) : Proc E α → Prop
  | done a => bad a
  | write _ next => ∀ r, (next r).Ends bad
  | read _ next => ∀ r, (next r).Ends bad

/-- After a failed operation, every result of the process is bad. -/
def Aborts (bad : α → Prop) : Proc E α → Prop
  | done _ => True
  | write _ next => (∀ e, (next (.error e)).Ends bad) ∧ (next (.ok ())).Aborts bad
  | read _ next => (∀ e, (next (.error e)).Ends bad) ∧ ∀ bs, (next (.ok bs)).Aborts bad

variable {bad : α → Prop} {bad' : β → Prop} {p : Proc E α} {f : α → Proc E β}

theorem Ends.aborts (h : p.Ends bad) : p.Aborts bad := by
  induction p with
  | done a => trivial
  | write bs next ih => exact ⟨fun e => h (.error e), ih _ (h _)⟩
  | read n next ih => exact ⟨fun e => h (.error e), fun bs => ih _ (h _)⟩

theorem Ends.bind (h : p.Ends bad) (hf : ∀ a, bad a → (f a).Ends bad') :
    (p >>= f).Ends bad' := by
  show (p.bind f).Ends bad'
  induction p with
  | done a => exact hf a h
  | write bs next ih => exact fun r => ih r (h r)
  | read n next ih => exact fun r => ih r (h r)

/-- A sequence ends badly when its second part does, whatever the first part returns. -/
theorem ends_bind (hf : ∀ a, (f a).Ends bad') : (p >>= f).Ends bad' := by
  show (p.bind f).Ends bad'
  induction p with
  | done a => exact hf a
  | write bs next ih => exact fun r => ih r
  | read n next ih => exact fun r => ih r

theorem Aborts.bind (h : p.Aborts bad) (hf : ∀ a, bad a → (f a).Ends bad')
    (hf' : ∀ a, (f a).Aborts bad') : (p >>= f).Aborts bad' := by
  show (p.bind f).Aborts bad'
  induction p with
  | done a => exact hf' a
  | write bs next ih => exact ⟨fun e => (h.1 e).bind hf, ih _ h.2⟩
  | read n next ih => exact ⟨fun e => (h.1 e).bind hf, fun bs => ih _ (h.2 bs)⟩

end Proc

/-! ## Two processes over a connection -/

/-- One party: the rest of its process, and the bytes it has read and written so far. -/
structure Party (E α : Type) where
  proc : Proc E α
  taken : List UInt8 := []
  written : List UInt8 := []

/-- What happens to the pending operation of a party. -/
inductive Event (E : Type)
  | go
  /-- The operation fails after `j` bytes. -/
  | fail (e : E) (j : ℕ)

namespace Party

variable {E α : Type}

/-- The next bytes for a party to read, `wire` being all that the other party has written. -/
def ahead (x : Party E α) (wire : List UInt8) : List UInt8 := wire.drop x.taken.length

/-- One operation of a party. A read waits until its bytes have been written. -/
def step (x : Party E α) (wire : List UInt8) : Event E → Option (Party E α)
  | .go =>
    match x.proc with
    | .done _ => none
    | .write bs next => some { x with proc := next (.ok ()), written := x.written ++ bs }
    | .read n next =>
      if n ≤ (x.ahead wire).length then
        some { x with
          proc := next (.ok ((x.ahead wire).take n))
          taken := x.taken ++ (x.ahead wire).take n }
      else none
  | .fail e j =>
    match x.proc with
    | .done _ => none
    | .write bs next =>
      some { x with proc := next (.error e), written := x.written ++ bs.take j }
    | .read _ next =>
      some { x with proc := next (.error e), taken := x.taken ++ (x.ahead wire).take j }

/-- A party that started as `p`: it is doomed to a bad result, or it has run as `p` does alone on
the bytes it took. -/
def Tracks (short : List UInt8 → E) (bad : α → Prop) (p : Proc E α) (x : Party E α) : Prop :=
  x.proc.Ends bad ∨ x.proc.Aborts bad ∧ ∀ input, p.run short (x.taken ++ input) =
    { x.proc.run short input with written := x.written ++ (x.proc.run short input).written }

variable {short : List UInt8 → E} {bad : α → Prop} {p : Proc E α} {x x' : Party E α}
  {wire : List UInt8} {ev : Event E}

theorem tracks_start (h : p.Aborts bad) : Tracks short bad p { proc := p } := .inr ⟨h, by simp⟩

/-- What a party reads is what the other has written. -/
theorem taken_prefix (hs : x.step wire ev = some x') (h : x.taken <+: wire) :
    x'.taken <+: wire := by
  have hnext (j : ℕ) : x.taken ++ (x.ahead wire).take j <+: wire := by
    obtain ⟨rest, rfl⟩ := h
    simpa [ahead] using List.take_prefix j rest
  cases ev with
  | go =>
    simp only [step] at hs
    split at hs
    · simp at hs
    · obtain rfl := Option.some.inj hs
      exact h
    · split_ifs at hs
      obtain rfl := Option.some.inj hs
      exact hnext _
  | fail e j =>
    simp only [step] at hs
    split at hs
    · simp at hs
    · obtain rfl := Option.some.inj hs
      exact h
    · obtain rfl := Option.some.inj hs
      exact hnext j

theorem written_prefix (hs : x.step wire ev = some x') : x.written <+: x'.written := by
  cases ev with
  | go =>
    simp only [step] at hs
    split at hs
    · simp at hs
    · obtain rfl := Option.some.inj hs
      exact List.prefix_append _ _
    · split_ifs at hs
      obtain rfl := Option.some.inj hs
      exact List.prefix_rfl
  | fail e j =>
    simp only [step] at hs
    split at hs
    · simp at hs
    · obtain rfl := Option.some.inj hs
      exact List.prefix_append _ _
    · obtain rfl := Option.some.inj hs
      exact List.prefix_rfl

/-- **Every operation keeps a party on its track.** -/
theorem Tracks.step (h : x.Tracks short bad p) (hs : x.step wire ev = some x') :
    x'.Tracks short bad p := by
  cases ev with
  | go =>
    simp only [Party.step] at hs
    split at hs
    · simp at hs
    · next bs next hp =>
      obtain rfl := Option.some.inj hs
      rcases h with h | ⟨h, hrun⟩
      · rw [hp] at h
        exact .inl (h _)
      · rw [hp] at h
        refine .inr ⟨h.2, fun input => ?_⟩
        simp [hrun input, hp, Proc.run]
    · next n next hp =>
      split_ifs at hs with hn
      obtain rfl := Option.some.inj hs
      rcases h with h | ⟨h, hrun⟩
      · rw [hp] at h
        exact .inl (h _)
      · rw [hp] at h
        refine .inr ⟨h.2 _, fun input => ?_⟩
        -- alone, the process reads the same bytes and leaves `input`
        have hlen : ((x.ahead wire).take n).length = n := List.length_take_of_le hn
        have hread : (Proc.read n next).run short ((x.ahead wire).take n ++ input) =
            (next (.ok ((x.ahead wire).take n))).run short input := by
          rw [Proc.run, if_pos (by simp [hlen]), List.take_left' hlen, List.drop_left' hlen]
        rw [List.append_assoc, hrun, hp, hread]
  | fail e j =>
    simp only [Party.step] at hs
    split at hs
    · simp at hs
    · next bs next hp =>
      obtain rfl := Option.some.inj hs
      rcases h with h | ⟨h, -⟩
      · rw [hp] at h
        exact .inl (h _)
      · rw [hp] at h
        exact .inl (h.1 e)
    · next n next hp =>
      obtain rfl := Option.some.inj hs
      rcases h with h | ⟨h, -⟩
      · rw [hp] at h
        exact .inl (h _)
      · rw [hp] at h
        exact .inl (h.1 e)

/-- A party that ended well ran as it would alone. -/
theorem Tracks.run_eq {a : α} (h : x.Tracks short bad p) (hp : x.proc = .done a) (ha : ¬ bad a) :
    p.run short x.taken = ⟨a, x.written, []⟩ := by
  rcases h with h | ⟨-, hrun⟩
  · rw [hp] at h
    exact absurd h ha
  · have := hrun []
    simpa [hp, Proc.run] using this

end Party

/-- Two parties joined by a connection. -/
structure Duplex (E α : Type) where
  left : Party E α
  right : Party E α

namespace Duplex

variable {E α : Type}

/-- An operation of the left party (`true`) or of the right one. -/
def step (d : Duplex E α) : Bool × Event E → Option (Duplex E α)
  | (true, ev) => (d.left.step d.right.written ev).map fun x => { d with left := x }
  | (false, ev) => (d.right.step d.left.written ev).map fun x => { d with right := x }

/-- Two processes before their first operation. -/
def start (p q : Proc E α) : Duplex E α := ⟨{ proc := p }, { proc := q }⟩

/-- Both parties are on their tracks, and each has taken the first bytes the other wrote. -/
structure Joined (short : List UInt8 → E) (bad : α → Prop) (p q : Proc E α) (d : Duplex E α) :
    Prop where
  left : d.left.Tracks short bad p
  right : d.right.Tracks short bad q
  toLeft : d.left.taken <+: d.right.written
  toRight : d.right.taken <+: d.left.written

variable {short : List UInt8 → E} {bad : α → Prop} {p q : Proc E α} {d d' : Duplex E α}

theorem joined_start (hp : p.Aborts bad) (hq : q.Aborts bad) :
    Joined short bad p q (start p q) :=
  ⟨Party.tracks_start hp, Party.tracks_start hq, List.prefix_rfl, List.prefix_rfl⟩

theorem Joined.step {l : Bool × Event E} (h : Joined short bad p q d) (hs : d.step l = some d') :
    Joined short bad p q d' := by
  obtain ⟨side, ev⟩ := l
  cases side with
  | true =>
    obtain ⟨x, hx, rfl⟩ := Option.map_eq_some_iff.mp hs
    exact ⟨h.left.step hx, h.right, Party.taken_prefix hx h.toLeft,
      h.toRight.trans (Party.written_prefix hx)⟩
  | false =>
    obtain ⟨x, hx, rfl⟩ := Option.map_eq_some_iff.mp hs
    exact ⟨h.left, h.right.step hx, h.toLeft.trans (Party.written_prefix hx),
      Party.taken_prefix hx h.toRight⟩

/-- **Two processes that end well.** However their operations were interleaved, each ran as it
would alone on the bytes it took, which are the first bytes the other wrote. -/
theorem ended (short : List UInt8 → E) {ok : Duplex E α → Bool × Event E → Prop}
    (hp : p.Aborts bad) (hq : q.Aborts bad) (h : Reaches step ok (start p q) d) {a b : α}
    (ha : d.left.proc = .done a) (hna : ¬ bad a) (hb : d.right.proc = .done b) (hnb : ¬ bad b) :
    p.run short d.left.taken = ⟨a, d.left.written, []⟩ ∧
      q.run short d.right.taken = ⟨b, d.right.written, []⟩ ∧
      d.left.taken <+: d.right.written ∧ d.right.taken <+: d.left.written := by
  have hj : Joined short bad p q d :=
    h.invariant (joined_start hp hq) fun _ _ _ _ _ hs hj => hj.step hs
  exact ⟨hj.left.run_eq ha hna, hj.right.run_eq hb hnb, hj.toLeft, hj.toRight⟩

end Duplex

end Library
