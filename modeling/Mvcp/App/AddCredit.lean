import Mvcp.App.Session

/-!
# The credit of one message

`addCredit` compares the sum of two `uint32` values with the cap after it wrapped. The message is
handled by the goroutine that read it: one critical section when the credit is added, and when it
is not, the write of the `APP_RESET` and the critical section that resets the stream. What the
goroutine makes of the message is exact as long as the sum does not wrap to a value within the cap.

## Main definitions

* `Session.alone`: a goroutine takes some steps in a row
* `Session.AddsExactly`: the goroutine adds the credit, or resets the stream, as the sum of the two
  numbers demands

## Main results

* `Session.addsExactly_iff`: when it does
-/

namespace Mvcp.App

open Library (Always run advance advance_getElem?_self exists_reaches_of_run)

namespace Session

variable {s : Session} {i : ℕ} {r : Ref} {st : Stream} {rest : List Task} {n : ℕ}

/-- Goroutine `i` takes `k` steps in a row. -/
def alone (s : Session) (i k : ℕ) : Option Session :=
  run step Always (List.replicate k (.run i .go)) s

/-- Goroutine `i` handles an `APP_CREDIT` of `n` bytes on the stream `st` as the sum of its credit
and `n` demands. -/
structure AddsExactly (s : Session) (i : ℕ) (r : Ref) (st : Stream) (n : ℕ) (rest : List Task) :
    Prop where
  /-- Within the cap the credit is the sum, and the goroutine goes on. -/
  within : st.sndCredit + n ≤ appMaxCredit → ∃ s', s.alone i 1 = some s' ∧
    s'.threads[i]? = some rest ∧
    ∃ st', s'.heap[r]? = some st' ∧ st'.sndCredit = st.sndCredit + n ∧ st'.reset = false
  /-- Beyond the cap the stream is reset, and the peer is told. -/
  beyond : appMaxCredit < st.sndCredit + n → s.connUp = true → ∃ s', s.alone i 3 = some s' ∧
    s'.out = s.out ++ [⟨some r, .app (.appReset st.id errorCodeAppProtocolError
      (text "credit cap exceeded"))⟩] ∧
    ∃ st', s'.heap[r]? = some st' ∧ st'.reset = true ∧ st'.resetErr = some .creditCap
  /-- When the peer cannot be told, the session fails before the stream is reset. -/
  lost : appMaxCredit < st.sndCredit + n → s.connUp = false → ∃ s', s.alone i 2 = some s' ∧
    s'.threads[i]? = some (.fail (some r) :: .sect r (.setReset .creditCap) :: rest)
  /-- No credit is taken away. -/
  kept : ∀ s' st', s.alone i 1 = some s' → s'.heap[r]? = some st' → st.sndCredit ≤ st'.sndCredit

theorem alone_succ (k : ℕ) : s.alone i (k + 1) = (s.step (.run i .go)).bind fun s' =>
    s'.alone i k := by
  simp [alone, List.replicate_succ, run, Always]

theorem alone_one : s.alone i 1 = s.step (.run i .go) := by
  rw [alone_succ]
  cases s.step (.run i .go) <;> rfl

/-! ## The steps of a goroutine -/

/-- The session after goroutine `i` entered a critical section with the outcome `o`. -/
def entered (s : Session) (i : ℕ) (r : Ref) (o : Outcome) (rest : List Task) : Session :=
  { s with heap := s.heap.set r o.st, buffered := s.buffered + o.reserve, log := s.log ++ o.log,
           threads := advance s.threads i (o.push ++ rest) [] }

section Entered

variable {t : Task} {o : Outcome}

theorem entered_threads (hi : s.threads[i]? = some (t :: rest)) :
    (s.entered i r o rest).threads[i]? = some (o.push ++ rest) :=
  advance_getElem?_self (List.getElem?_eq_some_iff.mp hi).1

theorem entered_heap (hst : s.heap[r]? = some st) :
    (s.entered i r o rest).heap[r]? = some o.st :=
  List.getElem?_set_self (List.getElem?_eq_some_iff.mp hst).1

theorem step_sect {x : Section} (hi : s.threads[i]? = some (.sect r x :: rest))
    (hst : s.heap[r]? = some st) (ho : st.enter r s.cfg.observer s.buffered x = some o) :
    s.step (.run i .go) = some (s.entered i r o rest) := by
  simp [step, hi, exec, enter, hst, ho, entered]

end Entered

section Reset

variable {cause : Cause} (hi : s.threads[i]? = some (.emit r (.reset cause) :: rest))
  (hst : s.heap[r]? = some st)

include hi hst

/-- The write of an `APP_RESET`, which always marshals. -/
theorem step_emit_reset (hup : s.connUp = true) :
    ∃ s', s.step (.run i .go) = some s' ∧
      s'.out = s.out ++ [⟨some r, .app (Emission.message st (.reset cause))⟩] ∧
      s'.heap[r]? = some st ∧ s'.threads[i]? = some (.sect r (.setReset cause) :: rest) := by
  refine ⟨{ s with out := s.out ++ [⟨some r, .app (Emission.message st (.reset cause))⟩],
                   threads := advance s.threads i (.sect r (.setReset cause) :: rest) [] },
    ?_, rfl, hst, advance_getElem?_self (List.getElem?_eq_some_iff.mp hi).1⟩
  simp [step, hi, exec, hst, sendApp, hup, Emission.message, AppMessage.marshalBinary,
    Emission.sent, Except.isOk, Except.toBool]

/-- The write of an `APP_RESET` fails: the session does, and the stream is reset after that. -/
theorem step_emit_reset_lost (hup : s.connUp = false) :
    ∃ s', s.step (.run i .go) = some s' ∧
      s'.threads[i]? = some (.fail (some r) :: .sect r (.setReset cause) :: rest) := by
  refine ⟨{ s with lost := s.lost ++ [⟨some r, .app (Emission.message st (.reset cause))⟩],
                   threads := advance s.threads i
                     (.fail (some r) :: .sect r (.setReset cause) :: rest) [] },
    ?_, advance_getElem?_self (List.getElem?_eq_some_iff.mp hi).1⟩
  simp [step, hi, exec, hst, sendApp, hup, Emission.message, Emission.failed]

end Reset

/-- The section that resets a stream. -/
theorem step_setReset {cause : Cause}
    (hi : s.threads[i]? = some (.sect r (.setReset cause) :: rest))
    (hst : s.heap[r]? = some st) (hr : st.reset = false) :
    ∃ s', s.step (.run i .go) = some s' ∧ s'.out = s.out ∧
      ∃ st', s'.heap[r]? = some st' ∧ st'.reset = true ∧ st'.resetErr = some cause := by
  have ho : st.enter r s.cfg.observer s.buffered (.setReset cause) = some _ :=
    congrArg some (if_neg (by simp [hr]))
  exact ⟨_, step_sect hi hst ho, rfl, _, entered_heap hst, rfl, rfl⟩

/-! ## The section of `addCredit` -/

theorem addCredit_added (hn : 0 < n) (hr : st.reset = false)
    (h : add32 st.sndCredit n ≤ appMaxCredit) :
    st.addCredit r n =
      { st := { st with sndCredit := add32 st.sndCredit n, cond := st.cond.broadcast } } := by
  simp [Stream.addCredit, hn.ne', hr, Nat.not_lt.mpr h]

theorem addCredit_refused (hn : 0 < n) (hr : st.reset = false)
    (h : appMaxCredit < add32 st.sndCredit n) :
    st.addCredit r n = { st, push := [.emit r (.reset .creditCap)] } := by
  simp [Stream.addCredit, hn.ne', hr, h, Stream.refuse]

section Message

variable (hi : s.threads[i]? = some (.sect r (.addCredit n) :: rest))
  (hst : s.heap[r]? = some st) (hr : st.reset = false) (hn : 0 < n)

include hi hst hr hn

/-- The goroutine after the section that added the credit. -/
theorem alone_added (h : add32 st.sndCredit n ≤ appMaxCredit) :
    ∃ s', s.alone i 1 = some s' ∧ s'.threads[i]? = some rest ∧ ∃ st', s'.heap[r]? = some st' ∧
      st'.sndCredit = add32 st.sndCredit n ∧ st'.reset = false := by
  have ho : st.enter r s.cfg.observer s.buffered (.addCredit n) = _ :=
    congrArg some (addCredit_added hn hr h)
  exact ⟨_, alone_one.trans (step_sect hi hst ho), entered_threads hi, _, entered_heap hst, rfl, hr⟩

/-- The goroutine after the section that refused the credit: the write of the `APP_RESET` is
next. -/
theorem step_refused (h : appMaxCredit < add32 st.sndCredit n) :
    ∃ s', s.step (.run i .go) = some s' ∧ s'.connUp = s.connUp ∧ s'.out = s.out ∧
      s'.heap[r]? = some st ∧ s'.threads[i]? = some (.emit r (.reset .creditCap) :: rest) := by
  have ho : st.enter r s.cfg.observer s.buffered (.addCredit n) = _ :=
    congrArg some (addCredit_refused hn hr h)
  exact ⟨_, step_sect hi hst ho, rfl, rfl, entered_heap hst, entered_threads hi⟩

/-- The goroutine resets the stream, when the peer could be told. -/
theorem alone_refused (h : appMaxCredit < add32 st.sndCredit n) (hup : s.connUp = true) :
    ∃ s', s.alone i 3 = some s' ∧
      s'.out = s.out ++ [⟨some r, .app (.appReset st.id errorCodeAppProtocolError
        (text "credit cap exceeded"))⟩] ∧
      ∃ st', s'.heap[r]? = some st' ∧ st'.reset = true ∧ st'.resetErr = some .creditCap := by
  obtain ⟨s₁, hstep₁, hup₁, hout₁, hst₁, hi₁⟩ := step_refused hi hst hr hn h
  obtain ⟨s₂, hstep₂, hout₂, hst₂, hi₂⟩ := step_emit_reset hi₁ hst₁ (hup₁.trans hup)
  obtain ⟨s₃, hstep₃, hout₃, st', hst', hreset⟩ := step_setReset hi₂ hst₂ hr
  refine ⟨s₃, ?_, ?_, st', hst', hreset⟩
  · rw [alone_succ, hstep₁, Option.bind_some, alone_succ, hstep₂, Option.bind_some, alone_one,
      hstep₃]
  · rw [hout₃, hout₂, hout₁]
    rfl

theorem alone_lost (h : appMaxCredit < add32 st.sndCredit n) (hup : s.connUp = false) :
    ∃ s', s.alone i 2 = some s' ∧
      s'.threads[i]? = some (.fail (some r) :: .sect r (.setReset .creditCap) :: rest) := by
  obtain ⟨s₁, hstep₁, hup₁, -, hst₁, hi₁⟩ := step_refused hi hst hr hn h
  obtain ⟨s₂, hstep₂, hi₂⟩ := step_emit_reset_lost hi₁ hst₁ (hup₁.trans hup)
  exact ⟨s₂, by rw [alone_succ, hstep₁, Option.bind_some, alone_one, hstep₂], hi₂⟩

/-- **A message is handled exactly** when the sum of the two numbers does not wrap, or wraps to a
value that is beyond the cap as the sum is. -/
theorem addsExactly_iff (hs : st.sndCredit < 2 ^ 32) (hn' : n < 2 ^ 32) :
    s.AddsExactly i r st n rest ↔
      st.sndCredit + n < 2 ^ 32 ∨ 2 ^ 32 + appMaxCredit < st.sndCredit + n := by
  rw [appMaxCredit_eq]
  -- the sum wraps at most once
  have hwrap (h : 2 ^ 32 ≤ st.sndCredit + n) :
      add32 st.sndCredit n = st.sndCredit + n - 2 ^ 32 := by
    rw [add32]
    omega
  constructor
  · intro h
    by_contra hcon
    rw [not_or, Nat.not_lt, Nat.not_lt] at hcon
    -- the wrapped sum is within the cap and below the credit the stream had
    have hsum := hwrap hcon.1
    obtain ⟨s', halone, -, st', hst', hcredit, -⟩ :=
      alone_added hi hst hr hn (by rw [hsum, appMaxCredit_eq]; omega)
    have := h.kept s' st' halone hst'
    omega
  · intro h
    -- the wrapped sum is on the side of the cap on which the sum is, and not below the credit
    have hside : (appMaxCredit < add32 st.sndCredit n ↔ appMaxCredit < st.sndCredit + n) ∧
        (add32 st.sndCredit n ≤ appMaxCredit → add32 st.sndCredit n = st.sndCredit + n) := by
      rw [appMaxCredit_eq]
      rcases Nat.lt_or_ge (st.sndCredit + n) (2 ^ 32) with hlt | hge
      · rw [add32_of_lt hlt]
        exact ⟨Iff.rfl, fun _ => rfl⟩
      · rw [hwrap hge]
        omega
    refine ⟨?_, ?_, ?_, ?_⟩
    · intro hle
      have hle' := Nat.not_lt.mp (mt hside.1.mp (Nat.not_lt.mpr hle))
      rw [← hside.2 hle']
      exact alone_added hi hst hr hn hle'
    · intro hgt
      exact alone_refused hi hst hr hn (hside.1.mpr hgt)
    · intro hgt
      exact alone_lost hi hst hr hn (hside.1.mpr hgt)
    · intro s' st' halone hst'
      rcases Nat.lt_or_ge appMaxCredit (add32 st.sndCredit n) with hgt | hle
      · obtain ⟨s₁, hstep, -, -, hst₁, -⟩ := step_refused hi hst hr hn hgt
        rw [alone_one, hstep] at halone
        obtain rfl := Option.some.inj halone
        rw [hst₁] at hst'
        rw [Option.some.inj hst']
      · obtain ⟨s₁, hone, -, st₁, hst₁, hcredit, -⟩ := alone_added hi hst hr hn hle
        rw [hone] at halone
        obtain rfl := Option.some.inj halone
        rw [hst₁] at hst'
        obtain rfl := Option.some.inj hst'
        rw [hcredit, hside.2 hle]
        omega

end Message

/-- Five bytes on a stream with the initial window. -/
theorem addsExactly_five :
    ({ cfg := { role := .host }, heap := [{ id := 1, service := [], inbound := false,
                                            sndCredit := appInitialWindow }],
       threads := [[.sect 0 (.addCredit 5)]] } : Session).AddsExactly 0 0
      { id := 1, service := [], inbound := false, sndCredit := appInitialWindow } 5 [] :=
  (addsExactly_iff rfl rfl rfl (by decide) (by decide) (by decide)).mpr (.inl (by decide))

/-- **An `APP_CREDIT` that takes credit away.** The peer accepts a stream with the initial window
and then grants the largest number: the sum wraps, one byte of credit is gone, and the stream is
not reset. -/
theorem addCredit_wraps :
    ∃ s s' st st', Reachable { role := .host } s ∧
      s.threads[0]? = some [.sect 0 (.addCredit 4294967295)] ∧
      s.heap[0]? = some st ∧ st.reset = false ∧ st.sndCredit = 262144 ∧
      s.alone 0 1 = some s' ∧ s'.threads[0]? = some [] ∧
      s'.heap[0]? = some st' ∧ st'.reset = false ∧ st'.sndCredit = 262143 := by
  obtain ⟨s, hs, ht⟩ := exists_reaches_of_run step Always (new { role := .host })
    (fun s => s.threads[0]? == some [.sect 0 (.addCredit 4294967295)] &&
      s.heap[0]?.any fun st => !st.reset && st.sndCredit == 262144 &&
        (s.alone 0 1).any fun s' => s'.threads[0]? == some [] &&
          s'.heap[0]?.any fun st' => !st'.reset && st'.sndCredit == 262143)
    [.call (.open (text "svc") []), .run 1 .go, .run 1 .go,
      .recv (Outgoing.app (.appAccept 1 [] 262144)).frame, .run 0 .go, .run 0 .go, .run 0 .go,
      .recv (Outgoing.app (.appCredit 1 4294967295)).frame, .run 0 .go] (by decide)
  simp only [Bool.and_eq_true, Option.any_eq_true, Bool.not_eq_true', beq_iff_eq] at ht
  obtain ⟨hi, st, hst, ⟨hr, hc⟩, s', hs', hi', st', hst', hr', hc'⟩ := ht
  exact ⟨s, s', st, st', hs, hi, hst, hr, hc, hs', hi', hst', hr', hc'⟩

end Session

end Mvcp.App
