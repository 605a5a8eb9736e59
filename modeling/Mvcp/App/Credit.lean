import Mvcp.App.Progress

/-!
# Credit, as one side accounts for it

Every byte the write loop took from the queue was written to the connection, was lost, or is in
its hand; every byte `Read` returned was credited to the peer, or the credit was lost, or is in
the hand of the reader. Against a peer that keeps to the rules, what a stream may still send and
what it has sent is its initial window and what the peer has credited.

## Main definitions

* `credits`: the bytes that messages credit
* `View.Accounts`: the bytes taken and the bytes credited are in frames
* `View.Honest`: the sections that frames of a peer that keeps to the rules lead to
* `View.Credited`: the credit account of a stream
* `Cause.breach`: the reasons that only a breach of the rules gives

## Main results

* `Session.accounts`: the accounts of frames hold in every state reached
* `Session.credited`: the credit account holds in every state that frames of an honest peer reach
* `Session.no_breach`: against an honest peer no stream is reset for a breach of the rules
-/

namespace Mvcp

open Library (Reaches Always)

/-- The bytes that an `APP_CREDIT` credits. -/
def AppMessage.credit : AppMessage → ℕ
  | .appCredit _ bytes => bytes.toNat
  | _ => 0

namespace App

/-- The bytes that the messages credit. -/
def credits (ms : List AppMessage) : ℕ := (ms.map AppMessage.credit).sum

@[simp] theorem credits_nil : credits [] = 0 := rfl

@[simp] theorem credits_append (ms ms' : List AppMessage) :
    credits (ms ++ ms') = credits ms + credits ms' := by
  simp [credits]

@[simp] theorem credits_singleton (m : AppMessage) : credits [m] = m.credit := by
  simp [credits]

theorem credits_le_of_prefix {ms ms' : List AppMessage} (h : ms <+: ms') :
    credits ms ≤ credits ms' := by
  obtain ⟨us, rfl⟩ := h
  simp

/-! ## Frames in hand -/

/-- The number of bytes in the hand of the write loop. -/
def Task.holding : Task → ℕ
  | .emit _ (.data p) => p.length
  | _ => 0

/-- The number of bytes that a reader is about to credit. -/
def Task.granting : Task → ℕ
  | .emit _ (.credit n) => n
  | _ => 0

/-- The sum of a measure of steps. -/
def total (f : Task → ℕ) (ts : Multiset Task) : ℕ := (ts.map f).sum

section Total

variable {f : Task → ℕ} {t : Task} {ts us : Multiset Task}

@[simp] theorem total_zero : total f 0 = 0 := rfl

@[simp] theorem total_singleton : total f {t} = f t := by simp [total]

@[simp] theorem total_cons : total f (t ::ₘ ts) = f t + total f ts := by simp [total]

@[simp] theorem total_add : total f (ts + us) = total f ts + total f us := by simp [total]

theorem total_eq_zero (h : ∀ t ∈ ts, f t = 0) : total f ts = 0 :=
  Multiset.sum_eq_zero fun n hn => by
    obtain ⟨t, ht, rfl⟩ := Multiset.mem_map.mp hn
    exact h t ht

theorem total_filter (p : Task → Prop) [DecidablePred p] (h : ∀ t, ¬p t → f t = 0) :
    total f (ts.filter p) = total f ts := by
  induction ts using Multiset.induction_on with
  | empty => rfl
  | cons t ts ih =>
    by_cases ht : p t
    · rw [Multiset.filter_cons_of_pos _ ht, total_cons, total_cons, ih]
    · rw [Multiset.filter_cons_of_neg _ ht, total_cons, ih, h t ht, zero_add]

end Total

theorem Task.holding_eq_zero {t : Task} (h : ¬t.cargo = true) : t.holding = 0 := by
  cases t with
  | emit r x => cases x <;> simp_all [Task.holding, Task.cargo]
  | _ => rfl

theorem Task.granting_eq_zero {t : Task} (h : ¬t.cargo = true) : t.granting = 0 := by
  cases t with
  | emit r x => cases x <;> simp_all [Task.granting, Task.cargo]
  | _ => rfl

/-- A critical section puts in hand what it takes from `sendQ`, and what it takes from `inQ`. -/
theorem Stream.Fires.accounts {r : Ref} {st : Stream} {x : Section} {o : Outcome}
    (h : Stream.Fires r st x o) :
    o.st.bytesOut = st.bytesOut + total Task.holding (own r o.push) ∧
      (returned o.log).length = total Task.granting (own r o.push) := by
  have hz {f : Task → ℕ} {l : List Task} (h : ∀ t ∈ l, f t = 0) : total f (own r l) = 0 :=
    total_eq_zero fun t ht => h t (mem_own ht)
  cases h with
  | @read_data n k c q hn hr hq =>
    rw [own_append, total_add, total_add, hz (l := k.read r (c.take n)) (by simp [Task.holding]),
      hz (l := k.read r (c.take n)) (by simp [Task.granting])]
    simp [Task.holding, Task.granting, Event.returned, Stream.consume]
  | @loop_data c q hr hq hc =>
    have := st.quantum_le_length c
    simpa [Task.holding, Task.granting, Stream.dequeue] using this
  | finish_now h hlog =>
    rcases hlog with rfl | rfl <;> simp [Task.holding, Task.granting, Event.returned]
  | markOpened_now hf ho hs hlog => rcases hlog with rfl | rfl <;> simp [Event.returned]
  | detachBytes =>
    rw [hz (f := Task.holding), hz (f := Task.granting)]
    · exact ⟨rfl, rfl⟩
    all_goals split_ifs <;> simp [Task.holding, Task.granting]
  | closeEndpoint =>
    rw [hz (f := Task.holding), hz (f := Task.granting)]
    · exact ⟨rfl, rfl⟩
    all_goals simp +contextual [Task.holding, Task.granting]
  | _ =>
    rw [hz (f := Task.holding), hz (f := Task.granting)]
    · simp [Stream.park, Event.returned, Stream.enqueue, Stream.accept]
    all_goals simp [Stream.park, Task.holding, Task.granting, or_imp, forall_and]

namespace View

variable {r : Ref} {v v' : View}

/-- **The bytes taken and the bytes credited are in frames**: written, lost, or in hand. -/
structure Accounts (v : View) : Prop where
  data : v.st.bytesOut =
    (payloads v.out).length + (payloads v.lost).length + total Task.holding v.tasks
  credit : (returned v.log).length =
    credits v.out + credits v.lost + total Task.granting v.tasks

theorem Initial.accounts (h : Initial r v) : v.Accounts := by
  cases h <;> constructor <;> simp [total, Task.holding, Task.granting, Task.granting]

theorem Emission.accounts {x : Emission} (h : x.fits = true) (st : Stream) :
    (x.message st).payload.length = (Task.emit r x).holding ∧
      (x.message st).credit = (Task.emit r x).granting := by
  cases x with
  | credit n =>
    simp only [Emission.fits, decide_eq_true_eq] at h
    refine ⟨rfl, ?_⟩
    simp only [Emission.message, AppMessage.credit, Task.granting, UInt32.toNat_ofNat']
    exact Nat.mod_eq_of_lt (h.trans_lt (by decide))
  | _ => exact ⟨rfl, rfl⟩

/-- **Every step keeps the accounts of frames.** -/
theorem Step.accounts {a : Option Section} (hs : Step r v a v')
    (hfits : ∀ t ∈ v.tasks, t.fits = true) (h : v.Accounts) : v'.Accounts := by
  obtain ⟨hd, hc⟩ := h
  have hz {f : Task → ℕ} {l : List Task} (h : ∀ t ∈ l, f t = 0) : total f (own r l) = 0 :=
    total_eq_zero fun t ht => h t (mem_own ht)
  cases hs.moved with
  | sect ht hf =>
    -- what the section takes from the counters is in the hands of the steps that follow
    rw [ht, total_cons] at hd hc
    simp only [Task.holding, Task.granting] at hd hc
    obtain ⟨h₁, h₂⟩ := hf.accounts
    constructor
    · rw [total_add]; dsimp only; omega
    · rw [total_add, returned_append, List.length_append]; dsimp only; omega
  | @sent x rest ht hup =>
    -- the bytes go from the hand of the goroutine into the frame
    rw [ht, total_cons] at hd hc
    obtain ⟨h₁, h₂⟩ := Emission.accounts (r := r) (hfits (.emit r x) (by simp [ht])) v.st
    constructor
    · rw [total_add, hz (by cases x <;> simp [Emission.sent, Task.holding]), payloads_append,
        List.length_append, payloads_cons, payloads_nil, List.append_nil]
      dsimp only; omega
    · rw [total_add, hz (by cases x <;> simp [Emission.sent, Task.granting]), credits_append,
        credits_singleton]
      dsimp only; omega
  | @lost x rest ht hn =>
    rw [ht, total_cons] at hd hc
    obtain ⟨h₁, h₂⟩ := Emission.accounts (r := r) (hfits (.emit r x) (by simp [ht])) v.st
    constructor
    · rw [total_add, hz (by cases x <;> simp [Emission.failed, Task.holding]), payloads_append,
        List.length_append, payloads_cons, payloads_nil, List.append_nil]
      dsimp only; omega
    · rw [total_add, hz (by cases x <;> simp [Emission.failed, Task.granting]), credits_append,
        credits_singleton]
      dsimp only; omega
  | @arrive m hid hidle =>
    constructor
    · rw [total_add, hz (by cases m <;> simp [Session.dispatch, Task.holding])]
      dsimp only; omega
    · rw [total_add, hz (by cases m <;> simp [Session.dispatch, Task.granting])]
      dsimp only; omega
  | quiet hq =>
    constructor
    · rw [hq.st, hq.out, hq.lost, ← total_filter _ fun _ => Task.holding_eq_zero, hq.cargo,
        total_filter _ fun _ => Task.holding_eq_zero, hd]
    · rw [hq.log, hq.out, hq.lost, ← total_filter _ fun _ => Task.granting_eq_zero, hq.cargo,
        total_filter _ fun _ => Task.granting_eq_zero, hc]

end View

/-! ## The credit account -/

namespace Stream

variable {r : Ref} {st : Stream} {x : Section} {o : Outcome}

/-- What a critical section does to the credit of a stream that it does not reset. -/
theorem Fires.credit (h : Fires r st x o) (hc : st.sndCredit < 2 ^ 32)
    (hr : o.st.reset = false) :
    (o.st.granted ↔ st.granted) ∧
        o.st.sndCredit + o.st.bytesOut = st.sndCredit + st.bytesOut ∧
        o.st.sndCredit ≤ st.sndCredit ∧
        (∀ n, x = .addCredit n → n = 0 ∨ ∃ t ∈ own r o.push, t.serves = true) ∨
      x.phase = .acceptor ∧ o.st.sndCredit = appInitialWindow ∧ o.st.bytesOut = st.bytesOut ∧
        o.st.opening = st.opening ∧ o.st.openErr = st.openErr ∨
      (∃ n, x = .addCredit n ∧ o.st.sndCredit = add32 st.sndCredit n) ∧
        (o.st.granted ↔ st.granted) ∧ o.st.bytesOut = st.bytesOut ∨
      (∃ metadata, x = .handleAccept metadata o.st.sndCredit) ∧ st.opening = true ∧
        o.st.opening = false ∧ o.st.accepting = st.accepting ∧ o.st.openErr = st.openErr ∧
        o.st.bytesOut = st.bytesOut := by
  cases h with
  | @loop_data c q hr' hq hpos =>
    have hle : st.quantum c ≤ st.sndCredit := (min_le_left _ _).trans (min_le_right _ _)
    have hsub := sub32_of_le hle hc
    refine .inl ⟨Iff.rfl, ?_, ?_, by simp⟩
    · simp only [dequeue, hsub]; omega
    · simp only [dequeue, hsub]; omega
  | acceptWindow => exact .inr (.inl ⟨rfl, rfl, rfl, rfl, rfl⟩)
  | credit_added hr' hle => exact .inr (.inr (.inl ⟨⟨_, rfl, rfl⟩, Iff.rfl, rfl⟩))
  | accepted hm hg hg' ho => exact .inr (.inr (.inr ⟨⟨_, rfl⟩, ho, rfl, rfl, rfl, rfl⟩))
  | rejected ho => exact .inl ⟨by simp [Stream.granted, ho], rfl, le_rfl, by simp⟩
  | reset_set hr' => simp at hr
  | ignored h =>
    refine .inl ⟨Iff.rfl, rfl, le_rfl, ?_⟩
    rintro n rfl
    cases h with
    | addCredit h => exact .inl (h.resolve_right (by simp [show st.reset = false from hr]))
  | @refused _ cause h =>
    refine .inl ⟨Iff.rfl, rfl, le_rfl, fun n _ => .inr ⟨.emit r (.reset cause), by simp, ?_⟩⟩
    exact (h.remote (r := r)).1
  | _ => exact .inl ⟨Iff.rfl, rfl, le_rfl, by simp⟩

theorem Fires.bytesOut_of_reset (h : Fires r st x o) (hr : o.st.reset = true) :
    o.st.bytesOut = st.bytesOut := by
  cases h with
  | loop_data hr' hq hc => exact absurd (hr'.symm.trans hr) (by simp)
  | _ => rfl

end Stream

namespace View

variable {r : Ref} {v v' : View}

/-- The critical sections that frames of a peer that keeps to the rules lead to. -/
def Honest (v : View) : Section → Prop
  | .addCredit n => v.st.reset = false →
      n = 0 ∨ v.st.sndCredit + n ≤ appMaxCredit ∧ v.st.granted
  | .handleAccept metadata grant => metadata.length ≤ appMaxMetaBytes ∧ grant = appInitialWindow
  | .deliver data => v.st.accepting = false ∧ v.st.opening = false ∧
      (v.st.reset = false → v.st.remoteClosed = false → data.length ≤ v.st.rcvWindow)
  | _ => True

/-- What the initial window gave. -/
def grant (v : View) : ℕ := if v.st.granted then appInitialWindow else 0

/-- **The credit account of a stream.** -/
structure Credited (v : View) : Prop where
  account : v.st.reset = false → v.st.sndCredit + v.st.bytesOut = v.grant + credits v.handled
  zero : v.st.reset = false → ¬v.st.granted → v.st.sndCredit = 0
  bound : v.st.bytesOut ≤ appInitialWindow + credits v.handled

theorem grant_le (v : View) : v.grant ≤ appInitialWindow := by
  unfold grant
  split_ifs <;> simp

theorem grant_congr (h : v'.st.granted ↔ v.st.granted) : v'.grant = v.grant := by
  simp only [grant, h]

theorem grant_eq (h : v.st.granted) : v.grant = appInitialWindow := if_pos h

theorem grant_eq_zero (h : ¬v.st.granted) : v.grant = 0 := if_neg h

theorem Initial.credited (h : Initial r v) : v.Credited := by
  have hi : v.handled = v.heard := by rw [handled, if_neg h.idle]
  cases h with
  | inbound => exact ⟨fun _ => by simp [hi, grant, Stream.granted], by simp, by simp⟩
  | outbound hm => exact ⟨fun _ => by simp [hi, grant, Stream.granted], by simp, by simp⟩

/-- The credit of a message is that of the section that handles it. -/
theorem credit_of_dispatch {x : Section} {m : AppMessage} (h : .sect r x ∈ Session.dispatch r m) :
    (∃ n, x = .addCredit n ∧ m.credit = n) ∨ (∀ n, x ≠ .addCredit n) ∧ m.credit = 0 := by
  cases m <;> simp_all [Session.dispatch, AppMessage.credit]

theorem Credited.sect {x : Section} {o : Outcome} {n : ℕ} (h : v.Credited) (hh : v.Handshake)
    (ha : v.Accepted) (hc : v.st.sndCredit < 2 ^ 32) (hG : v.Honest x) (hx : .sect r x ∈ v.tasks)
    (hf : Stream.Fires r v.st x o) (hst : v'.st = o.st) (hr : o.st.reset = false)
    (hcr : credits v'.handled = credits v.handled + n)
    (hn : (∀ k, x = .addCredit k → k = n ∧ ∀ t ∈ own r o.push, t.serves = false) ∧
      ((∀ k, x ≠ .addCredit k) → n = 0)) :
    v'.st.sndCredit + v'.st.bytesOut = v'.grant + credits v'.handled ∧
      (¬v'.st.granted → v'.st.sndCredit = 0) := by
  have hr₀ : v.st.reset = false := by
    by_contra hr₀
    simp [hf.reset (by simpa using hr₀)] at hr
  have hacc := h.account hr₀
  -- before the grant, nothing was sent and nothing credited
  have hzero (hng : ¬v.st.granted) : v.st.bytesOut = 0 ∧ credits v.handled = 0 := by
    have hb : v.st.bytesOut = 0 := by
      by_contra hb
      exact hng (ha.bytes (Nat.pos_of_ne_zero hb)).1
    have := h.zero hr₀ hng
    rw [grant_eq_zero hng] at hacc
    omega
  have hother (hne : ∀ k, x ≠ .addCredit k) : n = 0 := hn.2 hne
  rcases hf.credit hc hr with ⟨hg, hsum, hle, hadd⟩ | ⟨hp, hs, hb, ho, he⟩ |
    ⟨⟨k, rfl, hs⟩, hg, hb⟩ | ⟨⟨metadata, rfl⟩, ho, ho', hac, he, hb⟩
  · have hn0 : n = 0 := by
      by_cases hk : ∃ k, x = .addCredit k
      · obtain ⟨k, hk⟩ := hk
        obtain ⟨rfl, hpush⟩ := hn.1 k hk
        rcases hadd k hk with h0 | ⟨t, ht, hts⟩
        · exact h0
        · simp [hpush t ht] at hts
      · exact hother fun k hk' => hk ⟨k, hk'⟩
    rw [hst, hcr, grant_congr (v := v) (hst ▸ hg)]
    refine ⟨by omega, fun hng => ?_⟩
    have := h.zero hr₀ (mt hg.mpr hng)
    omega
  · -- the accept section of `acceptOpen`
    have hac := hh.acceptor _ hx hp
    have hng : ¬v.st.granted := fun hg => by simp [hg.1] at hac
    have hi : v.st.inbound = true := by
      by_contra hi
      simp [hh.outbound (by simpa using hi)] at hac
    obtain ⟨ho₀, he₀, -⟩ := hh.inbound hi
    have hac' : o.st.accepting = false := by
      rcases hf.accepting with ⟨-, hn⟩ | ⟨ha, -⟩
      · exact absurd hp hn
      · exact ha
    have hg : v'.st.granted := hst ▸ ⟨hac', ho.trans ho₀, he.trans he₀⟩
    obtain ⟨hb₀, hc₀⟩ := hzero hng
    have := hother fun k hk => by simp [hk, Section.phase] at hp
    rw [hst, hs, hb, hcr, grant_eq hg]
    exact ⟨by omega, fun hng => absurd (hst ▸ hg) hng⟩
  · obtain ⟨rfl, -⟩ := hn.1 k rfl
    rw [hst, hs, hb, hcr, grant_congr (v := v) (hst ▸ hg)]
    rcases hG hr₀ with rfl | ⟨hle, hgr⟩
    · rw [add32_of_lt (by omega)]
      exact ⟨by omega, fun hng => h.zero hr₀ (mt hg.mpr hng)⟩
    · rw [add32_of_lt (lt_of_le_of_lt hle (by decide))]
      exact ⟨by omega, fun hng => absurd (hg.mpr hgr) hng⟩
  · -- `handleAccept`
    have hng : ¬v.st.granted := fun hg => by simp [hg.2.1] at ho
    have hi : v.st.inbound = false := by
      by_contra hi
      simp [(hh.inbound (by simpa using hi)).1] at ho
    have hg : v'.st.granted :=
      hst ▸ ⟨hac.trans (hh.outbound hi), ho', he.trans (hh.opening ho).2.1⟩
    obtain ⟨hb₀, hc₀⟩ := hzero hng
    have := hother (by simp)
    have hW : o.st.sndCredit = appInitialWindow := hG.2
    rw [hst, hb, hcr, grant_eq hg]
    exact ⟨by omega, fun hng => absurd (hst ▸ hg) hng⟩

/-- **Every step for an honest peer keeps the credit account.** -/
theorem Step.credited {a : Option Section} (hs : Step r v a v') (hh : v.Handshake)
    (hq : v.Queues) (hc : v.Current r) (ha : v.Accepted) (hG : ∀ x, a = some x → v.Honest x)
    (h : v.Credited) : v'.Credited := by
  have hlt : v.st.sndCredit < 2 ^ 32 := hq.sndCredit_le.trans_lt (by decide)
  -- the bound follows from the account, or nothing is sent
  have hsect {x : Section} {o : Outcome} {n : ℕ} (ha' : a = some x) (hx : .sect r x ∈ v.tasks)
      (hf : Stream.Fires r v.st x o) (hst : v'.st = o.st)
      (hcr : credits v'.handled = credits v.handled + n)
      (hn : o.st.reset = false →
        (∀ k, x = .addCredit k → k = n ∧ ∀ t ∈ own r o.push, t.serves = false) ∧
        ((∀ k, x ≠ .addCredit k) → n = 0)) : v'.Credited := by
    have hboth (hr : v'.st.reset = false) :=
      h.sect hh ha hlt (hG x ha') hx hf hst (hst ▸ hr) hcr (hn (hst ▸ hr))
    refine ⟨fun hr => (hboth hr).1, fun hr => (hboth hr).2, ?_⟩
    by_cases hr : v'.st.reset = true
    · have := h.bound
      rw [hst, hf.bytesOut_of_reset (hst ▸ hr), hcr]
      omega
    · have := (hboth (by simpa using hr)).1
      have := grant_le v'
      omega
  cases hs.progressed hh hc with
  | same hst hlog hd =>
    refine ⟨fun hr => ?_, fun hr hg => ?_, ?_⟩
    · rw [hst, hd, grant_congr (v := v) (by rw [hst])]
      exact h.account (hst ▸ hr)
    · rw [hst] at hr hg ⊢
      exact h.zero hr hg
    · rw [hst, hd]
      exact h.bound
  | @unhandled m hm hst hlog hd =>
    have hz : credits (v.handled ++ [m]) = credits v.handled := by
      cases m <;> simp_all [AppMessage.isOpen, AppMessage.credit]
    refine ⟨fun hr => ?_, fun hr hg => ?_, ?_⟩
    · rw [hst, hd, hz, grant_congr (v := v) (by rw [hst])]
      exact h.account (hst ▸ hr)
    · rw [hst] at hr hg ⊢
      exact h.zero hr hg
    · rw [hst, hd, hz]
      exact h.bound
  | own ha' hx hserve hf hst hlog hd =>
    refine hsect (n := 0) ha' hx hf hst (by rw [hd]; rfl) fun _ => ⟨?_, fun _ => rfl⟩
    rintro k rfl
    simp [Task.serves] at hserve
  | @handles x o m ha' hx hm hf hpush hst hlog hheard hd =>
    refine hsect (n := m.credit) ha' hx hf hst (by rw [hd, credits_append, credits_singleton])
      fun hr => ?_
    rcases hm with hm | hm
    · rcases credit_of_dispatch hm with ⟨k, rfl, hk⟩ | ⟨hne, h0⟩
      · refine ⟨fun k' hk' => ?_, fun hne => absurd rfl (hne k)⟩
        cases hk'
        exact ⟨hk.symm, hpush⟩
      · exact ⟨fun k hk => absurd hk (hne k), fun _ => h0⟩
    · simp [hf.reset_of_refuses hm] at hr

end View

/-! ## Breaches of the rules -/

/-- The reasons for a reset that only a breach of the credit and accept rules gives. -/
def Cause.breach : Cause → Bool
  | .dataBeforeAccept | .creditExceeded | .creditCap | .invalidGrant => true
  | _ => false

/-- The reasons for which a stream refuses a message of the peer. -/
def Cause.refusal : Cause → Bool
  | .dataTooLarge | .dataBeforeAccept | .dataAfterClose | .creditExceeded | .deliverQuota
  | .creditCap | .acceptMetaTooLarge | .invalidGrant => true
  | _ => false

theorem Cause.refusal_of_remote {cause : Cause} (h : cause.remote = false) :
    cause.refusal = false := by
  cases cause <;> simp_all [Cause.refusal, Cause.remote]

theorem Cause.breach_of_refusal {cause : Cause} (h : cause.refusal = false) :
    cause.breach = false := by
  cases cause <;> simp_all [Cause.refusal, Cause.breach]

/-- The reason of a reset under way. -/
def Task.cause? : Task → Option Cause
  | .emit _ (.reset cause) | .sect _ (.setReset cause) => some cause
  | _ => none

namespace View

variable {r : Ref} {v v' : View}

/-- A message of an honest peer is refused for other reasons only. -/
theorem Honest.breach {x : Section} {cause : Cause} (hG : v.Honest x)
    (h : v.st.Refuses x cause) (hle : v.st.sndCredit ≤ appMaxCredit) : cause.breach = false := by
  cases h with
  | dataBeforeAccept h =>
    obtain ⟨ha, ho, -⟩ := hG
    simp [ha, ho] at h
  | creditExceeded ha ho hc hr h => exact absurd (hG.2.2 hr hc) (Nat.not_le.mpr h)
  | @creditCap n hr h =>
    have hsum : v.st.sndCredit + n ≤ appMaxCredit := by
      rcases hG hr with rfl | ⟨hle, -⟩
      · exact hle
      · exact hle
    rw [add32_of_lt (lt_of_le_of_lt hsum (by decide))] at h
    omega
  | invalidGrant h =>
    rw [hG.2] at h
    exact absurd h (by decide)
  | _ => rfl

/-- No reset for a breach of the rules has happened or is under way. -/
structure Clean (v : View) : Prop where
  tasks : ∀ t ∈ v.tasks, ∀ cause, t.cause? = some cause → cause.breach = false
  resetErr : ∀ cause, v.st.resetErr = some cause → cause.breach = false

theorem Initial.clean (h : Initial r v) : v.Clean := by
  cases h <;> exact ⟨by simp [Task.cause?], by simp⟩

theorem Leads.remote {st : Stream} {t : Task} {ts : Multiset Task} (h : Leads r st t ts) :
    ∀ t' ∈ ts, ∀ cause, t'.cause? = some cause → cause.remote = false := by
  cases h with
  | pump h =>
    intro t' ht'
    rw [← own_append] at ht'
    have := h.tasks t' (mem_own ht')
    cases this <;> simp [Task.cause?, Cause.remote]
  | _ => simp [Task.cause?, Cause.remote]

end View

/-- A critical section starts a reset when a call overflows, or a message is refused. -/
theorem Stream.Fires.push_cause {r : Ref} {st : Stream} {x : Section} {o : Outcome}
    (h : Stream.Fires r st x o) : ∀ t ∈ o.push, ∀ cause, t.cause? = some cause →
      (∃ p k, x = .write p k) ∧ (cause = .sendOverflow ∨ cause = .writeQuota) ∨
        st.Refuses x cause := by
  cases h with
  | write_overflow hr hc =>
    simp only [List.mem_cons, forall_eq_or_imp, Caller.forall_wrote, Task.cause?, Option.some.injEq,
      reduceCtorEq, false_implies, implies_true, and_true, forall_eq']
    exact .inl ⟨⟨_, _, rfl⟩, hc⟩
  | refused h =>
    simp only [List.mem_singleton, forall_eq, Task.cause?, Option.some.injEq, forall_eq']
    exact .inr h
  | detachBytes => split_ifs <;> simp [Task.cause?]
  | closeEndpoint => simp +contextual [Task.cause?]
  | _ => simp [Stream.park, Task.cause?, or_imp, forall_and]

theorem Stream.Fires.resetErr_eq {r : Ref} {st : Stream} {x : Section} {o : Outcome}
    (h : Stream.Fires r st x o) :
    o.st.resetErr = st.resetErr ∨
      ∃ cause, x = .setReset cause ∧ st.reset = false ∧ o.st.resetErr = some cause := by
  cases h with
  | reset_set hr => exact .inr ⟨_, rfl, hr, rfl⟩
  | _ => exact .inl rfl

namespace View

variable {r : Ref} {v v' : View}

/-- A reset under way was under way before, has its reason on this side, comes from the peer, or
refuses a message. -/
theorem Step.cause {a : Option Section} (hs : Step r v a v') {t : Task} (ht : t ∈ v'.tasks)
    {cause : Cause} (hc : t.cause? = some cause) :
    (∃ t₀ ∈ v.tasks, t₀.cause? = some cause ∧ (t₀ = t ∨ t₀ = .emit r (.reset cause))) ∨
      cause.remote = false ∨
      (∃ id code message, cause = .peer code message ∧ t = .sect r (.setReset cause) ∧
        v'.heard = v.heard ++ [.appReset id code message]) ∨
      ∃ x, a = some x ∧ v.st.Refuses x cause := by
  cases hs.arises ht with
  | kept hm => exact .inl ⟨t, hm, hc, .inl rfl⟩
  | sect hx ha hf hst hm =>
    rcases hf.push_cause t hm cause hc with ⟨-, rfl | rfl⟩ | hr
    · exact .inr (.inl rfl)
    · exact .inr (.inl rfl)
    · exact .inr (.inr (.inr ⟨_, ha, hr⟩))
  | @sent x hx hout hm =>
    suffices x = .reset cause by
      subst this
      exact .inl ⟨_, hx, rfl, .inr rfl⟩
    cases x <;> simp_all [Emission.sent, Task.cause?]
    rcases hm with rfl | rfl | rfl <;> simp at hc
  | @lost x hx hm =>
    suffices x = .reset cause by
      subst this
      exact .inl ⟨_, hx, rfl, .inr rfl⟩
    cases x <;> simp_all [Emission.failed, Task.cause?] <;> rcases hm with rfl | rfl <;> simp_all
  | lead h₀ hl hm => exact .inr (.inl (hl.remote t hm cause hc))
  | detach ht => simp [ht, Task.cause?] at hc
  | @arrive m hid hheard hm =>
    refine .inr (.inr (.inl ?_))
    cases m <;> simp [Session.dispatch] at hm <;> subst hm <;> simp [Task.cause?] at hc
    subst hc
    exact ⟨_, _, _, rfl, rfl, hheard⟩
  | fail ht =>
    obtain rfl : Cause.peerGone = cause := by simpa [ht, Task.cause?] using hc
    exact .inr (.inl rfl)
  | call hs hcall => cases hcall <;> simp [Task.cause?] at hc; rw [← hc]; exact .inr (.inl rfl)

/-- A stream is reset for the reason it was reset for before, or for that of a reset under way. -/
theorem Step.resetErr {a : Option Section} (hs : Step r v a v') {cause : Cause}
    (hc : v'.st.resetErr = some cause) : v.st.resetErr = some cause ∨
      v.st.reset = false ∧ ∃ t ∈ v.tasks, t.cause? = some cause := by
  rcases hs.fires with ⟨hst, -⟩ | ⟨x, o, -, hx, hf, hst, -⟩
  · exact .inl (hst ▸ hc)
  · rcases hf.resetErr_eq with he | ⟨c, rfl, hr, he⟩
    · exact .inl (he ▸ hst ▸ hc)
    · obtain rfl : c = cause := Option.some.inj (he ▸ hst ▸ hc)
      exact .inr ⟨hr, _, hx, rfl⟩

/-- **A step for an honest peer starts no reset for a breach of the rules.** -/
theorem Step.clean {a : Option Section} (hs : Step r v a v') (hq : v.Queues)
    (hG : ∀ x, a = some x → v.Honest x) (h : v.Clean) : v'.Clean := by
  refine ⟨fun t ht cause hc => ?_, fun cause hc => ?_⟩
  · rcases hs.cause ht hc with ⟨t₀, hm, hc, -⟩ | hown | ⟨_, _, _, rfl, -⟩ | ⟨x, ha, hr⟩
    · exact h.tasks t₀ hm cause hc
    · exact Cause.breach_of_refusal (Cause.refusal_of_remote hown)
    · rfl
    · exact (hG x ha).breach hr hq.sndCredit_le
  · rcases hs.resetErr hc with hc | ⟨-, t, hm, hc⟩
    · exact h.resetErr cause hc
    · exact h.tasks t hm cause hc

end View

namespace Session

variable {cfg : Config} {ok : Session → Label → Prop} {s : Session} {r : Ref} {st : Stream}

/-- **The accounts of frames hold in every state reached.** -/
theorem accounts (h : Reaches step ok (new cfg) s) (hst : s.heap[r]? = some st) :
    (s.view r st).Accounts :=
  (view_inductive (I := fun _ v => v.Handshake ∧ v.Queues ∧ v.Sender ∧ v.Accounts)
    (fun _ _ hi => ⟨hi.handshake, hi.queues, hi.sender, hi.accounts⟩)
    (fun _ _ _ _ hs hv => ⟨hs.handshake hv.1, hs.queues hv.1 hv.2.1, hs.sender hv.1 hv.2.1 hv.2.2.1,
      hs.accounts hv.2.2.1.fits hv.2.2.2⟩) h hst).2.2.2

/-- **The credit account holds in every state that frames of an honest peer reach.** -/
theorem credited (hG : ∀ s l, ok s l → Guarded View.Honest s l) (h : Reaches step ok (new cfg) s)
    (hst : s.heap[r]? = some st) : (s.view r st).Credited :=
  (view_invariant
    (I := fun r v => v.Handshake ∧ v.Queues ∧ v.Current r ∧ v.Accepted ∧ v.Credited) hG
    (fun _ _ hi => ⟨hi.handshake, hi.queues, hi.current, hi.accepted, hi.credited⟩)
    (fun _ _ _ _ hs hg ⟨hh, hq, hc, ha, hcr⟩ => ⟨hs.handshake hh, hs.queues hh hq, hs.current hc,
      hs.accepted hh hc ha, hs.credited hh hq hc ha hg hcr⟩) h hst).2.2.2.2

/-- **Against an honest peer no stream is reset for a breach of the rules.** -/
theorem no_breach (hG : ∀ s l, ok s l → Guarded View.Honest s l) (h : Reaches step ok (new cfg) s)
    (hst : s.heap[r]? = some st) : (s.view r st).Clean :=
  (view_invariant (I := fun _ v => v.Handshake ∧ v.Queues ∧ v.Clean) hG
    (fun _ _ hi => ⟨hi.handshake, hi.queues, hi.clean⟩)
    (fun _ _ _ _ hs hg ⟨hh, hq, hc⟩ => ⟨hs.handshake hh, hs.queues hh hq, hs.clean hq hg hc⟩)
    h hst).2.2

end Session

end App

end Mvcp
