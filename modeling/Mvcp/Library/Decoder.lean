import Mathlib.Tactic.Common

/-!
# Decoders and decoding methods

A decoder takes a value from the front of a list of symbols, or fails. A decoding method does the
same for the fields of a receiver: it may write to the receiver at any time, and the receiver keeps
what was written when the method fails. A positional format is a sequence of fields; the laws below
are closed under sequencing, so a format has them when its fields do.

## Main definitions

* `Decoder`, `Method`: a decoder, and a decoding method
* `Reads d bs a`: `d` takes exactly `bs` for `a`, and fails on every part of `bs` that is cut short
* `Alike d d'`: two decoders succeed alike, with the same value and the same rest
* `Agrees m d`: the method succeeds with the value of the decoder, or both fail
* `Intact m`: a method that fails leaves its receiver as it was
* `Fills m bs v`: the method takes exactly `bs` and leaves `v` in its receiver
* `Computes m view f text`: the method is given by a function, its receivers seen through `view`

## Main results

* `Reads.bind`, `Reads.map`, `Reads.many`: sequences and repetitions
* `Reads.of_exact`, `Reads.of_total`: a decoder that accepts exactly the encodings of a type
* `Mirrors.field`, `Mirrors.assign`, `Computes.field`, `Computes.refuse`: methods that assign after
  their last read
* `Fills.field`, `Fills.of_agrees`: sequences, and methods that agree with a decoder
-/

namespace Library

variable {β ε ε' σ τ α γ : Type}

/-- A decoder: a value with the symbols after it, or an error. -/
def Decoder (β ε α : Type) := List β → Except ε (α × List β)

instance : Monad (Decoder β ε) where
  pure a b := .ok (a, b)
  bind d k b :=
    match d b with
    | .ok (a, r) => k a r
    | .error e => .error e

instance : LawfulMonad (Decoder β ε) := LawfulMonad.mk' _
  (by
    intro α d
    funext b
    simp only [Functor.map]
    cases d b <;> rfl)
  (by intros; rfl)
  (by
    intro α γ δ d k k'
    funext b
    simp only [bind]
    cases d b <;> rfl)

/-- A decoding method with receivers of type `σ`. -/
def Method (β ε σ α : Type) := List β → σ → Except ε (α × List β) × σ

instance : Monad (Method β ε σ) where
  pure a b s := (.ok (a, b), s)
  bind m k b s :=
    match m b s with
    | (.ok (a, r), s') => k a r s'
    | (.error e, s') => (.error e, s')

namespace Decoder

/-- The decoder with another name for its errors. -/
def label (f : ε → ε') (d : Decoder β ε α) : Decoder β ε' α := fun b => (d b).mapError f

/-- A result that needs no symbols. -/
def ofExcept (x : Except ε α) : Decoder β ε α := fun b => x.map fun a => (a, b)

/-- The decoder fails when the symbols still unread are such that `p`. -/
def refuse (p : List β → Prop) [DecidablePred p] (e : List β → ε) : Decoder β ε Unit := fun b =>
  if p b then .error (e b) else .ok ((), b)

/-- The decoder, `n` times. -/
def many (d : Decoder β ε α) : ℕ → Decoder β ε (List α)
  | 0 => pure []
  | n + 1 => do
    let a ← d
    let as ← d.many n
    return a :: as

theorem bind_ok {d : Decoder β ε α} {k : α → Decoder β ε γ} {b r : List β} {a : α}
    (h : d b = .ok (a, r)) : (d >>= k) b = k a r := by
  simp only [bind, h]

theorem bind_error {d : Decoder β ε α} {k : α → Decoder β ε γ} {b : List β} {e : ε}
    (h : d b = .error e) : (d >>= k) b = .error e := by
  simp only [bind, h]

/-- A sequence succeeds when its parts do, one after the other. -/
theorem bind_eq_ok {d : Decoder β ε α} {k : α → Decoder β ε γ} {b r : List β} {c : γ} :
    (d >>= k) b = .ok (c, r) ↔ ∃ a r', d b = .ok (a, r') ∧ k a r' = .ok (c, r) := by
  cases hd : d b with
  | error e => simp [bind_error hd]
  | ok p =>
    obtain ⟨a, r'⟩ := p
    simp [bind_ok hd]

theorem pure_eq_ok {a a' : α} {b r : List β} :
    (pure a : Decoder β ε α) b = .ok (a', r) ↔ a = a' ∧ b = r := by
  simp [pure]

theorem label_eq_ok {f : ε → ε'} {d : Decoder β ε α} {b : List β} {p : α × List β} :
    d.label f b = .ok p ↔ d b = .ok p := by
  simp only [label]
  cases d b <;> simp [Except.mapError]

theorem ofExcept_eq_ok {x : Except ε α} {a : α} {b r : List β} :
    (ofExcept x : Decoder β ε α) b = .ok (a, r) ↔ x = .ok a ∧ b = r := by
  cases x <;> simp [ofExcept, Except.map]

theorem label_ok {f : ε → ε'} {d : Decoder β ε α} {b r : List β} {a : α} (h : d b = .ok (a, r)) :
    d.label f b = .ok (a, r) := by
  simp [label, h, Except.mapError]

theorem label_error {f : ε → ε'} {d : Decoder β ε α} {b : List β} {e : ε} (h : d b = .error e) :
    d.label f b = .error (f e) := by
  simp [label, h, Except.mapError]

end Decoder

open Decoder

/-! ## What a decoder reads -/

/-- The decoder takes exactly `bs` for `a`, whatever follows, and fails when `bs` is cut short. -/
structure Reads (d : Decoder β ε α) (bs : List β) (a : α) : Prop where
  append : ∀ t, d (bs ++ t) = .ok (a, t)
  cut : ∀ c t, bs = c ++ t → t ≠ [] → ∃ e, d c = .error e

namespace Reads

variable {d : Decoder β ε α} {k : α → Decoder β ε γ} {bs bs' : List β} {a : α} {c : γ}

/-- **A decoder that accepts exactly the encodings of a type reads them.** No encoding is a proper
prefix of another one, since what follows an encoding is left. -/
theorem of_exact {encode : α → List β} {fits : α → Prop}
    (h : ∀ b a r, d b = .ok (a, r) ↔ fits a ∧ b = encode a ++ r) (ha : fits a) :
    Reads d (encode a) a where
  append t := (h _ a t).mpr ⟨ha, rfl⟩
  cut c t hct ht := by
    cases hc : d c with
    | error e => exact ⟨e, rfl⟩
    | ok p =>
      obtain ⟨a', r⟩ := p
      obtain ⟨ha', rfl⟩ := (h _ _ _).mp hc
      -- the whole encoding would be read as `a'` too, with `t` left
      have h₁ : d (encode a) = .ok (a', r ++ t) :=
        (h _ _ _).mpr ⟨ha', by rw [hct, List.append_assoc]⟩
      have h₂ : d (encode a) = .ok (a, []) := (h _ _ _).mpr ⟨ha, by simp⟩
      rw [h₁] at h₂
      simp [ht] at h₂

theorem of_total {encode : α → List β} (h : ∀ b a r, d b = .ok (a, r) ↔ b = encode a ++ r) :
    Reads d (encode a) a :=
  of_exact (fun b a r => (h b a r).trans (and_iff_right True.intro).symm) trivial

theorem label {f : ε → ε'} (h : Reads d bs a) : Reads (d.label f) bs a where
  append t := label_ok (h.append t)
  cut c t hct ht := (h.cut c t hct ht).imp' f fun _ he => label_error he

theorem bind (h : Reads d bs a) (h' : Reads (k a) bs' c) : Reads (d >>= k) (bs ++ bs') c where
  append t := by
    rw [List.append_assoc, bind_ok (h.append (bs' ++ t))]
    exact h'.append t
  cut x t hxt ht := by
    rcases List.append_eq_append_iff.mp hxt with ⟨y, rfl, hy⟩ | ⟨y, hy, rfl⟩
    · -- cut in the second part
      obtain ⟨e, he⟩ := h'.cut y t hy ht
      exact ⟨e, (bind_ok (h.append y)).trans he⟩
    · -- cut in the first part, or at its end
      by_cases hnil : y = []
      · subst hnil
        obtain rfl : bs = x := by simpa using hy
        obtain ⟨e, he⟩ := h'.cut [] bs' rfl (by simpa using ht)
        exact ⟨e, (bind_ok (by simpa using h.append [])).trans he⟩
      · obtain ⟨e, he⟩ := h.cut x y hy hnil
        exact ⟨e, bind_error he⟩

theorem pure (a : α) : Reads (pure a : Decoder β ε α) [] a where
  append _ := rfl
  cut c t hct ht := by
    obtain ⟨-, rfl⟩ := List.nil_eq_append_iff.mp hct
    exact absurd rfl ht

theorem map {f : α → γ} (h : Reads d bs a) :
    Reads (d >>= fun x => (Pure.pure (f x) : Decoder β ε γ)) bs (f a) := by
  have h' : Reads (Pure.pure (f a) : Decoder β ε γ) [] (f a) := Reads.pure (f a)
  simpa using h.bind (k := fun x => Pure.pure (f x)) h'

/-- A list of values, one after the other. -/
theorem many {encode : α → List β} {as : List α} (h : ∀ a ∈ as, Reads d (encode a) a) :
    Reads (d.many as.length) (as.flatMap encode) as := by
  induction as with
  | nil => exact Reads.pure []
  | cons a as ih =>
    rw [List.flatMap_cons]
    exact (h a List.mem_cons_self).bind (ih fun b hb => h b (List.mem_cons_of_mem _ hb)).map

end Reads

/-! ## Decoders that differ in their errors -/

/-- The decoders succeed on the same symbols, with the same value and the same rest. -/
def Alike (d : Decoder β ε α) (d' : Decoder β ε' α) : Prop := ∀ b, (d b).toOption = (d' b).toOption

theorem Alike.cases {d : Decoder β ε α} {d' : Decoder β ε' α} (h : Alike d d') (b : List β) :
    (∃ a r, d b = .ok (a, r) ∧ d' b = .ok (a, r)) ∨ ∃ e e', d b = .error e ∧ d' b = .error e' := by
  have hb := h b
  cases hd : d b with
  | error e =>
    cases hd' : d' b with
    | error e' => exact .inr ⟨e, e', rfl, rfl⟩
    | ok p => simp [hd, hd', Except.toOption] at hb
  | ok p =>
    cases hd' : d' b with
    | error e' => simp [hd, hd', Except.toOption] at hb
    | ok p' =>
      simp only [hd, hd', Except.toOption, Option.some.injEq] at hb
      exact .inl ⟨p.1, p.2, rfl, by rw [hb]⟩

theorem Alike.label {d : Decoder β ε α} {f : ε → γ} {g : ε → ε'} :
    Alike (d.label f) (d.label g) := by
  intro b
  simp only [Decoder.label]
  cases d b <;> rfl

theorem Alike.bind {d : Decoder β ε α} {d' : Decoder β ε' α} {k : α → Decoder β ε γ}
    {k' : α → Decoder β ε' γ} (h : Alike d d') (hk : ∀ a, Alike (k a) (k' a)) :
    Alike (d >>= k) (d' >>= k') := by
  intro b
  rcases h.cases b with ⟨a, r, hd, hd'⟩ | ⟨e, e', hd, hd'⟩
  · rw [bind_ok hd, bind_ok hd']
    exact hk a r
  · rw [bind_error hd, bind_error hd']
    rfl

theorem Alike.pure (a : α) : Alike (pure a : Decoder β ε α) (pure a : Decoder β ε' α) :=
  fun _ => rfl

/-! ## Methods -/

namespace Method

/-- A read of the method: it does not touch the receiver. -/
def field (d : Decoder β ε α) : Method β ε σ α := fun b s => (d b, s)

/-- The method assigns to its receiver. -/
def assign (f : σ → σ) : Method β ε σ Unit := fun b s => (.ok ((), b), f s)

/-- The symbols still unread. -/
def unread : Method β ε σ (List β) := fun b s => (.ok (b, b), s)

/-- A call of the method on `data`: its error, if any, and the receiver after it. -/
def call (m : Method β ε σ Unit) (data : List β) (s : σ) : Except ε Unit × σ :=
  ((m data s).1.map fun _ => (), (m data s).2)

theorem field_bind (d : Decoder β ε α) (k : α → Method β ε σ γ) (b : List β) (s : σ) :
    (field d >>= k) b s =
      match d b with
      | .ok (a, r) => k a r s
      | .error e => (.error e, s) := by
  simp only [bind, field]
  cases d b <;> rfl

theorem assign_bind (f : σ → σ) (k : Unit → Method β ε σ γ) (b : List β) (s : σ) :
    (assign f >>= k) b s = k () b (f s) := rfl

theorem unread_bind (k : List β → Method β ε σ γ) (b : List β) (s : σ) :
    (unread >>= k) b s = k b b s := rfl

end Method

open Method

/-- The method succeeds exactly when the decoder does, its receiver then holds the decoder's
value, and they leave the same symbols. -/
def Agrees (m : Method β ε σ Unit) (d : Decoder β ε' σ) : Prop :=
  ∀ b s, (∃ v r, d b = .ok (v, r) ∧ m b s = (.ok ((), r), v)) ∨
    ∃ e e' s', d b = .error e ∧ m b s = (.error e', s')

/-- A method that fails leaves its receiver as it was. -/
def Intact (m : Method β ε σ Unit) : Prop := ∀ b s e s', m b s = (.error e, s') → s' = s

/-- The method does what the decoder does, and assigns its receiver only when it succeeds. -/
structure Mirrors (m : Method β ε σ Unit) (d : Decoder β ε' σ) : Prop where
  agrees : Agrees m d
  intact : Intact m

theorem Agrees.field {d : Decoder β ε α} {d' : Decoder β ε' α} {m : α → Method β ε σ Unit}
    {k : α → Decoder β ε' σ} (hd : Alike d d') (h : ∀ a, Agrees (m a) (k a)) :
    Agrees (Method.field d >>= m) (d' >>= k) := by
  intro b s
  rw [field_bind]
  rcases hd.cases b with ⟨a, r, hd, hd'⟩ | ⟨e, e', hd, hd'⟩
  · rw [bind_ok hd', hd]
    exact h a r s
  · exact .inr ⟨e', e, s, bind_error hd', by rw [hd]⟩

theorem Intact.field {d : Decoder β ε α} {m : α → Method β ε σ Unit} (h : ∀ a, Intact (m a)) :
    Intact (Method.field d >>= m) := by
  intro b s e s' hm
  rw [field_bind] at hm
  cases hd : d b with
  | error e' =>
    simp only [hd, Prod.mk.injEq] at hm
    exact hm.2.symm
  | ok p =>
    simp only [hd] at hm
    exact h p.1 p.2 s e s' hm

theorem Intact.assign {f : σ → σ} : Intact (Method.assign f : Method β ε σ Unit) := by
  intro b s e s' hm
  simp [Method.assign] at hm

/-- Behind the last point of failure a method may do what it likes. -/
theorem Intact.seq {m : Method β ε σ Unit} {k : Method β ε σ Unit} (h : Intact m)
    (hk : ∀ b s, ∃ r s', k b s = (.ok ((), r), s')) : Intact (m >>= fun _ => k) := by
  intro b s e s' hm
  simp only [bind] at hm
  rcases hb : m b s with ⟨e' | p, s₁⟩
  · simp only [hb, Prod.mk.injEq] at hm
    exact hm.2 ▸ h b s e' s₁ hb
  · obtain ⟨r, s₂, hk⟩ := hk p.2 s₁
    simp [hb, hk] at hm

namespace Mirrors

/-- **A read may come before a method that mirrors its decoder**, whatever names the two give to
its error. -/
theorem field {d : Decoder β ε α} {f : ε → γ} {g : ε → ε'} {m : α → Method β γ σ Unit}
    {k : α → Decoder β ε' σ} (h : ∀ a, Mirrors (m a) (k a)) :
    Mirrors (Method.field (d.label f) >>= m) (d.label g >>= k) :=
  ⟨Agrees.field Alike.label fun a => (h a).agrees, Intact.field fun a => (h a).intact⟩

/-- The last step of a method: the receiver is assigned. -/
theorem assign {f : σ → σ} {v : σ} (h : ∀ s, f s = v) :
    Mirrors (Method.assign f : Method β ε σ Unit) (pure v : Decoder β ε' σ) := by
  exact ⟨fun b s => .inl ⟨v, b, rfl, by rw [Method.assign, h]⟩, Intact.assign⟩

end Mirrors

/-! ## What a method reads -/

/-- The method takes exactly `bs`, whatever follows and whatever its receiver held, and leaves `v`
in the receiver; it fails when `bs` is cut short. -/
structure Fills (m : Method β ε σ Unit) (bs : List β) (v : σ) : Prop where
  append : ∀ t s, m (bs ++ t) s = (.ok ((), t), v)
  cut : ∀ c t, bs = c ++ t → t ≠ [] → ∀ s, ∃ e s', m c s = (.error e, s')

namespace Fills

variable {m : Method β ε σ Unit} {bs bs' : List β} {v : σ}

theorem of_agrees {d : Decoder β ε' σ} (h : Agrees m d) (hr : Reads d bs v) : Fills m bs v where
  append t s := by
    rcases h (bs ++ t) s with ⟨v', r, hd, hm⟩ | ⟨e, e', s', hd, -⟩
    · rw [hr.append] at hd
      obtain ⟨rfl, rfl⟩ := Prod.mk.inj (Except.ok.inj hd)
      exact hm
    · simp [hr.append] at hd
  cut c t hct ht s := by
    obtain ⟨e, he⟩ := hr.cut c t hct ht
    rcases h c s with ⟨v', r, hd, -⟩ | ⟨_, e', s', -, hm⟩
    · simp [he] at hd
    · exact ⟨e', s', hm⟩

theorem field {d : Decoder β ε α} {k : α → Method β ε σ Unit} {a : α} (h : Reads d bs a)
    (h' : Fills (k a) bs' v) : Fills (Method.field d >>= k) (bs ++ bs') v where
  append t s := by
    rw [List.append_assoc, field_bind, h.append]
    exact h'.append t s
  cut x t hxt ht s := by
    rw [field_bind]
    rcases List.append_eq_append_iff.mp hxt with ⟨y, rfl, hy⟩ | ⟨y, hy, rfl⟩
    · -- cut in the second part
      rw [h.append]
      exact h'.cut y t hy ht s
    · by_cases hnil : y = []
      · -- cut between the parts
        subst hnil
        obtain rfl : bs = x := by simpa using hy
        have hd := h.append []
        rw [List.append_nil] at hd
        rw [hd]
        exact h'.cut [] bs' rfl (by simpa using ht) s
      · -- cut in the first part
        obtain ⟨e, he⟩ := h.cut x y hy hnil
        exact ⟨e, s, by rw [he]⟩

theorem assign {f : σ → σ} (h : ∀ s, f s = v) :
    Fills (Method.assign f : Method β ε σ Unit) [] v where
  append t s := by rw [Method.assign, h, List.nil_append]
  cut c t hct ht := by
    obtain ⟨-, rfl⟩ := List.nil_eq_append_iff.mp hct
    exact absurd rfl ht

/-- The last field of a method. -/
theorem last {d : Decoder β ε α} {f : α → σ → σ} {a : α} (h : Reads d bs a)
    (hv : ∀ s, f a s = v) :
    Fills (Method.field d >>= fun a => (Method.assign (f a) : Method β ε σ Unit)) bs v := by
  have h' := Fills.field (k := fun a => Method.assign (f a)) h (Fills.assign hv)
  rwa [List.append_nil] at h'

end Fills

/-! ## Methods that are given by a function -/

/-- The method does what the function says: it succeeds with a receiver that `view` takes to the
value of the function, or it fails with the error of the function and leaves its receiver as it
was. -/
def Computes (m : Method β ε σ Unit) (view : σ → τ) (f : List β → Except ε' τ) (text : ε' → ε) :
    Prop :=
  ∀ b s, (∃ v r, f b = .ok (view v) ∧ m b s = (.ok ((), r), v)) ∨
    ∃ e, f b = .error e ∧ m b s = (.error (text e), s)

namespace Computes

variable {m : Method β ε σ Unit} {view : σ → τ} {f : List β → Except ε' τ} {text : ε' → ε}

theorem field {d : Decoder β ε α} {x : List β → Except ε' (α × List β)}
    {m : α → Method β ε σ Unit} {k : α × List β → Except ε' τ}
    (hd : ∀ b, d b = (x b).mapError text)
    (h : ∀ a, Computes (m a) view (fun r => k (a, r)) text) :
    Computes (Method.field d >>= m) view (fun b => x b >>= k) text := by
  intro b s
  rw [field_bind, hd b]
  beta_reduce
  cases x b with
  | error e => exact .inr ⟨e, rfl, rfl⟩
  | ok p => exact h p.1 p.2 s

/-- A check that comes before the rest of the method. -/
theorem refuse {p : List β → Prop} [DecidablePred p] {e : List β → ε} {e' : List β → ε'}
    {m : Unit → Method β ε σ Unit} {f' : List β → Except ε' τ}
    (hf : ∀ b, f' b = if p b then .error (e' b) else f b) (he : ∀ b, e b = text (e' b))
    (h : Computes (m ()) view f text) :
    Computes (Method.field (Decoder.refuse p e) >>= m) view f' text := by
  intro b s
  rw [field_bind, Decoder.refuse, hf b]
  by_cases hp : p b
  · simp only [if_pos hp]
    exact .inr ⟨e' b, rfl, by rw [he]⟩
  · simp only [if_neg hp]
    exact h b s

theorem assign {g : σ → σ} {v : σ} (h : ∀ s, g s = v) :
    Computes (Method.assign g : Method β ε σ Unit) view (fun _ => (.ok (view v) : Except ε' τ))
      text :=
  fun b s => .inl ⟨v, b, rfl, by rw [Method.assign, h]⟩

theorem intact (h : Computes m view f text) : Intact m := by
  intro b s e s' hm
  rcases h b s with ⟨v, r, -, hok⟩ | ⟨e', -, herr⟩
  · simp [hok] at hm
  · rw [herr] at hm
    exact (Prod.mk.inj hm).2.symm

end Computes

/-! ## Calls -/

section Calls

variable {m : Method β ε σ Unit} {bs : List β} {v : σ}

theorem Fills.call_append (h : Fills m bs v) (t : List β) (s : σ) :
    m.call (bs ++ t) s = (.ok (), v) := by
  simp [Method.call, h.append, Except.map]

theorem Fills.call_cut (h : Fills m bs v) {c t : List β} (hct : bs = c ++ t) (ht : t ≠ [])
    (s : σ) : ∃ e, (m.call c s).1 = .error e := by
  obtain ⟨e, s', hm⟩ := h.cut c t hct ht s
  exact ⟨e, by simp [Method.call, hm, Except.map]⟩

theorem Computes.call_ok {view : σ → τ} {f : List β → Except ε' τ} {text : ε' → ε}
    (h : Computes m view f text) (hview : Function.Injective view) {b : List β}
    (hf : f b = .ok (view v)) (s : σ) : m.call b s = (.ok (), v) := by
  rcases h b s with ⟨v', r, hok, hm⟩ | ⟨e, herr, -⟩
  · rw [hf] at hok
    obtain rfl := hview (Except.ok.inj hok)
    simp [Method.call, hm, Except.map]
  · simp [hf] at herr

theorem Computes.call_error {view : σ → τ} {f : List β → Except ε' τ} {text : ε' → ε}
    (h : Computes m view f text) {b : List β} {e : ε'} (hf : f b = .error e) (s : σ) :
    m.call b s = (.error (text e), s) := by
  rcases h b s with ⟨v', r, hok, -⟩ | ⟨e', herr, hm⟩
  · simp [hf] at hok
  · rw [hf] at herr
    obtain rfl := Except.error.inj herr
    simp [Method.call, hm, Except.map]

theorem Intact.call {e : ε} {s s' : σ} {data : List β} (h : Intact m)
    (hc : m.call data s = (.error e, s')) : s' = s := by
  obtain ⟨h₁, h₂⟩ := Prod.mk.inj hc
  rcases hm : m data s with ⟨_ | p, s₁⟩
  · rw [hm] at h₂
    subst h₂
    exact h _ _ _ _ hm
  · simp [hm, Except.map] at h₁

end Calls

end Library
