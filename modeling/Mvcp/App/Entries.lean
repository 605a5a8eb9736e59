import Mvcp.App.Net
import Mvcp.Library.Record

/-!
# The critical sections of a stream

What a stream went through is the list of the critical sections that were entered on it, each with
the stream before and after. A property of a stream that depends on how it came to its state is
proved over this list and the view.

## Main definitions

* `Entry`: a critical section that was entered
* `Session.entry`: what a step records of a stream
* `View.Enters`: the step of a view that enters a critical section, with its outcome

## Main results

* `Session.view_records`: the invariant rule for streams, over the view and the record
* `Session.view_stays`: what is true of a stream stays true, if every step of its view keeps it
-/

namespace Mvcp.App

open Library (Reaches Always Records pending advance)

/-- A critical section that was entered, with the stream before and after. -/
structure Entry where
  before : Stream
  sect : Section
  after : Stream
  deriving DecidableEq

namespace View

/-- The view goes from `v` to `v'` by the critical section `x`, whose outcome is `o`. -/
structure Enters (observer : Bool) (r : Ref) (v : View) (x : Section) (o : Outcome) (v' : View) :
    Prop where
  outcome : ∃ buffered, v.st.enter r observer buffered x = some o
  view : ∃ rest, v.tasks = .sect r x ::ₘ rest ∧
    v' = { v with st := o.st, tasks := own r o.push + rest, log := v.log ++ o.log }

variable {observer : Bool} {r : Ref} {v v' : View} {x : Section} {o : Outcome}

theorem Enters.fires (h : Enters observer r v x o v') : Stream.Fires r v.st x o := by
  obtain ⟨buffered, ho⟩ := h.outcome
  exact Stream.fires_of_enter ho

/-- It is a step of the view. -/
theorem Enters.step (h : Enters observer r v x o v') : Step r v (some x) v' := by
  obtain ⟨rest, ht, rfl⟩ := h.view
  exact .sect ht h.fires

theorem Enters.mem (h : Enters observer r v x o v') : .sect r x ∈ v.tasks := by
  obtain ⟨rest, ht, -⟩ := h.view
  simp [ht]

theorem Enters.st (h : Enters observer r v x o v') : v'.st = o.st := by
  obtain ⟨rest, -, rfl⟩ := h.view
  rfl

theorem Enters.log (h : Enters observer r v x o v') : v'.log = v.log ++ o.log := by
  obtain ⟨rest, -, rfl⟩ := h.view
  rfl

theorem Enters.out (h : Enters observer r v x o v') : v'.out = v.out := by
  obtain ⟨rest, -, rfl⟩ := h.view
  rfl

theorem Enters.lost (h : Enters observer r v x o v') : v'.lost = v.lost := by
  obtain ⟨rest, -, rfl⟩ := h.view
  rfl

/-- The steps that have a certain property, after the section. -/
theorem Enters.countP (h : Enters observer r v x o v') (p : Task → Prop) [DecidablePred p] :
    v'.tasks.countP p + (if p (.sect r x) then 1 else 0) =
      v.tasks.countP p + (own r o.push).countP p := by
  obtain ⟨rest, ht, rfl⟩ := h.view
  rw [ht, Multiset.countP_cons, Multiset.countP_add]
  omega

end View

namespace Session

/-- The critical section of the stream `r` that the step enters. -/
def entering (s : Session) (r : Ref) : Label → Option Section
  | .run i _ =>
    match (s.threads[i]? : Option (List Task)) with
    | some (.sect r' x :: _) => if r' = r then some x else none
    | _ => none
  | _ => none

/-- What a step records of the stream `r`. -/
def entry (r : Ref) (s : Session) (l : Label) (s' : Session) : List Entry :=
  match s.entering r l, s.heap[r]?, s'.heap[r]? with
  | some x, some st, some st' => [⟨st, x, st'⟩]
  | _, _, _ => []

variable {s s' : Session} {r : Ref} {st : Stream} {x : Section} {l : Label}
variable {cfg : Config} {ok : Session → Label → Prop}

theorem entering_eq_some (h : s.entering r l = some x) :
    ∃ i c rest, l = .run i c ∧ s.threads[i]? = some (.sect r x :: rest) := by
  cases l with
  | run i c =>
    simp only [entering] at h
    split at h
    · next r' x' rest ht =>
      split_ifs at h with hr
      obtain rfl := Option.some.inj h
      exact ⟨i, c, rest, rfl, hr ▸ ht⟩
    · simp at h
  | _ => simp [entering] at h

theorem entering_of_thread {i : ℕ} {c : Choice} {rest : List Task}
    (h : s.threads[i]? = some (.sect r x :: rest)) : s.entering r (.run i c) = some x := by
  simp [entering, h]

/-- The step that enters a critical section, seen from its stream. -/
theorem enters_of_step (hs : s.step l = some s') (hx : s.entering r l = some x)
    (hst : s.heap[r]? = some st) :
    ∃ o, s'.heap[r]? = some o.st ∧
      View.Enters s.cfg.observer r (s.view r st) x o (s'.view r o.st) := by
  obtain ⟨i, c, rest, rfl, ht⟩ := entering_eq_some hx
  have hlt := (List.getElem?_eq_some_iff.mp hst).1
  cases ho : st.enter r s.cfg.observer s.buffered x with
  | none => simp [step, ht, exec, enter, hst, ho] at hs
  | some o =>
    simp only [step, ht, exec, enter, hst, ho, Option.bind_eq_bind, Option.bind_some,
      Option.pure_def, Option.map_some, Option.some.injEq] at hs
    subst hs
    refine ⟨o, by simp [hlt], ⟨s.buffered, ho⟩, ?_⟩
    obtain ⟨others, h₁, h₂⟩ := Library.pending_advance ht
    refine ⟨others.filter fun t => t.ref? = some r, ?_, ?_⟩
    · rw [view, viewOf, tasksOf, h₁]
      exact Multiset.filter_cons_of_pos _ rfl
    · have hlog := filter_log_self (Stream.fires_of_enter ho).log_ref
      simp [view, viewOf, tasksOf, h₂, Multiset.filter_add, own, hlog]

/-- A step that enters no critical section of the stream. -/
theorem quiet_of_step (htab : s.Table) (hserve : s.Serving) (hs : s.step l = some s')
    (hx : s.entering r l = none) (hst : s.heap[r]? = some st) :
    ∃ st', s'.heap[r]? = some st' ∧
      (s'.view r st' = s.view r st ∨ View.Step r (s.view r st) none (s'.view r st')) := by
  obtain ⟨st', hst', hv | ⟨a, hv, ha⟩⟩ := (moves_of_step hs).view htab hserve hst
  · exact ⟨st', hst', .inl hv⟩
  · cases a with
    | none => exact ⟨st', hst', .inr hv⟩
    | some x =>
      obtain ⟨i, c, rest, rfl, ht⟩ := ha x rfl
      simp [entering_of_thread ht] at hx

/-- A step records nothing of a stream that does not exist. -/
theorem entry_eq_nil (h : s.heap.length ≤ r) : entry r s l s' = [] := by
  simp [entry, List.getElem?_eq_none_iff.mpr h]

theorem entry_of_entering {st' : Stream} (hx : s.entering r l = some x) (hst : s.heap[r]? = some st)
    (hst' : s'.heap[r]? = some st') : entry r s l s' = [⟨st, x, st'⟩] := by
  simp [entry, hx, hst, hst']

theorem entry_of_quiet (hx : s.entering r l = none) : entry r s l s' = [] := by
  simp [entry, hx]

/-- **The invariant rule for streams, over the view and the record.** -/
theorem view_records {I : List Entry → View → Prop} {es : List Entry}
    (hinit : ∀ v, View.Initial r v → I [] v)
    (hquiet : ∀ es v v', View.Step r v none v' → I es v → I es v')
    (hsect : ∀ es v x o v', View.Enters cfg.observer r v x o v' → I es v →
      I (es ++ [⟨v.st, x, o.st⟩]) v')
    (h : Records step ok (entry r) (new cfg) es s) (hst : s.heap[r]? = some st) :
    I es (s.view r st) := by
  have hall : es = [] ∧ Blank s r (s.tasksOf r) ∨
      ∃ st, s.heap[r]? = some st ∧ I es (s.view r st) := by
    refine h.invariant (I := fun es s => es = [] ∧ Blank s r (s.tasksOf r) ∨
      ∃ st, s.heap[r]? = some st ∧ I es (s.view r st)) ?_ fun es s s' l hr hok hs ih => ?_
    · exact .inl ⟨rfl, Nat.zero_le r, by simp [tasksOf, new], rfl, rfl, rfl, rfl⟩
    · have htab := reaches_table hr
      have hserve := reaches_serving hr
      -- the stream does not exist yet, or it does and the invariant holds
      rcases ih with ⟨rfl, hb⟩ | ⟨st, hst, hI⟩
      · rw [entry_eq_nil hb.heap]
        rcases (moves_of_step hs).blank htab hserve hb with hb | ⟨st, hst, hi⟩
        · exact .inl ⟨rfl, hb⟩
        · exact .inr ⟨st, hst, hinit _ hi⟩
      · refine .inr ?_
        cases hx : s.entering r l with
        | none =>
          obtain ⟨st', hst', hv⟩ := quiet_of_step htab hserve hs hx hst
          rw [entry_of_quiet hx, List.append_nil]
          refine ⟨st', hst', ?_⟩
          rcases hv with hv | hv
          · exact hv ▸ hI
          · exact hquiet _ _ _ hv hI
        | some x =>
          obtain ⟨o, hst', hv⟩ := enters_of_step hs hx hst
          rw [entry_of_entering hx hst hst']
          rw [reaches_cfg hr] at hv
          exact ⟨o.st, hst', hsect _ _ _ _ _ hv hI⟩
  rcases hall with ⟨-, hb⟩ | ⟨st', hst', hI⟩
  · exact absurd (List.getElem?_eq_some_iff.mp hst).1 (Nat.not_lt.mpr hb.heap)
  · obtain rfl := Option.some.inj (hst'.symm.trans hst)
    exact hI

/-- **What is true of a stream stays true**, if every step of its view keeps it. -/
theorem view_stays {I : View → Prop} {t : Session} (h : Reaches step ok (new cfg) s)
    (hst : s.heap[r]? = some st) (ht : Reaches step ok s t) (hI : I (s.view r st))
    (hquiet : ∀ v v', View.Step r v none v' → I v → I v')
    (hsect : ∀ v x o v', View.Enters cfg.observer r v x o v' → I v → I v') :
    ∃ st', t.heap[r]? = some st' ∧ I (t.view r st') := by
  refine ht.invariant (I := fun t => ∃ st', t.heap[r]? = some st' ∧ I (t.view r st')) ⟨st, hst, hI⟩
    fun s s' l hr hok hs ih => ?_
  obtain ⟨st, hst, hI⟩ := ih
  have hreach := h.trans hr
  cases hx : s.entering r l with
  | none =>
    obtain ⟨st', hst', hv⟩ :=
      quiet_of_step (reaches_table hreach) (reaches_serving hreach) hs hx hst
    refine ⟨st', hst', ?_⟩
    rcases hv with hv | hv
    · exact hv ▸ hI
    · exact hquiet _ _ hv hI
  | some x =>
    obtain ⟨o, hst', hv⟩ := enters_of_step hs hx hst
    rw [reaches_cfg hreach] at hv
    exact ⟨o.st, hst', hsect _ _ _ _ hv hI⟩

end Session

end Mvcp.App
