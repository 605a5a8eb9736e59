import Mvcp.App.Entries

/-!
# The life of a stream, as its observer sees it

`markOpened` and `finish` call the observer under `lifeMu`: `StreamOpened` when the stream is used
for the first time, `StreamClosed` when it is finished and had been opened. A stream that is
finished first is never reported.

## Main definitions

* `Session.callbacks`: the calls of the observer for a stream
* `View.Observed`: the calls of the observer are those that the flags of the stream tell

## Main results

* `Session.observer_lifecycle`: a stream is reported opened, then closed, each at most once
-/

namespace Mvcp.App

open Library (Reaches Always exists_reaches_of_run)

/-- A call of the observer. -/
def Event.callback : Event → Bool
  | .streamOpened _ | .streamClosed _ => true
  | _ => false

namespace Stream

variable {r : Ref} {st : Stream} {x : Section} {o : Outcome} {observer : Bool} {buffered : ℕ}

/-- The calls of the observer for a stream in this state. -/
def reported (r : Ref) (observer : Bool) (st : Stream) : List Event :=
  if observer && st.opened then
    .streamOpened r :: if st.finished then [.streamClosed r] else []
  else []

theorem reported_initial (r : Ref) (observer : Bool) (st : Stream) :
    st.reported r observer <+: [.streamOpened r, .streamClosed r] := by
  unfold reported
  split_ifs <;> simp

/-- Only `markOpened` and `finish` touch the flags and call the observer. -/
theorem Fires.unreported (h : Fires r st x o) (hm : x ≠ .markOpened) (hf : x ≠ .finish) :
    o.st.opened = st.opened ∧ o.st.finished = st.finished ∧ o.log.filter Event.callback = [] := by
  cases h with
  | finish_again h => exact absurd rfl hf
  | finish_now h hlog => exact absurd rfl hf
  | markOpened_again h => exact absurd rfl hm
  | markOpened_now hf ho hs hlog => exact absurd rfl hm
  | _ => exact ⟨rfl, rfl, by simp [Stream.park, Event.callback]⟩

theorem reported_markOpened (r : Ref) (observer : Bool) (st : Stream) :
    (st.markOpened r observer).st.reported r observer =
      st.reported r observer ++ (st.markOpened r observer).log.filter Event.callback := by
  by_cases h : (st.finished || st.opened) = true
  · simp [markOpened, h]
  · -- neither finished nor opened: nothing was reported
    obtain ⟨hf, ho⟩ : st.finished = false ∧ st.opened = false := by simpa using h
    cases observer <;> simp [markOpened, reported, hf, ho, List.filter_cons, Event.callback]

theorem reported_finish (r : Ref) (observer : Bool) (st : Stream) :
    (st.finish r observer).st.reported r observer =
      st.reported r observer ++ (st.finish r observer).log.filter Event.callback := by
  cases hf : st.finished with
  | true => simp [finish, hf]
  | false =>
    cases observer <;> cases ho : st.opened <;>
      simp [finish, reported, hf, ho, List.filter_cons, Event.callback]

/-- **What a critical section reports** is what the flags of the stream tell after it in
addition. -/
theorem reported_of_enter (h : st.enter r observer buffered x = some o) :
    o.st.reported r observer = st.reported r observer ++ o.log.filter Event.callback := by
  by_cases hm : x = .markOpened
  · subst hm
    obtain rfl := Option.some.inj h
    exact reported_markOpened r observer st
  by_cases hf : x = .finish
  · subst hf
    obtain rfl := Option.some.inj h
    exact reported_finish r observer st
  obtain ⟨ho, hfin, hlog⟩ := (fires_of_enter h).unreported hm hf
  simp [reported, ho, hfin, hlog]

/-- What was reported of a finished stream is all that is. -/
theorem Fires.reported_of_finished (h : Fires r st x o) (hf : st.finished = true) :
    o.st.finished = true ∧ o.st.opened = st.opened := by
  cases h with
  | finish_now h hlog => simp [hf] at h
  | markOpened_now h ho hs hlog => simp [hf] at h
  | _ => exact ⟨hf, rfl⟩

end Stream

namespace View

variable {r : Ref} {v v' : View}

/-- **The calls of the observer are those that the flags of the stream tell.** -/
def Observed (observer : Bool) (r : Ref) (v : View) : Prop :=
  v.log.filter Event.callback = v.st.reported r observer

theorem Initial.observed (h : Initial r v) (observer : Bool) : v.Observed observer r := by
  cases h <;> simp [Observed, Stream.reported]

theorem Step.observed {observer : Bool} (hs : Step r v none v') (h : v.Observed observer r) :
    v'.Observed observer r := by
  obtain ⟨hst, hlog⟩ := hs.quiet
  rwa [Observed, hst, hlog]

theorem Enters.observed {observer : Bool} {x : Section} {o : Outcome}
    (hs : Enters observer r v x o v') (h : v.Observed observer r) : v'.Observed observer r := by
  obtain ⟨buffered, ho⟩ := hs.outcome
  rw [Observed, hs.log, hs.st, List.filter_append, h, Stream.reported_of_enter ho]

end View

namespace Session

variable {cfg : Config} {ok : Session → Label → Prop} {s t : Session} {r : Ref} {st : Stream}

/-- The calls of the observer for the stream `r`. -/
def callbacks (s : Session) (r : Ref) : List Event :=
  s.log.filter fun e => e = .streamOpened r || e = .streamClosed r

theorem callbacks_eq (s : Session) (r : Ref) :
    s.callbacks r = (s.log.filter fun e => e.ref? = some r).filter Event.callback := by
  rw [callbacks, List.filter_filter]
  refine List.filter_congr fun e _ => ?_
  cases e <;> simp [Event.callback, Event.ref?]

theorem callbacks_eq_reported (h : Reaches step ok (new cfg) s) (hst : s.heap[r]? = some st) :
    s.callbacks r = st.reported r cfg.observer := by
  obtain ⟨es, hes⟩ : ∃ es, Library.Records step ok (entry r) (new cfg) es s := h.records
  rw [callbacks_eq]
  exact view_records (I := fun _ v => v.Observed cfg.observer r)
    (fun v hi => hi.observed _) (fun _ _ _ hs hv => hs.observed hv)
    (fun _ _ _ _ _ hs hv => hs.observed hv) hes hst

/-- The flags of a finished stream stay as they are. -/
theorem reported_stays (h : Reaches step ok (new cfg) s) (hst : s.heap[r]? = some st)
    (hf : st.finished = true) (ht : Reaches step ok s t) :
    ∃ st', t.heap[r]? = some st' ∧ st'.finished = true ∧ st'.opened = st.opened := by
  apply view_stays (I := fun v => v.st.finished = true ∧ v.st.opened = st.opened) h hst ht
    ⟨hf, rfl⟩
  · intro v v' hs hv
    rwa [hs.quiet.1]
  · intro v x o v' hs hv
    obtain ⟨hfin, ho⟩ := hs.fires.reported_of_finished hv.1
    rw [hs.st]
    exact ⟨hfin, ho.trans hv.2⟩

/-- **The observer sees a stream opened, then closed.** In every state of every run the calls of
the observer for a stream are a beginning of `StreamOpened`, `StreamClosed`; once `finish` has run
they are none at all for ever, or both, and no further call is made. -/
theorem observer_lifecycle (h : Reachable cfg s) (r : Ref) :
    s.callbacks r <+: [.streamOpened r, .streamClosed r] ∧
    ∀ st, s.heap[r]? = some st → st.finished = true →
      (∀ t, Reaches step Always s t → t.callbacks r = []) ∨
      (∀ t, Reaches step Always s t → t.callbacks r = [.streamOpened r, .streamClosed r]) := by
  refine ⟨?_, fun st hst hf => ?_⟩
  · cases hst : s.heap[r]? with
    | some st =>
      rw [callbacks_eq_reported h hst]
      exact st.reported_initial r cfg.observer
    | none =>
      have hb := blank h (List.getElem?_eq_none_iff.mp hst)
      rw [callbacks_eq, hb.log]
      exact List.nil_prefix
  · -- the flags decide which of the two it is, and they stay
    have hstays (t : Session) (ht : Reaches step Always s t) :
        t.callbacks r = if cfg.observer && st.opened then [.streamOpened r, .streamClosed r]
          else [] := by
      obtain ⟨st', hst', hf', ho'⟩ := reported_stays h hst hf ht
      rw [callbacks_eq_reported (h.trans ht) hst']
      simp [Stream.reported, hf', ho']
    cases hb : cfg.observer && st.opened with
    | true => exact .inr fun t ht => by simpa [hb] using hstays t ht
    | false => exact .inl fun t ht => by simpa [hb] using hstays t ht

/-- A stream is accepted and reported, then the connection is lost. -/
theorem observer_lifecycle_lost :
    ∃ s st, Reachable { role := .guest, observer := true } s ∧ s.heap[0]? = some st ∧
      st.finished = true ∧ s.callbacks 0 = [.streamOpened 0, .streamClosed 0] ∧
      ((∀ t, Reaches step Always s t → t.callbacks 0 = []) ∨
        ∀ t, Reaches step Always s t → t.callbacks 0 = [.streamOpened 0, .streamClosed 0]) := by
  obtain ⟨s, hs, ht⟩ := exists_reaches_of_run step Always
    (new { role := .guest, observer := true })
    (fun s => (s.heap[0]?.any fun st => st.finished) &&
      s.callbacks 0 == [.streamOpened 0, .streamClosed 0])
    [.recv (Outgoing.app (.appOpen 1 (text "svc") [])).frame, .run 0 .go, .run 1 .go,
      .run 1 (.handler (.accept true [])), .run 1 .go, .run 1 .go, .readError, .run 0 .go,
      .run 0 .go, .run 0 .go, .run 0 .go, .run 0 .go] (by decide)
  simp only [Bool.and_eq_true, Option.any_eq_true, beq_iff_eq] at ht
  obtain ⟨⟨st, hst, hf⟩, hc⟩ := ht
  exact ⟨s, st, hs, hst, hf, hc, (observer_lifecycle hs 0).2 st hst hf⟩

end Session

end Mvcp.App
