import Mvcp.App.Entries

/-!
# The end of the open handshake

`opening` is cleared by the first of an accept, a rejection and a reset, and by nothing else. The
channel `ready` is closed for that step: by the reset itself, or by `Serve` right after the section
of `handleAccept` or `handleReject`. `Open` then finds what ended the handshake in `openErr` and
`resetErr`.

## Main definitions

* `Entry.resolves`: the critical section ended the handshake
* `Resolution`: what ended the handshake, and how the stream shows it
* `Task.closes`: `ready` is about to be closed
* `View.Resolved`: the handshake is ended once, and `ready` closed once for it

## Main results

* `Session.open_resolves_once`: the handshake of every stream ends once, in every run
-/

namespace Mvcp.App

open Library (Reaches Always Records pending exists_records_of_run advance_getElem?_self)

/-- The handlers of the answers of the peer. -/
def Section.answers : Section → Bool
  | .handleAccept .. | .handleReject .. => true
  | _ => false

namespace Entry

/-- The critical section ended the handshake. -/
def resolves (e : Entry) : Bool := e.before.opening && !e.after.opening

/-- `Serve` ended the handshake, with the answer of the peer. -/
def answers (e : Entry) : Bool := e.resolves && e.sect.answers

end Entry

/-- What ended the handshake of a stream, and how the stream shows it. -/
inductive Resolution (st : Stream) : Section → Prop
  | accepted {metadata : Bytes} {grant : ℕ} (he : st.openErr = none)
      (hm : st.acceptMeta = metadata) : Resolution st (.handleAccept metadata grant)
  | rejected {code : UInt16} {message : Bytes} (he : st.openErr = some ⟨code, message⟩) :
      Resolution st (.handleReject code message)
  | reset {cause : Cause} (he : st.openErr = none) (hr : st.reset = true)
      (hc : st.resetErr = some cause) : Resolution st (.setReset cause)

/-- `close(st.ready)`, after the answer of the peer. -/
def Task.closes : Task → Bool
  | .sect _ .closeReady => true
  | _ => false

/-- How many goroutines are about to close `ready`. -/
def closing (ts : Multiset Task) : ℕ := ts.countP fun t => t.closes = true

@[simp] theorem closing_zero : closing 0 = 0 := rfl

@[simp] theorem closing_singleton (t : Task) : closing {t} = if t.closes then 1 else 0 := by
  rw [closing, ← Multiset.cons_zero, Multiset.countP_cons, Multiset.countP_zero, zero_add]

@[simp] theorem closing_cons (t : Task) (ts : Multiset Task) :
    closing (t ::ₘ ts) = closing ts + if t.closes then 1 else 0 := Multiset.countP_cons ..

@[simp] theorem closing_add (ts us : Multiset Task) :
    closing (ts + us) = closing ts + closing us := Multiset.countP_add ..

theorem closing_eq_zero {ts : Multiset Task} (h : ∀ t ∈ ts, t.closes = false) : closing ts = 0 :=
  Multiset.countP_eq_zero.mpr fun t ht => by simp [h t ht]

theorem closing_own {r : Ref} {ts : List Task} (h : ∀ t ∈ ts, t.closes = false) :
    closing (own r ts) = 0 := closing_eq_zero fun t ht => h t (mem_own ht)

namespace Stream

variable {r : Ref} {st : Stream} {x y : Section} {o : Outcome} {observer : Bool} {buffered : ℕ}

/-- A section that ends the handshake shows how. -/
theorem Fires.resolution (h : Fires r st x o) (he : st.openErr = none) (ho : st.opening = true)
    (ho' : o.st.opening = false) : Resolution o.st x := by
  cases h with
  | accepted hm hg hg' ho => exact .accepted he rfl
  | rejected ho => exact .rejected rfl
  | reset_set hr => exact .reset he rfl rfl
  | _ => simp [Stream.park, enqueue, consume, dequeue, Stream.accept, ho] at ho'

/-- What ended the handshake is never changed. -/
theorem Fires.resolution_stays (h : Fires r st x o) (ho : st.opening = false)
    (hr : Resolution st y) : Resolution o.st y := by
  have herr : o.st.openErr = st.openErr := by
    rcases h.openErr with h | ⟨-, h, -⟩
    · exact h
    · simp [ho] at h
  have hmeta : o.st.acceptMeta = st.acceptMeta := by
    cases h with
    | accepted hm hg hg' ho' => simp [ho] at ho'
    | _ => rfl
  have hreset : st.reset = true → o.st.resetErr = st.resetErr := by
    intro hs
    cases h with
    | reset_set hr => simp [hs] at hr
    | _ => rfl
  cases hr with
  | accepted he hm => exact .accepted (herr.trans he) (hmeta.trans hm)
  | rejected he => exact .rejected (herr.trans he)
  | reset he hs hc => exact .reset (herr.trans he) (h.reset hs) ((hreset hs).trans hc)

/-- **What a critical section has to do with `ready`.** -/
inductive Readies (r : Ref) (st : Stream) (x : Section) (o : Outcome) : Prop
  | none (hx : x ≠ .closeReady) (ho : o.st.opening = st.opening)
      (hr : o.st.readyClosed = st.readyClosed) (hp : ∀ t ∈ o.push, t.closes = false)
  /-- `Serve` closes `ready` next. -/
  | answer (hx : x.answers = true) (ho : st.opening = true) (ho' : o.st.opening = false)
      (hr : o.st.readyClosed = st.readyClosed)
      (hp : closing (own r o.push) = 1)
  | close (hx : x = .closeReady) (ho : o.st.opening = st.opening)
      (hr : o.st.readyClosed = st.readyClosed + 1) (hp : ∀ t ∈ o.push, t.closes = false)
  /-- The reset that ends the handshake closes `ready` itself. -/
  | reset {cause : Cause} (hx : x = .setReset cause) (ho : st.opening = true)
      (ho' : o.st.opening = false) (hr : o.st.readyClosed = st.readyClosed + 1)
      (hp : ∀ t ∈ o.push, t.closes = false)

theorem readies_setReset (cause : Cause) :
    Readies r st (.setReset cause) (st.setReset r cause) := by
  have hp : ∀ t ∈ (st.setReset r cause).push, t.closes = false := by
    unfold setReset
    split <;> simp [Task.closes]
  by_cases hc : st.reset = false ∧ st.opening = true
  · exact .reset rfl hc.2 (by simp [setReset, hc]) (by simp [setReset, hc]) hp
  · refine .none (by simp) ?_ ?_ hp
    · cases hr : st.reset <;> simp_all [setReset]
    · cases hr : st.reset <;> simp_all [setReset]

/-- A section that ends no handshake and closes no channel. -/
theorem Fires.readies (h : Fires r st x o) (hx : ∀ cause, x ≠ .setReset cause) :
    Readies r st x o := by
  cases h with
  | accepted hm hg hg' ho =>
    refine .answer rfl ho rfl rfl ?_
    simp [Task.closes]
  | rejected ho =>
    refine .answer rfl ho rfl rfl ?_
    simp [Task.closes]
  | closeReady => exact .close rfl rfl rfl (by simp)
  | reset_again hr => exact absurd rfl (hx _)
  | reset_set hr => exact absurd rfl (hx _)
  | ignored h => exact .none (by cases h <;> simp) rfl rfl (by simp)
  | refused h => exact .none (by cases h <;> simp) rfl rfl (by simp [Task.closes])
  | detachBytes => exact .none (by simp) rfl rfl (by split_ifs <;> simp [Task.closes])
  | closeEndpoint => exact .none (by simp) rfl rfl (by simp +contextual [Task.closes])
  | _ => exact .none (by simp) rfl rfl (by simp [Stream.park, Task.closes, or_imp, forall_and])

theorem readies_of_enter (h : st.enter r observer buffered x = some o) : Readies r st x o := by
  by_cases hx : ∃ cause, x = .setReset cause
  · obtain ⟨cause, rfl⟩ := hx
    obtain rfl := Option.some.inj h
    exact readies_setReset cause
  · exact (fires_of_enter h).readies fun cause hc => hx ⟨cause, hc⟩

end Stream

theorem Task.Follows.closes {r : Ref} {t : Task} (h : t.Follows r) : t.closes = false := by
  cases h <;> rfl

namespace View

variable {r : Ref} {v v' : View} {es : List Entry}

theorem Leads.closes {st : Stream} {t : Task} {ts : Multiset Task} (h : Leads r st t ts) :
    t.closes = false ∧ ∀ t' ∈ ts, t'.closes = false := by
  cases h with
  | pump h =>
    refine ⟨rfl, fun t' ht' => ?_⟩
    rw [← own_append] at ht'
    have := h.tasks t' (mem_own ht')
    cases this <;> rfl
  | _ => simp [Task.closes]

/-- Only critical sections have to do with `ready`. -/
theorem Step.closing_eq (hs : Step r v none v') : closing v'.tasks = closing v.tasks := by
  cases hs with
  | sent ht hm hup =>
    simp [ht, closing_own fun t hm => (Emission.sent_follows _ t hm).closes, Task.closes]
  | lost ht h =>
    simp [ht, closing_own fun t hm => (Emission.failed_follows _ t hm).closes, Task.closes]
  | lead ht h => simp [ht, closing_eq_zero h.closes.2, h.closes.1]
  | detach ht => simp [ht, Task.closes]
  | arrive hid hl he hs => simp [closing_own fun t hm => (Session.dispatch_follows _ t hm).closes]
  | fail hl ht => rcases ht with ht | ht <;> simp [ht, Task.closes]
  | call hs hc => cases hc <;> simp [Task.closes]
  | down => rfl

/-- **The handshake is ended once, and `ready` closed once for it.** -/
structure Resolved (es : List Entry) (v : View) : Prop where
  handshake : v.Handshake
  /-- One section ends the handshake of a stream that was opened here. -/
  once : es.countP Entry.resolves + (if v.st.opening then 1 else 0) =
    if v.st.inbound then 0 else 1
  ready : v.st.readyClosed + closing v.tasks =
    es.countP Entry.resolves
  /-- `Serve` closes `ready` after an answer of the peer. -/
  served : closing v.tasks ≤ es.countP Entry.answers
  shown : ∀ e ∈ es, e.resolves = true → Resolution v.st e.sect

theorem Initial.resolved (h : Initial r v) : v.Resolved [] := by
  have hh := h.handshake
  cases h with
  | inbound => exact ⟨hh, by simp, by simp [Task.closes], by simp [Task.closes], by simp⟩
  | outbound hm => exact ⟨hh, by simp, by simp [Task.closes], by simp [Task.closes], by simp⟩

theorem Resolved.quiet (h : v.Resolved es) (hs : Step r v none v') : v'.Resolved es := by
  have hst := hs.quiet.1
  refine ⟨hs.handshake h.handshake, ?_, ?_, ?_, ?_⟩
  · rw [hst]
    exact h.once
  · rw [hst, hs.closing_eq]
    exact h.ready
  · rw [hs.closing_eq]
    exact h.served
  · rw [hst]
    exact h.shown

theorem Resolved.enters {observer : Bool} {x : Section} {o : Outcome} (h : v.Resolved es)
    (hs : Enters observer r v x o v') : v'.Resolved (es ++ [⟨v.st, x, o.st⟩]) := by
  obtain ⟨buffered, ho⟩ := hs.outcome
  have hf := hs.fires
  have hin : o.st.inbound = v.st.inbound := congrArg Prod.snd hf.name
  have hcount : closing v'.tasks + (if x = .closeReady then 1 else 0) =
      closing v.tasks + closing (own r o.push) := by
    have := hs.countP fun t => t.closes = true
    have hclose : (Task.sect r x).closes = true ↔ x = .closeReady := by
      cases x <;> simp [Task.closes]
    simpa [closing, hclose] using this
  have hready := Stream.readies_of_enter ho
  -- what ended the handshake before is still shown
  have hold (e : Entry) (he : e ∈ es) (hr : e.resolves = true) : Resolution o.st e.sect := by
    refine hf.resolution_stays ?_ (h.shown e he hr)
    have hpos := List.countP_pos_iff.mpr ⟨e, he, hr⟩
    have := h.once
    by_contra hopen
    rw [if_pos (by simpa using hopen)] at this
    split_ifs at this
    all_goals omega
  refine ⟨hs.step.handshake h.handshake, ?_, ?_, ?_, ?_⟩
  · -- the flag is cleared by the section that ends the handshake
    have hmono := hf.opening
    have := h.once
    rw [hs.st, hin, List.countP_append, List.countP_singleton]
    cases hb : v.st.opening <;> cases ha : o.st.opening <;> simp_all [Entry.resolves]
  · have hr := h.ready
    rw [hs.st, List.countP_append, List.countP_singleton]
    cases hready with
    | none hx hopen hrc hp =>
      rw [if_neg hx, closing_own hp] at hcount
      have hres : Entry.resolves ⟨v.st, x, o.st⟩ = false := by simp [Entry.resolves, hopen]
      rw [hres, if_neg (by simp)]
      omega
    | answer hx hb ha hrc hp =>
      have hne : x ≠ .closeReady := by rintro rfl; simp [Section.answers] at hx
      have hres : Entry.resolves ⟨v.st, x, o.st⟩ = true := by simp [Entry.resolves, hb, ha]
      rw [if_neg hne, hp] at hcount
      rw [hres, if_pos rfl]
      omega
    | close hx hopen hrc hp =>
      rw [if_pos hx, closing_own hp] at hcount
      have hres : Entry.resolves ⟨v.st, x, o.st⟩ = false := by simp [Entry.resolves, hopen]
      rw [hres, if_neg (by simp)]
      omega
    | reset hx hb ha hrc hp =>
      have hne : x ≠ .closeReady := by simp [hx]
      have hres : Entry.resolves ⟨v.st, x, o.st⟩ = true := by simp [Entry.resolves, hb, ha]
      rw [if_neg hne, closing_own hp] at hcount
      rw [hres, if_pos rfl]
      omega
  · have hsv := h.served
    rw [List.countP_append, List.countP_singleton]
    cases hready with
    | answer hx hb ha hrc hp =>
      have hans : Entry.answers ⟨v.st, x, o.st⟩ = true := by
        simp [Entry.answers, Entry.resolves, hb, ha, hx]
      rw [hp] at hcount
      rw [hans, if_pos rfl]
      omega
    | none hx hopen hrc hp =>
      rw [closing_own hp] at hcount
      omega
    | close hx hopen hrc hp =>
      rw [closing_own hp] at hcount
      omega
    | reset hx hb ha hrc hp =>
      rw [closing_own hp] at hcount
      omega
  · intro e he hr
    rw [hs.st]
    rcases List.mem_append.mp he with he | he
    · exact hold e he hr
    · obtain rfl := List.mem_singleton.mp he
      obtain ⟨hb, ha⟩ : v.st.opening = true ∧ o.st.opening = false := by
        simpa [Entry.resolves] using hr
      exact hf.resolution (h.handshake.opening hb).2.1 hb ha

end View

namespace Session

variable {cfg : Config} {ok : Session → Label → Prop} {s t u : Session} {r : Ref} {st st' : Stream}
variable {es : List Entry} {l : Label}

theorem resolved (h : Records step ok (entry r) (new cfg) es s) (hst : s.heap[r]? = some st) :
    (s.view r st).Resolved es :=
  view_records (fun _ hi => hi.resolved) (fun _ _ _ hs hv => hv.quiet hs)
    (fun _ _ _ _ _ hs hv => hv.enters hs) h hst

theorem closing_tasksOf (s : Session) (r : Ref) :
    closing (s.tasksOf r) = (pending s.threads).count (.sect r .closeReady) := by
  rw [closing, tasksOf, Multiset.countP_filter, Multiset.count]
  refine Multiset.countP_congr rfl fun t _ => ?_
  cases t with
  | sect r' x => cases x <;> simp [Task.closes, eq_comm]
  | _ => simp [Task.closes]

/-- The step that closes `ready` ended the handshake, or its goroutine did right before. -/
def ClosesReady (s : Session) (r : Ref) (es : List Entry) (l : Label) (st st' : Stream) : Prop :=
  (∃ cause, s.entering r l = some (.setReset cause)) ∧ st.opening = true ∧ st'.opening = false ∨
    s.entering r l = some .closeReady ∧ ∃ e ∈ es, e.answers = true

theorem closesReady (h : Records step ok (entry r) (new cfg) es s) (hst : s.heap[r]? = some st)
    (hs : s.step l = some u) (hst' : u.heap[r]? = some st')
    (hlt : st.readyClosed < st'.readyClosed) : s.ClosesReady r es l st st' := by
  have hreach := h.reaches
  cases hx : s.entering r l with
  | none =>
    obtain ⟨st₁, hst₁, hv⟩ :=
      quiet_of_step (reaches_table hreach) (reaches_serving hreach) hs hx hst
    obtain rfl := Option.some.inj (hst₁.symm.trans hst')
    have heq : st₁ = st := by
      rcases hv with hv | hv
      · exact congrArg View.st hv
      · exact hv.quiet.1
    exact absurd (heq ▸ hlt) (Nat.lt_irrefl _)
  | some x =>
    obtain ⟨o, hst₁, hv⟩ := enters_of_step hs hx hst
    obtain rfl := Option.some.inj (hst₁.symm.trans hst')
    obtain ⟨buffered, ho⟩ := hv.outcome
    cases Stream.readies_of_enter ho with
    | none hne hopen hrc hp => exact absurd hlt (by rw [hrc]; exact Nat.lt_irrefl _)
    | answer ha hb hc hrc hp => exact absurd hlt (by rw [hrc]; exact Nat.lt_irrefl _)
    | close hc hopen hrc hp =>
      -- a goroutine is about to close it, so the peer has answered
      subst hc
      refine .inr ⟨hx, ?_⟩
      have hpos : 0 < closing (s.view r st).tasks :=
        Multiset.countP_pos_of_mem hv.mem rfl
      have := (resolved h hst).served
      exact List.countP_pos_iff.mp (by omega)
    | reset hc hb ha hrc hp => exact .inl ⟨⟨_, hx.trans (congrArg some hc)⟩, hb, ha⟩

/-- `opening` is never set again. -/
theorem opening_stays (h : Reaches step ok (new cfg) s) (hst : s.heap[r]? = some st)
    (ho : st.opening = false) (ht : Reaches step ok s t) :
    ∃ st', t.heap[r]? = some st' ∧ st'.opening = false := by
  apply view_stays (I := fun v => v.st.opening = false) h hst ht ho
  · intro v v' hs hv
    rwa [hs.quiet.1]
  · intro v x o v' hs hv
    rw [hs.st]
    by_contra hc
    simp [hs.fires.opening (by simpa using hc)] at hv

/-- A reset stream has the error of the reset. -/
theorem resetErr_ne_none (h : Reaches step ok (new cfg) s) (hst : s.heap[r]? = some st)
    (hr : st.reset = true) : st.resetErr ≠ none := by
  refine view_inductive (I := fun _ v => v.st.reset = true → v.st.resetErr ≠ none)
    (fun r v hi => by cases hi <;> simp) (fun r v a v' hs hv => ?_) h hst hr
  rcases hs.fires with ⟨hst, -⟩ | ⟨x, o, -, -, hf, hst, -⟩
  · rwa [hst]
  · rw [hst]
    exact hf.resetErr hv

/-- `Open` reports a reset. -/
theorem openResult_of_reset (h : Reaches step ok (new cfg) s) (hst : s.heap[r]? = some st)
    (hr : st.reset = true) {i : ℕ} {rest : List Task}
    (ht : s.threads[i]? = some (.sect r .openResult :: rest)) (c : Choice) :
    ∃ u err, s.step (.run i c) = some u ∧
      u.threads[i]? = some (.openFail (some r) err :: rest) := by
  have hi := (List.getElem?_eq_some_iff.mp ht).1
  obtain ⟨err, herr⟩ : ∃ err, st.openResult r = { st, push := [.openFail (some r) err] } := by
    unfold Stream.openResult
    split
    · exact ⟨_, rfl⟩
    · exact ⟨_, rfl⟩
    · next hnone => exact absurd hnone (resetErr_ne_none h hst hr)
  cases hu : s.step (.run i c) with
  | none => simp [step, ht, exec, enter, hst, Stream.enter] at hu
  | some u =>
    simp only [step, ht, exec, enter, hst, Stream.enter, herr, Option.bind_eq_bind,
      Option.bind_some, Option.pure_def, Option.map_some, Option.some.injEq] at hu
    subst hu
    exact ⟨_, err, rfl, advance_getElem?_self hi⟩

/-- **The open handshake ends once.** In every run, the channel `ready` of a stream is closed at
most once, and only by the step that clears `opening` or right after it by the same goroutine;
`opening` is never set again; one section has ended the handshake of a stream that was opened here,
and the stream shows which: an accept, a rejection or a reset; and a reset before `Open` looks at
the result is reported as an error. -/
theorem open_resolves_once (h : Records step Always (entry r) (new cfg) es s)
    (hst : s.heap[r]? = some st) :
    st.readyClosed ≤ 1 ∧
    st.readyClosed + (pending s.threads).count (.sect r .closeReady) =
      (es.filter Entry.resolves).length ∧
    (∀ l u st', s.step l = some u → u.heap[r]? = some st' → st.readyClosed < st'.readyClosed →
      s.ClosesReady r es l st st') ∧
    (st.opening = false → ∀ t, Reaches step Always s t →
      ∃ st', t.heap[r]? = some st' ∧ st'.opening = false) ∧
    (st.inbound = false → st.opening = false →
      ∃ e, es.filter Entry.resolves = [e] ∧ Resolution st e.sect) ∧
    ∀ i rest c, s.threads[i]? = some (.sect r .openResult :: rest) → st.reset = true →
      ∃ u err, s.step (.run i c) = some u ∧
        u.threads[i]? = some (.openFail (some r) err :: rest) := by
  have hres := resolved h hst
  have hready : st.readyClosed + closing (s.tasksOf r) = es.countP Entry.resolves := hres.ready
  have honce : es.countP Entry.resolves + (if st.opening then 1 else 0) =
      if st.inbound then 0 else 1 := hres.once
  refine ⟨?_, ?_, fun l u st' => closesReady h hst, fun ho t => opening_stays h.reaches hst ho,
    fun hi ho => ?_, fun i rest c ht hr => openResult_of_reset h.reaches hst hr ht c⟩
  · split_ifs at honce <;> omega
  · rw [← List.countP_eq_length_filter, ← hready, closing_tasksOf]
  · -- one entry of the record ends `opening`
    rw [hi, ho] at honce
    have hone : (es.filter Entry.resolves).length = 1 := by
      rw [← List.countP_eq_length_filter]
      simpa using honce
    obtain ⟨e, he⟩ := List.length_eq_one_iff.mp hone
    have hmem : e ∈ es.filter Entry.resolves := by simp [he]
    obtain ⟨hmem, hr⟩ := List.mem_filter.mp hmem
    exact ⟨e, he, hres.shown e hmem hr⟩

/-- The peer accepts the stream and resets it before `Open` looks at the result. -/
theorem open_resolves_once_reset :
    ∃ es s st, Records step Always (entry 0) (new { role := .host }) es s ∧
      s.heap[0]? = some st ∧ st.readyClosed ≤ 1 ∧
      (∃ e, es.filter Entry.resolves = [e] ∧ Resolution st e.sect) ∧
      ∃ u err, s.step (.run 1 .go) = some u ∧ u.threads[1]? = some [.openFail (some 0) err] := by
  obtain ⟨es, s, hs, ht⟩ := exists_records_of_run step Always (entry 0) (new { role := .host })
    (fun _ s => s.threads[1]? == some [.sect 0 .openResult] &&
      s.heap[0]?.any fun st => st.reset && !st.inbound && !st.opening)
    [.call (.open (text "svc") []), .run 1 .go, .run 1 .go,
      .recv (Outgoing.app (.appAccept 1 [] 262144)).frame, .run 0 .go, .run 0 .go, .run 0 .go,
      .run 1 (.select .ready), .recv (Outgoing.app (.appReset 1 5 [])).frame, .run 0 .go,
      .run 0 .go] (by decide)
  simp only [Bool.and_eq_true, Option.any_eq_true, Bool.not_eq_true', beq_iff_eq] at ht
  obtain ⟨hi, st, hst, ⟨hr, hin⟩, ho⟩ := ht
  obtain ⟨hready, -, -, -, hone, hreset⟩ := open_resolves_once hs hst
  exact ⟨es, s, st, hs, hst, hready, hone hin ho, hreset 1 [] .go hi hr⟩

end Session

end Mvcp.App
