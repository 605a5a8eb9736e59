import Mvcp.App.Pairing
import Mvcp.Library.Record

/-!
# The copy loops of `Bridge`

`Bridge` runs two copy loops between a stream and an endpoint: `io.Copy(st, ep)` writes to the
stream what the endpoint gives, and `io.Copy(ep, st)` hands to the endpoint what the stream's `Read`
returned. As long as one `Bridge` is all that reads from the stream and writes to it, the loops
change nothing: what the endpoint took are the first of the bytes that were read from the stream,
and what was written to the stream are the first of the bytes that the endpoint gave. With the
integrity of the streams, the endpoint of one side and the application of the other see each
other's bytes.

## Main definitions

* `Traffic`, `Session.traffic`: what the endpoints gave and took, and who else uses a stream
* `Traffic.Sole`: one `Bridge` is all that uses the stream
* `Pipe`: the bytes of a stream, and of its endpoint
* `Task.agrees`: what a step of a copy loop says about them

## Main results

* `Session.piping`: the copy loops of a session change, drop and repeat nothing
* `Net.bridge_faithful`: nor does anything between the endpoint of a stream and the application at
  its other end
-/

namespace Mvcp.App

open Library (Reaches Always Records pending advance exists_records_of_run)

/-! ## The steps of the copy loops -/

/-- The two copy loops of `Bridge`. -/
inductive Loop
  /-- `io.Copy(st, ep)`. -/
  | toStream
  /-- `io.Copy(ep, st)`. -/
  | toEndpoint
  deriving DecidableEq

namespace Task

/-- The steps of a copy loop and of the calls on the stream that it makes, or those of `acceptOpen`
that lead to its start. -/
def carries (w : Loop) : Task → Bool
  | acceptOpen .. | handlerOpen .. | sect _ (.acceptWindow ..) | emit _ (.accept ..)
  | pump _ _ .start => true
  | sect _ (.read ..) | sect _ (.readWait ..) | pump _ _ (.writeEp _) => w = .toEndpoint
  | pump _ _ .readEp | sect _ (.write ..) | pump _ _ (.wrote ..) => w = .toStream
  | _ => false

end Task

namespace Stream.Fires

variable {r : Ref} {st : Stream} {x : Section} {o : Outcome}

/-- A section of a copy loop leads to one step of the same loop at most. -/
theorem push_carries (h : Fires r st x o) (w : Loop) :
    o.push.countP (Task.carries w) ≤ if (Task.sect r x).carries w then 1 else 0 := by
  cases h with
  | @read_data n k | @read_failed n k | @read_eof n k =>
    cases k <;> simp [Task.carries, List.countP_cons, Caller.read, Caller.readFailed]
  | @write_zero k | @write_failed p k | @write_overflow p k | @write_queued p k =>
    cases k <;> simp [Task.carries, List.countP_cons, Caller.wrote]
  | detachBytes => split_ifs <;> simp [Task.carries]
  | closeEndpoint => cases st.ep <;> simp [Task.carries]
  | _ => simp [Stream.park, Task.carries, List.countP_cons]

end Stream.Fires

namespace Emission

variable {r : Ref} {x : Emission} {w : Loop}

/-- A frame write leads to the start of a copy loop if it is that of an `APP_ACCEPT`. -/
theorem countP_carries {ts : List Task} (hts : ts = x.sent r ∨ ts = x.failed r) :
    ts.countP (Task.carries w) ≤ if (Task.emit r x).carries w then 1 else 0 := by
  rcases hts with rfl | rfl <;> cases x <;>
    simp [Emission.sent, Emission.failed, Task.carries, List.countP_cons]

end Emission

/-- A step of a copy loop leads to one step of the same loop at most. -/
theorem Session.Pumps.carries {r : Ref} {e : EpRef} {ep ep' : Endpoint} {x : Pump}
    {push : List Task} {spawn : List (List Task)} (h : Session.Pumps r e ep x ep' push spawn)
    (w : Loop) :
    (push ++ spawn.flatten).countP (Task.carries w) ≤
      if (Task.pump r e x).carries w then 1 else 0 := by
  cases h with
  | @read_nil err | @wrote err => cases err <;> simp [Session.copyIn, Task.carries]
  | @inDone err | @outDone err => cases err <;> simp [Task.carries]
  | start ht | write_ok ht => cases ht <;> cases w <;> simp [Task.carries]
  | _ => cases w <;> simp [Task.carries]

namespace Loop

variable (w : Loop) (t : Task) (ts us : Multiset Task)

/-- How many of the steps belong to the copy loop. -/
def count (w : Loop) (ts : Multiset Task) : ℕ := ts.countP fun t => t.carries w = true

@[simp] theorem count_zero : w.count 0 = 0 := rfl

@[simp] theorem count_cons : w.count (t ::ₘ ts) = w.count ts + if t.carries w then 1 else 0 :=
  Multiset.countP_cons ..

@[simp] theorem count_singleton : w.count {t} = if t.carries w then 1 else 0 := by
  rw [← Multiset.cons_zero, count_cons, count_zero, zero_add]

@[simp] theorem count_add : w.count (ts + us) = w.count ts + w.count us := Multiset.countP_add ..

theorem count_le_card : w.count ts ≤ ts.card := Multiset.countP_le_card ..

theorem count_own_le (r : Ref) (ts : List Task) :
    w.count (own r ts) ≤ ts.countP (Task.carries w) := by
  refine (View.countP_own_le _ ts).trans (le_of_eq ?_)
  simp

variable {w ts}

theorem count_eq_zero : w.count ts = 0 ↔ ∀ t ∈ ts, t.carries w = false := by
  simp [count, Multiset.countP_eq_zero]

end Loop

/-! ## Pipes -/

/-- The bytes of a stream, and of its endpoint. -/
structure Pipe where
  /-- What the endpoint took. -/
  took : Bytes
  /-- What the stream's `Read` returned. -/
  read : Bytes
  /-- What the stream's `Write` took. -/
  wrote : Bytes
  /-- What the endpoint gave. -/
  gave : Bytes

/-- What a step that is pending says about the bytes: those in its hand were read and not yet
written. -/
def Task.agrees (x : Pipe) : Task → Prop
  | acceptOpen .. | handlerOpen .. | sect _ (.acceptWindow ..) | emit _ (.accept ..)
  | pump _ _ .start => x = ⟨[], [], [], []⟩
  | sect _ (.read ..) | sect _ (.readWait ..) => x.took = x.read
  | pump _ _ (.writeEp p) => x.took ++ p = x.read
  | pump _ _ .readEp | pump _ _ (.wrote none _) => x.wrote = x.gave
  | sect _ (.write p _) => x.wrote ++ p = x.gave
  | _ => True

/-- **The copy loops change nothing**, and there is one of each. -/
structure Pipe.Sound (x : Pipe) (ts : Multiset Task) : Prop where
  toEndpoint : x.took <+: x.read
  toStream : x.wrote <+: x.gave
  tasks : ∀ t ∈ ts, t.agrees x
  loops : ∀ w, Loop.count w ts ≤ 1

variable {x : Pipe} {r : Ref}

section Sound

variable {old new rest : Multiset Task}

theorem Task.agrees_toEndpoint {t : Task} (h : t.carries .toEndpoint = false) (ht : t.agrees x)
    (took read : Bytes) : t.agrees { x with took, read } := by
  unfold Task.agrees at ht ⊢
  split at ht <;> simp_all [Task.carries]

theorem Task.agrees_toStream {t : Task} (h : t.carries .toStream = false) (ht : t.agrees x)
    (wrote gave : Bytes) : t.agrees { x with wrote, gave } := by
  unfold Task.agrees at ht ⊢
  split at ht <;> simp_all [Task.carries]

/-- A step that belongs to no copy loop says nothing. -/
theorem Task.agrees_of_not_carries {t : Task} (h : ∀ w, t.carries w = false) : t.agrees x := by
  have h₁ := h .toEndpoint
  have h₂ := h .toStream
  unfold Task.agrees
  split <;> trivial

/-- That steps belong to no copy loop is seen by evaluation. -/
theorem Task.not_carries_of_all {ts : List Task}
    (h : (ts.all fun t => !t.carries .toEndpoint && !t.carries .toStream) = true) :
    ∀ t ∈ ts, ∀ w, t.carries w = false := by
  intro t hm w
  have ht := List.all_eq_true.mp h t hm
  rw [Bool.and_eq_true, Bool.not_eq_true', Bool.not_eq_true'] at ht
  cases w with
  | toStream => exact ht.2
  | toEndpoint => exact ht.1

theorem Session.FailTask.not_carries {t : Task} (h : Session.FailTask t) (w : Loop) :
    t.carries w = false := by
  cases h <;> rfl

/-- Steps are replaced by others, and the bytes stay as they are. -/
theorem Pipe.Sound.replace (h : x.Sound (old + rest))
    (hnew : (∀ t ∈ old, t.agrees x) → ∀ t ∈ new, t.agrees x)
    (hle : ∀ w, Loop.count w new ≤ Loop.count w old) : x.Sound (new + rest) := by
  have hold : ∀ t ∈ old, t.agrees x := fun t hm => h.tasks t (Multiset.mem_add.mpr (.inl hm))
  refine ⟨h.toEndpoint, h.toStream, fun t hm => ?_, fun w => ?_⟩
  · rcases Multiset.mem_add.mp hm with hm | hm
    · exact hnew hold t hm
    · exact h.tasks t (Multiset.mem_add.mpr (.inr hm))
  · have hone := h.loops w
    rw [Loop.count_add] at hone ⊢
    exact (Nat.add_le_add_right (hle w) _).trans hone

/-- Steps of no copy loop come up. -/
theorem Pipe.Sound.more (h : x.Sound rest) (hnew : ∀ t ∈ new, ∀ w, t.carries w = false) :
    x.Sound (new + rest) := by
  have h₀ : x.Sound (0 + rest) := by rwa [zero_add]
  refine h₀.replace (fun _ t hm => Task.agrees_of_not_carries (hnew t hm)) fun w => ?_
  rw [Loop.count_eq_zero.mpr fun t hm => hnew t hm w]
  exact Nat.zero_le _

/-- If one step belongs to a copy loop, the others do not. -/
theorem Pipe.Sound.not_carries {t : Task} {w : Loop} (h : x.Sound (t ::ₘ rest))
    (ht : t.carries w = true) : ∀ t' ∈ rest, t'.carries w = false := by
  have hone := h.loops w
  rw [Loop.count_cons, if_pos ht] at hone
  exact Loop.count_eq_zero.mp (by omega)

theorem Pipe.Sound.loops_replace {t : Task} (h : x.Sound (t ::ₘ rest))
    (hcount : ∀ w, Loop.count w new ≤ if t.carries w then 1 else 0) (w : Loop) :
    Loop.count w (new + rest) ≤ 1 := by
  have hone := h.loops w
  have hnew := hcount w
  rw [Loop.count_cons] at hone
  rw [Loop.count_add]
  omega

/-- A step that changes none of the bytes. -/
theorem Pipe.Sound.quiet_step {t : Task} (h : x.Sound (t ::ₘ rest))
    (hcount : ∀ w, Loop.count w new ≤ if t.carries w then 1 else 0)
    (hnew : ∀ t' ∈ new, t'.agrees x) : x.Sound (new + rest) := by
  refine ⟨h.toEndpoint, h.toStream, fun t' hm => ?_, h.loops_replace hcount⟩
  rcases Multiset.mem_add.mp hm with hm | hm
  · exact hnew t' hm
  · exact h.tasks t' (Multiset.mem_cons_of_mem hm)

/-- A step of `io.Copy(ep, st)`. -/
theorem Pipe.Sound.toEndpoint_step {t : Task} {took read : Bytes} (h : x.Sound (t ::ₘ rest))
    (ht : t.carries .toEndpoint = true)
    (hcount : ∀ w, Loop.count w new ≤ if t.carries w then 1 else 0)
    (hle : took <+: read) (hnew : ∀ t' ∈ new, t'.agrees { x with took, read }) :
    Sound { x with took, read } (new + rest) := by
  refine ⟨hle, h.toStream, fun t' hm => ?_, h.loops_replace hcount⟩
  rcases Multiset.mem_add.mp hm with hm | hm
  · exact hnew t' hm
  · exact Task.agrees_toEndpoint (h.not_carries ht t' hm)
      (h.tasks t' (Multiset.mem_cons_of_mem hm)) took read

/-- A step of `io.Copy(st, ep)`. -/
theorem Pipe.Sound.toStream_step {t : Task} {wrote gave : Bytes} (h : x.Sound (t ::ₘ rest))
    (ht : t.carries .toStream = true)
    (hcount : ∀ w, Loop.count w new ≤ if t.carries w then 1 else 0)
    (hle : wrote <+: gave) (hnew : ∀ t' ∈ new, t'.agrees { x with wrote, gave }) :
    Sound { x with wrote, gave } (new + rest) := by
  refine ⟨h.toEndpoint, hle, fun t' hm => ?_, h.loops_replace hcount⟩
  rcases Multiset.mem_add.mp hm with hm | hm
  · exact hnew t' hm
  · exact Task.agrees_toStream (h.not_carries ht t' hm)
      (h.tasks t' (Multiset.mem_cons_of_mem hm)) wrote gave

/-- A critical section of the stream. -/
theorem Pipe.Sound.sect {st : Stream} {y : Section} {o : Outcome}
    (h : x.Sound (.sect r y ::ₘ rest)) (hf : Stream.Fires r st y o) :
    Sound { x with read := x.read ++ returned o.log, wrote := x.wrote ++ written o.log }
      (own r o.push + rest) := by
  have hsect := h.tasks (.sect r y) (Multiset.mem_cons_self _ rest)
  have hcount (w : Loop) : w.count (own r o.push) ≤ if (Task.sect r y).carries w then 1 else 0 :=
    (w.count_own_le r _).trans (hf.push_carries w)
  -- most sections change none of the bytes
  have hquiet (hlog : returned o.log = [] ∧ written o.log = [])
      (hnew : ∀ t ∈ o.push, t.agrees x) :
      Sound { x with read := x.read ++ returned o.log, wrote := x.wrote ++ written o.log }
        (own r o.push + rest) := by
    rw [hlog.1, hlog.2, List.append_nil, List.append_nil]
    exact h.quiet_step hcount fun t hm => hnew t (mem_own hm)
  have hidle (hnew : ∀ t ∈ o.push, ∀ w, t.carries w = false) : ∀ t ∈ o.push, t.agrees x :=
    fun t hm => Task.agrees_of_not_carries (hnew t hm)
  cases hf with
  | @read_data n k c q hn hr hq =>
    -- `Read` returns bytes to the copy loop, which has handed over all that it read before
    have heq : x.took = x.read := hsect
    simp only [returned_singleton, Event.returned, written_singleton, Event.written,
      List.append_nil]
    refine h.toEndpoint_step rfl hcount (heq ▸ List.prefix_append _ _) fun t hm => ?_
    have hm := mem_own hm
    rw [List.mem_append] at hm
    rcases hm with hm | hm
    · simp only [List.mem_cons, List.not_mem_nil, or_false] at hm
      rcases hm with rfl | rfl <;> trivial
    · cases k <;> simp_all [Caller.read, Task.agrees]
  | @write_queued p k hp hr hl hc hq =>
    -- `Write` queues the chunk that the copy loop has in hand
    have heq : x.wrote ++ p = x.gave := hsect
    simp only [returned_singleton, Event.returned, written_singleton, Event.written,
      List.append_nil]
    refine h.toStream_step rfl hcount (heq ▸ List.prefix_rfl) fun t hm => ?_
    have hm := mem_own hm
    cases k <;> simp_all [Caller.wrote, Task.agrees]
  | @write_zero k =>
    have heq : x.wrote ++ [] = x.gave := hsect
    exact hquiet ⟨rfl, rfl⟩ (by simpa [Task.agrees] using fun _ _ _ => heq)
  | read_park | read_woken | acceptWindow =>
    exact hquiet ⟨rfl, rfl⟩ (by simpa [Task.agrees] using hsect)
  | detachBytes => exact hquiet ⟨rfl, rfl⟩ (by split_ifs <;> simp [Task.agrees])
  | closeEndpoint => exact hquiet ⟨rfl, rfl⟩ (by cases st.ep <;> simp [Task.agrees])
  | finish_now hf hlog | markOpened_now hf ho hs hlog =>
    refine hquiet ?_ (by simp [Task.agrees])
    rcases hlog with rfl | rfl <;> exact ⟨rfl, rfl⟩
  | write_failed | write_overflow | read_failed | read_eof =>
    exact hquiet ⟨rfl, rfl⟩ (by simp [Task.agrees, or_imp, forall_and])
  | _ => exact hquiet ⟨rfl, rfl⟩ (hidle (Task.not_carries_of_all rfl))

/-! ## What the endpoints see -/

/-- What passed between a copy loop of the stream and its endpoint, and the calls of the application
that read or write the stream. -/
inductive Traffic
  /-- The endpoint took the bytes. -/
  | took (r : Ref) (p : Bytes)
  /-- The endpoint gave the bytes. -/
  | gave (r : Ref) (p : Bytes)
  /-- The application called `Bridge` with the stream. -/
  | bridged (r : Ref)
  /-- The application called `Read` or `Write` of the stream. -/
  | used (r : Ref)
  deriving DecidableEq

namespace Traffic

def ref : Traffic → Ref
  | took r _ | gave r _ | bridged r | used r => r

/-- The bytes that the endpoint of the stream `r` took. -/
def tookBy (r : Ref) (es : List Traffic) : Bytes :=
  es.flatMap fun
    | took r' p => if r' = r then p else []
    | _ => []

/-- The bytes that the endpoint of the stream `r` gave. -/
def gaveBy (r : Ref) (es : List Traffic) : Bytes :=
  es.flatMap fun
    | gave r' p => if r' = r then p else []
    | _ => []

/-- **One `Bridge` is all that reads or writes the stream**: the one of `acceptOpen`, for a stream
that the peer opened, or else one that the application called. -/
def Sole (r : Ref) (inbound : Bool) (es : List Traffic) : Prop :=
  used r ∉ es ∧ es.count (bridged r) ≤ if inbound then 0 else 1

instance (r : Ref) (inbound : Bool) (es : List Traffic) : Decidable (Sole r inbound es) :=
  inferInstanceAs (Decidable (_ ∧ _))

variable {es es' : List Traffic}

theorem tookBy_append : tookBy r (es ++ es') = tookBy r es ++ tookBy r es' := List.flatMap_append

theorem gaveBy_append : gaveBy r (es ++ es') = gaveBy r es ++ gaveBy r es' := List.flatMap_append

theorem by_eq_nil (h : ∀ e ∈ es, e.ref ≠ r) : tookBy r es = [] ∧ gaveBy r es = [] := by
  simp only [tookBy, gaveBy, List.flatMap_eq_nil_iff]
  constructor <;> intro e he <;> have := h e he <;> cases e <;> simp_all [ref]

theorem Sole.of_append {inbound : Bool} (h : Sole r inbound (es ++ es')) : Sole r inbound es := by
  obtain ⟨hused, hcount⟩ := h
  rw [List.count_append] at hcount
  exact ⟨fun hm => hused (List.mem_append_left _ hm), by omega⟩

/-- The start of the `Bridge` that the application has not called yet. -/
def toCome (r : Ref) (inbound : Bool) (es : List Traffic) : Multiset Task :=
  if inbound ∨ bridged r ∈ es then 0 else {.pump r 0 .start}

theorem toCome_append {inbound : Bool} (h : bridged r ∉ es') :
    toCome r inbound (es ++ es') = toCome r inbound es := by
  simp [toCome, h]

end Traffic

open Traffic (tookBy gaveBy Sole toCome)

/-- What a step of a copy loop exchanges with the endpoint. -/
def Task.traffic : Task → Choice → List Traffic
  | pump r _ .readEp, .epRead data _ => [.gave r data]
  | pump r _ (.writeEp p), .epWrite n _ => [.took r (p.take n)]
  | pump r _ (.writeEp p), .epReadFrom _ => [.took r p]
  | _, _ => []

/-- A step of a copy loop. -/
theorem Pipe.Sound.pump {s : Session} {n : Next} {e : EpRef} {y : Pump} {c : Choice}
    (h : x.Sound (.pump r e y ::ₘ rest)) (hn : s.pump r e y c = some n) :
    Sound { x with took := x.took ++ tookBy r ((Task.pump r e y).traffic c),
                   gave := x.gave ++ gaveBy r ((Task.pump r e y).traffic c) }
      (own r (n.push ++ n.spawn.flatten) + rest) := by
  have htask := h.tasks (.pump r e y) (Multiset.mem_cons_self _ rest)
  have hcount (w : Loop) : w.count (own r (n.push ++ n.spawn.flatten)) ≤
      if (Task.pump r e y).carries w then 1 else 0 := by
    cases Session.acts_pump hn with
    | pump hep hp => exact (w.count_own_le r _).trans (hp.carries w)
  have hquiet (htraffic : (Task.pump r e y).traffic c = [])
      (hnew : ∀ t ∈ n.push ++ n.spawn.flatten, t.agrees x) :
      Sound { x with took := x.took ++ tookBy r ((Task.pump r e y).traffic c),
                     gave := x.gave ++ gaveBy r ((Task.pump r e y).traffic c) }
        (own r (n.push ++ n.spawn.flatten) + rest) := by
    simp only [htraffic, tookBy, gaveBy, List.flatMap_nil, List.append_nil]
    exact h.quiet_step hcount fun t hm => hnew t (mem_own hm)
  -- what follows when `took` has caught up with `read`
  have hout {x : Pipe} (heq : x.took = x.read) : (Session.copyOut r e c).agrees x := by
    have hc := Session.copying_copyOut r e c
    generalize Session.copyOut r e c = t at hc ⊢
    cases hc with
    | read hk => exact heq
    | done => trivial
  simp only [Session.pump, Option.bind_eq_bind, Option.bind_eq_some_iff] at hn
  obtain ⟨ep, -, hn⟩ := hn
  cases y with
  | start =>
    obtain rfl := Option.some.inj hn
    -- nothing was read or written before `Bridge` started
    obtain rfl : x = ⟨[], [], [], []⟩ := htask
    have hstart : (Session.copyOut r e c).agrees ⟨[], [], [], []⟩ := hout rfl
    refine hquiet rfl fun t hm => ?_
    simp only [List.nil_append, List.flatten_cons, List.flatten_nil, List.append_nil,
      List.mem_append, List.mem_cons, List.not_mem_nil, or_false] at hm
    rcases hm with rfl | rfl | rfl | rfl
    · rfl
    · exact hstart
    · trivial
    · trivial
  | readEp =>
    -- what the endpoint gives is in the hand of the copy loop
    have heq : x.wrote = x.gave := htask
    cases c with
    | epRead data err =>
      obtain rfl := Option.some.inj hn
      have hgave : tookBy r ((Task.pump r e .readEp).traffic (.epRead data err)) = [] ∧
          gaveBy r ((Task.pump r e .readEp).traffic (.epRead data err)) = data := by
        simp [Task.traffic, tookBy, gaveBy]
      rw [hgave.1, hgave.2, List.append_nil]
      refine h.toStream_step rfl hcount (heq ▸ List.prefix_append _ _) fun t hm => ?_
      have hm := mem_own hm
      split_ifs at hm with hd
      · cases err <;> simp_all [Session.copyIn, Task.agrees]
      · simp_all [Task.agrees]
    | _ => simp at hn
  | wrote err er =>
    cases err with
    | none =>
      obtain rfl := Option.some.inj hn
      have heq : x.wrote = x.gave := htask
      exact hquiet rfl (by cases er <;> simp [Session.copyIn, Task.agrees, heq])
    | some err =>
      obtain rfl := Option.some.inj hn
      exact hquiet rfl (by simp [Task.agrees])
  | inDone err | outDone err =>
    obtain rfl := Option.some.inj hn
    exact hquiet rfl (by cases err <;> simp [Task.agrees])
  | writeEp p =>
    -- the endpoint takes a part of the chunk and fails, or all of it
    have heq : x.took ++ p = x.read := htask
    cases c with
    | epWrite k err =>
      simp only at hn
      split_ifs at hn with hk
      obtain rfl := Option.some.inj hn
      have htook : tookBy r ((Task.pump r e (.writeEp p)).traffic (.epWrite k err)) = p.take k ∧
          gaveBy r ((Task.pump r e (.writeEp p)).traffic (.epWrite k err)) = [] := by
        simp [Task.traffic, tookBy, gaveBy]
      rw [htook.1, htook.2, List.append_nil]
      refine h.toEndpoint_step rfl hcount ?_ fun t hm => ?_
      · rw [← heq]
        exact (List.prefix_append_right_inj _).mpr (List.take_prefix k p)
      · obtain rfl : t = Session.copyOut r e (.epWrite k err) := by simpa using mem_own hm
        cases err with
        | none =>
          obtain rfl := hk.1 rfl
          exact hout (by simpa using heq)
        | some err => trivial
    | epReadFrom k =>
      obtain rfl := Option.some.inj hn
      have htook : tookBy r ((Task.pump r e (.writeEp p)).traffic (.epReadFrom k)) = p ∧
          gaveBy r ((Task.pump r e (.writeEp p)).traffic (.epReadFrom k)) = [] := by
        simp [Task.traffic, tookBy, gaveBy]
      rw [htook.1, htook.2, List.append_nil]
      refine h.toEndpoint_step rfl hcount (by rw [heq]) fun t hm => ?_
      obtain rfl : t = Session.copyOut r e (.epReadFrom k) := by simpa using mem_own hm
      exact hout heq
    | _ => simp at hn

/-- A stream that was just created. -/
theorem View.Initial.sound {v : View} {es : List Traffic} (h : View.Initial r v)
    (hes : .bridged r ∉ es) :
    Pipe.Sound ⟨[], returned v.log, written v.log, []⟩ (v.tasks + toCome r v.st.inbound es) := by
  cases h with
  | inbound =>
    refine ⟨List.prefix_rfl, List.prefix_rfl, by simp [Task.agrees, toCome], fun w => ?_⟩
    exact (w.count_le_card _).trans (by simp [toCome])
  | outbound =>
    refine ⟨List.prefix_rfl, List.prefix_rfl, by simp [Task.agrees, toCome, hes], fun w => ?_⟩
    rw [Loop.count_add, Loop.count_eq_zero.mpr (by simp [Task.carries]), zero_add]
    exact (w.count_le_card _).trans (by simp [toCome, hes])

end Sound

open Traffic (tookBy gaveBy Sole toCome)

namespace Session

variable {cfg : Config} {ok : Session → Label → Prop} {s s' : Session} {st : Stream} {t : Task}
variable {n : Next} {l : Label} {es : List Traffic}

/-- Any other step of a goroutine. -/
theorem Acts.agrees (ha : Acts s t n) (hsect : ∀ r y, t ≠ .sect r y)
    (hpump : ∀ r e y, t ≠ .pump r e y) (hr : r < s.heap.length)
    (ht : ∀ t' ∈ own r [t], t'.agrees x) :
    ∀ t' ∈ own r (n.push ++ n.spawn.flatten), t'.agrees x := by
  have ht : t.ref? = some r → t.agrees x := fun href => ht t (by simp [href])
  have hidle {ts : List Task} (h : ∀ t ∈ ts, ∀ w, t.carries w = false) :
      ∀ t' ∈ ts, t'.ref? = some r → t'.agrees x :=
    fun t' hm _ => Task.agrees_of_not_carries (h t' hm)
  have hpush : ∀ t' ∈ n.push ++ n.spawn.flatten, t'.ref? = some r → t'.agrees x := by
    cases ha with
    | sect => exact absurd rfl (hsect _ _)
    | pump => exact absurd rfl (hpump _ _ _)
    | @emit_sent r' y | @emit_lost r' y =>
      cases y <;> simp_all [Emission.sent, Emission.failed, Task.agrees]
    | @lookup_found m => cases m <;> exact hidle (Task.not_carries_of_all rfl)
    | fail_now => exact hidle fun t hm => (failTask_of_mem (mem_push hm)).not_carries
    -- the steps that start a stream belong to another one than `r`, which exists
    | open_admitted => simpa [Task.agrees] using fun he => absurd he hr.ne'
    | handler_called | handler_accepted => simp_all [Task.agrees]
    | _ => exact hidle (Task.not_carries_of_all rfl)
  intro t' hm
  exact hpush t' (mem_own hm) (Multiset.mem_filter.mp hm).2

/-- It leads to the start of a copy loop if it did so before. -/
theorem Acts.carries (ha : Acts s t n) (hsect : ∀ r y, t ≠ .sect r y)
    (hpump : ∀ r e y, t ≠ .pump r e y) (hr : r < s.heap.length) (w : Loop) :
    w.count (own r (n.push ++ n.spawn.flatten)) ≤ w.count (own r [t]) := by
  have hidle {ts : List Task} (h : ∀ t ∈ ts, ∀ w, t.carries w = false) (k : ℕ) :
      w.count (own r ts) ≤ k := by
    rw [Loop.count_eq_zero.mpr fun t hm => h t (mem_own hm) w]
    exact Nat.zero_le k
  have hemit {r' : Ref} {y : Emission} {ts : List Task} (hts : ts = y.sent r' ∨ ts = y.failed r') :
      w.count (own r ts) ≤ w.count (own r [.emit r' y]) := by
    by_cases hr' : r' = r
    · subst hr'
      refine (w.count_own_le r' ts).trans ?_
      simpa using Emission.countP_carries hts
    · have href : ∀ t ∈ ts, t.ref? = some r' ∨ t.ref? = none := by
        rcases hts with rfl | rfl
        · exact fun t ht => (y.sent_follows t ht).ref
        · exact fun t ht => (y.failed_follows t ht).ref
      rw [own_other hr' href]
      exact Nat.zero_le _
  cases ha with
  | sect => exact absurd rfl (hsect _ _)
  | pump => exact absurd rfl (hpump _ _ _)
  | emit_sent => simpa only [List.flatten_nil, List.append_nil] using hemit (.inl rfl)
  | emit_lost => simpa only [List.flatten_nil, List.append_nil] using hemit (.inr rfl)
  | @lookup_found m => cases m <;> exact hidle (Task.not_carries_of_all rfl) _
  | fail_now => exact hidle (fun t hm => (failTask_of_mem (mem_push hm)).not_carries) _
  | open_admitted => simp [hr.ne']
  | @handler_called r' | @handler_accepted r' =>
    by_cases hr' : r' = r <;> simp [hr', Task.carries]
  | _ => exact hidle (Task.not_carries_of_all rfl) _

theorem Acts.bytes (ha : Acts s t n) (hsect : ∀ r y, t ≠ .sect r y) (r : Ref) :
    n.sess.bytesRead r = s.bytesRead r ∧ n.sess.bytesWritten r = s.bytesWritten r := by
  cases ha with
  | sect => exact absurd rfl (hsect _ _)
  | detach hst => unfold delete; split_ifs <;> exact ⟨rfl, rfl⟩
  | _ => simp [bytesRead, bytesWritten]

/-- What a step exchanges with the endpoints, and the calls that read or write a stream. -/
def traffic (s : Session) (l : Label) (_ : Session) : List Traffic :=
  match l with
  | .run i c => ((s.threads[i]?.bind List.head?).map fun t : Task => t.traffic c).getD []
  | .call (.write r _) | .call (.read r _) => [.used r]
  | .call (.bridge r _) => [.bridged r]
  | _ => []

/-- The bytes of the stream `r` and its endpoint, after the given traffic. -/
def pipe (s : Session) (es : List Traffic) (r : Ref) : Pipe where
  took := tookBy r es
  read := s.bytesRead r
  wrote := s.bytesWritten r
  gave := gaveBy r es

/-- **The copy loops of all streams change nothing.** -/
structure Piping (es : List Traffic) (s : Session) : Prop where
  refs : ∀ e ∈ es, e.ref < s.heap.length
  sound : ∀ r st, s.heap[r]? = some st → Sole r st.inbound es →
    (s.pipe es r).Sound (s.tasksOf r + toCome r st.inbound es)

theorem piping_new (cfg : Config) : Piping [] (new cfg) := ⟨by simp, by simp [new]⟩

/-- Who exchanges something with an endpoint works on a stream that exists. -/
theorem traffic_ref {c : Choice} :
    ∀ e ∈ t.traffic c, t.ref? = some e.ref ∧ e ≠ .bridged e.ref := by
  unfold Task.traffic
  split <;> simp [Traffic.ref]

theorem Acts.inbound {st' : Stream} (ha : Acts s t n) (hst : s.heap[r]? = some st)
    (hst' : n.sess.heap[r]? = some st') : st'.inbound = st.inbound := by
  obtain ⟨os, hos⟩ := ha.origins
  have ho : n.sess.origins[r]? = some st.origin := by
    rw [← hos, List.getElem?_append_left]
    · simp [Session.origins, hst]
    · simpa [Session.origins] using (List.getElem?_eq_some_iff.mp hst).1
  have ho' : n.sess.origins[r]? = some st'.origin := by simp [Session.origins, hst']
  exact congrArg Origin.inbound (Option.some.inj (ho'.symm.trans ho))

/-- A step on another stream. -/
theorem pipe_elsewhere {c : Choice} {others : Multiset Task} {r' : Ref}
    (ht : t.ref? = some r') (hne : r' ≠ r)
    (hpush : ∀ t' ∈ n.push ++ n.spawn.flatten, t'.ref? = some r' ∨ t'.ref? = none)
    (hbytes : n.sess.bytesRead r = s.bytesRead r ∧ n.sess.bytesWritten r = s.bytesWritten r)
    (h : (s.pipe es r).Sound (own r [t] + others)) :
    (n.sess.pipe (es ++ t.traffic c) r).Sound (own r (n.push ++ n.spawn.flatten) + others) := by
  obtain ⟨htook, hgave⟩ : tookBy r (t.traffic c) = [] ∧ gaveBy r (t.traffic c) = [] :=
    Traffic.by_eq_nil fun e he => by
      rintro rfl
      exact hne (Option.some.inj (ht.symm.trans (traffic_ref e he).1))
  have hown : own r [t] = 0 := own_eq_zero (by simpa [ht] using hne)
  have hpipe : n.sess.pipe (es ++ t.traffic c) r = s.pipe es r := by
    simp [pipe, Traffic.tookBy_append, Traffic.gaveBy_append, htook, hgave, hbytes]
  rw [hpipe, own_other hne hpush, ← hown]
  exact h

/-- A step of a goroutine, seen from a stream that existed before. -/
theorem pipe_exec {c : Choice} {others : Multiset Task} (hn : s.exec t c = some n)
    (hst : s.heap[r]? = some st) (h : (s.pipe es r).Sound (own r [t] + others)) :
    (n.sess.pipe (es ++ t.traffic c) r).Sound (own r (n.push ++ n.spawn.flatten) + others) := by
  have ha := acts_of_exec hn
  -- `Read` and `Write` of the stream change the one side, the endpoint the other, and no other
  -- step changes any
  by_cases hsect : ∃ r' y, t = .sect r' y
  · obtain ⟨r', y, rfl⟩ := hsect
    cases ha with
    | @sect _ _ st' o hst' hf ho =>
    by_cases hr : r' = r
    · subst hr
      have hown : own r' [Task.sect r' y] + others = .sect r' y ::ₘ others := by simp
      rw [hown] at h
      have hsound := h.sect hf
      simp only [pipe, bytesRead, bytesWritten, List.filter_append, filter_log_self hf.log_ref,
        returned_append, written_append, Task.traffic, List.append_nil, List.flatten_nil]
        at hsound ⊢
      exact hsound
    · refine pipe_elsewhere rfl hr (by simpa using hf.push_ref) ?_ h
      simp [bytesRead, bytesWritten, filter_log_other hr hf.log_ref]
  by_cases hpump : ∃ r' e y, t = .pump r' e y
  · obtain ⟨r', e, y, rfl⟩ := hpump
    have hbytes := ha.bytes (by simp) r
    by_cases hr : r' = r
    · subst hr
      have hown : own r' [Task.pump r' e y] + others = .pump r' e y ::ₘ others := by simp
      rw [hown] at h
      have hsound := h.pump hn
      simp only [pipe, hbytes, Traffic.tookBy_append, Traffic.gaveBy_append]
      exact hsound
    · refine pipe_elsewhere rfl hr ?_ hbytes h
      cases ha with
      | pump hep hp => exact fun t' hm => (hp.tasks t' hm).ref
  · have hbytes := ha.bytes (by simpa using hsect) r
    have htraffic : t.traffic c = [] := by
      unfold Task.traffic
      split <;> simp_all
    have hpipe : n.sess.pipe (es ++ t.traffic c) r = s.pipe es r := by
      simp [pipe, htraffic, hbytes]
    have hlt := (List.getElem?_eq_some_iff.mp hst).1
    rw [hpipe]
    exact h.replace (ha.agrees (by simpa using hsect) (by simpa using hpump) hlt)
      (ha.carries (by simpa using hsect) (by simpa using hpump) hlt)

theorem Acts.heap_le (ha : Acts s t n) : s.heap.length ≤ n.sess.heap.length := by
  cases ha with
  | detach hst => rw [delete_heap]
  | _ => simp

/-- A stream that was just created. -/
theorem Acts.pipe_created {c : Choice} {others : Multiset Task} (ha : Acts s t n) (htab : s.Table)
    (hb : Blank s r (own r [t] + others)) (hes : ∀ e ∈ es, e.ref < s.heap.length)
    (hst : n.sess.heap[r]? = some st) :
    (n.sess.pipe (es ++ t.traffic c) r).Sound (own r (n.push ++ n.spawn.flatten) + others +
      toCome r st.inbound (es ++ t.traffic c)) := by
  have hnone : ∀ e ∈ es ++ t.traffic c, e.ref ≠ r := by
    rintro e he rfl
    rcases List.mem_append.mp he with he | he
    · exact absurd hb.heap (Nat.not_le.mpr (hes e he))
    · have htasks := hb.tasks
      simp [(traffic_ref e he).1] at htasks
  obtain ⟨htook, hgave⟩ := Traffic.by_eq_nil hnone
  rcases ha.blank htab hb with hb' | ⟨st', hst', hi⟩
  · exact absurd (List.getElem?_eq_some_iff.mp hst).1 (Nat.not_lt.mpr hb'.heap)
  · obtain rfl := Option.some.inj (hst.symm.trans hst')
    have hsound := hi.sound fun hm : .bridged r ∈ es ++ t.traffic c => hnone _ hm rfl
    rw [own_append]
    simpa [pipe, htook, hgave, bytesRead, bytesWritten, viewOf] using hsound

/-- A step of a goroutine. -/
theorem Piping.run {i : ℕ} {c : Choice} (h : Piping es s) (hr : Reaches step ok (new cfg) s)
    (hs : s.step (.run i c) = some s') : Piping (es ++ s.traffic (.run i c) s') s' := by
  simp only [step] at hs
  split at hs
  case h_2 => simp at hs
  case h_1 t rest ht =>
  obtain ⟨n, hn, rfl⟩ := Option.map_eq_some_iff.mp hs
  have ha := acts_of_exec hn
  have htraffic (s' : Session) : s.traffic (.run i c) s' = t.traffic c := by simp [traffic, ht]
  rw [htraffic]
  refine ⟨fun e he => ?_, fun r st' hst' hsole => ?_⟩
  · rcases List.mem_append.mp he with he | he
    · exact (h.refs e he).trans_le ha.heap_le
    · obtain ⟨others, hpend, -⟩ := Library.pending_advance ht
      obtain ⟨st, hst⟩ := exists_heap hr (by simp [hpend]) (traffic_ref e he).1
      exact (List.getElem?_eq_some_iff.mp hst).1.trans_le ha.heap_le
  · obtain ⟨others, h₁, -, h₂⟩ := tasksOf_advance (r := r) (reaches_serving hr) ht
    have htasks :
        tasksOf { n.sess with threads := advance s.threads i (n.push ++ rest) n.spawn } r =
          own r (n.push ++ n.spawn.flatten) + others := by
      rw [own_append]
      exact h₂ _ _
    rw [htasks]
    -- a stream that the step created starts with empty hands
    cases hst : s.heap[r]? with
    | none =>
      have hb := blank hr (List.getElem?_eq_none_iff.mp hst)
      exact ha.pipe_created (reaches_table hr) (h₁ ▸ hb) h.refs hst'
    | some st =>
      have hin := ha.inbound hst hst'
      have hbridged : .bridged r ∉ t.traffic c := fun hm => (traffic_ref _ hm).2 rfl
      rw [hin] at hsole
      rw [hin, Traffic.toCome_append hbridged, add_assoc]
      refine pipe_exec hn hst ?_
      rw [← add_assoc, ← h₁]
      exact h.sound r st hst hsole.of_append

theorem Starts.tasksOf_eq {ts : List Task} (hts : Starts s s' ts) (r : Ref) :
    s'.tasksOf r = own r ts + s.tasksOf r := by
  rw [tasksOf, hts.pending, Multiset.filter_add]
  rfl

/-- A step that starts something, seen from a stream that the new steps do not read or write. -/
theorem Piping.other {ts : List Task} {new : List Traffic} (h : Piping es s)
    (hts : Starts s s' ts) (hst : s'.heap[r]? = some st) (hsole : Sole r st.inbound (es ++ new))
    (hnew : tookBy r new = [] ∧ gaveBy r new = []) (hbridged : .bridged r ∉ new)
    (hidle : ∀ t ∈ own r ts, ∀ w, t.carries w = false) :
    (s'.pipe (es ++ new) r).Sound (s'.tasksOf r + toCome r st.inbound (es ++ new)) := by
  have hpipe : s'.pipe (es ++ new) r = s.pipe es r := by
    simp [pipe, Traffic.tookBy_append, Traffic.gaveBy_append, hnew, bytesRead, bytesWritten,
      hts.log]
  rw [hts.tasksOf_eq, hpipe, Traffic.toCome_append hbridged, add_assoc]
  exact (h.sound r st (hts.heap ▸ hst) hsole.of_append).more hidle

theorem Piping.refs_concat {e : Traffic} (h : Piping es s) (hheap : s'.heap = s.heap)
    (he : e.ref < s.heap.length) : ∀ e' ∈ es ++ [e], e'.ref < s'.heap.length := by
  intro e' hm
  rw [hheap]
  rcases List.mem_append.mp hm with hm | hm
  · exact h.refs e' hm
  · rwa [List.mem_singleton.mp hm]

/-- Steps of no copy loop are started. -/
theorem Piping.started {ts : List Task} (h : Piping es s) (hts : Starts s s' ts)
    (hidle : ∀ t ∈ ts, t.ref? ≠ none → ∀ w, t.carries w = false) : Piping es s' := by
  refine ⟨hts.heap ▸ h.refs, fun r st hst hsole => ?_⟩
  rw [← List.append_nil es] at hsole ⊢
  exact h.other hts hst hsole ⟨rfl, rfl⟩ (by simp)
    fun t hm => hidle t (mem_own hm) (by simp [(Multiset.mem_filter.mp hm).2])

/-- The application calls `Read` or `Write`. -/
theorem Piping.used {r₀ : Ref} (h : Piping es s) (hts : Starts s s' [t]) (ht : t.ref? = some r₀)
    (hlt : r₀ < s.heap.length) : Piping (es ++ [.used r₀]) s' := by
  refine ⟨h.refs_concat hts.heap hlt, fun r st hst hsole => ?_⟩
  have hne : r₀ ≠ r := by
    rintro rfl
    exact hsole.1 (by simp)
  refine h.other hts hst hsole ⟨rfl, rfl⟩ (by simp) fun t' hm => ?_
  rw [own_eq_zero (by simpa [ht] using hne)] at hm
  exact absurd hm (Multiset.notMem_zero t')

/-- The application calls `Bridge`, as it was to come. -/
theorem Piping.bridged {r₀ : Ref} {e : EpRef} (h : Piping es s)
    (hts : Starts s s' [.pump r₀ e .start]) (hlt : r₀ < s.heap.length) :
    Piping (es ++ [.bridged r₀]) s' := by
  refine ⟨h.refs_concat hts.heap hlt, fun r st hst hsole => ?_⟩
  by_cases hr : r₀ = r
  · subst hr
    -- no `Bridge` was called before
    obtain ⟨hin, hnot⟩ : st.inbound = false ∧ .bridged r₀ ∉ es := by
      have hcount := hsole.2
      rw [List.count_append, List.count_singleton_self] at hcount
      split_ifs at hcount with hin
      · omega
      · exact ⟨by simpa using hin, List.count_eq_zero.mp (by omega)⟩
    have hsound := h.sound r₀ st (hts.heap ▸ hst) hsole.of_append
    have htasks : s'.tasksOf r₀ + toCome r₀ st.inbound (es ++ [.bridged r₀]) =
        {.pump r₀ e .start} + s.tasksOf r₀ := by
      rw [hts.tasksOf_eq, toCome, if_pos (by simp)]
      simp
    have hpipe : s'.pipe (es ++ [.bridged r₀]) r₀ = s.pipe es r₀ := by
      simp [pipe, tookBy, gaveBy, bytesRead, bytesWritten, hts.log]
    rw [toCome, if_neg (by simp [hin, hnot]), add_comm] at hsound
    rw [htasks, hpipe]
    refine hsound.replace (fun hold t hm => ?_) fun w => ?_
    · obtain rfl := Multiset.mem_singleton.mp hm
      exact hold (.pump r₀ 0 .start) (Multiset.mem_singleton_self _)
    · simp [Task.carries]
  · refine h.other hts hst hsole ⟨rfl, rfl⟩ (by simpa using Ne.symm hr) fun t' hm => ?_
    rw [own_eq_zero (by simpa using hr)] at hm
    exact absurd hm (Multiset.notMem_zero t')

/-- **Every step keeps the copy loops sound.** -/
theorem Piping.step (h : Piping es s) (hr : Reaches step ok (new cfg) s)
    (hs : s.step l = some s') : Piping (es ++ s.traffic l s') s' := by
  have hcall {r : Ref} {t : Task} {s₁ : Session} (hc : s.callOn r [t] = some s₁)
      (ht : Calls r t) : Starts s s₁ [t] ∧ r < s.heap.length := by
    obtain ⟨hshares, rfl⟩ := callOn_eq_some hc
    refine ⟨starts_append (by simpa using .callOn hshares ht), ?_⟩
    by_contra hlt
    simp [shares, List.getElem?_eq_none (Nat.not_lt.mp hlt)] at hshares
  have hnone (hts : ∃ ts, Starts s s' ts ∧ ∀ t ∈ ts, t.ref? ≠ none → ∀ w, t.carries w = false) :
      Piping (es ++ []) s' := by
    obtain ⟨ts, hts, hidle⟩ := hts
    rw [List.append_nil]
    exact h.started hts hidle
  -- only calls and `Serve` start steps; of these, `Read`, `Write` and `Bridge` are recorded
  cases l with
  | run i c => exact h.run hr hs
  | call c =>
    cases c with
    | write r p =>
      obtain ⟨hts, hlt⟩ := hcall hs .write
      exact h.used hts rfl hlt
    | read r k =>
      obtain ⟨hts, hlt⟩ := hcall hs .read
      exact h.used hts rfl hlt
    | bridge r halfClose =>
      obtain ⟨s₁, hs₁, rfl⟩ := Option.map_eq_some_iff.mp hs
      obtain ⟨hshares, rfl⟩ := callOn_eq_some hs₁
      exact h.bridged (starts_append (by simpa using .callOn hshares .bridge))
        (hcall hs₁ .bridge).2
    | closeWrite r => exact hnone ⟨_, (hcall hs .closeWrite).1, by simp [Task.carries]⟩
    | reset r code message => exact hnone ⟨_, (hcall hs .reset).1, by simp [Task.carries]⟩
    | «open» service metadata =>
      obtain rfl := Option.some.inj hs
      exact hnone ⟨_, starts_append (by simpa using .open), by simp⟩
    | close =>
      obtain rfl := Option.some.inj hs
      exact hnone ⟨_, starts_append (by simp [Started.fail, Started.wgWait, Started.closeReturn]),
        by simp⟩
  | recv f =>
    cases moves_of_step hs with
    | recv hserve hserved =>
      refine hnone ⟨_, starts_serve hserve (List.prefix_append _ _) (handleFrame_started _ f), ?_⟩
      exact fun t hm href => absurd (handleFrame_ref _ f t hm) href
  | readError =>
    cases moves_of_step hs with
    | readError hserve hserved =>
      exact hnone ⟨_, starts_serve hserve List.prefix_rfl
        (by simp [Started.fail, Started.stopServe]), by simp⟩
  | connLost =>
    obtain rfl := Option.some.inj hs
    change Piping (es ++ []) _
    rw [List.append_nil]
    exact ⟨h.refs, h.sound⟩

theorem piping (h : Records step ok traffic (new cfg) es s) : Piping es s :=
  h.invariant (I := Piping) (piping_new cfg) fun _ _ _ _ hr _ hs ih => ih.step hr hs

end Session

/-! ## From endpoint to application -/

namespace Net

variable {cfg : Role → Config} {n : Net} {ρ : Role} {r r' : Ref} {st st' : Stream}
variable {es : List (Role × Traffic)}

/-- What a step exchanges with the endpoints of its side. -/
def traffic (n : Net) (l : Role × Label) (n' : Net) : List (Role × Traffic) :=
  ((n.side l.1).traffic l.2 (n'.side l.1)).map (l.1, ·)

/-- What the endpoints of one side exchanged. -/
def trafficOf (ρ : Role) (es : List (Role × Traffic)) : List Traffic :=
  (es.filter fun e => e.1 = ρ).map Prod.snd

theorem trafficOf_append (es : List (Role × Traffic)) (σ : Role) (new : List Traffic) :
    trafficOf ρ (es ++ new.map (σ, ·)) = trafficOf ρ es ++ if σ = ρ then new else [] := by
  by_cases hσ : σ = ρ <;>
    simp [trafficOf, hσ, List.filter_map, Function.comp_def]

/-- The record of one side. -/
theorem side_records {ok : Net → Role × Label → Prop} (h : Records step ok traffic (new cfg) es n)
    (ρ : Role) :
    Records Session.step Always Session.traffic (Session.new { cfg ρ with role := ρ })
      (trafficOf ρ es) (n.side ρ) := by
  induction h with
  | refl => rw [side_new]; exact .refl
  | @tail es m m' l hr hl hs ih =>
    obtain ⟨σ, l⟩ := l
    obtain ⟨s', hs', rfl, -⟩ := step_cases hs
    rw [traffic, trafficOf_append]
    by_cases hσ : σ = ρ
    · subst hσ
      rw [if_pos rfl, side_set_self]
      exact ih.tail trivial hs'
    · obtain rfl : σ = ρ.other := by cases σ <;> cases ρ <;> simp_all [Role.other]
      rw [if_neg hσ, List.append_nil, side_set_other']
      exact ih

/-- The bytes read at one end of a stream are the first that were written at the other. -/
theorem Joined.bytesRead_prefix (hj : n.Joined) (hst : (n.side ρ).heap[r]? = some st)
    (hst' : (n.side ρ.other).heap[r']? = some st') (hid : st.id = st'.id) :
    (n.side ρ.other).bytesRead r' <+: (n.side ρ).bytesWritten r := by
  obtain ⟨_, hs⟩ := hj.reached ρ
  obtain ⟨_, hs'⟩ := hj.reached ρ.other
  obtain ⟨d, hd, -, hout, -⟩ := (Session.sender hs hst).flow
  have hheard := (hj.heard_core hst hst' hid).flatMap AppMessage.payload
  rw [← payloads, ← payloads, payloads_core, payloads_core] at hheard
  have hd : (n.side ρ).bytesWritten r = d ++ st.sendQ.flatten := hd
  rw [hd]
  exact ((Session.receiver hs' hst').returned_payloads.trans hheard).trans
    (hout.trans (List.prefix_append _ _))

/-- **The endpoint of a stream and the application at its other end see each other's bytes**, as
long as one `Bridge` is all that reads or writes the stream on the side of the endpoint, whoever
opened the stream and whoever called `Bridge`: what the endpoint took are the first of the bytes
that the application wrote, and what the application read are the first of the bytes that the
endpoint gave. -/
theorem bridge_faithful {ok : Net → Role × Label → Prop}
    (h : Records step ok traffic (new cfg) es n) (hst : (n.side ρ).heap[r]? = some st)
    (hst' : (n.side ρ.other).heap[r']? = some st') (hid : st.id = st'.id)
    (hsole : Sole r' st'.inbound (trafficOf ρ.other es)) :
    tookBy r' (trafficOf ρ.other es) <+: (n.side ρ).bytesWritten r ∧
      (n.side ρ).bytesRead r <+: gaveBy r' (trafficOf ρ.other es) := by
  have hj := joined h.reaches.always
  have hsound := (Session.piping (side_records h ρ.other)).sound r' st' hst' hsole
  -- the endpoint behind what its stream read, and its stream behind what the other end wrote;
  -- the same in the other direction
  constructor
  · exact hsound.toEndpoint.trans (hj.bytesRead_prefix hst hst' hid)
  · have hback := hj.bytesRead_prefix (ρ := ρ.other) hst' ((other_other ρ).symm ▸ hst) hid.symm
    rw [other_other] at hback
    exact hback.trans hsound.toStream

/-- The guest has an observer, so its application holds the stream. The endpoint gives a byte and
ends; `CloseWrite` does nothing to it, and it still takes the byte that the host writes then. -/
theorem bridge_faithful_byte :
    ∃ es n st st' ep, Records step Always traffic (new fun _ => { role := .host, observer := true })
        es n ∧
      n.host.heap[0]? = some st ∧ n.guest.heap[0]? = some st' ∧ st.id = st'.id ∧
      st'.shared = true ∧ Sole 0 st'.inbound (trafficOf .guest es) ∧
      n.guest.eps[0]? = some ep ∧ ep.writeClosed = true ∧
      n.host.bytesWritten 0 = [7] ∧ n.host.bytesRead 0 = [9] ∧
      tookBy 0 (trafficOf .guest es) = [7] ∧ gaveBy 0 (trafficOf .guest es) = [9] ∧
      tookBy 0 (trafficOf .guest es) <+: n.host.bytesWritten 0 ∧
      n.host.bytesRead 0 <+: gaveBy 0 (trafficOf .guest es) := by
  obtain ⟨es, n, hn, hp⟩ := exists_records_of_run step Always traffic
    (new fun _ => { role := .host, observer := true })
    (fun es n => n.host.bytesWritten 0 == [7] && n.host.bytesRead 0 == [9] &&
      tookBy 0 (trafficOf .guest es) == [7] && gaveBy 0 (trafficOf .guest es) == [9] &&
      (n.guest.eps[0]?.any fun ep : Endpoint => ep.writeClosed) &&
      n.host.heap[0]?.any fun st : Stream => n.guest.heap[0]?.any fun st' : Stream =>
        st.id == st'.id && st'.shared && decide (Sole 0 st'.inbound (trafficOf .guest es)))
    (List.flatten
      [openRun, [(.guest, .run 3 (.epRead [9] none)), (.guest, .run 3 .go), (.guest, .run 3 .go),
          (.guest, .run 3 (.epRead [] (some .eof)))],
        .replicate 4 (.guest, .run 3 .go),
        [(.host, .call (.write 0 [7])), (.host, .run 3 .go)],
        .replicate 3 (.host, .run 2 .go),
        [(.guest, .recv (Outgoing.app (.appData 1 [7])).frame)],
        .replicate 2 (.guest, .run 0 .go), .replicate 3 (.guest, .run 4 .go),
        [(.guest, .run 4 (.epReadFrom 0))],
        .replicate 3 (.guest, .run 2 .go),
        [(.host, .recv (Outgoing.app (.appCredit 1 1)).frame)], .replicate 2 (.host, .run 0 .go),
        [(.host, .recv (Outgoing.app (.appData 1 [9])).frame)], .replicate 2 (.host, .run 0 .go),
        [(.host, .call (.read 0 1)), (.host, .run 4 .go)]])
    (by decide)
  simp only [Bool.and_eq_true, beq_iff_eq, Option.any_eq_true, decide_eq_true_eq] at hp
  obtain ⟨⟨⟨⟨⟨hw, hr⟩, ht⟩, hg⟩, ep, hep, hclosed⟩, st, hst, st', hst', ⟨hid, hs⟩, hsole⟩ := hp
  have hf := bridge_faithful (ρ := .host) hn hst hst' hid hsole
  exact ⟨es, n, st, st', ep, hn, hst, hst', hid, hs, hsole, hep, hclosed, hw, hr, ht, hg, hf.1,
    hf.2⟩

end Net

end Mvcp.App
