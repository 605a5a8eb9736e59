import Mvcp.App.Transfer

/-!
# The order of the frames of a stream

A stream writes at most one `APP_OPEN`, and none of the frames of an open stream before it. A
stream of the peer writes no data before its `APP_ACCEPT`, and a stream that was opened here has
been accepted when it is used.

## Main definitions

* `AppMessage.core`: the frames of an open stream
* `View.Opening`: the order of the frames of a stream

## Main results

* `Session.opening`: the frames of every stream are in order, in every state reached
-/

namespace Mvcp

open Library (Reaches Always)

namespace AppMessage

/-- The frames of an open stream. -/
def core : AppMessage → Bool
  | appAccept .. | appData .. | appCredit .. | appClose _ => true
  | appOpen .. | appReject .. | appReset .. => false

def isAccept : AppMessage → Bool
  | appAccept .. => true
  | _ => false

def isData : AppMessage → Bool
  | appData .. => true
  | _ => false

end AppMessage

namespace App

/-- The write of the `APP_OPEN`. -/
def Task.opens : Task → Bool
  | .emit _ (.open _) => true
  | _ => false

theorem Task.Follows.opens {r : Ref} {t : Task} (h : t.Follows r) : t.opens = false := by
  cases h <;> rfl

/-- The steps of the goroutine that accepted a stream, after the write of the `APP_ACCEPT`. -/
def Task.loops : Task → Bool
  | .startWriteLoop _ | .sect _ .writeLoop | .sect _ (.writeLoopWait _) | .emit _ (.data _) => true
  | _ => false

namespace Stream

variable {r : Ref} {st : Stream} {x : Section} {o : Outcome}

/-- The handshake is complete. -/
def granted (st : Stream) : Prop :=
  st.accepting = false ∧ st.opening = false ∧ st.openErr = none

instance (st : Stream) : Decidable st.granted := inferInstanceAs (Decidable (_ ∧ _ ∧ _))

theorem Fires.granted (h : Fires r st x o) (hg : st.granted) : o.st.granted := by
  obtain ⟨ha, ho, he⟩ := hg
  refine ⟨?_, ?_, ?_⟩
  · exact h.accepting.elim (·.1.trans ha) (·.1)
  · by_contra hc
    simp [h.opening (by simpa using hc)] at ho
  · rcases h.openErr with h | ⟨-, h, -⟩
    · exact h.trans he
    · simp [ho] at h

theorem Fires.push_opens (h : Fires r st x o) : ∀ t ∈ o.push, t.opens = false := by
  cases h with
  | detachBytes => split_ifs <;> simp [Task.opens]
  | closeEndpoint => simp +contextual [Task.opens]
  | _ => simp [Stream.park, Task.opens, or_imp, forall_and]

/-- A write loop goes on with a write loop; `Open` starts one. -/
theorem Fires.push_loops (h : Fires r st x o) :
    ∀ t ∈ o.push, t.loops = true → (Task.sect r x).loops = true ∨ x = .openResult := by
  cases h with
  | detachBytes => split_ifs <;> simp [Task.loops]
  | closeEndpoint => simp +contextual [Task.loops]
  | _ => simp [Stream.park, Task.loops, or_imp, forall_and]

theorem Fires.bytesOut (h : Fires r st x o) (hb : 0 < o.st.bytesOut) :
    0 < st.bytesOut ∨ x.phase = .live := by
  cases h with
  | loop_data hr hq hc => exact .inr rfl
  | _ => exact .inl hb

theorem Fires.resetErr (h : Fires r st x o) (hr : st.reset = true → st.resetErr ≠ none) :
    o.st.reset = true → o.st.resetErr ≠ none := by
  cases h with
  | reset_set hr => simp
  | _ => exact hr

/-- `opening` ends with an accept, a rejection or a reset. -/
theorem Fires.opening_ends (h : Fires r st x o) (ho : st.opening = true)
    (ho' : o.st.opening = false) :
    (∃ metadata grant, x = .handleAccept metadata grant) ∨ o.st.openErr ≠ none ∨
      o.st.reset = true := by
  cases h with
  | accepted hm hg hg' ho => exact .inl ⟨_, _, rfl⟩
  | rejected ho => exact .inr (.inl (by simp))
  | reset_set hr => exact .inr (.inr rfl)
  | _ => simp [Stream.park, enqueue, consume, dequeue, Stream.accept, ho] at ho'

end Stream

namespace Emission

variable {r : Ref} (x : Emission) (st : Stream)

theorem isOpen_message_eq : (x.message st).isOpen = (Task.emit r x).opens := by
  cases x <;> rfl

theorem isData_message_eq (h : (x.message st).isData = true) :
    (Task.emit r x).loops = true := by
  cases x <;> simp_all [Emission.message, AppMessage.isData, Task.loops]

theorem phase_of_core (h : (x.message st).core = true) : x.phase = .live := by
  cases x <;> simp_all [Emission.message, AppMessage.core, Emission.phase]

theorem isAccept_message (h : (x.message st).isAccept = true) :
    x.phase = .live ∧ ∃ metadata, x.message st =
      .appAccept st.id metadata (UInt32.ofNat appInitialWindow) := by
  cases x with
  | accept e metadata => exact ⟨rfl, metadata, rfl⟩
  | _ => simp [Emission.message, AppMessage.isAccept] at h

end Emission

theorem Task.phase_of_opens {t : Task} (h : t.opens = true) : t.phase = .opener := by
  cases t with
  | emit r x => cases x <;> simp_all [Task.opens, Task.phase, Emission.phase]
  | _ => simp [Task.opens] at h

theorem Task.cargo_of_opens {t : Task} (h : t.opens = true) : t.cargo = true := by
  cases t with
  | emit r x => cases x <;> simp_all [Task.opens, Task.cargo]
  | _ => simp [Task.opens] at h

namespace View

/-- **The order of the frames of a stream.** -/
structure Opening (v : View) : Prop where
  /-- There is one `APP_OPEN`: written, lost, or about to be written. -/
  single : v.out.countP AppMessage.isOpen + v.lost.countP AppMessage.isOpen +
    v.tasks.countP (fun t => t.opens = true) ≤ 1
  inbound : v.st.inbound = true → (∀ m ∈ v.out, m.isOpen = false) ∧ ∀ t ∈ v.tasks, t.opens = false
  before : (∃ t ∈ v.tasks, t.opens = true) → ∀ m ∈ v.out, m.core = false
  order : ∀ ms m ms', v.out = ms ++ m :: ms' → m.isOpen = true → ∀ m' ∈ ms, m'.core = false
  /-- The write loop starts after the `APP_ACCEPT` was written. -/
  loops : v.st.inbound = true → (∃ t ∈ v.tasks, t.loops = true) → ∃ m ∈ v.out, m.isAccept = true
  data : v.st.inbound = true → ∀ ms m ms', v.out = ms ++ m :: ms' → m.isData = true →
    ∃ m' ∈ ms, m'.isAccept = true
  accepts : ∀ m ∈ v.out, m.isAccept = true → v.st.accepting = false ∧
    ∃ metadata, m = .appAccept v.st.id metadata (UInt32.ofNat appInitialWindow)

variable {r : Ref} {v v' : View}

theorem Initial.opening (h : Initial r v) : v.Opening := by
  have hcount (t : Task) : ({t} : Multiset Task).countP (fun t => t.opens = true) ≤ 1 :=
    Multiset.countP_le_card _ _
  cases h with
  | inbound => exact ⟨by simpa using hcount _, by simp [Task.opens], by simp, by simp,
      by simp [Task.loops], by simp, by simp⟩
  | outbound hm => constructor <;> simp [hcount]

/-- A message is added to a history in which each `p` comes after what `q` says. -/
theorem order_concat {ms₀ : List AppMessage} {m₀ : AppMessage} {p : AppMessage → Bool}
    {q : List AppMessage → Prop} (h : ∀ ms m ms', ms₀ = ms ++ m :: ms' → p m = true → q ms)
    (h₀ : p m₀ = true → q ms₀) :
    ∀ ms m ms', ms₀ ++ [m₀] = ms ++ m :: ms' → p m = true → q ms := by
  intro ms m ms' he hp
  rcases List.eq_nil_or_concat ms' with rfl | ⟨ms', m', rfl⟩
  · obtain ⟨rfl, h₂⟩ := List.append_inj' he rfl
    exact h₀ ((List.singleton_inj.mp h₂) ▸ hp)
  · rw [List.concat_eq_append, ← List.cons_append, ← List.append_assoc] at he
    exact h ms m ms' (List.append_inj' he rfl).1 hp

theorem Leads.loops {st : Stream} {t : Task} {ts : Multiset Task} (h : Leads r st t ts) :
    ∀ t' ∈ ts, t'.loops = true → t.loops = true := by
  cases h with
  | pump h =>
    intro t' ht'
    rw [← own_append] at ht'
    have := h.tasks t' (mem_own ht')
    cases this <;> simp [Task.loops]
  | _ => simp [Task.loops]

/-- A write loop was there before the step, or is started: by `Open`, or after the write of an
`APP_ACCEPT`. -/
theorem Step.loops {a : Option Section} (hs : Step r v a v') {t : Task} (ht : t ∈ v'.tasks)
    (hl : t.loops = true) : (∃ t₀ ∈ v.tasks, t₀.loops = true) ∨
      (.sect r .openResult ∈ v.tasks) ∨ ∃ m ∈ v'.out, m.isAccept = true := by
  cases hs.arises ht with
  | kept hm => exact .inl ⟨t, hm, hl⟩
  | sect hx ha hf hst hm =>
    rcases hf.push_loops t hm hl with h | rfl
    · exact .inl ⟨_, hx, h⟩
    · exact .inr (.inl hx)
  | @sent x hx hout hm =>
    cases x with
    | accept e metadata =>
      exact .inr (.inr ⟨_, hout ▸ List.mem_append_right _ (List.mem_singleton_self _), rfl⟩)
    | data p => exact .inl ⟨_, hx, rfl⟩
    | _ => simp [Emission.sent] at hm <;> simp [hm, Task.loops] at hl
  | @lost x hx hm =>
    cases x <;> simp [Emission.failed] at hm <;> rcases hm with rfl | rfl <;>
      simp [Task.loops] at hl
  | lead h₀ hlead hm => exact .inl ⟨_, h₀, hlead.loops t hm hl⟩
  | detach ht => simp [ht, Task.loops] at hl
  | @arrive m hid hheard hm =>
    cases m <;> simp [Session.dispatch] at hm <;> simp [hm, Task.loops] at hl
  | fail ht => simp [ht, Task.loops] at hl
  | call hs hc => cases hc <;> simp [Task.loops] at hl

theorem exists_opens {ts us : Multiset Task}
    (h : ts.countP (fun t => t.opens = true) ≤ us.countP (fun t => t.opens = true))
    (ho : ∃ t ∈ ts, t.opens = true) : ∃ t ∈ us, t.opens = true :=
  Multiset.countP_pos.mp ((Multiset.countP_pos.mpr ho).trans_le h)

theorem opens_eq_false {ts us : Multiset Task}
    (h : ts.countP (fun t => t.opens = true) ≤ us.countP (fun t => t.opens = true))
    (hus : ∀ t ∈ us, t.opens = false) : ∀ t ∈ ts, t.opens = false := fun t ht => by
  by_contra hc
  obtain ⟨t₀, ht₀, ho⟩ := exists_opens h ⟨t, ht, by simpa using hc⟩
  simp [hus t₀ ht₀] at ho

/-- No frame is written, and no `APP_OPEN` comes in hand. -/
theorem Opening.same (h : v.Opening) (hname : v'.st.name = v.st.name)
    (hacc : v.st.accepting = false → v'.st.accepting = false) (hout : v'.out = v.out)
    (hlost : v'.lost = v.lost)
    (hcount : v'.tasks.countP (fun t => t.opens = true) ≤ v.tasks.countP (fun t => t.opens = true))
    (hloops : v'.st.inbound = true → (∃ t ∈ v'.tasks, t.loops = true) →
      ∃ m ∈ v'.out, m.isAccept = true) : v'.Opening := by
  have hid : v'.st.id = v.st.id := congrArg Prod.fst hname
  have hin : v'.st.inbound = v.st.inbound := congrArg Prod.snd hname
  refine ⟨?_, fun hi => ⟨?_, opens_eq_false hcount (h.inbound (hin ▸ hi)).2⟩, fun ho => ?_, ?_,
    hloops, fun hi => ?_, fun m hm ha => ?_⟩
  · rw [hout, hlost]
    exact (Nat.add_le_add_left hcount _).trans h.single
  · rw [hout]
    exact (h.inbound (hin ▸ hi)).1
  · rw [hout]
    exact h.before (exists_opens hcount ho)
  · rw [hout]
    exact h.order
  · rw [hout]
    exact h.data (hin ▸ hi)
  · rw [hid]
    exact (h.accepts m (hout ▸ hm) ha).imp_left hacc

/-- If a frame of an open stream is in hand, no `APP_OPEN` is. -/
theorem Handshake.opens_eq_false (hh : v.Handshake) {x : Emission} {st : Stream}
    (hx : .emit r x ∈ v.tasks) (hc : (x.message st).core = true) :
    ∀ t ∈ v.tasks, t.opens = false := fun t ht => by
  by_contra ho
  exact (hh.opener t ht (Task.phase_of_opens (by simpa using ho))).2.2.2 _ hx
    (x.phase_of_core st hc)

theorem countP_opens_emit {x : Emission} {rest : Multiset Task} {ts : List Task}
    (ht : v.tasks = .emit r x ::ₘ rest) (hts : ∀ t ∈ ts, t.opens = false) :
    v.tasks.countP (fun t => t.opens = true) =
      (own r ts + rest).countP (fun t => t.opens = true) +
        [x.message v.st].countP AppMessage.isOpen := by
  have hz : (own r ts).countP (fun t => t.opens = true) = 0 :=
    Multiset.countP_eq_zero.mpr fun t hm => by simp [hts t (mem_own hm)]
  rw [ht, Multiset.countP_cons, Multiset.countP_add, hz, zero_add, List.countP_singleton,
    x.isOpen_message_eq v.st (r := r)]

theorem Opening.sent {x : Emission} {rest : Multiset Task} (h : v.Opening) (hh : v.Handshake)
    (ht : v.tasks = .emit r x ::ₘ rest)
    (hloops : v.st.inbound = true → (∃ t ∈ own r (x.sent r) + rest, t.loops = true) →
      ∃ m ∈ v.out ++ [x.message v.st], m.isAccept = true) :
    Opening { v with tasks := own r (x.sent r) + rest, out := v.out ++ [x.message v.st] } := by
  have hx : .emit r x ∈ v.tasks := by simp [ht]
  have hcount := countP_opens_emit ht fun t hm => (x.sent_follows (r := r) t hm).opens
  have hle := Nat.le.intro hcount.symm
  refine ⟨?_, fun hi => ⟨fun m hm => ?_, opens_eq_false hle (h.inbound hi).2⟩, fun ho m hm => ?_,
    order_concat h.order fun ho => ?_, hloops, fun hi => order_concat (h.data hi) fun hd => ?_,
    fun m hm ha => ?_⟩
  · -- the `APP_OPEN` is written, or still to be written
    have := h.single
    rw [List.countP_append]
    dsimp only
    omega
  · rcases List.mem_append.mp hm with hm | hm
    · exact (h.inbound hi).1 m hm
    · rw [List.mem_singleton.mp hm, x.isOpen_message_eq v.st (r := r)]
      exact (h.inbound hi).2 _ hx
  · obtain ⟨t₀, ht₀, ho⟩ := exists_opens hle ho
    rcases List.mem_append.mp hm with hm | hm
    · exact h.before ⟨t₀, ht₀, ho⟩ m hm
    · rw [List.mem_singleton.mp hm]
      -- nothing is written for the stream before its `APP_OPEN`
      by_contra hc
      simp [hh.opens_eq_false hx (by simpa using hc) t₀ ht₀] at ho
  · exact h.before ⟨_, hx, x.isOpen_message_eq v.st (r := r) ▸ ho⟩
  · exact h.loops hi ⟨_, hx, x.isData_message_eq v.st hd⟩
  · rcases List.mem_append.mp hm with hm | hm
    · exact h.accepts m hm ha
    · obtain rfl := List.mem_singleton.mp hm
      obtain ⟨hp, hmeta⟩ := x.isAccept_message v.st ha
      exact ⟨(hh.live (.inr ⟨_, hx, hp⟩)).2.1, hmeta⟩

/-- **Every step keeps the frames of a stream in order.** -/
theorem Step.opening {a : Option Section} (hs : Step r v a v') (hh : v.Handshake)
    (h : v.Opening) : v'.Opening := by
  -- the write loop of a stream of the peer starts after its `APP_ACCEPT`
  have hloops (hin : v'.st.inbound = v.st.inbound) (hout : v.out <+: v'.out)
      (hi : v'.st.inbound = true) (hl : ∃ t ∈ v'.tasks, t.loops = true) :
      ∃ m ∈ v'.out, m.isAccept = true := by
    obtain ⟨t, ht, hl⟩ := hl
    rcases hs.loops ht hl with h₀ | h₀ | h₀
    · obtain ⟨m, hm, ha⟩ := h.loops (hin ▸ hi) h₀
      exact ⟨m, hout.subset hm, ha⟩
    · have := (hh.opener _ h₀ rfl).1
      simp [← hin, hi] at this
    · exact h₀
  cases hs.moved with
  | sect ht hf =>
    refine h.same hf.name (fun ha => hf.accepting.elim (·.1.trans ha) (·.1)) rfl rfl ?_
      (hloops (congrArg Prod.snd hf.name) List.prefix_rfl)
    rw [ht, Multiset.countP_cons_of_neg _ (by simp [Task.opens]), Multiset.countP_add,
      Multiset.countP_eq_zero.mpr fun t hm => by simp [hf.push_opens t (mem_own hm)], zero_add]
  | sent ht hup => exact h.sent hh ht (hloops rfl (List.prefix_append _ _))
  | @lost x rest ht hn =>
    have hcount := countP_opens_emit ht fun t hm => (x.failed_follows (r := r) t hm).opens
    have hle := Nat.le.intro hcount.symm
    refine ⟨?_, fun hi => ⟨(h.inbound hi).1, opens_eq_false hle (h.inbound hi).2⟩,
      fun ho => h.before (exists_opens hle ho), h.order, hloops rfl List.prefix_rfl, h.data,
      h.accepts⟩
    have := h.single
    rw [List.countP_append]
    dsimp only
    omega
  | @arrive m hid hserve =>
    refine h.same rfl (·) rfl rfl ?_ (hloops rfl List.prefix_rfl)
    rw [Multiset.countP_add, Multiset.countP_eq_zero.mpr, zero_add]
    intro t hm
    have := mem_own hm
    cases m <;> simp [Session.dispatch] at this <;> simp [this, Task.opens]
  | quiet hq =>
    exact h.same (congrArg Stream.name hq.st) (hq.st ▸ ·) hq.out hq.lost
      (hq.countP_eq fun _ => Task.cargo_of_opens).le
      (hloops (congrArg Stream.inbound hq.st) (hq.out ▸ List.prefix_rfl))

end View

/-- **The frames of every stream are in order, in every state reached.** -/
theorem Session.opening {cfg : Config} {ok : Session → Label → Prop} {s : Session} {r : Ref}
    {st : Stream} (h : Reaches Session.step ok (Session.new cfg) s) (hst : s.heap[r]? = some st) :
    (s.view r st).Opening :=
  (Session.view_inductive (I := fun _ v => v.Handshake ∧ v.Opening)
    (fun _ _ hi => ⟨hi.handshake, hi.opening⟩)
    (fun _ _ _ _ hs hv => ⟨hs.handshake hv.1, hs.opening hv.1 hv.2⟩) h hst).2

end App

end Mvcp
