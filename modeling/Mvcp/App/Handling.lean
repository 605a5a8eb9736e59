import Mvcp.App.Progress
import Mvcp.App.Routing

/-!
# The frame that `Serve` is handling

`Serve` handles the last frame it read, or waits for the next one. What a stream in the table has
handled, followed by the messages for its id among the frames not yet handled, are the messages
for its id since the stream was created.

## Main definitions

* `Session.framesHandled`: the number of frames that `Serve` is done with
* `Session.Handling`: what `Serve` is busy with comes from the last frame

## Main results

* `Session.handled_routed`: the messages handled by a stream, and those still to be handled
-/

namespace Mvcp.App

open Library (Reaches Always pending pending_cons advance advance_getElem? advance_getElem?_self
  advance_getElem?_ne)

theorem Task.Follows.ref_of_serves {r : Ref} {t : Task} (h : t.Follows r) (hs : t.serves = true) :
    t.ref? = some r := by
  cases h with
  | openFail | epClose => simp [Task.serves] at hs
  | _ => rfl

namespace Session

variable {s s' : Session} {t : Task} {n : Next} {l : Label} {r : Ref} {st : Stream}

/-- The step `t` handles the message `m`, the last one that was handed to a stream. -/
def HandlesFor (s : Session) (t : Task) (m : AppMessage) : Prop :=
  ∃ r o hs, t.ref? = some r ∧ s.origins[r]? = some o ∧ o.id = m.streamID ∧ m.isOpen = false ∧
    s.heard = hs ++ [(r, m)] ∧ ∀ p ∈ s.streams, p.1 = m.streamID → p.2 = r

/-- **What `Serve` is busy with comes from the last frame it read.** -/
def Handling (s : Session) : Prop :=
  ∀ ts, s.threads[0]? = some ts → ∀ t ∈ ts, t.serves = true → ∃ fs f m, s.inbox = fs ++ [f] ∧
    f.app? s.cfg.registry = some m ∧ (t.message? = some m ∨ s.HandlesFor t m)

theorem handling_new (cfg : Config) : (new cfg).Handling := by
  intro ts h0 t ht
  obtain rfl := Option.some.inj h0
  simp at ht

/-- The streams in the table after a step of a goroutine: one with a new id may have been added. -/
theorem Acts.streams (ha : Acts s t n) (htab : s.Table) : ∀ p ∈ n.sess.streams, p ∈ s.streams ∨
    (∀ q ∈ s.names, q.1 ≠ p.1) ∨ ∃ service metadata, t = .handleOpen p.1 service metadata := by
  cases ha with
  | detach hst => exact fun p hp => .inl ((delete_sublist _ _ _).subset hp)
  | open_created hv hm hc hq hid =>
    intro p hp
    rcases List.mem_cons.mp hp with rfl | hp
    · exact .inr (.inl fun q hq => htab.fresh hid hq)
    · exact .inl hp
  | open_admitted h₀ hid hv hm hc hnew hq =>
    intro p hp
    rcases List.mem_cons.mp hp with rfl | hp
    · exact .inr (.inr ⟨_, _, rfl⟩)
    · exact .inl hp
  | fail_now hc hrefs => exact fun p hp => absurd hp List.not_mem_nil
  | _ => exact fun p hp => .inl hp

theorem name_mem_of_origin {o : Origin} (h : s.origins[r]? = some o) :
    (o.id, o.inbound) ∈ s.names := by
  rw [origins, List.getElem?_map, Option.map_eq_some_iff] at h
  obtain ⟨st, hst, rfl⟩ := h
  exact List.mem_map_of_mem (List.mem_of_getElem? hst)

/-- A step that handles no message leaves alone what `Serve` is busy with. -/
theorem HandlesFor.run {t' : Task} {m : AppMessage} (h : s.HandlesFor t' m) (htab : s.Table)
    (ha : Acts s t n) (hm : t.message? = none) : n.sess.HandlesFor t' m := by
  obtain ⟨r, o, hs, hr, ho, hid, hopen, hheard, hstr⟩ := h
  refine ⟨r, o, hs, hr, ?_, hid, hopen, ?_, fun p hp hpid => ?_⟩
  · obtain ⟨os, hos⟩ := ha.origins
    rw [← hos, List.getElem?_append_left (List.getElem?_eq_some_iff.mp ho).1, ho]
  · rcases ha.heard with ⟨he, -⟩ | ⟨m', r', rfl, -⟩
    · rw [he, hheard]
    · simp [Task.message?] at hm
  · rcases ha.streams htab p hp with hp | hne | ⟨service, metadata, rfl⟩
    · exact hstr p hp hpid
    · exact absurd (hid.trans hpid.symm) (hne _ (name_mem_of_origin ho))
    · simp [Task.message?] at hm

/-- What `Serve` goes on with after a step on a message. -/
theorem Acts.push_handling (ha : Acts s t n) (htab : s.Table) {m : AppMessage}
    (hopen : ∀ m', t = .lookup m' → m'.isOpen = false)
    (h : t.message? = some m ∨ s.HandlesFor t m) :
    ∀ t' ∈ n.push, t'.serves = true → n.sess.HandlesFor t' m := by
  cases ha with
  | @lookup_found m' r hstream =>
    intro t' ht' hs
    rcases h with h | ⟨_, _, _, h, -⟩
    · obtain rfl := Option.some.inj h
      obtain ⟨b, hb⟩ := htab.ids _ (mem_of_stream hstream)
      rw [names, List.getElem?_map, Option.map_eq_some_iff] at hb
      obtain ⟨st, hst, hname⟩ := hb
      refine ⟨r, st.origin, s.heard, (dispatch_follows _ t' ht').ref_of_serves hs, ?_,
        congrArg Prod.fst hname, hopen m' rfl, rfl, fun p hp hpid => ?_⟩
      · change (s.heap.map Stream.origin)[r]? = _
        rw [List.getElem?_map, hst]
        rfl
      · have : s.stream m'.streamID = some p.2 := htab.stream_of_mem (hpid ▸ hp)
        exact Option.some.inj (this.symm.trans hstream)
    · simp at h
  | sect hst hf ho =>
    intro t' ht' hs
    obtain ⟨-, -, href, -⟩ := hf.refuses ht' hs
    rcases h with h | ⟨r', o', hs', hr', ho', hid, hop, hheard, hstr⟩
    · simp [Task.message?] at h
    · obtain rfl := Option.some.inj hr'
      refine ⟨_, o', hs', href, ?_, hid, hop, hheard, hstr⟩
      rw [← ho']
      exact congrArg (·[_]?) (Library.map_set_of_eq hst hf.origin)
  | @emit_sent r x st hst hsend =>
    intro t' ht' hs
    rcases h with h | ⟨r', o', hs', hr', rest⟩
    · simp [Task.message?] at h
    · obtain rfl := Option.some.inj hr'
      exact ⟨_, o', hs', (x.sent_follows t' ht').ref_of_serves hs, rest⟩
  | @emit_lost r x st hst hsend =>
    intro t' ht' hs
    rcases h with h | ⟨r', o', hs', hr', rest⟩
    · simp [Task.message?] at h
    · obtain rfl := Option.some.inj hr'
      exact ⟨_, o', hs', (x.failed_follows t' ht').ref_of_serves hs, rest⟩
  | pump hep hp =>
    intro t' ht' hs
    simp [(hp.tasks t' (by simp [ht'])).serves] at hs
  | fail_now hc hrefs =>
    intro t' ht' hs
    cases failTask_of_mem ht' <;> simp [Task.serves, Cause.remote] at hs
  | _ => simp [Task.serves, Cause.remote]

theorem Handling.run (h : s.Handling) (hcur : s.Current) (htab : s.Table) (hserve : s.Serving)
    {i : ℕ} {rest : List Task} (ht : s.threads[i]? = some (t :: rest)) (ha : Acts s t n) :
    (s.after i n rest).Handling := by
  intro ts h0 t' ht' hs
  have hin : (s.after i n rest).inbox = s.inbox := ha.inbox.1
  have hcfg : (s.after i n rest).cfg = s.cfg := ha.inbox.2
  rw [hin, hcfg]
  -- a step that was pending before, while another one is taken that handles no message
  have hkeep {us : List Task} (hus : s.threads[0]? = some us) (hm : t' ∈ us)
      (hn : t.message? = none) : ∃ fs f m, s.inbox = fs ++ [f] ∧
        f.app? s.cfg.registry = some m ∧
        (t'.message? = some m ∨ (s.after i n rest).HandlesFor t' m) := by
    obtain ⟨fs, f, m, hfs, hf, hor⟩ := h us hus t' hm hs
    exact ⟨fs, f, m, hfs, hf, hor.imp_right (·.run htab ha hn)⟩
  by_cases hi : i = 0
  · subst hi
    rw [after_zero_self hserve] at h0
    obtain rfl := Option.some.inj h0
    rcases List.mem_append.mp ht' with ht' | ht'
    · have hts : t.serves = true := by
        by_contra hc
        have := Task.serves_of_countP ha.push_serves (by simpa using hc) t' ht'
        simp [hs] at this
      obtain ⟨fs, f, m, hfs, hf, hor⟩ := h _ ht t (by simp) hts
      refine ⟨fs, f, m, hfs, hf, .inr (ha.push_handling htab (fun m' hm' => ?_) hor t' ht' hs)⟩
      rcases hcur _ ht with ⟨t₀, m₀, -, -, he, -, -, -, hop⟩ | hn
      · obtain ⟨rfl, -⟩ := List.cons.inj he
        exact hop m' hm'
      · simpa [hm', Task.message?] using hn t (by simp)
    · refine hkeep ht (by simp [ht']) ?_
      have hcount := hserve.single _ ht
      have hpos : 0 < rest.countP Task.serves := List.countP_pos_iff.mpr ⟨t', ht', hs⟩
      rw [List.countP_cons] at hcount
      by_contra hm
      obtain ⟨m, hm⟩ := Option.ne_none_iff_exists'.mp hm
      rw [if_pos (Task.serves_of_message? hm)] at hcount
      omega
  · rw [after_zero hserve hi] at h0
    refine hkeep h0 ht' ?_
    by_contra hm
    obtain ⟨m, hm⟩ := Option.ne_none_iff_exists'.mp hm
    exact hi (hserve.zero_of_message? ht hm)

theorem HandlesFor.congr {m : AppMessage} (h : s.HandlesFor t m) (hheap : s'.heap = s.heap)
    (hstr : s'.streams = s.streams) (hheard : s'.heard = s.heard) : s'.HandlesFor t m := by
  obtain ⟨r, o, hs, hr, ho, rest⟩ := h
  refine ⟨r, o, hs, hr, ?_, ?_⟩
  · rw [origins, hheap]; exact ho
  · rw [hstr, hheard]; exact rest

theorem Handling.congr (h : s.Handling) (hin : s'.inbox = s.inbox) (hcfg : s'.cfg = s.cfg)
    (hheap : s'.heap = s.heap) (hstr : s'.streams = s.streams) (hheard : s'.heard = s.heard)
    (h0 : s'.threads[0]? = s.threads[0]?) : s'.Handling := by
  intro ts hts t ht hs
  rw [hin, hcfg]
  obtain ⟨fs, f, m, hfs, hf, hor⟩ := h ts (h0 ▸ hts) t ht hs
  exact ⟨fs, f, m, hfs, hf, hor.imp_right (·.congr hheap hstr hheard)⟩

theorem handleFrame_message (registry : Registry) (f : Frame) :
    ∀ t ∈ handleFrame registry f, t.serves = true → t.message? ≠ none := by
  unfold handleFrame
  split_ifs
  · simp [Task.serves]
  · split <;> simp [Task.serves, Task.message?]

/-- **Every step keeps it that `Serve` is busy with the last frame.** -/
theorem Moves.handling (hm : Moves s l s') (hcur : s.Current) (htab : s.Table)
    (hserve : s.Serving) (h : s.Handling) : s'.Handling := by
  have hspawn (ts : List Task) : (s.threads ++ [ts])[0]? = s.threads[0]? :=
    List.getElem?_append_left hserve.alive
  cases hm with
  | run ht ha => exact h.run hcur htab hserve ht ha
  | callOn hs hc => exact h.congr rfl rfl rfl rfl rfl (hspawn _)
  | callOpen => exact h.congr rfl rfl rfl rfl rfl (hspawn _)
  | callClose => exact h.congr rfl rfl rfl rfl rfl (hspawn _)
  | recv h0 hs =>
    intro ts hts t ht hts'
    have hzero := List.getElem?_set_self (a := handleFrame s.cfg.registry ‹_›) hserve.alive
    obtain rfl := Option.some.inj (hzero.symm.trans hts)
    rcases handleFrame_cases s.cfg.registry ‹_› with ⟨t₀, m, he, hm, hf, -⟩ | ⟨-, hn⟩
    · obtain rfl : t = t₀ := by simpa [he] using ht
      exact ⟨s.inbox, _, m, rfl, hf, .inl hm⟩
    · exact absurd (hn t ht) (handleFrame_message _ _ t ht hts')
  | readError h0 hs =>
    intro ts hts t ht hts'
    obtain rfl := Option.some.inj ((List.getElem?_set_self hserve.alive).symm.trans hts)
    simp only [List.mem_cons, List.not_mem_nil, or_false] at ht
    rcases ht with rfl | rfl <;> simp [Task.serves] at hts'
  | connLost => exact h.congr rfl rfl rfl rfl rfl rfl

variable {cfg : Config} {ok : Session → Label → Prop}

theorem handling (h : Reaches step ok (new cfg) s) : s.Handling :=
  h.invariant (handling_new cfg) fun _ _ _ hr _ hs hh =>
    (moves_of_step hs).handling (arrivals hr).current (reaches_table hr) (reaches_serving hr) hh

/-! ## The frames handled -/

/-- `Serve` is busy with a frame. -/
def busy (s : Session) : Bool := (s.threads[0]?.getD []).any Task.serves

/-- The number of frames that `Serve` is done with. -/
def framesHandled (s : Session) : ℕ :=
  if s.busy then s.inbox.length - 1 else s.inbox.length

theorem framesHandled_le (s : Session) : s.framesHandled ≤ s.inbox.length := by
  unfold framesHandled
  split_ifs
  · exact Nat.sub_le _ _
  · exact le_rfl

/-- What `Serve` has to do is in its own goroutine. -/
theorem Serving.mem_zero (h : s.Serving) (ht : t ∈ pending s.threads) (hs : t.serves = true) :
    ∃ ts, s.threads[0]? = some ts ∧ t ∈ ts := by
  obtain ⟨ts, hts, htm⟩ := List.mem_flatten.mp (Multiset.mem_coe.mp ht)
  obtain ⟨i, hi⟩ := List.mem_iff_getElem?.mp hts
  cases i with
  | zero => exact ⟨ts, hi, htm⟩
  | succ i => simp [h.others i ts hi t htm] at hs

theorem mem_pending_of_zero {ts : List Task} (h : s.threads[0]? = some ts) (ht : t ∈ ts) :
    t ∈ pending s.threads :=
  Multiset.mem_coe.mpr (List.mem_flatten.mpr ⟨ts, List.mem_of_getElem? h, ht⟩)

/-- Two steps of `Serve` are one. -/
theorem Serving.eq_of_serves (h : s.Serving) {t' : Task} (ht : t ∈ pending s.threads)
    (hs : t.serves = true) (ht' : t' ∈ pending s.threads) (hs' : t'.serves = true) : t = t' := by
  by_contra hne
  obtain ⟨others, ho⟩ := Multiset.exists_cons_of_mem ht
  have hmem : t' ∈ others := by
    rw [ho] at ht'
    exact (Multiset.mem_cons.mp ht').resolve_left (Ne.symm hne)
  have hc := h.countP_le
  rw [ho, Multiset.countP_cons, if_pos hs] at hc
  have := (Multiset.countP_pos (p := fun t => t.serves = true)).mpr ⟨t', hmem, hs'⟩
  omega

theorem mem_tasksOf : t ∈ s.tasksOf r ↔ t ∈ pending s.threads ∧ t.ref? = some r :=
  Multiset.mem_filter

/-- Who works on a stream works on one that exists. -/
theorem exists_heap (h : Reaches step ok (new cfg) s)
    (hm : t ∈ pending s.threads) (hr : t.ref? = some r) : ∃ st, s.heap[r]? = some st := by
  by_contra hno
  have hlen : s.heap.length ≤ r := by
    refine List.getElem?_eq_none_iff.mp ?_
    cases hst : s.heap[r]? with
    | none => rfl
    | some st => exact absurd ⟨st, hst⟩ hno
  have hmem : t ∈ s.tasksOf r := mem_tasksOf.mpr ⟨hm, hr⟩
  simp [(blank h hlen).tasks] at hmem

theorem view_busy_iff : (s.view r st).Busy ↔
    ∃ t ∈ pending s.threads, t.serves = true ∧ t.ref? = some r := by
  constructor
  · rintro ⟨t, ht, hs⟩
    obtain ⟨hp, hr⟩ := mem_tasksOf.mp ht
    exact ⟨t, hp, hs, hr⟩
  · rintro ⟨t, hp, hs, hr⟩
    exact ⟨t, mem_tasksOf.mpr ⟨hp, hr⟩, hs⟩

theorem busy_iff (h : s.Serving) : s.busy = true ↔ ∃ t ∈ pending s.threads, t.serves = true := by
  obtain ⟨ts, hts⟩ : ∃ ts, s.threads[0]? = some ts :=
    ⟨_, List.getElem?_eq_getElem h.alive⟩
  simp only [busy, hts, Option.getD_some, List.any_eq_true]
  constructor
  · rintro ⟨t, ht, hs⟩
    exact ⟨t, mem_pending_of_zero hts ht, hs⟩
  · rintro ⟨t, ht, hs⟩
    obtain ⟨ts', hts', htm⟩ := h.mem_zero ht hs
    obtain rfl := Option.some.inj (hts.symm.trans hts')
    exact ⟨t, htm, hs⟩

theorem handled_of_not_busy (h : ∀ t ∈ pending s.threads, t.serves = true → t.ref? ≠ some r) :
    (s.view r st).handled = s.heardOf r := by
  rw [View.handled, if_neg]
  · rfl
  · rw [view_busy_iff]
    rintro ⟨t, ht, hs, hr⟩
    exact h t ht hs hr

theorem looking_of_not_lookup {id : UInt32}
    (h : ∀ t ∈ pending s.threads, t.serves = true → ∀ m, t ≠ .lookup m) : s.looking id = [] :=
  looking_eq_nil fun t ts h0 m he =>
    h t (mem_pending_of_zero h0 (by simp)) (by rw [he]; rfl) m he

/-- `Serve` has a message in hand that was not handed to a stream. -/
theorem looking_of_message {ts : List Task} {f : Frame} {m : AppMessage}
    (hcur : s.Current) (h0 : s.threads[0]? = some ts) (ht : t ∈ ts) (hm : t.message? = some m)
    (hf : f.app? s.cfg.registry = some m) (id : UInt32) :
    messagesFor s.cfg.registry id [f] = s.looking id := by
  rcases hcur ts h0 with ⟨t₀, m₀, fs₀, f₀, rfl, hm₀, hfs₀, hf₀, hop⟩ | hn
  · obtain rfl := List.mem_singleton.mp ht
    cases t with
    | lookup m' =>
      obtain rfl := Option.some.inj hm
      rw [looking_lookup h0]
      by_cases hid : m'.streamID = id <;> simp [messagesFor, hf, hid, hop m' rfl]
    | handleOpen id' service metadata =>
      obtain rfl := Option.some.inj hm
      rw [looking_eq_nil fun t ts h0' => ?_]
      · simp [messagesFor, hf, AppMessage.isOpen]
      · obtain ⟨rfl, -⟩ := List.cons.inj (Option.some.inj (h0.symm.trans h0'))
        simp
    | _ => simp [Task.message?] at hm
  · simp [hn t ht] at hm

/-- `Serve` handles a message that was handed to a stream. -/
theorem HandlesFor.handled {f : Frame} {m : AppMessage} (h : s.HandlesFor t m) (htab : s.Table)
    (hserve : s.Serving) (ht : t ∈ pending s.threads) (hs : t.serves = true)
    (hf : f.app? s.cfg.registry = some m) (hst : s.heap[r]? = some st)
    (hl : r ∈ s.streams.map Prod.snd) :
    (s.view r st).handled ++ messagesFor s.cfg.registry st.id [f] = s.heardOf r := by
  obtain ⟨r', o, hs', hr', ho, hid, hopen, hheard, hstr⟩ := h
  by_cases hr : r' = r
  · subst hr
    have hheard' : s.heardOf r' = hs'.filterMap (heardBy r') ++ [m] := by
      simp [heardOf, hheard, heardBy]
    have hoid : st.id = m.streamID := by
      rw [origins, List.getElem?_map, hst] at ho
      obtain rfl := Option.some.inj ho
      exact hid
    have hm : messagesFor s.cfg.registry st.id [f] = [m] := by
      simp [messagesFor, hf, hoid, hopen]
    rw [View.handled, if_pos (view_busy_iff.mpr ⟨t, ht, hs, hr'⟩), hm]
    change (s.heardOf r').dropLast ++ [m] = s.heardOf r'
    rw [hheard', List.dropLast_concat]
  · have hne : m.streamID ≠ st.id := by
      intro he
      obtain ⟨p, hp, rfl⟩ := List.mem_map.mp hl
      obtain ⟨b, hb⟩ := htab.ids p hp
      simp only [names_getElem?, hst, Option.map_some, Option.some.injEq] at hb
      exact hr (hstr p hp ((congrArg Prod.fst hb).symm.trans he.symm)).symm
    rw [handled_of_not_busy fun t' ht' hs'' => ?_]
    · simp [messagesFor, hf, hne]
    · rw [← hserve.eq_of_serves ht hs ht' hs'', hr']
      simpa using hr

/-- **The messages that a stream in the table has handled, and those that it will.** -/
theorem handled_looking (h : Reaches step ok (new cfg) s) (hst : s.heap[r]? = some st)
    (hl : r ∈ s.streams.map Prod.snd) :
    (s.view r st).handled ++ messagesFor s.cfg.registry st.id (s.inbox.drop s.framesHandled) =
      s.heardOf r ++ s.looking st.id := by
  have hserve := reaches_serving h
  by_cases hb : s.busy = true
  · obtain ⟨t, ht, hs⟩ := (busy_iff hserve).mp hb
    obtain ⟨ts, h0, htm⟩ := hserve.mem_zero ht hs
    obtain ⟨fs, f, m, hfs, hf, hor⟩ := handling h ts h0 t htm hs
    have hdrop : s.inbox.drop s.framesHandled = [f] := by
      simp [framesHandled, hb, hfs]
    have heq {t' : Task} (ht' : t' ∈ pending s.threads) (hs' : t'.serves = true) : t = t' :=
      hserve.eq_of_serves ht hs ht' hs'
    rw [hdrop]
    rcases hor with hm | hor
    · rw [looking_of_message (arrivals h).current h0 htm hm hf,
        handled_of_not_busy fun t' ht' hs' => ?_]
      rw [← heq ht' hs']
      cases t <;> simp [Task.message?] at hm ⊢
    · rw [hor.handled (reaches_table h) hserve ht hs hf hst hl,
        looking_of_not_lookup fun t' ht' hs' m' he => ?_, List.append_nil]
      obtain ⟨r', -, -, hr', -⟩ := hor
      simp [heq ht' hs', he] at hr'
  · have hnone (t : Task) (ht : t ∈ pending s.threads) (hs : t.serves = true) : False :=
      hb ((busy_iff hserve).mpr ⟨t, ht, hs⟩)
    rw [handled_of_not_busy fun t ht hs => (hnone t ht hs).elim,
      looking_of_not_lookup fun t ht hs => (hnone t ht hs).elim]
    simp [framesHandled, hb]

end Session

end Mvcp.App
