import Mvcp.App.Resolution

/-!
# What a sender was granted

A stream sends on credit: the initial grant, which `acceptOpen` takes for itself and `Open` reads
from the `APP_ACCEPT`, and what the peer adds with each `APP_CREDIT`. Whatever the peer sends, in
whatever order, the write loop never takes more from the queue than that: an `APP_CREDIT` whose sum
wraps only lowers the credit, one that comes before the accept is overwritten by it, and an
`APP_ACCEPT` that comes again is ignored.

## Main definitions

* `Entry.grant?`, `grants`: the initial grants of a stream
* `processed`: the bytes of the `APP_CREDIT` frames that were processed
* `View.Granted`: the bytes taken and the credit left are covered
* `View.Sized`: no data frame is empty or too large

## Main results

* `Session.sent_within_credit`: what a stream has sent is covered by what it was granted
-/

namespace Mvcp.App

open Library (Reaches Always Records exists_records_of_run)

/-- The bytes of an `APP_CREDIT`. -/
def Section.credit : Section → ℕ
  | .addCredit n => n
  | _ => 0

/-- The initial grant that the critical section took for the stream. -/
def Entry.grant? (e : Entry) : Option ℕ :=
  match e.sect with
  | .acceptWindow .. => some appInitialWindow
  | .handleAccept _ grant => if e.resolves then some grant else none
  | _ => none

/-- Where an initial grant comes from, when the sections are those of a stream with the given
direction. -/
theorem Entry.grant_source {e : Entry} {inbound : Bool}
    (h : (e.sect.phase = .acceptor → inbound = true) ∧ (e.resolves = true → inbound = false))
    {g : ℕ} (hg : e.grant? = some g) :
    if inbound then g = appInitialWindow else ∃ metadata, e.sect = .handleAccept metadata g ∧
      e.before.opening = true ∧ e.after.opening = false := by
  obtain ⟨before, x, after⟩ := e
  cases x with
  | acceptWindow e metadata =>
    rw [h.1 rfl, if_pos rfl]
    exact (Option.some.inj hg).symm
  | handleAccept metadata grant =>
    simp only [Entry.grant?] at hg
    split_ifs at hg with hr
    obtain rfl := Option.some.inj hg
    rw [h.2 hr]
    simp only [Entry.resolves, Bool.and_eq_true, Bool.not_eq_true'] at hr
    exact ⟨metadata, rfl, hr⟩
  | _ => simp [Entry.grant?] at hg

/-- The initial grants of a stream. -/
def grants (es : List Entry) : List ℕ := es.filterMap Entry.grant?

/-- The bytes of the `APP_CREDIT` frames that were processed. -/
def processed (es : List Entry) : ℕ := (es.map fun e => e.sect.credit).sum

@[simp] theorem grants_nil : grants [] = [] := rfl

@[simp] theorem processed_nil : processed [] = 0 := rfl

@[simp] theorem processed_concat (es : List Entry) (e : Entry) :
    processed (es ++ [e]) = processed es + e.sect.credit := by
  simp [processed]

theorem grants_concat_none {es : List Entry} {e : Entry} (h : e.grant? = none) :
    grants (es ++ [e]) = grants es := by
  simp [grants, h]

theorem grants_concat_some {es : List Entry} {e : Entry} {g : ℕ} (h : e.grant? = some g) :
    grants (es ++ [e]) = grants es ++ [g] := by
  simp [grants, h]

namespace Stream

variable {r : Ref} {st : Stream} {x : Section} {o : Outcome}

/-- **What a critical section does to the credit and the bytes taken.** -/
theorem Fires.covered (h : Fires r st x o) (hc : st.sndCredit ≤ appMaxCredit) :
    Entry.grant? ⟨st, x, o.st⟩ = none ∧
        o.st.bytesOut + o.st.sndCredit ≤ st.bytesOut + st.sndCredit + x.credit ∨
      Entry.grant? ⟨st, x, o.st⟩ = some o.st.sndCredit ∧ o.st.bytesOut = st.bytesOut ∧
        (x.phase = .acceptor ∨ st.opening = true ∧ o.st.opening = false) := by
  cases h with
  | @loop_data c q hr hq hpos =>
    have hsub := sndCredit_dequeue (c := c) (q := q) hc
    refine .inl ⟨rfl, ?_⟩
    simp only [dequeue, Section.credit] at hsub ⊢
    omega
  | @credit_added n hr h =>
    have hmod : add32 st.sndCredit n ≤ st.sndCredit + n := Nat.mod_le _ _
    refine .inl ⟨rfl, ?_⟩
    simp only [Section.credit]
    omega
  | acceptWindow => exact .inr ⟨rfl, rfl, .inl rfl⟩
  | accepted hm hg hg' ho =>
    exact .inr ⟨by simp [Entry.grant?, Entry.resolves, ho], rfl, .inr ⟨ho, rfl⟩⟩
  | ignored h => exact .inl ⟨by cases h <;> simp [Entry.grant?, Entry.resolves], by simp⟩
  | refused h => exact .inl ⟨by cases h <;> simp [Entry.grant?, Entry.resolves], by simp⟩
  | _ => exact .inl ⟨rfl, by simp [Stream.park, enqueue, consume, Stream.accept]⟩

/-- Bytes are taken by the write loop of a stream that is not reset. -/
theorem Fires.bytesOut_eq_or (h : Fires r st x o) :
    o.st.bytesOut = st.bytesOut ∨ x.phase = .live ∧ st.reset = false := by
  cases h with
  | loop_data hr hq hc => exact .inr ⟨rfl, hr⟩
  | _ => exact .inl rfl

/-- A handshake that is complete without a grant was complete before the section. -/
theorem Fires.complete (h : Fires r st x o) (hg : Entry.grant? ⟨st, x, o.st⟩ = none)
    (ha : o.st.accepting = false) (ho : o.st.opening = false) (he : o.st.openErr = none)
    (hr : o.st.reset = false) :
    st.accepting = false ∧ st.opening = false ∧ st.openErr = none ∧ st.reset = false := by
  cases h with
  | acceptWindow => simp [Entry.grant?] at hg
  | accepted hm hg' hg'' hop => simp [Entry.grant?, Entry.resolves, hop] at hg
  | rejected hop => simp at he
  | reset_set hr' => simp at hr
  | _ => exact ⟨ha, ho, he, hr⟩

theorem quantum_pos {c : Bytes} (hc : c ≠ []) (hpos : 0 < st.sndCredit) : 0 < st.quantum c := by
  have hlen := List.length_pos_iff.mpr hc
  have hmax : 0 < appMaxDataBytes := by decide
  simp only [quantum]
  omega

end Stream

/-- The frame write carries data that fits a frame, if it carries data. -/
def Task.sized (t : Task) : Prop := ∀ b, t.hand = some b → b ≠ [] ∧ b.length ≤ appMaxDataBytes

theorem Task.sized_of_none {t : Task} (h : t.hand = none) : t.sized := by
  intro b hb
  simp [h] at hb

theorem Stream.Fires.push_sized {r : Ref} {st : Stream} {x : Section} {o : Outcome}
    (h : Fires r st x o) (hq : ∀ c ∈ st.sendQ, c ≠ []) : ∀ t ∈ o.push, t.sized := by
  cases h with
  | @loop_data c q hr hsq hpos =>
    have hc : c ≠ [] := hq c (by simp [hsq])
    have hquantum := Stream.quantum_pos hc hpos
    have hlen := st.quantum_le_length c
    have hmax := st.quantum_le_data c
    simp only [List.mem_cons, List.not_mem_nil, or_false, forall_eq_or_imp, forall_eq, Task.sized,
      Task.hand, Option.some.injEq, reduceCtorEq, false_implies, implies_true, true_and]
    rintro b rfl
    refine ⟨fun hnil => ?_, by rw [List.length_take]; omega⟩
    have := congrArg List.length hnil
    rw [List.length_take, List.length_nil] at this
    omega
  | detachBytes => split_ifs <;> simp [Task.sized, Task.hand]
  | closeEndpoint => simp +contextual [Task.sized, Task.hand]
  | _ => simp [Stream.park, Task.sized, Task.hand, or_imp, forall_and]

namespace View

variable {r : Ref} {v v' : View} {es : List Entry}

theorem Handshake.inbound_of_accepting (h : v.Handshake) (ha : v.st.accepting = true) :
    v.st.inbound = true := by
  by_contra hi
  simp [h.outbound (by simpa using hi)] at ha

theorem Handshake.outbound_of_opening (h : v.Handshake) (ho : v.st.opening = true) :
    v.st.inbound = false := by
  by_contra hi
  simp [(h.inbound (by simpa using hi)).1] at ho

/-- **The bytes taken and the credit left are covered by what was granted.** -/
structure Granted (es : List Entry) (v : View) : Prop where
  handshake : v.Handshake
  queues : v.Queues
  /-- Nothing is granted, and nothing taken, before the handshake is complete. -/
  before : v.st.accepting = true ∨ v.st.opening = true → grants es = [] ∧ v.st.bytesOut = 0
  after : v.st.accepting = false → v.st.opening = false → v.st.openErr = none →
    v.st.reset = false → grants es ≠ []
  single : (grants es).length ≤ 1
  taken : 0 < v.st.bytesOut → grants es ≠ []
  covered : v.st.bytesOut + v.st.sndCredit ≤ (grants es).sum + processed es
  /-- A stream of the peer takes the initial window, and one opened here what the peer grants. -/
  source : ∀ e ∈ es, (e.sect.phase = .acceptor → v.st.inbound = true) ∧
    (e.resolves = true → v.st.inbound = false)

theorem Initial.granted (h : Initial r v) : v.Granted [] := by
  have hh := h.handshake
  have hq := h.queues
  cases h with
  | inbound => exact ⟨hh, hq, by simp, by simp, by simp, by simp, by simp, by simp⟩
  | outbound hm => exact ⟨hh, hq, by simp, by simp, by simp, by simp, by simp, by simp⟩

theorem Granted.quiet (h : v.Granted es) (hs : Step r v none v') : v'.Granted es := by
  have hst := hs.quiet.1
  refine ⟨hs.handshake h.handshake, hs.queues h.handshake h.queues, ?_, ?_, h.single, ?_, ?_, ?_⟩
  · rw [hst]; exact h.before
  · rw [hst]; exact h.after
  · rw [hst]; exact h.taken
  · rw [hst]; exact h.covered
  · rw [hst]; exact h.source

theorem Granted.enters {observer : Bool} {x : Section} {o : Outcome} (h : v.Granted es)
    (hs : Enters observer r v x o v') : v'.Granted (es ++ [⟨v.st, x, o.st⟩]) := by
  have hf := hs.fires
  have hh' := hs.step.handshake h.handshake
  have hq' := hs.step.queues h.handshake h.queues
  -- a section that uses the stream comes after the handshake
  have hlive (hx : x.phase = .live) := h.handshake.live (.inr ⟨_, hs.mem, hx⟩)
  have hbefore : o.st.accepting = true ∨ o.st.opening = true →
      v.st.accepting = true ∨ v.st.opening = true := by
    rintro (ha | ho)
    · rcases hf.accepting with ⟨heq, -⟩ | ⟨hfalse, -⟩
      · exact .inl (heq ▸ ha)
      · simp [ha] at hfalse
    · exact .inr (hf.opening ho)
  have hsource : ∀ e ∈ es ++ [⟨v.st, x, o.st⟩], (e.sect.phase = .acceptor → v'.st.inbound = true) ∧
      (e.resolves = true → v'.st.inbound = false) := by
    have hin : v'.st.inbound = v.st.inbound := hs.st ▸ congrArg Prod.snd hf.name
    intro e he
    rw [hin]
    rcases List.mem_append.mp he with he | he
    · exact h.source e he
    · obtain rfl := List.mem_singleton.mp he
      refine ⟨fun hx => ?_, fun hr => ?_⟩
      · exact h.handshake.inbound_of_accepting (h.handshake.acceptor _ hs.mem hx)
      · simp only [Entry.resolves, Bool.and_eq_true] at hr
        exact h.handshake.outbound_of_opening hr.1
  rcases hf.covered h.queues.sndCredit_le with ⟨hg, hle⟩ | ⟨hg, hbytes, hcase⟩
  · -- no grant
    have heq : grants (es ++ [⟨v.st, x, o.st⟩]) = grants es := grants_concat_none hg
    refine ⟨hh', hq', ?_, ?_, ?_, ?_, ?_, hsource⟩ <;> rw [heq]
    · rw [hs.st]
      intro hb
      obtain ⟨hnil, hzero⟩ := h.before (hbefore hb)
      refine ⟨hnil, ?_⟩
      rcases hf.bytesOut_eq_or with hbytes | ⟨hx, -⟩
      · exact hbytes.trans hzero
      · obtain ⟨ho, ha, -⟩ := hlive hx
        simpa [ha, ho] using hbefore hb
    · rw [hs.st]
      intro ha ho he hr
      obtain ⟨ha, ho, he, hr⟩ := hf.complete hg ha ho he hr
      exact h.after ha ho he hr
    · exact h.single
    · rw [hs.st]
      intro hpos
      rcases hf.bytesOut_eq_or with hbytes | ⟨hx, hr⟩
      · exact h.taken (hbytes ▸ hpos)
      · obtain ⟨ho, ha, he, -⟩ := hlive hx
        exact h.after ha ho he hr
    · have := h.covered
      rw [hs.st, processed_concat]
      dsimp only
      omega
  · -- the first grant, which completes the handshake
    have hdone : (grants es = [] ∧ v.st.bytesOut = 0) ∧
        o.st.accepting = false ∧ o.st.opening = false := by
      rcases hcase with hx | ⟨hopen, ho⟩
      · have hacc := h.handshake.acceptor _ hs.mem hx
        refine ⟨h.before (.inl hacc), ?_, ?_⟩
        · rcases hf.accepting with ⟨-, hne⟩ | ⟨hfalse, -⟩
          · exact absurd hx hne
          · exact hfalse
        · have hopen := (h.handshake.inbound (h.handshake.inbound_of_accepting hacc)).1
          by_contra ho
          simp [hf.opening (by simpa using ho)] at hopen
      · refine ⟨h.before (.inr hopen), ?_, ho⟩
        have hacc := h.handshake.outbound (h.handshake.outbound_of_opening hopen)
        rcases hf.accepting with ⟨heq, -⟩ | ⟨hfalse, -⟩
        · exact heq.trans hacc
        · exact hfalse
    obtain ⟨⟨hnil, hzero⟩, ha, ho⟩ := hdone
    have heq : grants (es ++ [⟨v.st, x, o.st⟩]) = [o.st.sndCredit] := by
      rw [grants_concat_some hg, hnil, List.nil_append]
    refine ⟨hh', hq', ?_, ?_, ?_, ?_, ?_, hsource⟩ <;> rw [heq]
    · rw [hs.st, ha, ho]
      simp
    · simp
    · simp
    · simp
    · rw [hs.st, hbytes, hzero]
      simp

/-- **No data frame is empty or too large.** -/
structure Sized (v : View) : Prop where
  handshake : v.Handshake
  queues : v.Queues
  tasks : ∀ t ∈ v.tasks, t.sized
  out : ∀ m ∈ v.out, m.isData = true →
    1 ≤ m.payload.length ∧ m.payload.length ≤ appMaxDataBytes

theorem Initial.sized (h : Initial r v) : v.Sized := by
  have hh := h.handshake
  have hq := h.queues
  cases h with
  | inbound => exact ⟨hh, hq, by simp [Task.sized, Task.hand], by simp⟩
  | outbound hm => exact ⟨hh, hq, by simp [Task.sized, Task.hand], by simp⟩

theorem Step.sized {a : Option Section} (hs : Step r v a v') (h : v.Sized) : v'.Sized := by
  refine ⟨hs.handshake h.handshake, hs.queues h.handshake h.queues, fun t ht => ?_,
    fun m hm hd => ?_⟩
  · cases hs.arises ht with
    | kept hm => exact h.tasks t hm
    | sect hx ha hf hst hm => exact hf.push_sized h.queues.chunks.1 t hm
    | sent hx hout hm => exact Task.sized_of_none (Emission.sent_follows _ t hm).hand
    | lost hx hm => exact Task.sized_of_none (Emission.failed_follows _ t hm).hand
    | lead h₀ hl hm =>
      intro b hb
      have hcargo := hl.cargo.2 t hm
      rw [Task.cargo_of_hand hb] at hcargo
      cases hcargo
    | detach ht => exact Task.sized_of_none (by rw [ht]; rfl)
    | arrive hid hheard hm => exact Task.sized_of_none (Session.dispatch_follows _ t hm).hand
    | fail ht => exact Task.sized_of_none (by rw [ht]; rfl)
    | call hs hc => exact Task.sized_of_none (by cases hc <;> rfl)
  · cases hs with
    | @sent x rest ht hmar hup =>
      rcases List.mem_append.mp hm with hm | hm
      · exact h.out m hm hd
      · -- the frame that the write loop had in hand
        obtain rfl := List.mem_singleton.mp hm
        cases x with
        | data p =>
          obtain ⟨hne, hle⟩ := h.tasks (.emit r (.data p)) (by simp [ht]) p rfl
          exact ⟨List.length_pos_iff.mpr hne, hle⟩
        | _ => simp [Emission.message, AppMessage.isData] at hd
    | _ => exact h.out m hm hd

end View

namespace Session

variable {cfg : Config} {ok : Session → Label → Prop} {s : Session} {r : Ref} {st : Stream}
variable {es : List Entry}

theorem granted (h : Records step ok (entry r) (new cfg) es s) (hst : s.heap[r]? = some st) :
    (s.view r st).Granted es :=
  view_records (fun _ hi => hi.granted) (fun _ _ _ hs hv => hv.quiet hs)
    (fun _ _ _ _ _ hs hv => hv.enters hs) h hst

theorem sized (h : Reaches step ok (new cfg) s) (hst : s.heap[r]? = some st) :
    (s.view r st).Sized :=
  view_inductive (I := fun _ v => v.Sized) (fun _ _ hi => hi.sized)
    (fun _ _ _ _ hs hv => hs.sized hv) h hst

/-- **A sender never exceeds the credit it was granted.** In every run against any peer, the bytes
of the data frames of a stream and the credit it has left are at most the initial grant and the
bytes of the `APP_CREDIT` frames processed. There is one initial grant: the initial window for a
stream of the peer, and what the `APP_ACCEPT` that completed the handshake grants for one opened
here. Every data frame has between `1` and `AppMaxDataBytes` bytes, and there is none before the
grant; a stream of the peer has written its `APP_ACCEPT` before. -/
theorem sent_within_credit (h : Records step Always (entry r) (new cfg) es s)
    (hst : s.heap[r]? = some st) :
    (payloads (s.view r st).out).length + st.sndCredit ≤ (grants es).sum + processed es ∧
    (grants es).length ≤ 1 ∧
    (∀ e ∈ es, ∀ g, e.grant? = some g →
      if st.inbound then g = appInitialWindow else ∃ metadata, e.sect = .handleAccept metadata g ∧
        e.before.opening = true ∧ e.after.opening = false) ∧
    (∀ m ∈ (s.view r st).out, m.isData = true →
      1 ≤ m.payload.length ∧ m.payload.length ≤ appMaxDataBytes) ∧
    (grants es = [] → ∀ m ∈ (s.view r st).out, m.isData = false) ∧
    (st.inbound = true → ∀ ms m ms', (s.view r st).out = ms ++ m :: ms' → m.isData = true →
      ∃ m' ∈ ms, m'.isAccept = true) := by
  have hg := granted h hst
  have hsized := sized h.reaches hst
  have hsent : (payloads (s.view r st).out).length ≤ st.bytesOut := by
    obtain ⟨d, -, hd, hp, -⟩ := (sender h.reaches hst).flow
    exact hp.length_le.trans hd.le
  refine ⟨?_, hg.single, fun e he g hgrant => ?_, hsized.out, fun hnil m hm => ?_, ?_⟩
  · have : st.bytesOut + st.sndCredit ≤ (grants es).sum + processed es := hg.covered
    omega
  · exact e.grant_source (hg.source e he) hgrant
  · -- a data frame has a byte, and it was taken by the write loop
    by_contra hd
    obtain ⟨hpos, -⟩ := hsized.out m hm (by simpa using hd)
    obtain ⟨b, hb⟩ := List.exists_mem_of_length_pos hpos
    have hbytes := List.length_pos_of_mem (List.mem_flatMap.mpr ⟨m, hm, hb⟩)
    exact hg.taken (hbytes.trans_le hsent) hnil
  · exact (opening h.reaches hst).data

/-- The peer credits `7` bytes before it accepts, and grants `3`: three of five bytes are sent. -/
theorem sent_within_credit_early :
    ∃ es s st, Records step Always (entry 0) (new { role := .host }) es s ∧
      s.heap[0]? = some st ∧ grants es = [3] ∧ processed es = 7 ∧
      payloads (s.view 0 st).out = [1, 2, 3] ∧
      (payloads (s.view 0 st).out).length + st.sndCredit ≤ (grants es).sum + processed es := by
  obtain ⟨es, s, hs, ht⟩ := exists_records_of_run step Always (entry 0) (new { role := .host })
    (fun es s => grants es == [3] && processed es == 7 &&
      payloads (s.out.filterMap (Sent.app? 0)) == [1, 2, 3] && s.heap[0]?.isSome)
    [.call (.open (text "svc") []), .run 1 .go, .run 1 .go,
      .recv (Outgoing.app (.appCredit 1 7)).frame, .run 0 .go, .run 0 .go,
      .recv (Outgoing.app (.appAccept 1 [] 3)).frame, .run 0 .go, .run 0 .go, .run 0 .go,
      .run 1 (.select .ready), .run 1 .go, .run 1 .go, .run 1 .go, .run 1 .go,
      .call (.write 0 [1, 2, 3, 4, 5]), .run 3 .go, .run 2 .go, .run 2 .go, .run 2 .go] (by decide)
  simp only [Bool.and_eq_true, beq_iff_eq, Option.isSome_iff_exists] at ht
  obtain ⟨⟨⟨hg, hc⟩, hp⟩, st, hst⟩ := ht
  exact ⟨es, s, st, hs, hst, hg, hc, hp, (sent_within_credit hs hst).1⟩

end Session

end Mvcp.App
