import Mvcp.App.Credit
import Mvcp.App.Pairing

/-!
# Credit is conserved between two sessions

What a stream may still send, the data that its peer has not processed, the credit that it has not
processed itself, and the initial window until it was granted, add up to the window of the other
end. So two sessions keep to the rules of each other, and no stream is reset for a breach of them.

## Main definitions

* `Net.Ends`: the two ends of a stream
* `Net.unprocessed`: the frames of a stream that the other side has not processed
* `Net.dataInFlight`, `Net.creditInFlight`: the bytes of data and of credit under way
* `Net.Fair`: both sides were reached by steps that keep to the rules

## Main results

* `Net.fair`: two sessions keep to the rules of each other
* `Net.credit_conserved`: credit is conserved, and no stream is reset for a breach of the rules
-/

namespace Mvcp.App

open Library (Reaches Always exists_reaches_of_run pending_advance)

/-- Credit is carried by frames of an open stream. -/
theorem credits_core (ms : List AppMessage) :
    credits (ms.filter AppMessage.core) = credits ms := by
  induction ms with
  | nil => rfl
  | cons m ms ih =>
    rw [← List.singleton_append, List.filter_append, credits_append, credits_append, ih]
    cases m <;> rfl

/-! ## Frames of a stream opened here -/

namespace View

variable {r : Ref} {v v' : View}

/-- A stream opened here writes frames of an open stream after the peer accepted it. -/
def Spoken (v : View) : Prop :=
  v.st.inbound = false → (∃ m ∈ v.out, m.core = true) → v.HeardAccept

theorem Initial.spoken (h : Initial r v) : v.Spoken := by
  cases h <;> simp [Spoken]

theorem Step.spoken {a : Option Section} (hs : Step r v a v') (ha : v.Accepted)
    (h : v.Spoken) : v'.Spoken := by
  rintro hin ⟨m, hm, hc⟩
  have hin₀ : v.st.inbound = false := by
    rcases hs.fires with ⟨hst, -⟩ | ⟨x, o, -, -, hf, hst, -⟩
    · rw [← hst, hin]
    · rw [← hin, hst]
      exact (congrArg Prod.snd hf.name).symm
  refine hs.heardAccept ?_
  cases hs with
  | @sent x rest ht hmarsh hup =>
    rcases List.mem_append.mp hm with hm | hm
    · exact h hin₀ ⟨m, hm, hc⟩
    · obtain rfl := List.mem_singleton.mp hm
      exact ha.used hin₀ (.inr ⟨.emit r x, by simp [ht], Emission.phase_of_core x v.st hc⟩)
  | _ => exact h hin₀ ⟨m, hm, hc⟩

end View

theorem Session.spoken {cfg : Config} {ok : Session → Label → Prop} {s : Session} {r : Ref}
    {st : Stream} (h : Reaches step ok (new cfg) s) (hst : s.heap[r]? = some st) :
    (s.view r st).Spoken :=
  (view_inductive (I := fun r v => v.Handshake ∧ v.Current r ∧ v.Accepted ∧ v.Spoken)
    (fun _ _ hi => ⟨hi.handshake, hi.current, hi.accepted, hi.spoken⟩)
    (fun _ _ _ _ hs hv => ⟨hs.handshake hv.1, hs.current hv.2.1, hs.accepted hv.1 hv.2.1 hv.2.2.1,
      hs.spoken hv.2.2.1 hv.2.2.2⟩) h hst).2.2.2

namespace Net

variable {n : Net} {ρ : Role} {r r' : Ref} {st st' : Stream}

/-! ## The two ends of a stream -/

/-- **The two ends of a stream**: streams of either side with the same id. -/
structure Ends (n : Net) (ρ : Role) (r r' : Ref) (st st' : Stream) : Prop where
  here : (n.side ρ).heap[r]? = some st
  there : (n.side ρ.other).heap[r']? = some st'
  id : st.id = st'.id

theorem Ends.symm (h : n.Ends ρ r r' st st') : n.Ends ρ.other r' r st' st :=
  ⟨h.there, by rw [other_other]; exact h.here, h.id.symm⟩

namespace Ends

variable (he : n.Ends ρ r r' st st') (hj : n.Joined)

include he hj

/-- Of the frames of an open stream, the other end has heard the first that this end wrote. -/
theorem heard_core : ((n.side ρ.other).view r' st').heard.filter AppMessage.core <+:
    ((n.side ρ).view r st).out.filter AppMessage.core :=
  hj.heard_core he.here he.there he.id

/-- The other end has heard no more data than this end took from its queue. -/
theorem payloads_le :
    (payloads ((n.side ρ.other).view r' st').heard).length ≤ st.bytesOut := by
  obtain ⟨_, hr⟩ := hj.reached ρ
  have hacc := (Session.accounts hr he.here).data
  have hle := ((he.heard_core hj).flatMap AppMessage.payload).length_le
  have hcore (ms : List AppMessage) :
      ((ms.filter AppMessage.core).flatMap AppMessage.payload).length = (payloads ms).length := by
    rw [← payloads_core ms]
    rfl
  rw [hcore, hcore] at hle
  have : ((n.side ρ).view r st).st.bytesOut = st.bytesOut := rfl
  omega

/-- The other end has heard of no more credit than `Read` returned bytes at this end. -/
theorem credits_le : credits ((n.side ρ.other).view r' st').heard ≤
    (returned ((n.side ρ).view r st).log).length := by
  obtain ⟨_, hr⟩ := hj.reached ρ
  have hacc := (Session.accounts hr he.here).credit
  have hle : credits ((n.side ρ.other).view r' st').heard ≤ credits ((n.side ρ).view r st).out := by
    rw [← credits_core, ← credits_core ((n.side ρ).view r st).out]
    exact credits_le_of_prefix (he.heard_core hj)
  omega

/-- `Read` returned no more than this end has heard. -/
theorem returned_le : (returned ((n.side ρ).view r st).log).length ≤
    (payloads ((n.side ρ).view r st).heard).length := by
  obtain ⟨_, hr⟩ := hj.reached ρ
  exact (Session.receiver hr he.here).returned_payloads.length_le

/-- The `APP_OPEN` of a stream with two ends was written. -/
theorem not_lostOpen : ¬((n.side ρ).view r st).LostOpen := by
  rintro ⟨m, hm, hop⟩
  obtain ⟨_, hr⟩ := hj.reached ρ
  cases hin : st.inbound with
  | true => exact ((Session.handshake hr he.here).inbound hin).2.2 ⟨m, hm, hop⟩
  | false =>
    -- the other end was created for an `APP_OPEN` of this one
    have hin' := hj.inbound_other he.here hin he.there he.id.symm
    have hmem' := Session.mem_origins he.there
    obtain ⟨k, f, service, metadata, -, hf, happ⟩ := (hj.arrivals ρ.other).opened _ hmem' hin'
    have hbit : st'.origin.id &&& 0x80000000 = ρ.bit := by
      simpa [other_other] using (hj.inbound_iff hmem').mp hin'
    obtain ⟨⟨ref, msg⟩, q, p, hsent, hmsg, href, hp, -, hpid⟩ := hj.opened_of_read hf happ hbit
    obtain rfl : q = r := hj.unique hp (Session.origins_getElem? he.here) (hpid.trans he.id.symm)
    obtain rfl : ref = some q := href
    obtain rfl : msg = .app _ := hmsg
    have hout : (AppMessage.appOpen st'.origin.id service metadata) ∈
        ((n.side ρ).view q st).out :=
      List.mem_filterMap.mpr ⟨_, List.mem_of_getElem? hsent, by simp [Sent.app?]⟩
    have hone := (Session.opening hr he.here).single
    have h₁ : 0 < ((n.side ρ).view q st).out.countP AppMessage.isOpen :=
      List.countP_pos_iff.mpr ⟨_, hout, rfl⟩
    have h₂ : 0 < ((n.side ρ).view q st).lost.countP AppMessage.isOpen :=
      List.countP_pos_iff.mpr ⟨m, hm, hop⟩
    omega

end Ends

/-- A stream that has heard anything but a refusal has another end. -/
theorem Joined.exists_ends (hj : n.Joined) (hst : (n.side ρ).heap[r]? = some st) {m : AppMessage}
    (hm : m ∈ ((n.side ρ).view r st).heard)
    (hrej : ∀ id code message, m ≠ .appReject id code message) :
    ∃ r' st', n.Ends ρ r r' st st' ∧ m ∈ ((n.side ρ.other).view r' st').out := by
  obtain ⟨hid, e, he, hmsg⟩ := hj.heard_written hst hm
  obtain ⟨r', o, href, ho, hoid⟩ := hj.ref_of_sent he hmsg hrej
  simp only [Session.origins, List.getElem?_map, Option.map_eq_some_iff] at ho
  obtain ⟨st', hst', rfl⟩ := ho
  refine ⟨r', st', ⟨hst, hst', hid.symm.trans hoid⟩, List.mem_filterMap.mpr ⟨e, he, ?_⟩⟩
  obtain ⟨ref, msg⟩ := e
  obtain rfl : ref = some r' := href
  obtain rfl : msg = .app m := hmsg
  simp [Sent.app?]

/-! ## Keeping to the rules -/

/-- Both sides were reached by steps that keep to the rules. -/
def Fair (n : Net) : Prop := ∀ ρ, ∃ cfg : Config,
  Reaches Session.step (Session.Guarded View.Honest) (Session.new cfg) (n.side ρ)

/-- The message that `Serve` is about to handle on a stream. -/
theorem Joined.heard_of_sect (hj : n.Joined) (hst : (n.side ρ).heap[r]? = some st) {x : Section}
    (hx : .sect r x ∈ ((n.side ρ).view r st).tasks) (hs : (Task.sect r x).handles = true) :
    ∃ ms m, ((n.side ρ).view r st).heard = ms ++ [m] ∧ ((n.side ρ).view r st).handled = ms ∧
      .sect r x ∈ Session.dispatch r m := by
  obtain ⟨_, hr⟩ := hj.reached ρ
  have hserve := Task.serves_of_handles hs
  obtain ⟨ms, m, hheard, hm⟩ := Session.current hr hst _ hx hserve
  refine ⟨ms, m, hheard, ?_, hm.resolve_right ?_⟩
  · rw [View.handled, if_pos ⟨_, hx, hserve⟩, hheard, List.dropLast_concat]
  · cases x <;> simp_all [Task.handles, Task.refuses]

/-- The credit of a frame is within what this end has sent. -/
theorem Fair.honest_addCredit (hf : n.Fair) (hj : n.Joined) (hst : (n.side ρ).heap[r]? = some st)
    {k : ℕ} (hx : .sect r (.addCredit k) ∈ ((n.side ρ).view r st).tasks) :
    ((n.side ρ).view r st).Honest (.addCredit k) := by
  intro hr
  obtain ⟨ms, m, hheard, hhandled, hm⟩ := hj.heard_of_sect hst hx rfl
  obtain ⟨id, bytes, rfl, rfl⟩ : ∃ id bytes, m = .appCredit id bytes ∧ k = bytes.toNat := by
    cases m <;> simp_all [Session.dispatch]
  obtain ⟨r', st', he, -⟩ :=
    hj.exists_ends hst (m := .appCredit id bytes) (by simp [hheard]) (by simp)
  obtain ⟨_, hs⟩ := hf ρ
  have hcr := (Session.credited (fun _ _ h => h) hs hst).account hr
  rw [hhandled] at hcr
  -- the credit heard of is for bytes that the other end heard, and this end sent
  have h₁ := he.symm.credits_le hj
  have h₂ := he.symm.returned_le hj
  have h₃ := he.payloads_le hj
  rw [other_other] at h₁
  rw [hheard, credits_append, credits_singleton] at h₁
  have hle := View.grant_le ((n.side ρ).view r st)
  have hst' : ((n.side ρ).view r st).st = st := rfl
  have hb : (AppMessage.appCredit id bytes).credit = bytes.toNat := rfl
  have hW : appInitialWindow ≤ appMaxCredit := by decide
  rw [hst'] at hcr ⊢
  rcases Nat.eq_zero_or_pos bytes.toNat with h0 | hpos
  · exact .inl h0
  · exact .inr ⟨by omega, ((Session.accepted hs hst).bytes (by rw [hst']; omega)).1⟩

/-- An accept grants the initial window. -/
theorem Joined.honest_handleAccept (hj : n.Joined) (hst : (n.side ρ).heap[r]? = some st)
    {metadata : Bytes} {grant : ℕ}
    (hx : .sect r (.handleAccept metadata grant) ∈ ((n.side ρ).view r st).tasks) :
    ((n.side ρ).view r st).Honest (.handleAccept metadata grant) := by
  obtain ⟨ms, m, hheard, -, hm⟩ := hj.heard_of_sect hst hx rfl
  obtain ⟨id, g, rfl, rfl⟩ : ∃ id g, m = .appAccept id metadata g ∧ grant = g.toNat := by
    cases m <;> simp_all [Session.dispatch]
  obtain ⟨r', st', he, hout⟩ :=
    hj.exists_ends hst (m := .appAccept id metadata g) (by simp [hheard]) (by simp)
  obtain ⟨_, hr'⟩ := hj.reached ρ.other
  obtain ⟨-, metadata', heq⟩ := (Session.opening hr' he.there).accepts _ hout rfl
  obtain ⟨-, -, rfl⟩ := AppMessage.appAccept.inj heq
  refine ⟨?_, rfl⟩
  -- the accept was marshalled
  obtain ⟨e, hsent, happ⟩ := List.mem_filterMap.mp hout
  obtain ⟨ref, msg⟩ := e
  obtain ⟨rfl, rfl⟩ := Sent.app?_eq_some happ
  obtain ⟨hok, -⟩ := (hj.departures ρ.other).sent _ hsent _ rfl
  by_contra hlen
  simp [AppMessage.marshalBinary, Nat.not_le.mp hlen, Except.isOk, Except.toBool] at hok

/-- A stream that has heard data has completed its handshake. -/
theorem Ends.open_of_data (he : n.Ends ρ r r' st st') (hj : n.Joined) {ms : List AppMessage}
    {id : UInt32} {data : Bytes} (hheard : ((n.side ρ).view r st).heard = ms ++ [.appData id data])
    (hhandled : ((n.side ρ).view r st).handled = ms)
    (hout : .appData id data ∈ ((n.side ρ.other).view r' st').out) :
    st.accepting = false ∧ st.opening = false := by
  obtain ⟨_, hr⟩ := hj.reached ρ
  obtain ⟨_, hr'⟩ := hj.reached ρ.other
  have hh := Session.handshake hr he.here
  cases hin : st.inbound with
  | true =>
    -- the other end, which opened the stream, heard the accept of this one
    refine ⟨?_, (hh.inbound hin).1⟩
    have hin' : st'.inbound = false := by
      by_contra hc
      have hbit := (hj.inbound_iff (Session.mem_origins he.there)).mp
        (show st'.inbound = true by simpa using hc)
      have hbit' := (hj.inbound_iff (Session.mem_origins he.here)).mp hin
      rw [other_other] at hbit
      have hid : st'.origin.id = st.origin.id := he.id.symm
      rw [hid, hbit'] at hbit
      exact Role.bit_other_ne ρ hbit
    obtain ⟨-, id', g, hacc⟩ := Session.spoken hr' he.there hin' ⟨_, hout, rfl⟩
    obtain ⟨q, p, hends, hout'⟩ := hj.exists_ends he.there hacc (by simp)
    rw [other_other] at hout'
    have hq := hends.there
    rw [other_other] at hq
    obtain rfl : q = r := hj.unique (Session.origins_getElem? hq) (Session.origins_getElem? he.here)
      (hends.id.symm.trans he.id.symm)
    obtain rfl := Option.some.inj (hq.symm.trans he.here)
    exact ((Session.opening hr he.here).accepts _ hout' rfl).1
  | false =>
    -- the accept of the other end comes before its data
    refine ⟨hh.outbound hin, ?_⟩
    have hin' := hj.inbound_other he.here hin he.there he.id.symm
    obtain ⟨rest, hrest⟩ := he.symm.heard_core hj
    rw [other_other, hheard, List.filter_append, List.append_assoc] at hrest
    obtain ⟨before, after, hsplit, hbefore, hafter⟩ := List.filter_eq_append_iff.mp hrest.symm
    obtain ⟨between, later, hlater, hnone, -, -⟩ := List.filter_eq_cons_iff.mp hafter
    rw [hlater, ← List.append_assoc] at hsplit
    obtain ⟨m, hm, hacc⟩ := (Session.opening hr' he.there).data hin' _ _ _ hsplit rfl
    have hcore : m.core = true := by cases m <;> simp_all [AppMessage.isAccept, AppMessage.core]
    have hmem : m ∈ ms.filter AppMessage.core := by
      rw [← hbefore]
      rcases List.mem_append.mp hm with hm | hm
      · exact List.mem_filter.mpr ⟨hm, hcore⟩
      · exact absurd hcore (hnone m hm)
    exact (Session.accepted hr he.here).answered ⟨m, hhandled ▸ (List.mem_filter.mp hmem).1, hacc⟩

/-- The data that `Serve` is about to hand to a stream was written by the other end. -/
theorem Joined.heard_of_deliver (hj : n.Joined) (hst : (n.side ρ).heap[r]? = some st) {data : Bytes}
    (hx : .sect r (.deliver data) ∈ ((n.side ρ).view r st).tasks) :
    ∃ id ms, ((n.side ρ).view r st).heard = ms ++ [.appData id data] ∧
      ((n.side ρ).view r st).handled = ms ∧
      ∃ r' st', n.Ends ρ r r' st st' ∧ .appData id data ∈ ((n.side ρ.other).view r' st').out := by
  obtain ⟨ms, m, hheard, hhandled, hm⟩ := hj.heard_of_sect hst hx rfl
  obtain ⟨id, rfl⟩ : ∃ id, m = .appData id data := by
    cases m <;> simp_all [Session.dispatch]
  exact ⟨id, ms, hheard, hhandled,
    hj.exists_ends hst (m := .appData id data) (by simp [hheard]) (by simp)⟩

/-- Data is within the window. -/
theorem Fair.honest_deliver (hf : n.Fair) (hj : n.Joined) (hst : (n.side ρ).heap[r]? = some st)
    {data : Bytes} (hx : .sect r (.deliver data) ∈ ((n.side ρ).view r st).tasks) :
    ((n.side ρ).view r st).Honest (.deliver data) := by
  obtain ⟨id, ms, hheard, hhandled, r', st', he, hout⟩ := hj.heard_of_deliver hst hx
  obtain ⟨hac, hop⟩ := he.open_of_data hj hheard hhandled hout
  refine ⟨hac, hop, fun hr hc => ?_⟩
  obtain ⟨_, hs⟩ := hf ρ
  obtain ⟨_, hs'⟩ := hf ρ.other
  have hcount := (Session.queues hs hst).counted hr (he.not_lostOpen hj)
  have hdel := congrArg List.length (Session.delivered hs hst hr)
  rw [hhandled, List.length_append] at hdel
  -- the other end sent what its initial window and the credit of this end allow
  have h₁ := he.symm.payloads_le hj
  rw [other_other, hheard, payloads_append, List.length_append] at h₁
  have h₂ := (Session.credited (fun _ _ h => h) hs' he.there).bound
  have h₃ := credits_le_of_prefix (View.handled_prefix ((n.side ρ.other).view r' st'))
  have h₄ := he.credits_le hj
  have hw := hcount.window hac
  have hq := hcount.inb
  have hp : (payloads [AppMessage.appData id data]).length = data.length := by
    simp [payloads, AppMessage.payload]
  have hst₁ : ((n.side ρ).view r st).st = st := rfl
  have hst₂ : ((n.side ρ.other).view r' st').st = st' := rfl
  rw [hst₁] at hdel hw hq ⊢
  rw [hst₂] at h₂
  omega

/-- **Two sessions keep to the rules of each other.** -/
theorem Fair.honest (hf : n.Fair) (hj : n.Joined) (ρ : Role) (l : Label) :
    Session.Guarded View.Honest (n.side ρ) l := by
  intro i c r x rest st hl ht hst
  obtain ⟨others, hp, -⟩ := pending_advance ht
  have hx : .sect r x ∈ ((n.side ρ).view r st).tasks :=
    Session.mem_tasksOf.mpr ⟨by simp [hp], rfl⟩
  cases x with
  | addCredit k => exact hf.honest_addCredit hj hst hx
  | handleAccept metadata grant => exact hj.honest_handleAccept hst hx
  | deliver data => exact hf.honest_deliver hj hst hx
  | _ => trivial

theorem fair {cfg : Role → Config} (h : Reaches step Always (new cfg) n) : n.Fair := by
  refine h.invariant ?_ ?_
  · intro ρ
    rw [side_new]
    exact ⟨_, .refl⟩
  · rintro n n' ⟨σ, l⟩ hr hok hs ih ρ
    have hhonest := ih.honest (joined hr) σ l
    obtain ⟨s', hs', rfl, -⟩ := step_cases hs
    rcases eq_or_eq_other ρ σ with rfl | rfl
    · rw [side_set_self]
      obtain ⟨cfg, hside⟩ := ih ρ
      exact ⟨cfg, hside.tail hhonest hs'⟩
    · rw [side_set_other]
      exact ih σ.other

/-! ## What is under way -/

/-- The frames written for the stream `r` that the other side has not processed. -/
def unprocessed (n : Net) (ρ : Role) (r : Ref) : List AppMessage :=
  ((n.side ρ).out.drop (n.side ρ.other).framesHandled).filterMap (Sent.app? r)

/-- The bytes of data that the write loop of `r` took from the queue and that the other side has
not processed: in the hand of the write loop, lost with the connection, or in frames. -/
def dataInFlight (n : Net) (ρ : Role) (r : Ref) : ℕ :=
  total Task.holding ((n.side ρ).tasksOf r) +
    (payloads ((n.side ρ).lost.filterMap (Sent.app? r))).length +
    (payloads (n.unprocessed ρ r)).length

/-- The bytes that `Read` on `r` decided to credit and that the other side has not processed. -/
def creditInFlight (n : Net) (ρ : Role) (r : Ref) : ℕ :=
  total Task.granting ((n.side ρ).tasksOf r) +
    credits ((n.side ρ).lost.filterMap (Sent.app? r)) + credits (n.unprocessed ρ r)

/-- Of the frames of an open stream, the other end has handled those that its side has. -/
theorem Ends.handled_core (he : n.Ends ρ r r' st st') (hj : n.Joined)
    (hl : r' ∈ (n.side ρ.other).streams.map Prod.snd) :
    ((n.side ρ.other).view r' st').handled.filter AppMessage.core =
      (((n.side ρ).out.take (n.side ρ.other).framesHandled).filterMap (Sent.app? r)).filter
        AppMessage.core := by
  obtain ⟨_, hr'⟩ := hj.reached ρ.other
  obtain ⟨k, hk, hall, -⟩ := (hj.arrivals ρ.other).routed r' st' he.there
  have hsplit := congrArg (List.filter AppMessage.core)
    ((Session.handled_looking hr' he.there hl).trans (hall hl))
  have ho := Session.origins_getElem? he.here
  have hin := hj.inbox_core ho (Session.origins_getElem? he.there) he.id hk
  rw [show st'.origin.id = st'.id from rfl] at hin
  rw [hin, List.filter_append] at hsplit
  -- the frames that are not handled are the last ones on either side of the equation
  have hwire := hj.wire ρ.other
  rw [other_other] at hwire
  set es := (n.side ρ).out.take (n.side ρ.other).inbox.length with hes
  have hlast : (messagesFor (n.side ρ.other).cfg.registry st'.id
      ((n.side ρ.other).inbox.drop (n.side ρ.other).framesHandled)).filter AppMessage.core =
        ((es.drop (n.side ρ.other).framesHandled).filterMap (Sent.app? r)).filter
          AppMessage.core := by
    rw [hwire, ← List.map_drop, ← he.id]
    exact hj.messagesFor_core ho _ fun e hm =>
      List.mem_of_mem_take (List.mem_of_mem_drop hm)
  have hboth : (es.filterMap (Sent.app? r)).filter AppMessage.core =
      ((es.take (n.side ρ.other).framesHandled).filterMap (Sent.app? r)).filter AppMessage.core ++
        ((es.drop (n.side ρ.other).framesHandled).filterMap (Sent.app? r)).filter
          AppMessage.core := by
    rw [← List.filter_append, ← List.filterMap_append, List.take_append_drop]
  rw [hlast, hboth] at hsplit
  have hfirst := List.append_cancel_right hsplit
  rwa [hes, List.take_take, Nat.min_eq_left (Session.framesHandled_le _)] at hfirst

/-- What this end wrote is what the other side has processed, and what it has not. -/
theorem out_eq (n : Net) (ρ : Role) (r : Ref) (st : Stream) : ((n.side ρ).view r st).out =
    ((n.side ρ).out.take (n.side ρ.other).framesHandled).filterMap (Sent.app? r) ++
      n.unprocessed ρ r := by
  rw [unprocessed, ← List.filterMap_append, List.take_append_drop]
  rfl

/-- The data that this end wrote: handled at the other end, or on its way. -/
theorem Ends.payloads_out (he : n.Ends ρ r r' st st') (hj : n.Joined)
    (hl : r' ∈ (n.side ρ.other).streams.map Prod.snd) :
    payloads ((n.side ρ).view r st).out =
      payloads ((n.side ρ.other).view r' st').handled ++ payloads (n.unprocessed ρ r) := by
  rw [n.out_eq, payloads_append, ← payloads_core (List.filterMap _ _), ← he.handled_core hj hl,
    payloads_core]

/-- The credit that this end wrote: handled at the other end, or on its way. -/
theorem Ends.credits_out (he : n.Ends ρ r r' st st') (hj : n.Joined)
    (hl : r' ∈ (n.side ρ.other).streams.map Prod.snd) :
    credits ((n.side ρ).view r st).out =
      credits ((n.side ρ.other).view r' st').handled + credits (n.unprocessed ρ r) := by
  rw [n.out_eq, credits_append, ← credits_core (List.filterMap _ _), ← he.handled_core hj hl,
    credits_core]

/-! ## Conservation -/

/-- What the initial window gave, and what it will give. -/
theorem grant_add_ungranted (s : Session) (r : Ref) (st : Stream) :
    (s.view r st).grant + (if st.granted then 0 else appInitialWindow) = appInitialWindow := by
  by_cases hg : st.granted
  · rw [View.grant_eq (v := s.view r st) hg, if_pos hg, add_zero]
  · rw [View.grant_eq_zero (v := s.view r st) hg, if_neg hg, zero_add]

/-- The data under way is what this end took and the other has not handled. -/
theorem Ends.dataInFlight_add (he : n.Ends ρ r r' st st') (hj : n.Joined)
    (hl : r' ∈ (n.side ρ.other).streams.map Prod.snd) :
    n.dataInFlight ρ r + (payloads ((n.side ρ.other).view r' st').handled).length =
      st.bytesOut := by
  obtain ⟨_, hs⟩ := hj.reached ρ
  have hsent := (Session.accounts hs he.here).data
  rw [he.payloads_out hj hl, List.length_append] at hsent
  simp only [Session.view, Session.viewOf] at hsent
  simp only [dataInFlight, Session.view, Session.viewOf]
  omega

/-- The credit under way is for what `Read` returned here and the other end has not handled. -/
theorem Ends.creditInFlight_add (he : n.Ends ρ r r' st st') (hj : n.Joined)
    (hl : r' ∈ (n.side ρ.other).streams.map Prod.snd) :
    n.creditInFlight ρ r + credits ((n.side ρ.other).view r' st').handled =
      (returned ((n.side ρ).view r st).log).length := by
  obtain ⟨_, hs⟩ := hj.reached ρ
  have hread := (Session.accounts hs he.here).credit
  rw [he.credits_out hj hl] at hread
  rw [hread]
  simp only [creditInFlight, Session.view, Session.viewOf]
  omega

/-- **Credit is conserved.** In every state, for the two ends of a stream that are in the tables
and not reset, and once the receiving end has its window: what the sending end may still send, the
data and the credit under way, and the initial window until it is granted, are the window of the
receiving end; and this window is the initial one less what is buffered. No stream is reset for
data before the accept, for data or credit in excess, or for an invalid grant. -/
theorem credit_conserved {cfg : Role → Config} (h : Reaches step Always (new cfg) n) :
    (∀ ρ r r' st st', n.Ends ρ r r' st st' → (n.side ρ).stream st.id = some r →
      (n.side ρ.other).stream st'.id = some r' → st.reset = false → st'.reset = false →
      st'.accepting = false →
      st.sndCredit + n.dataInFlight ρ r + n.creditInFlight ρ.other r' +
          (if st.granted then 0 else appInitialWindow) = st'.rcvWindow ∧
        st'.rcvWindow + st'.inBytes = appInitialWindow) ∧
    ∀ (ρ : Role) (r : Ref) (st : Stream) (cause : Cause), (n.side ρ).heap[r]? = some st →
      st.resetErr = some cause → cause ≠ .dataBeforeAccept ∧ cause ≠ .creditExceeded ∧
        cause ≠ .creditCap ∧ cause ≠ .invalidGrant := by
  have hj := joined h
  have hf := fair h
  constructor
  · intro ρ r r' st st' he hl hl' hr hr' hac
    obtain ⟨_, hs⟩ := hf ρ
    obtain ⟨_, hs'⟩ := hf ρ.other
    -- the account of the sending end, and the queue of the receiving end
    have hcr : st.sndCredit + st.bytesOut = _ :=
      (Session.credited (fun _ _ h => h) hs he.here).account hr
    have hgrant := grant_add_ungranted (n.side ρ) r st
    have hcount := (Session.queues hs' he.there).counted hr' (he.symm.not_lostOpen hj)
    have hw : st'.rcvWindow + st'.inBytes = appInitialWindow := hcount.window hac
    have hq : st'.inBytes = st'.inQ.flatten.length := hcount.inb
    have hdel : (returned ((n.side ρ.other).view r' st').log ++ st'.inQ.flatten).length = _ :=
      congrArg List.length (Session.delivered hs' he.there hr')
    rw [List.length_append] at hdel
    -- what is under way in either direction
    have hdata := he.dataInFlight_add hj (List.mem_map_of_mem (Session.mem_of_stream hl'))
    have hcredit := he.symm.creditInFlight_add hj
      (by rw [other_other]; exact List.mem_map_of_mem (Session.mem_of_stream hl))
    rw [other_other] at hcredit
    exact ⟨by omega, hw⟩
  · intro ρ r st cause hst hc
    obtain ⟨_, hs⟩ := hf ρ
    have hb := (Session.no_breach (fun _ _ h => h) hs hst).resetErr cause hc
    refine ⟨?_, ?_, ?_, ?_⟩ <;> rintro rfl <;> simp [Cause.breach] at hb

/-- A byte that the host has written and the guest has not read. -/
theorem credit_conserved_byte :
    ∃ n, Reaches step Always (new fun _ => { role := .host }) n ∧ n.dataInFlight .host 0 = 1 ∧
      ∃ st st', n.Ends .host 0 0 st st' ∧ st.sndCredit + 1 = st'.rcvWindow := by
  obtain ⟨n, hn, ht⟩ := exists_reaches_of_run step Always (new fun _ => { role := .host })
    (fun n : Net => n.dataInFlight .host 0 == 1 && n.creditInFlight .guest 0 == 0 &&
      n.host.heap[0]?.any fun st : Stream => n.guest.heap[0]?.any fun st' : Stream =>
        st.id == st'.id && n.host.stream st.id == some 0 && n.guest.stream st'.id == some 0 &&
        !st.reset && !st'.reset && !st'.accepting && decide st.granted)
    (openRun ++ [(.host, .call (.write 0 [7])), (.host, .run 3 .go), (.host, .run 2 .go),
      (.host, .run 2 .go), (.host, .run 2 .go)]) (by decide)
  simp only [Bool.and_eq_true, beq_iff_eq, Option.any_eq_true, Bool.not_eq_true',
    decide_eq_true_eq] at ht
  obtain ⟨⟨hd, hc⟩, st, hst, st', hst', ⟨⟨⟨⟨⟨hid, hl⟩, hl'⟩, hr⟩, hr'⟩, hac⟩, hg⟩ := ht
  have he : n.Ends .host 0 0 st st' := ⟨hst, hst', hid⟩
  obtain ⟨hsum, -⟩ := (credit_conserved hn).1 .host 0 0 st st' he hl hl' hr hr' hac
  rw [hd, if_pos hg, show n.creditInFlight Role.host.other 0 = 0 from hc] at hsum
  exact ⟨n, hn, hd, st, st', he, by omega⟩

end Net

end Mvcp.App
