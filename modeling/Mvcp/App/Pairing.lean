import Mvcp.Library.History
import Mvcp.App.Net

/-!
# The two ends of a stream

A stream id names one stream on each side of a connection. What one end has heard of data, credit
and closes is what the other end wrote of them, in order; so the bytes that `Read` returns on one
side are the first of the bytes that `Write` took on the other.

## Main definitions

* `Session.bytesWritten`, `Session.bytesRead`: what `Write` took and what `Read` returned

## Main results

* `Net.Joined.unique`: a stream id names one stream on each side
* `Net.Joined.heard_core`: what an end has heard is what the other end wrote
* `Net.read_of_written`: the bytes read are the first of the bytes written
-/

namespace Mvcp.App

open Library (Reaches Always exists_reaches_of_run eq_of_countP_filterMap_le filter_filterMap_drop)

theorem isOpen_of_core {m : AppMessage} (h : m.core = true) : m.isOpen = false := by
  cases m <;> simp_all [AppMessage.core, AppMessage.isOpen]

theorem payload_of_not_core {m : AppMessage} (h : m.core = false) : m.payload = [] := by
  cases m <;> simp_all [AppMessage.core, AppMessage.payload]

/-- Data is carried by frames of an open stream. -/
theorem payloads_core (ms : List AppMessage) :
    payloads (ms.filter AppMessage.core) = payloads ms := by
  induction ms with
  | nil => rfl
  | cons m ms ih =>
    cases hc : m.core with
    | true => rw [List.filter_cons_of_pos hc, payloads_cons, payloads_cons, ih]
    | false =>
      rw [List.filter_cons_of_neg (by simp [hc]), payloads_cons, payload_of_not_core hc, ih]
      rfl

namespace Session

variable {s : Session} {r r' : Ref} {o o' : Origin}

theorem origins_getElem? {st : Stream} (h : s.heap[r]? = some st) :
    s.origins[r]? = some st.origin := by
  simp [origins, h]

/-- No two streams that were opened here have the same id. -/
theorem Table.outbound_unique (h : s.Table) (ho : s.origins[r]? = some o)
    (ho' : s.origins[r']? = some o') (hin : o.inbound = false) (hin' : o'.inbound = false)
    (hid : o.id = o'.id) : r = r' := by
  have hnodup : ((s.names.filter fun p => !p.2).map Prod.fst).Nodup := by
    rw [h.locals]
    refine List.Nodup.map_on ?_ (List.nodup_range' ..)
    intro j hj k hk he
    rw [List.mem_range'_1] at hj hk
    have := h.nextID_le
    simp only [maxLocalStreamID] at this
    exact localID_injective (by omega) (by omega) he
  rw [List.Nodup, List.pairwise_map, List.pairwise_filter] at hnodup
  simp only [origins, List.getElem?_map, Option.map_eq_some_iff] at ho ho'
  obtain ⟨st, hst, rfl⟩ := ho
  obtain ⟨st', hst', rfl⟩ := ho'
  have hn : s.names[r]? = some st.name := by rw [names_getElem?, hst]; rfl
  have hn' : s.names[r']? = some st'.name := by rw [names_getElem?, hst']; rfl
  obtain ⟨hr, hn⟩ := List.getElem?_eq_some_iff.mp hn
  obtain ⟨hr', hn'⟩ := List.getElem?_eq_some_iff.mp hn'
  -- two different places would hold different ids
  by_contra hne
  have hb : st.name.2 = false := hin
  have hb' : st'.name.2 = false := hin'
  rcases Nat.lt_or_gt_of_ne hne with hlt | hlt
  · have := List.pairwise_iff_getElem.mp hnodup r r' hr hr' hlt
    rw [hn, hn'] at this
    exact this (by simp [hb]) (by simp [hb']) hid
  · have := List.pairwise_iff_getElem.mp hnodup r' r hr' hr hlt
    rw [hn, hn'] at this
    exact this (by simp [hb']) (by simp [hb]) hid.symm

end Session

namespace Net

variable {n : Net} {ρ : Role} {r r' : Ref} {o o' : Origin} {m : AppMessage} {e : Sent}

/-! ## One stream per id -/

theorem Wired.sent_ref (h : n.Wired) (he : e ∈ (n.side ρ).out) (href : e.ref = some r)
    (hm : e.msg = .app m) : ∃ o, (n.side ρ).origins[r]? = some o ∧ m.streamID = o.id := by
  obtain ⟨-, -, ⟨r', o, hr', ho, hid⟩ | ⟨hn, -⟩⟩ := (h.departures ρ).sent e he m hm
  · obtain rfl := Option.some.inj (href.symm.trans hr')
    exact ⟨o, ho, hid⟩
  · simp [href] at hn

theorem Wired.reached (h : n.Wired) (ρ : Role) :
    ∃ cfg, Reaches Session.step Always (Session.new cfg) (n.side ρ) :=
  have ⟨cfg, _, hr⟩ := h.sides ρ
  ⟨cfg, hr⟩

theorem Wired.opening (h : n.Wired) {st : Stream} (hst : (n.side ρ).heap[r]? = some st) :
    ((n.side ρ).view r st).Opening :=
  have ⟨_, hr⟩ := h.reached ρ
  Session.opening hr hst

/-- A stream writes one `APP_OPEN`. -/
theorem Wired.open_once (h : n.Wired) {j k : ℕ} {e e' : Sent} {m m' : AppMessage}
    (he : (n.side ρ).out[j]? = some e) (he' : (n.side ρ).out[k]? = some e')
    (href : e.ref = some r) (href' : e'.ref = some r) (hm : e.msg = .app m)
    (hm' : e'.msg = .app m') (hop : m.isOpen = true) (hop' : m'.isOpen = true) : j = k := by
  obtain ⟨o, ho, -⟩ := h.sent_ref (List.mem_of_getElem? he) href hm
  simp only [Session.origins, List.getElem?_map, Option.map_eq_some_iff] at ho
  obtain ⟨st, hst, -⟩ := ho
  have hle : ((n.side ρ).out.filterMap (Sent.app? r)).countP AppMessage.isOpen ≤ 1 := by
    have := (h.opening hst).single
    simp only [Session.view, Session.viewOf] at this
    omega
  have happ : (Sent.app? r e).any AppMessage.isOpen = true := by
    obtain ⟨ref, msg⟩ := e
    obtain rfl : ref = some r := href
    obtain rfl : msg = .app m := hm
    simp [Sent.app?, hop]
  have happ' : (Sent.app? r e').any AppMessage.isOpen = true := by
    obtain ⟨ref, msg⟩ := e'
    obtain rfl : ref = some r := href'
    obtain rfl : msg = .app m' := hm'
    simp [Sent.app?, hop']
  exact eq_of_countP_filterMap_le hle he he' happ happ'

/-- **A stream id names one stream on each side.** -/
theorem Joined.unique (h : n.Joined) (ho : (n.side ρ).origins[r]? = some o)
    (ho' : (n.side ρ).origins[r']? = some o') (hid : o.id = o'.id) : r = r' := by
  have hmem := List.mem_of_getElem? ho
  have hmem' := List.mem_of_getElem? ho'
  cases hin : o.inbound with
  | false =>
    have hin' : o'.inbound = false := by
      rw [h.outbound_iff hmem', ← hid, ← h.outbound_iff hmem, hin]
    exact (h.table ρ).outbound_unique ho ho' hin hin' hid
  | true =>
    have hin' : o'.inbound = true := by
      rw [h.inbound_iff hmem', ← hid, ← h.inbound_iff hmem, hin]
    -- both stem from an `APP_OPEN` of one stream of the other side, which wrote only one
    obtain ⟨k, f, service, metadata, hk, hf, happ⟩ := (h.arrivals ρ).opened o hmem hin
    obtain ⟨k', f', service', metadata', hk', hf', happ'⟩ := (h.arrivals ρ).opened o' hmem' hin'
    have hbit : o.id &&& 0x80000000 = ρ.other.bit := (h.inbound_iff hmem).mp hin
    have hside : n.side ρ = n.side ρ.other.other := by rw [other_other]
    rw [hside] at hf hf'
    obtain ⟨e, q, p, he, hmsg, href, hp, hpin, hpid⟩ := h.opened_of_read hf happ hbit
    obtain ⟨e', q', p', he', hmsg', href', hp', hpin', hpid'⟩ :=
      h.opened_of_read hf' happ' (hid ▸ hbit)
    obtain rfl : q = q' :=
      (h.table ρ.other).outbound_unique hp hp' hpin hpin' (by rw [hpid, hpid', hid])
    have hkk : k = k' := h.open_once he he' href href' hmsg hmsg' rfl rfl
    -- and the streams of one side stem from different frames
    by_contra hne
    obtain ⟨hr, hor⟩ := List.getElem?_eq_some_iff.mp ho
    obtain ⟨hr', hor'⟩ := List.getElem?_eq_some_iff.mp ho'
    have hpw := List.pairwise_iff_getElem.mp (h.arrivals ρ).unique
    rcases Nat.lt_or_gt_of_ne hne with hlt | hlt
    · have := hpw r r' hr hr' hlt
      rw [hor, hor'] at this
      exact this hin hin' (by omega)
    · have := hpw r' r hr' hr hlt
      rw [hor, hor'] at this
      exact this hin' hin (by omega)

/-! ## What one end wrote, and what the other heard -/

/-- Of the frames of an open stream, those for its id are those written for it. -/
theorem Joined.messagesFor_core (h : n.Joined) (ho : (n.side ρ).origins[r]? = some o)
    (registry : Registry) {es : List Sent} (hes : ∀ e ∈ es, e ∈ (n.side ρ).out) :
    (messagesFor registry o.id (es.map fun e => e.msg.frame)).filter AppMessage.core =
      (es.filterMap (Sent.app? r)).filter AppMessage.core := by
  induction es with
  | nil => rfl
  | cons e es ih =>
    have hone : (messagesFor registry o.id [e.msg.frame]).filter AppMessage.core =
        ((Sent.app? r e).toList).filter AppMessage.core := by
      have he := hes e (by simp)
      obtain ⟨ref, msg⟩ := e
      cases msg with
      | error code message =>
        cases ref <;> simp [messagesFor, Outgoing.app?_error, Sent.app?]
      | app m =>
        obtain ⟨hok, hs, -⟩ := (h.departures ρ).sent _ he m rfl
        cases hc : m.core with
        | false =>
          -- neither side counts it
          have hr : ((Sent.app? r ⟨ref, .app m⟩).toList).filter AppMessage.core = [] := by
            cases ref with
            | none => rfl
            | some r' => simp only [Sent.app?]; split_ifs <;> simp [hc]
          rw [hr]
          rcases Outgoing.app?_frame registry hok hs with hd | hd
          · simp [messagesFor, hd, hc]
          · simp [messagesFor, hd]
        | true =>
          have hrej : ∀ id code message, m ≠ .appReject id code message := by
            rintro id code message rfl
            simp [AppMessage.core] at hc
          obtain ⟨r', o', href, ho', hid⟩ := h.ref_of_sent he rfl hrej
          obtain rfl : ref = some r' := href
          have hd : (Outgoing.app m).frame.app? registry = some m := Outgoing.app?_core hok hc
          by_cases hr : r' = r
          · subst hr
            obtain rfl := Option.some.inj (ho.symm.trans ho')
            simp [messagesFor, hd, hc, hid, isOpen_of_core hc, Sent.app?]
          · have hne : m.streamID ≠ o.id := fun he => hr (h.unique ho' ho (hid ▸ he))
            simp [messagesFor, hd, hne, Sent.app?, hr]
    rw [List.map_cons, ← List.singleton_append, messagesFor_append, List.filter_append, hone,
      ih fun e he => hes e (by simp [he]), ← List.filter_append]
    cases hr : Sent.app? r e <;> simp [hr]

/-- Before the other end exists, nothing but the `APP_OPEN` and resets are written. -/
theorem Joined.early_core (h : n.Joined) (ho : (n.side ρ).origins[r]? = some o)
    (ho' : (n.side ρ.other).origins[r']? = some o') (hid : o.id = o'.id) :
    ∀ m ∈ ((n.side ρ).out.take o'.born).filterMap (Sent.app? r), m.core = false := by
  have hmem' := List.mem_of_getElem? ho'
  cases hin : o'.inbound with
  | false =>
    -- the other end was opened there: nothing at all was written
    intro m hm
    obtain ⟨⟨ref, msg⟩, he, happ⟩ := List.mem_filterMap.mp hm
    obtain ⟨rfl, rfl⟩ := Sent.app?_eq_some happ
    obtain ⟨o'', ho'', hmid⟩ := h.sent_ref (List.mem_of_mem_take he) rfl rfl
    obtain rfl := Option.some.inj (ho.symm.trans ho'')
    have := h.early ρ.other o' hmem' hin _ (by rwa [other_other]) m rfl
    exact absurd (hmid.trans hid) this
  | true =>
    -- the other end stems from the `APP_OPEN`, which comes before the frames of an open stream
    obtain ⟨k, f, service, metadata, hk, hf, happ⟩ := (h.arrivals ρ.other).opened o' hmem' hin
    have hbit : o'.id &&& 0x80000000 = ρ.bit := by
      simpa [other_other] using (h.inbound_iff hmem').mp hin
    obtain ⟨⟨ref, msg⟩, q, p, he, hmsg, href, hp, hpin, hpid⟩ := h.opened_of_read hf happ hbit
    obtain rfl : q = r := h.unique hp ho (hpid.trans hid.symm)
    obtain rfl : ref = some q := href
    obtain rfl : msg = .app _ := hmsg
    simp only [Session.origins, List.getElem?_map, Option.map_eq_some_iff] at ho
    obtain ⟨st, hst, -⟩ := ho
    obtain ⟨hlt, hget⟩ := List.getElem?_eq_some_iff.mp he
    have hout : (n.side ρ).out.filterMap (Sent.app? q) =
        ((n.side ρ).out.take k).filterMap (Sent.app? q) ++ .appOpen o'.id service metadata ::
          ((n.side ρ).out.drop (k + 1)).filterMap (Sent.app? q) := by
      conv_lhs => rw [← List.take_append_drop k (n.side ρ).out, List.drop_eq_getElem_cons hlt, hget,
        List.filterMap_append]
      simp [Sent.app?]
    have horder := (h.opening hst).order _ _ _ hout rfl
    rw [← hk, List.take_add_one, he, List.filterMap_append]
    intro m hm
    rcases List.mem_append.mp hm with hm | hm
    · exact horder m hm
    · obtain rfl : m = .appOpen o'.id service metadata := by simpa [Sent.app?] using hm
      rfl

/-- What the other end may have heard among the frames read. -/
theorem Joined.inbox_core (h : n.Joined) (ho : (n.side ρ).origins[r]? = some o)
    (ho' : (n.side ρ.other).origins[r']? = some o') (hid : o.id = o'.id) {k : ℕ}
    (hk : k ≤ o'.born) :
    (messagesFor (n.side ρ.other).cfg.registry o'.id ((n.side ρ.other).inbox.drop k)).filter
        AppMessage.core =
      (((n.side ρ).out.take (n.side ρ.other).inbox.length).filterMap (Sent.app? r)).filter
        AppMessage.core := by
  have hwire := h.wire ρ.other
  rw [other_other] at hwire
  set es := (n.side ρ).out.take (n.side ρ.other).inbox.length with hes
  rw [hwire, ← List.map_drop, ← hid,
    h.messagesFor_core ho _ fun e he => List.mem_of_mem_take (List.mem_of_mem_drop he)]
  refine filter_filterMap_drop fun m hm => h.early_core ho ho' hid m ?_
  -- the first `k` frames read are among the first that were written
  have hsub : es.take k <+: (n.side ρ).out.take o'.born := by
    rw [hes, List.take_take]
    exact List.take_prefix_take_left (by omega)
  exact (hsub.filterMap _).subset hm

/-- A message that a stream has heard was written by the other side for the stream's id. -/
theorem Joined.heard_written (h : n.Joined) {st : Stream} (hst : (n.side ρ).heap[r]? = some st)
    (hm : m ∈ ((n.side ρ).view r st).heard) :
    m.streamID = st.id ∧ ∃ e ∈ (n.side ρ.other).out, e.msg = .app m := by
  obtain ⟨k, -, -, hheard⟩ := (h.arrivals ρ).routed r st hst
  have hm' : m ∈ messagesFor (n.side ρ).cfg.registry st.id ((n.side ρ).inbox.drop k) :=
    hheard.subset hm
  obtain ⟨hmem, hid⟩ := List.mem_filter.mp hm'
  obtain ⟨f, hf, happ⟩ := List.mem_filterMap.mp hmem
  obtain ⟨j, hj⟩ := List.mem_iff_getElem?.mp (List.mem_of_mem_drop hf)
  obtain ⟨e, he, hmsg⟩ := h.written hj happ
  exact ⟨by simpa using (Bool.and_eq_true_iff.mp hid).1, e, List.mem_of_getElem? he, hmsg⟩

/-- The other end of a stream that was opened here was not opened there. -/
theorem Joined.inbound_other (h : n.Joined) {st st' : Stream} (hst : (n.side ρ).heap[r]? = some st)
    (hin : st.inbound = false) (hst' : (n.side ρ.other).heap[r']? = some st')
    (hid : st'.id = st.id) : st'.inbound = true := by
  have hbit : st.id &&& 0x80000000 = ρ.bit := (h.outbound_iff (Session.mem_origins hst)).mp hin
  refine (h.inbound_iff (Session.mem_origins hst')).mpr ?_
  rw [other_other, ← hbit, ← hid]
  rfl

/-- **Of the frames of an open stream, an end has heard the first that the other end wrote.** -/
theorem Joined.heard_core (h : n.Joined) {st st' : Stream} (hst : (n.side ρ).heap[r]? = some st)
    (hst' : (n.side ρ.other).heap[r']? = some st') (hid : st.id = st'.id) :
    ((n.side ρ.other).view r' st').heard.filter AppMessage.core <+:
      ((n.side ρ).view r st).out.filter AppMessage.core := by
  obtain ⟨k, hk, -, hheard⟩ := (h.arrivals ρ.other).routed r' st' hst'
  have hcore := hheard.filter AppMessage.core
  have hin := h.inbox_core (Session.origins_getElem? hst) (Session.origins_getElem? hst') hid hk
  rw [show st'.origin.id = st'.id from rfl] at hin
  rw [hin] at hcore
  exact hcore.trans (((List.take_prefix _ _).filterMap _).filter _)

end Net

namespace Session

/-- The bytes of the calls `Write(p)` on the stream `r` that returned `len(p)`. -/
def bytesWritten (s : Session) (r : Ref) : Bytes := written (s.log.filter fun e => e.ref? = some r)

/-- The bytes that `Read` on the stream `r` returned. -/
def bytesRead (s : Session) (r : Ref) : Bytes := returned (s.log.filter fun e => e.ref? = some r)

end Session

namespace Net

variable {n : Net} {ρ : Role} {r r' : Ref}

/-! ## End-to-end integrity -/

/-- **The bytes that `Read` returned on one side of a stream are the first of the bytes that
`Write` took on the other.** -/
theorem read_of_written {cfg : Role → Config} (h : Reaches step Always (new cfg) n)
    {st st' : Stream} (hst : (n.side ρ).heap[r]? = some st)
    (hst' : (n.side ρ.other).heap[r']? = some st') (hid : st.id = st'.id) :
    (n.side ρ.other).bytesRead r' <+: (n.side ρ).bytesWritten r := by
  have hj := joined h
  obtain ⟨_, hs⟩ := hj.reached ρ
  obtain ⟨_, hs'⟩ := hj.reached ρ.other
  obtain ⟨d, hd, -, hout, -⟩ := (Session.sender hs hst).flow
  have hd : (n.side ρ).bytesWritten r = d ++ st.sendQ.flatten := hd
  calc (n.side ρ.other).bytesRead r' <+: payloads ((n.side ρ.other).view r' st').heard :=
        (Session.receiver hs' hst').returned_payloads
    _ <+: payloads ((n.side ρ).view r st).out := by
        rw [← payloads_core, ← payloads_core ((n.side ρ).view r st).out]
        exact (hj.heard_core hst hst' hid).flatMap _
    _ <+: d := hout
    _ <+: (n.side ρ).bytesWritten r := hd ▸ List.prefix_append _ _

/-- A byte written by the host and read by the bridge of the guest. -/
theorem read_of_written_byte :
    ∃ n, Reaches step Always (new fun _ => { role := .host }) n ∧
      n.guest.bytesRead 0 = [7] ∧ n.guest.bytesRead 0 <+: n.host.bytesWritten 0 := by
  obtain ⟨n, hn, ht⟩ := exists_reaches_of_run step Always (new fun _ => { role := .host })
    (fun n => n.guest.bytesRead 0 == [7] &&
      n.host.heap[0]?.any fun st => n.guest.heap[0]?.any fun st' => st.id == st'.id)
    (openRun ++ [(.host, .call (.write 0 [7])), (.host, .run 3 .go), (.host, .run 2 .go),
      (.host, .run 2 .go), (.host, .run 2 .go),
      (.guest, .recv (Outgoing.app (.appData 1 [7])).frame), (.guest, .run 0 .go),
      (.guest, .run 0 .go), (.guest, .run 4 .go)]) (by decide)
  simp only [Bool.and_eq_true, beq_iff_eq, Option.any_eq_true] at ht
  obtain ⟨hread, st, hst, st', hst', hid⟩ := ht
  exact ⟨n, hn, hread, read_of_written (ρ := .host) hn hst hst' hid⟩

end Net

end Mvcp.App
