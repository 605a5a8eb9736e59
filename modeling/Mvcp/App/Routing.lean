import Mvcp.App.View

/-!
# Routing: frames read, messages handed to streams, frames written

`Serve` hands the messages of the peer to the streams their ids name, in the order in which they
arrive and, as long as the stream is in the table, without leaving one out. A stream of the peer
stems from one `APP_OPEN` frame. Every frame a session writes carries the id of one of its
streams, or rejects an `APP_OPEN`.

## Main definitions

* `Frame.app?`: the message of a frame that `handleFrame` acts on
* `messagesFor`: the messages for a stream id among the frames read
* `Session.Arrivals`: where the messages handed to streams, and the streams of the peer, come from
* `Session.Departures`: where the frames written come from

## Main results

* `Session.arrivals`, `Session.departures`: both hold in every state reached
-/

namespace Mvcp

open Library (Reaches Always pending pending_advance advance advance_getElem?
  advance_getElem?_self advance_getElem?_ne getElem?_concat_cases map_set_of_eq)

/-- The message of a frame that `handleFrame` acts on. -/
def Frame.app? (registry : Registry) (f : Frame) : Option AppMessage :=
  if f.flags ≠ 0 ∨ f.msgID ≠ 0 then none
  else
    match decodeMessage registry f.typ f.body with
    | .ok (.app m) => some m
    | _ => none

namespace App

/-- The messages for the stream id among the frames: all but `APP_OPEN`. -/
def messagesFor (registry : Registry) (id : UInt32) (fs : List Frame) : List AppMessage :=
  (fs.filterMap (Frame.app? registry)).filter fun m => m.streamID = id && !m.isOpen

@[simp] theorem messagesFor_nil (registry : Registry) (id : UInt32) :
    messagesFor registry id [] = [] := rfl

theorem messagesFor_append (registry : Registry) (id : UInt32) (fs fs' : List Frame) :
    messagesFor registry id (fs ++ fs') =
      messagesFor registry id fs ++ messagesFor registry id fs' := by
  simp [messagesFor, List.filterMap_append, List.filter_append]

/-- What a stream is from its creation on: its id and service, who opened it, and when. -/
structure Origin where
  id : UInt32
  service : Bytes
  inbound : Bool
  born : ℕ

def Stream.origin (st : Stream) : Origin := ⟨st.id, st.service, st.inbound, st.born⟩

theorem Stream.Fires.origin {r : Ref} {st : Stream} {x : Section} {o : Outcome}
    (h : Stream.Fires r st x o) : o.st.origin = st.origin := by
  cases h <;> rfl

/-- The message that `Serve` handles next. -/
def Task.message? : Task → Option AppMessage
  | .lookup m => some m
  | .handleOpen id service metadata => some (.appOpen id service metadata)
  | _ => none

theorem Task.serves_of_message? {t : Task} {m : AppMessage} (h : t.message? = some m) :
    t.serves = true := by
  cases t <;> simp_all [Task.message?, Task.serves]

theorem Task.Follows.message? {r : Ref} {t : Task} (h : t.Follows r) : t.message? = none := by
  cases h <;> rfl

theorem Stream.Fires.push_message? {r : Ref} {st : Stream} {x : Section} {o : Outcome}
    (h : Stream.Fires r st x o) : ∀ t ∈ o.push, t.message? = none := by
  cases h with
  | detachBytes => split_ifs <;> simp [Task.message?]
  | closeEndpoint => simp +contextual [Task.message?]
  | _ => simp [Stream.park, Task.message?, or_imp, forall_and]

theorem Stream.Fires.push_sendReject {r : Ref} {st : Stream} {x : Section} {o : Outcome}
    (h : Stream.Fires r st x o) :
    ∀ t ∈ o.push, ∀ id code message, t ≠ .sendReject id code message := by
  cases h with
  | detachBytes => split_ifs <;> simp
  | closeEndpoint => simp +contextual
  | _ => simp [Stream.park, or_imp, forall_and]

namespace Session

variable {s s' : Session} {t : Task} {n : Next} {l : Label} {r : Ref} {st : Stream}

/-! ## What the steps of goroutines leave alone -/

theorem Acts.inbox (ha : Acts s t n) : n.sess.inbox = s.inbox ∧ n.sess.cfg = s.cfg := by
  cases ha with
  | detach hst => unfold delete; split_ifs <;> exact ⟨rfl, rfl⟩
  | _ => exact ⟨rfl, rfl⟩

/-- Only `handleFrame` hands a message to `Serve`. -/
theorem Acts.push_message? (ha : Acts s t n) : ∀ t' ∈ n.push, t'.message? = none := by
  cases ha with
  | sect hst hf ho => exact hf.push_message?
  | @emit_sent r x => exact fun t' ht' => (x.sent_follows t' ht').message?
  | @emit_lost r x => exact fun t' ht' => (x.failed_follows t' ht').message?
  | pump hep h =>
    intro t' ht'
    have := h.tasks t' (by simp [ht'])
    cases this <;> rfl
  | @lookup_found m => exact fun t' ht' => (dispatch_follows m t' ht').message?
  | fail_now hc hrefs =>
    intro t' ht'
    cases failTask_of_mem ht' <;> rfl
  | _ => simp [Task.message?]

/-- The origins of all streams of a session. -/
def origins (s : Session) : List Origin := s.heap.map Stream.origin

theorem mem_origins (hst : s.heap[r]? = some st) : st.origin ∈ s.origins :=
  List.mem_map_of_mem (List.mem_of_getElem? hst)

/-- A step of a goroutine keeps the streams, or creates one. -/
theorem Acts.heap (ha : Acts s t n) :
    n.sess.origins = s.origins ∧ n.sess.streams.Sublist s.streams ∨
      ∃ st, n.sess.heap = s.heap ++ [st] ∧ validAppService st.service = true ∧
        st.born = s.inbox.length ∧
        n.sess.streams = (st.id, s.heap.length) :: s.streams ∧ n.sess.heard = s.heard ∧
        (st.inbound = false ∧ (∃ service metadata, t = .open service metadata) ∨
          st.inbound = true ∧ ∃ service metadata, t = .handleOpen st.id service metadata) := by
  cases ha with
  | sect hst hf ho => exact .inl ⟨map_set_of_eq hst hf.origin, .refl _⟩
  | detach hst =>
    exact .inl ⟨congrArg (List.map Stream.origin) (delete_heap _ _ _), delete_sublist _ _ _⟩
  | open_created hv hm hc hq hid =>
    exact .inr ⟨_, rfl, hv, rfl, rfl, rfl, .inl ⟨rfl, _, _, rfl⟩⟩
  | open_admitted h₀ hid hv hm hc hnew hq =>
    exact .inr ⟨_, rfl, hv, rfl, rfl, rfl, .inr ⟨rfl, _, _, rfl⟩⟩
  | fail_now hc hrefs => exact .inl ⟨rfl, List.nil_sublist _⟩
  | _ => exact .inl ⟨rfl, .refl _⟩

/-- A step of a goroutine hands a message to a stream, or none. -/
theorem Acts.heard (ha : Acts s t n) :
    n.sess.heard = s.heard ∧ (∀ m, t = .lookup m → s.stream m.streamID = none) ∨
      ∃ m r, t = .lookup m ∧ s.stream m.streamID = some r ∧
        n.sess.heard = s.heard ++ [(r, m)] := by
  cases ha with
  | lookup_found h => exact .inr ⟨_, _, rfl, h, rfl⟩
  | lookup_none h => exact .inl ⟨rfl, fun m hm => by cases hm; exact h⟩
  | detach hst => exact .inl ⟨by unfold delete; split_ifs <;> rfl, by simp⟩
  | _ => exact .inl ⟨rfl, by simp⟩

/-- What `handleFrame` does with a frame. -/
theorem handleFrame_cases (registry : Registry) (f : Frame) :
    (∃ t m, handleFrame registry f = [t] ∧ t.message? = some m ∧ f.app? registry = some m ∧
        (∀ m', t = .lookup m' → m'.isOpen = false)) ∨
      f.app? registry = none ∧ ∀ t ∈ handleFrame registry f, t.message? = none := by
  unfold handleFrame Frame.app?
  split_ifs with hf
  · exact .inr ⟨rfl, by simp [Task.message?]⟩
  · split
    · next err hd => exact .inr ⟨by simp [hd], by simp [Task.message?]⟩
    · next hd => exact .inr ⟨by simp [hd], by simp [Task.message?]⟩
    · next id service metadata hd =>
      exact .inl ⟨_, _, rfl, rfl, by simp [hd], by simp⟩
    · next m hm hd =>
      refine .inl ⟨_, m, rfl, rfl, by simp [hd], fun m' he => ?_⟩
      cases he
      cases m with
      | appOpen id service metadata => exact absurd rfl (hm id service metadata)
      | _ => rfl

/-! ## Arrivals -/

/-- The messages handed to the stream `r`. -/
def heardOf (s : Session) (r : Ref) : List AppMessage := s.heard.filterMap (heardBy r)

/-- The message that `Serve` has read and not yet handed on, if it is for the stream id. -/
def looking (s : Session) (id : UInt32) : List AppMessage :=
  match (s.threads[0]? : Option (List Task)) with
  | some (.lookup m :: _) => if m.streamID = id then [m] else []
  | _ => []

/-- The message that `Serve` handles is that of the last frame it read. -/
def Current (s : Session) : Prop :=
  ∀ ts, s.threads[0]? = some ts →
    (∃ t m fs f, ts = [t] ∧ t.message? = some m ∧ s.inbox = fs ++ [f] ∧
      f.app? s.cfg.registry = some m ∧ ∀ m', t = .lookup m' → m'.isOpen = false) ∨
    ∀ t ∈ ts, t.message? = none

/-- The messages of the stream `r` are those for its id since some frame before its creation. -/
def Routed (s : Session) (r : Ref) (st : Stream) : Prop :=
  ∃ k ≤ st.born,
    (r ∈ s.streams.map Prod.snd →
      s.heardOf r ++ s.looking st.id = messagesFor s.cfg.registry st.id (s.inbox.drop k)) ∧
    s.heardOf r <+: messagesFor s.cfg.registry st.id (s.inbox.drop k)

/-- **Where messages and streams come from.** -/
structure Arrivals (s : Session) : Prop where
  current : s.Current
  /-- A new `APP_OPEN` is not one that created a stream. -/
  fresh : ∀ t ts m, s.threads[0]? = some (t :: ts) → t.message? = some m → m.isOpen = true →
    ∀ o ∈ s.origins, o.inbound = true → o.born < s.inbox.length
  born_le : ∀ o ∈ s.origins, o.born ≤ s.inbox.length
  /-- The frame before the creation of a stream of the peer is its `APP_OPEN`. -/
  opened : ∀ o ∈ s.origins, o.inbound = true → ∃ k f service metadata, k + 1 = o.born ∧
    s.inbox[k]? = some f ∧ f.app? s.cfg.registry = some (.appOpen o.id service metadata)
  unique : s.origins.Pairwise fun o o' => o.inbound = true → o'.inbound = true → o.born ≠ o'.born
  known : ∀ p ∈ s.heard, p.1 < s.heap.length
  routed : ∀ r st, s.heap[r]? = some st → s.Routed r st

theorem arrivals_new (cfg : Config) : (new cfg).Arrivals where
  current ts h := by
    obtain rfl := Option.some.inj h
    exact .inr (by simp)
  fresh t ts m h := by simp [new] at h
  born_le o h := by simp [new, origins] at h
  opened o h := by simp [new, origins] at h
  unique := List.Pairwise.nil
  known p h := by simp [new] at h
  routed r st h := by simp [new] at h

theorem looking_eq_nil {id : UInt32}
    (h : ∀ t ts, s.threads[0]? = some (t :: ts) → ∀ m, t ≠ .lookup m) : s.looking id = [] := by
  unfold looking
  split
  · next m ts h0 => exact absurd rfl (h _ ts h0 m)
  · rfl

theorem looking_congr {id : UInt32} (h : s'.threads[0]? = s.threads[0]?) :
    s'.looking id = s.looking id := by
  unfold looking; rw [h]

theorem looking_lookup {id : UInt32} {m : AppMessage} {ts : List Task}
    (h : s.threads[0]? = some (.lookup m :: ts)) :
    s.looking id = if m.streamID = id then [m] else [] := by
  unfold looking; rw [h]

/-- The messages of a stream after a step that read no frame. -/
theorem Routed.step {st' : Stream} (h : s.Routed r st) (hst : st'.origin = st.origin)
    (hin : s'.inbox = s.inbox ∧ s'.cfg = s.cfg)
    (hl : r ∈ s'.streams.map Prod.snd → r ∈ s.streams.map Prod.snd)
    (hlisted : r ∈ s'.streams.map Prod.snd →
      s'.heardOf r ++ s'.looking st.id = s.heardOf r ++ s.looking st.id)
    (hheard : s'.heardOf r = s.heardOf r ∨
      r ∈ s.streams.map Prod.snd ∧ s'.heardOf r = s.heardOf r ++ s.looking st.id) :
    s'.Routed r st' := by
  obtain ⟨k, hk, h₁, h₂⟩ := h
  obtain ⟨hid, -, -, hborn⟩ := by simpa [Stream.origin] using hst
  refine ⟨k, hborn ▸ hk, fun hm => ?_, ?_⟩
  · rw [hid, hin.1, hin.2, hlisted hm]
    exact h₁ (hl hm)
  · rw [hid, hin.1, hin.2]
    rcases hheard with hh | ⟨hm, hh⟩
    · rw [hh]; exact h₂
    · rw [hh, h₁ hm]

/-- Only `Serve` handles messages. -/
theorem Serving.zero_of_message? (h : s.Serving) {i : ℕ} {rest : List Task} {m : AppMessage}
    (ht : s.threads[i]? = some (t :: rest)) (hm : t.message? = some m) : i = 0 := by
  cases i with
  | zero => rfl
  | succ i => simpa [h.others i _ ht t (by simp)] using Task.serves_of_message? hm

theorem Current.rest (h : s.Current) {rest : List Task} (ht : s.threads[0]? = some (t :: rest)) :
    ∀ t' ∈ rest, t'.message? = none := by
  rcases h _ ht with ⟨t', m, fs, f, he, -⟩ | h
  · simp [(List.cons.inj he).2]
  · exact fun t' hm => h t' (List.mem_cons_of_mem _ hm)

section Run

variable {i : ℕ} {rest : List Task}

/-- The session after goroutine `i` took a step. -/
abbrev after (s : Session) (i : ℕ) (n : Next) (rest : List Task) : Session :=
  { n.sess with threads := advance s.threads i (n.push ++ rest) n.spawn }

theorem after_zero (hserve : s.Serving) (hi : i ≠ 0) :
    (s.after i n rest).threads[0]? = s.threads[0]? := advance_getElem?_ne hserve.alive hi

theorem after_zero_self (hserve : s.Serving) :
    (s.after 0 n rest).threads[0]? = some (n.push ++ rest) := advance_getElem?_self hserve.alive

theorem Current.run (h : s.Current) (hserve : s.Serving) (ht : s.threads[i]? = some (t :: rest))
    (ha : Acts s t n) : (s.after i n rest).Current := by
  intro ts h0
  rw [show (s.after i n rest).inbox = s.inbox from ha.inbox.1,
    show (s.after i n rest).cfg = s.cfg from ha.inbox.2]
  by_cases hi : i = 0
  · subst hi
    rw [after_zero_self hserve] at h0
    obtain rfl := Option.some.inj h0
    exact .inr fun t' hm => (List.mem_append.mp hm).elim (ha.push_message? t') (h.rest ht t')
  · rw [after_zero hserve hi] at h0
    exact h ts h0

/-- What `Serve` has in hand after a step of a goroutine. -/
theorem looking_run (id : UInt32) (h : s.Current) (hserve : s.Serving)
    (ht : s.threads[i]? = some (t :: rest)) (ha : Acts s t n) :
    (∀ m, t ≠ .lookup m) ∧ (s.after i n rest).looking id = s.looking id ∨
      ∃ m, t = .lookup m ∧ s.looking id = (if m.streamID = id then [m] else []) ∧
        (s.after i n rest).looking id = [] := by
  have hnil (hi : i = 0) : (s.after i n rest).looking id = [] := by
    subst hi
    refine looking_eq_nil fun t' ts h0 m he => ?_
    rw [after_zero_self hserve] at h0
    have hm : t' ∈ n.push ++ rest := by simp [Option.some.inj h0]
    have := (List.mem_append.mp hm).elim (ha.push_message? t') (h.rest ht t')
    simp [he, Task.message?] at this
  -- `Serve` is through with the message it had, or it had none
  by_cases hl : ∃ m, t = .lookup m
  · obtain ⟨m, rfl⟩ := hl
    have hi : i = 0 := hserve.zero_of_message? ht rfl
    exact .inr ⟨m, rfl, looking_lookup (hi ▸ ht), hnil hi⟩
  · have hne : ∀ m, t ≠ .lookup m := fun m he => hl ⟨m, he⟩
    refine .inl ⟨hne, ?_⟩
    by_cases hi : i = 0
    · rw [hnil hi]
      subst hi
      refine (looking_eq_nil fun t' ts h0 => ?_).symm
      obtain ⟨rfl, -⟩ := List.cons.inj (Option.some.inj (ht.symm.trans h0))
      exact hne
    · exact looking_congr (after_zero hserve hi)

/-- A stream that a step keeps. -/
theorem routed_run (h : s.Arrivals) (htab : s.Table) (hserve : s.Serving)
    (ht : s.threads[i]? = some (t :: rest)) (ha : Acts s t n) {st' : Stream}
    (hst : s.heap[r]? = some st) (hor : st'.origin = st.origin)
    (hl : r ∈ n.sess.streams.map Prod.snd → r ∈ s.streams.map Prod.snd) :
    (s.after i n rest).Routed r st' := by
  have hin : (s.after i n rest).inbox = s.inbox ∧ (s.after i n rest).cfg = s.cfg := ha.inbox
  rcases looking_run st.id h.current hserve ht ha with ⟨hne, hlook⟩ | ⟨m, rfl, hlook, hnil⟩
  · -- no message is handed on
    have hheard : (s.after i n rest).heardOf r = s.heardOf r := by
      rcases ha.heard with ⟨he, -⟩ | ⟨m, r', rfl, -⟩
      · exact congrArg (List.filterMap (heardBy r)) he
      · exact absurd rfl (hne m)
    exact (h.routed r st hst).step hor hin hl (fun _ => by rw [hheard, hlook]) (.inl hheard)
  · have hid (hm : r ∈ s.streams.map Prod.snd) : s.stream st.id = some r := by
      obtain ⟨p, hp, rfl⟩ := List.mem_map.mp hm
      obtain ⟨b, hb⟩ := htab.ids p hp
      simp only [names_getElem?, hst, Option.map_some, Option.some.injEq] at hb
      have : st.id = p.1 := congrArg Prod.fst hb
      exact this ▸ htab.stream_of_mem hp
    rcases ha.heard with ⟨he, hnone⟩ | ⟨m', r', hm', hstream, he⟩
    · -- no stream has the id of the message
      have hheard : (s.after i n rest).heardOf r = s.heardOf r :=
        congrArg (List.filterMap (heardBy r)) he
      refine (h.routed r st hst).step hor hin hl (fun hm => ?_) (.inl hheard)
      have hne : m.streamID ≠ st.id := fun hc => by
        simpa [hid (hl hm), hc] using hnone m rfl
      rw [hheard, hnil, hlook, if_neg hne]
    · cases hm'
      have hheard : (s.after i n rest).heardOf r =
          s.heardOf r ++ if r' = r then [m] else [] := by
        rw [heardOf, he, List.filterMap_append]
        by_cases hr : r' = r <;> simp [heardOf, heardBy, hr]
      by_cases hr : r' = r
      · subst hr
        -- the message is handed to the stream `r`
        have hmem := mem_of_stream hstream
        obtain ⟨b, hb⟩ := htab.ids _ hmem
        simp only [names_getElem?, hst, Option.map_some, Option.some.injEq] at hb
        have hmid : m.streamID = st.id := (congrArg Prod.fst hb).symm
        rw [if_pos hmid] at hlook
        rw [if_pos rfl] at hheard
        refine (h.routed r' st hst).step hor hin hl (fun _ => ?_) (.inr ⟨?_, ?_⟩)
        · rw [hheard, hnil, hlook, List.append_nil]
        · exact List.mem_map_of_mem hmem
        · rw [hheard, hlook]
      · -- it is handed to another stream, which has another id
        rw [if_neg hr, List.append_nil] at hheard
        refine (h.routed r st hst).step hor hin hl (fun hm => ?_) (.inl hheard)
        have hne : m.streamID ≠ st.id := fun hc => by
          rw [hc, hid (hl hm)] at hstream
          exact hr (Option.some.inj hstream).symm
        rw [hheard, hnil, hlook, if_neg hne]

/-- What `Serve` has in hand is the last frame it read. -/
theorem looking_cases (h : s.Current) (id : UInt32) :
    s.looking id = [] ∨ ∃ fs f, s.inbox = fs ++ [f] ∧
      s.looking id = messagesFor s.cfg.registry id [f] := by
  by_cases hl : ∃ m ts, s.threads[0]? = some (.lookup m :: ts)
  · obtain ⟨m, ts, h0⟩ := hl
    rcases h _ h0 with ⟨t, m', fs, f, he, hm, hin, hf, hopen⟩ | h
    · obtain ⟨rfl, -⟩ := List.cons.inj he
      obtain rfl := Option.some.inj hm
      refine .inr ⟨fs, f, hin, ?_⟩
      rw [looking_lookup h0]
      by_cases hid : m.streamID = id <;> simp [messagesFor, hf, hid, hopen m rfl]
    · simpa [Task.message?] using h _ (List.mem_cons_self ..)
  · exact .inl (looking_eq_nil fun t ts h0 m he => hl ⟨m, ts, he ▸ h0⟩)

/-- A stream that a step creates. -/
theorem routed_new (h : s.Arrivals) (hserve : s.Serving)
    (ht : s.threads[i]? = some (t :: rest)) (ha : Acts s t n) (hborn : st.born = s.inbox.length)
    (hheard : n.sess.heard = s.heard) (hne : ∀ m, t ≠ .lookup m) :
    (s.after i n rest).Routed s.heap.length st := by
  have hin : (s.after i n rest).inbox = s.inbox ∧ (s.after i n rest).cfg = s.cfg := ha.inbox
  have hnil : (s.after i n rest).heardOf s.heap.length = [] := by
    rw [heardOf, hheard, List.filterMap_eq_nil_iff]
    exact fun p hp => if_neg (h.known p hp).ne
  have hlook : (s.after i n rest).looking st.id = s.looking st.id := by
    rcases looking_run st.id h.current hserve ht ha with ⟨-, hlook⟩ | ⟨m, he, -⟩
    · exact hlook
    · exact absurd he (hne m)
  rw [Routed, hnil, hlook, hin.1, hin.2]
  rcases looking_cases h.current st.id with hl | ⟨fs, f, hfs, hl⟩
  · exact ⟨st.born, le_rfl, fun _ => by simp [hl, hborn], List.nil_prefix⟩
  · refine ⟨fs.length, by simp [hborn, hfs], fun _ => ?_, List.nil_prefix⟩
    rw [hl, hfs, List.drop_left, List.nil_append]

theorem Arrivals.run (h : s.Arrivals) (htab : s.Table) (hserve : s.Serving)
    (ht : s.threads[i]? = some (t :: rest)) (ha : Acts s t n) : (s.after i n rest).Arrivals := by
  have hin : (s.after i n rest).inbox = s.inbox := ha.inbox.1
  have hcfg : (s.after i n rest).cfg = s.cfg := ha.inbox.2
  have hcur := h.current.run hserve ht ha
  -- after its own step, `Serve` has no message in hand
  have hzero {t' : Task} {ts : List Task} {m : AppMessage}
      (h0 : (s.after i n rest).threads[0]? = some (t' :: ts)) (hm : t'.message? = some m) :
      i ≠ 0 ∧ s.threads[0]? = some (t' :: ts) := by
    by_cases hi : i = 0
    · subst hi
      rw [after_zero_self hserve] at h0
      have hmem : t' ∈ n.push ++ rest := by simp [Option.some.inj h0]
      have := (List.mem_append.mp hmem).elim (ha.push_message? t') (h.current.rest ht t')
      simp [hm] at this
    · exact ⟨hi, by rwa [after_zero hserve hi] at h0⟩
  rcases ha.heap with ⟨hor, hsub⟩ | ⟨st, hheap, -, hborn, hstr, hheard, hnew⟩
  · have hor' : (s.after i n rest).origins = s.origins := hor
    have hlen : n.sess.heap.length = s.heap.length := by
      simpa [origins] using congrArg List.length hor
    refine ⟨hcur, fun t' ts m h0 hm => ?_, ?_, ?_, ?_, fun p hp => ?_, fun r st' hst => ?_⟩
    · rw [hor', hin]
      exact h.fresh t' ts m (hzero h0 hm).2 hm
    · rw [hor', hin]; exact h.born_le
    · rw [hor', hin, hcfg]; exact h.opened
    · rw [hor']; exact h.unique
    · rw [show (s.after i n rest).heap.length = _ from hlen]
      rcases ha.heard with ⟨he, -⟩ | ⟨m, r, -, hstream, he⟩
      · exact h.known p (he ▸ hp)
      · rcases List.mem_append.mp (he ▸ hp) with hp | hp
        · exact h.known p hp
        · obtain rfl := List.mem_singleton.mp hp
          obtain ⟨b, hb⟩ := htab.ids _ (mem_of_stream hstream)
          simpa [names] using (List.getElem?_eq_some_iff.mp hb).1
    · have hst' : s.origins[r]? = some st'.origin := by
        rw [← hor, origins, List.getElem?_map, show n.sess.heap[r]? = some st' from hst]
        rfl
      rw [origins, List.getElem?_map] at hst'
      obtain ⟨st, hst, he⟩ := Option.map_eq_some_iff.mp hst'
      exact routed_run h htab hserve ht ha hst he.symm fun hm => (hsub.map _).subset hm
  · have hor' : (s.after i n rest).origins = s.origins ++ [st.origin] := by
      change n.sess.heap.map _ = _
      rw [hheap, List.map_append]
      rfl
    have hne : ∀ m, t ≠ .lookup m := by
      rintro m rfl
      rcases hnew with ⟨-, _, _, he⟩ | ⟨-, _, _, he⟩ <;> simp at he
    -- the stream is the peer's: `Serve` has just read its `APP_OPEN`
    have hopen (hi : st.inbound = true) : i = 0 ∧
        (∀ o ∈ s.origins, o.inbound = true → o.born < s.inbox.length) ∧
        ∃ k f service metadata, k + 1 = st.born ∧ s.inbox[k]? = some f ∧
          f.app? s.cfg.registry = some (.appOpen st.id service metadata) := by
      rcases hnew with ⟨hi', -⟩ | ⟨-, service, metadata, rfl⟩
      · simp [hi] at hi'
      · have h0 : i = 0 := hserve.zero_of_message? ht rfl
        subst h0
        refine ⟨rfl, h.fresh _ rest _ ht rfl rfl, ?_⟩
        rcases h.current _ ht with ⟨t', m, fs, f, he, hm, hfs, hf, -⟩ | hn
        · obtain ⟨rfl, -⟩ := List.cons.inj he
          obtain rfl := Option.some.inj hm
          exact ⟨fs.length, f, service, metadata, by simp [hborn, hfs], by simp [hfs], hf⟩
        · simpa [Task.message?] using hn _ (List.mem_cons_self ..)
    refine ⟨hcur, fun t' ts m h0 hm hmo o ho hio => ?_, fun o ho => ?_, fun o ho hio => ?_, ?_,
      fun p hp => ?_, fun r st' hst => ?_⟩
    · obtain ⟨hi, h0⟩ := hzero h0 hm
      rw [hin]
      rcases List.mem_append.mp (hor' ▸ ho) with ho | ho
      · exact h.fresh t' ts m h0 hm hmo o ho hio
      · obtain rfl := List.mem_singleton.mp ho
        exact absurd (hopen hio).1 hi
    · rw [hin]
      rcases List.mem_append.mp (hor' ▸ ho) with ho | ho
      · exact h.born_le o ho
      · obtain rfl := List.mem_singleton.mp ho
        exact hborn.le
    · rw [hin, hcfg]
      rcases List.mem_append.mp (hor' ▸ ho) with ho | ho
      · exact h.opened o ho hio
      · obtain rfl := List.mem_singleton.mp ho
        exact (hopen hio).2.2
    · rw [hor', List.pairwise_append]
      refine ⟨h.unique, List.pairwise_singleton _ _, fun o ho o' ho' hio hio' => ?_⟩
      obtain rfl := List.mem_singleton.mp ho'
      have := (hopen hio').2.1 o ho hio
      exact fun he => absurd (he.trans hborn) this.ne
    · have := h.known p (hheard ▸ hp)
      rw [show (s.after i n rest).heap = _ from hheap, List.length_append]
      exact Nat.lt_add_right _ this
    · rw [show (s.after i n rest).heap = _ from hheap] at hst
      rcases getElem?_concat_cases hst with ⟨hlt, hst⟩ | ⟨rfl, rfl⟩
      · refine routed_run h htab hserve ht ha hst rfl fun hm => ?_
        simpa [hstr, hlt.ne] using hm
      · exact routed_new h hserve ht ha hborn hheard hne

end Run

/-- A step that starts something besides `Serve`. -/
theorem Arrivals.congr (h : s.Arrivals) (hin : s'.inbox = s.inbox) (hcfg : s'.cfg = s.cfg)
    (hheap : s'.heap = s.heap) (hstr : s'.streams = s.streams) (hheard : s'.heard = s.heard)
    (h0 : s'.threads[0]? = s.threads[0]? ∨ s.threads[0]? = some [] ∧
      ∃ ts, s'.threads[0]? = some ts ∧ ∀ t ∈ ts, t.message? = none) : s'.Arrivals := by
  have hor : s'.origins = s.origins := congrArg (List.map Stream.origin) hheap
  have hlook (id : UInt32) : s'.looking id = s.looking id := by
    rcases h0 with h0 | ⟨h0, ts, hts, hn⟩
    · exact looking_congr h0
    · rw [looking_eq_nil (s := s) fun t ts' h0' => by simp [h0] at h0', looking_eq_nil]
      intro t ts' h0' m he
      obtain rfl := Option.some.inj (hts.symm.trans h0')
      simpa [he, Task.message?] using hn t (List.mem_cons_self ..)
  refine ⟨fun ts hts => ?_, fun t ts m hts hm => ?_, ?_, ?_, ?_, ?_, fun r st hst => ?_⟩
  · rw [hin, hcfg]
    rcases h0 with h0 | ⟨-, ts', hts', hn⟩
    · exact h.current ts (h0 ▸ hts)
    · obtain rfl := Option.some.inj (hts'.symm.trans hts)
      exact .inr hn
  · rw [hor, hin]
    rcases h0 with h0 | ⟨-, ts', hts', hn⟩
    · exact h.fresh t ts m (h0 ▸ hts) hm
    · obtain rfl := Option.some.inj (hts'.symm.trans hts)
      simp [hm] at hn
  · rw [hor, hin]; exact h.born_le
  · rw [hor, hin, hcfg]; exact h.opened
  · rw [hor]; exact h.unique
  · rw [hheard, hheap]; exact h.known
  · have hh : s'.heardOf r = s.heardOf r := congrArg (List.filterMap (heardBy r)) hheard
    rw [Routed, hh, hlook, hstr, hin, hcfg]
    exact h.routed r st (hheap ▸ hst)

/-- What `Serve` has in hand when it has read a frame. -/
theorem looking_handleFrame {registry : Registry} {f : Frame} {id : UInt32}
    (h : s.threads[0]? = some (handleFrame registry f)) :
    s.looking id = messagesFor registry id [f] := by
  rcases handleFrame_cases registry f with ⟨t, m, ht, hm, hf, ho⟩ | ⟨hf, hn⟩
  · rw [ht] at h
    cases t with
    | lookup m' =>
      obtain rfl := Option.some.inj hm
      rw [looking_lookup h]
      by_cases hid : m'.streamID = id <;> simp [messagesFor, hf, hid, ho m' rfl]
    | handleOpen id' service metadata =>
      obtain rfl := Option.some.inj hm
      rw [looking_eq_nil fun t ts h0 => ?_]
      · simp [messagesFor, hf, AppMessage.isOpen]
      · rw [h] at h0
        obtain ⟨rfl, -⟩ := List.cons.inj (Option.some.inj h0)
        simp
    | _ => simp [Task.message?] at hm
  · rw [looking_eq_nil fun t ts h0 m he => ?_]
    · simp [messagesFor, hf]
    · rw [h] at h0
      have := hn t (by simp [Option.some.inj h0])
      simp [he, Task.message?] at this

/-- `Serve` reads a frame. -/
theorem Arrivals.recv (h : s.Arrivals) (hserve : s.Serving) (h0 : s.threads[0]? = some [])
    (f : Frame) :
    Arrivals { s with inbox := s.inbox ++ [f],
                      threads := s.threads.set 0 (handleFrame s.cfg.registry f) } := by
  have hzero : (s.threads.set 0 (handleFrame s.cfg.registry f))[0]? =
      some (handleFrame s.cfg.registry f) := List.getElem?_set_self hserve.alive
  refine ⟨fun ts hts => ?_, fun t ts m hts hm hmo o ho hio => ?_, fun o ho => ?_,
    fun o ho hio => ?_, h.unique, h.known, fun r st hst => ?_⟩
  · obtain rfl := Option.some.inj (hzero.symm.trans hts)
    rcases handleFrame_cases s.cfg.registry f with ⟨t, m, ht, hm, hf, ho⟩ | ⟨-, hn⟩
    · exact .inl ⟨t, m, s.inbox, f, ht, hm, rfl, hf, ho⟩
    · exact .inr hn
  · simpa using Nat.lt_succ_of_le (h.born_le o ho)
  · simpa using Nat.le_succ_of_le (h.born_le o ho)
  · obtain ⟨k, g, service, metadata, hk, hg, hopen⟩ := h.opened o ho hio
    refine ⟨k, g, service, metadata, hk, ?_, hopen⟩
    rw [List.getElem?_append_left (List.getElem?_eq_some_iff.mp hg).1, hg]
  · -- `Serve` had nothing in hand, and now has the message of the frame, if it is one
    obtain ⟨k, hk, h₁, h₂⟩ := h.routed r st hst
    have hkl : k ≤ s.inbox.length := hk.trans (h.born_le _ (mem_origins hst))
    have hnil : s.looking st.id = [] := looking_eq_nil fun t ts h0' => by simp [h0] at h0'
    have hdrop : messagesFor s.cfg.registry st.id ((s.inbox ++ [f]).drop k) =
        messagesFor s.cfg.registry st.id (s.inbox.drop k) ++
          messagesFor s.cfg.registry st.id [f] := by
      rw [List.drop_append_of_le_length hkl, messagesFor_append]
    refine ⟨k, hk, fun hm => ?_, ?_⟩
    · dsimp only
      rw [hdrop, ← h₁ hm, hnil, List.append_nil]
      exact congrArg _ (looking_handleFrame hzero)
    · dsimp only
      rw [hdrop]
      exact h₂.trans (List.prefix_append _ _)

/-- **Every step keeps track of where messages and streams come from.** -/
theorem Moves.arrivals (hm : Moves s l s') (htab : s.Table) (hserve : s.Serving)
    (h : s.Arrivals) : s'.Arrivals := by
  have hspawn (ts : List Task) : (s.threads ++ [ts])[0]? = s.threads[0]? :=
    List.getElem?_append_left hserve.alive
  cases hm with
  | run ht ha => exact h.run htab hserve ht ha
  | callOn hs hc => exact h.congr rfl rfl rfl rfl rfl (.inl (hspawn _))
  | callOpen => exact h.congr rfl rfl rfl rfl rfl (.inl (hspawn _))
  | callClose => exact h.congr rfl rfl rfl rfl rfl (.inl (hspawn _))
  | recv h0 hs => exact h.recv hserve h0 _
  | readError h0 hs =>
    exact h.congr rfl rfl rfl rfl rfl
      (.inr ⟨h0, _, List.getElem?_set_self hserve.alive, by simp [Task.message?]⟩)
  | connLost => exact h.congr rfl rfl rfl rfl rfl (.inl rfl)

/-- **The messages and the streams of every state reached come from frames.** -/
theorem arrivals {cfg : Config} {ok : Session → Label → Prop} (h : Reaches step ok (new cfg) s) :
    s.Arrivals :=
  h.invariant (arrivals_new cfg) fun _ _ _ hr _ hs ha =>
    (moves_of_step hs).arrivals (reaches_table hr) (reaches_serving hr) ha

/-! ## Departures -/

/-- The peer asked for a stream with the id. -/
def Asked (s : Session) (id : UInt32) : Prop :=
  ∃ service metadata, .appOpen id service metadata ∈ s.inbox.filterMap (Frame.app? s.cfg.registry)

/-- A message that the session may write: for one of its streams, or a rejection of what the peer
asked for. -/
def Justified (s : Session) (ref : Option Ref) (m : AppMessage) : Prop :=
  (∃ r o, ref = some r ∧ s.origins[r]? = some o ∧ m.streamID = o.id) ∨
    ref = none ∧ (∃ id code message, m = .appReject id code message) ∧ s.Asked m.streamID

/-- **Where the frames written come from.** -/
structure Departures (s : Session) : Prop where
  services : ∀ o ∈ s.origins, validAppService o.service = true
  sent : ∀ e ∈ s.out, ∀ m, e.msg = .app m →
    m.marshalBinary.isOk = true ∧ m.ServiceValid ∧ s.Justified e.ref m
  rejects : ∀ id code message, .sendReject id code message ∈ pending s.threads → s.Asked id

theorem departures_new (cfg : Config) : (new cfg).Departures where
  services o h := by simp [new, origins] at h
  sent e h := by simp [new] at h
  rejects id code message h := by simp [new] at h

theorem Asked.mono {id : UInt32} (h : s.Asked id) (hin : s.inbox <+: s'.inbox)
    (hcfg : s'.cfg = s.cfg) : s'.Asked id := by
  obtain ⟨service, metadata, hm⟩ := h
  obtain ⟨fs, hfs⟩ := hin
  refine ⟨service, metadata, ?_⟩
  rw [hcfg, ← hfs, List.filterMap_append]
  exact List.mem_append_left _ hm

theorem Justified.mono {ref : Option Ref} {m : AppMessage} (h : s.Justified ref m)
    (hor : s.origins <+: s'.origins) (hin : s.inbox <+: s'.inbox) (hcfg : s'.cfg = s.cfg) :
    s'.Justified ref m := by
  refine h.imp ?_ (And.imp_right (And.imp_right (·.mono hin hcfg)))
  rintro ⟨r, o, hr, ho, hid⟩
  obtain ⟨os, hos⟩ := hor
  exact ⟨r, o, hr, by
    rw [← hos, List.getElem?_append_left (List.getElem?_eq_some_iff.mp ho).1, ho], hid⟩

theorem Acts.origins (ha : Acts s t n) : s.origins <+: n.sess.origins := by
  rcases ha.heap with ⟨h, -⟩ | ⟨st, h, -⟩
  · rw [h]
  · rw [Session.origins, Session.origins, h, List.map_append]
    exact List.prefix_append _ _

theorem Emission.serviceValid {st : Stream} (x : Emission)
    (h : validAppService st.service = true) : (x.message st).ServiceValid := by
  cases x with
  | «open» metadata => exact h
  | _ => trivial

theorem Emission.streamID_message (x : Emission) (st : Stream) :
    (x.message st).streamID = st.id := by
  cases x <;> rfl

/-- The frames a step of a goroutine writes. -/
theorem Acts.out (ha : Acts s t n) :
    n.sess.out = s.out ∨ ∃ e, n.sess.out = s.out ++ [e] ∧ ∀ m, e.msg = .app m →
      m.marshalBinary.isOk = true ∧
      ((∃ r x st, t = .emit r x ∧ s.heap[r]? = some st ∧ e.ref = some r ∧ m = x.message st) ∨
        ∃ id code message, t = .sendReject id code message ∧ e.ref = none ∧
          m = .appReject id code message) := by
  cases ha with
  | emit_sent hst h =>
    refine .inr ⟨_, rfl, fun m hm => ?_⟩
    obtain rfl := Outgoing.app.inj hm
    exact ⟨h.1, .inl ⟨_, _, _, rfl, hst, rfl, rfl⟩⟩
  | reject_sent h =>
    refine .inr ⟨_, rfl, fun m hm => ?_⟩
    obtain rfl := Outgoing.app.inj hm
    exact ⟨h.1, .inr ⟨_, _, _, rfl, rfl, rfl⟩⟩
  | error_sent h => exact .inr ⟨_, rfl, by simp⟩
  | detach hst => exact .inl (by unfold delete; split_ifs <;> rfl)
  | _ => exact .inl rfl

/-- Rejections answer an `APP_OPEN`. -/
theorem Acts.push_sendReject (ha : Acts s t n) {id : UInt32} {code : UInt16} {message : Bytes}
    (h : .sendReject id code message ∈ n.push ++ n.spawn.flatten) :
    ∃ service metadata, t = .handleOpen id service metadata := by
  cases ha with
  | open_refused =>
    simp only [List.flatten_nil, List.append_nil, List.mem_singleton, Task.sendReject.injEq] at h
    exact ⟨_, _, by rw [h.1]⟩
  | sect hst hf ho =>
    simp only [List.flatten_nil, List.append_nil] at h
    exact absurd rfl (hf.push_sendReject _ h id code message)
  | @emit_sent r x => cases x.sent_follows (r := r) _ (mem_push h)
  | @emit_lost r x => cases x.failed_follows (r := r) _ (mem_push h)
  | pump hep h' => cases h'.tasks _ h
  | @lookup_found m r => cases dispatch_follows (r := r) m _ (mem_push h)
  | _ => simp at h

theorem Departures.run (h : s.Departures) (harr : s.Arrivals) (hserve : s.Serving) {i : ℕ}
    {rest : List Task} (ht : s.threads[i]? = some (t :: rest)) (ha : Acts s t n) :
    (s.after i n rest).Departures := by
  have hcfg : (s.after i n rest).cfg = s.cfg := ha.inbox.2
  have hin : s.inbox <+: (s.after i n rest).inbox := by
    rw [show (s.after i n rest).inbox = s.inbox from ha.inbox.1]
  obtain ⟨others, h₁, h₂⟩ := pending_advance ht
  have htp : t ∈ pending s.threads := by simp [h₁]
  refine ⟨fun o ho => ?_, fun e he m hm => ?_, fun id code message hm => ?_⟩
  · -- `Open` and `handleOpen` check the service
    rcases ha.heap with ⟨hor, -⟩ | ⟨st, hheap, hv, -⟩
    · exact h.services o (hor ▸ ho)
    · rw [show (s.after i n rest).origins = s.origins ++ [st.origin] by
        change n.sess.heap.map _ = _; rw [hheap, List.map_append]; rfl] at ho
      rcases List.mem_append.mp ho with ho | ho
      · exact h.services o ho
      · obtain rfl := List.mem_singleton.mp ho
        exact hv
  · have hold (he : e ∈ s.out) : m.marshalBinary.isOk = true ∧ m.ServiceValid ∧
        (s.after i n rest).Justified e.ref m := by
      obtain ⟨hok, hs, hj⟩ := h.sent e he m hm
      exact ⟨hok, hs, hj.mono ha.origins hin hcfg⟩
    rcases ha.out with hout | ⟨e', hout, he'⟩
    · exact hold (hout ▸ he)
    · rcases List.mem_append.mp (hout ▸ he) with he | he
      · exact hold he
      · obtain rfl := List.mem_singleton.mp he
        obtain ⟨hok, ⟨r, x, st, rfl, hst, href, rfl⟩ | ⟨id, code, message, rfl, href, rfl⟩⟩ :=
          he' m hm
        · -- a frame written for a stream
          refine ⟨hok, Emission.serviceValid x (h.services _ (mem_origins hst)), .inl ?_⟩
          obtain ⟨os, hos⟩ := ha.origins
          refine ⟨r, st.origin, href, ?_, Emission.streamID_message x st⟩
          have : s.origins[r]? = some st.origin := by simp [Session.origins, hst]
          rw [show (s.after i n rest).origins = n.sess.origins from rfl, ← hos,
            List.getElem?_append_left (List.getElem?_eq_some_iff.mp this).1, this]
        · exact ⟨hok, trivial, .inr ⟨href, ⟨_, _, _, rfl⟩,
            (h.rejects id code message htp).mono hin hcfg⟩⟩
  · rw [h₂, Multiset.mem_add, Multiset.mem_add] at hm
    rcases hm with hm | hm
    · -- `handleOpen` rejects the frame that it handles
      obtain ⟨service, metadata, rfl⟩ := ha.push_sendReject (by simpa [pending] using hm)
      have h0 : i = 0 := hserve.zero_of_message? ht rfl
      subst h0
      rcases harr.current _ ht with ⟨t', m, fs, f, he, hm, hfs, hf, -⟩ | hn
      · obtain ⟨rfl, -⟩ := List.cons.inj he
        obtain rfl := Option.some.inj hm
        refine Asked.mono ⟨service, metadata, ?_⟩ hin hcfg
        rw [hfs]
        simp [hf]
      · simpa [Task.message?] using hn _ (List.mem_cons_self ..)
    · exact (h.rejects id code message (by simp [h₁, hm])).mono hin hcfg

/-- **Every step keeps track of where the frames written come from.** -/
theorem Moves.departures (hm : Moves s l s') (harr : s.Arrivals) (hserve : s.Serving)
    (h : s.Departures) : s'.Departures := by
  have hsame (hor : s'.origins = s.origins) (hout : s'.out = s.out) (hcfg : s'.cfg = s.cfg)
      (hin : s.inbox <+: s'.inbox)
      (hrej : ∀ id code message, .sendReject id code message ∈ pending s'.threads →
        .sendReject id code message ∈ pending s.threads) : s'.Departures := by
    refine ⟨hor ▸ h.services, fun e he m hm => ?_, fun id code message hm => ?_⟩
    · obtain ⟨hok, hs, hj⟩ := h.sent e (hout ▸ he) m hm
      exact ⟨hok, hs, hj.mono (hor ▸ List.prefix_rfl) hin hcfg⟩
    · exact (h.rejects id code message (hrej id code message hm)).mono hin hcfg
  rcases hm.run_or_starts with ⟨i, c, t, rest, n, -, ht, ha, rfl⟩ | ⟨ts, hts⟩ | rfl
  · exact h.run harr hserve ht ha
  · refine hsame (congrArg (List.map Stream.origin) hts.heap) hts.out hts.cfg hts.inbox
      fun id code message hm => ?_
    rcases Multiset.mem_add.mp (hts.pending ▸ hm) with hm | hm
    · cases hts.started _ hm with
      | callOn hs hc => cases hc
    · exact hm
  · exact hsame rfl rfl rfl List.prefix_rfl fun _ _ _ hm => hm

/-- **The frames written in every state reached are for streams, or reject an `APP_OPEN`.** -/
theorem departures {cfg : Config} {ok : Session → Label → Prop}
    (h : Reaches step ok (new cfg) s) : s.Departures :=
  h.invariant (departures_new cfg) fun _ _ _ hr _ hs hd =>
    (moves_of_step hs).departures (arrivals hr) (reaches_serving hr) hd

end Session

end App

end Mvcp
