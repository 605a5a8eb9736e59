import Mvcp.App.Ledger
import Mvcp.App.Resolution

/-!
# The stream table over the life of a session

The table holds the streams that frames of the peer can reach: at most `AppMaxStreams`, each under
its own id. The ids that `Open` hands out are used once. `fail` empties the table for good and
resets what it held, one stream after the other, before it closes the connection.

## Main definitions

* `Session.Failing`: a goroutine is in `fail`, and what it has still to reset
* `Session.Downed`: the streams that `fail` took are reset

## Main results

* `Session.table_lifetime`: the table and the ids, in every state of every run
-/

namespace Mvcp.App

open Library (Reaches Always pending advance advance_getElem?_self advance_getElem?_ne
  run reaches_of_run exists_reaches_of_run)

/-! ## Ids -/

/-- The low part of an id allocated here is the number of the allocation. -/
theorem localID_low {role : Role} {k : ℕ} (hk : k < 2 ^ 31) :
    (localID role k &&& 0x7FFFFFFF).toNat = k := by
  rw [UInt32.toNat_and, localID_toNat role hk,
    show (0x7FFFFFFF : UInt32).toNat = 2 ^ 31 - 1 from rfl, Nat.and_two_pow_sub_one_eq_mod]
  cases role with
  | host => simp [Role.bit]; omega
  | guest => simp [Role.bit]; omega

namespace Session

variable {cfg : Config} {ok : Session → Label → Prop} {s s' t : Session} {r : Ref} {st : Stream}
variable {n : Next} {l : Label}

/-- The ids that `Open` handed out, in order. -/
def openedIDs (s : Session) : List UInt32 := (s.heap.filter fun st => !st.inbound).map Stream.id

theorem Table.openedIDs_eq (h : s.Table) :
    s.openedIDs = (List.range' 1 s.nextID).map (localID s.cfg.role) := by
  rw [← h.locals, names, List.filter_map, List.map_map]
  rfl

theorem Table.openedIDs_nodup (h : s.Table) : s.openedIDs.Nodup := by
  rw [h.openedIDs_eq]
  refine List.Nodup.map_on (fun j hj k hk he => ?_) List.nodup_range'
  have hle := h.nextID_le
  simp only [List.mem_range'_1, maxLocalStreamID] at hj hk hle
  exact localID_injective (by omega) (by omega) he

/-- A stream opened here has one of the ids allocated here. -/
theorem Table.localID_of_outbound (h : s.Table) (hm : st ∈ s.heap) (hi : st.inbound = false) :
    ∃ k, 1 ≤ k ∧ k < 2 ^ 31 ∧ st.id = localID s.cfg.role k := by
  have hid : st.id ∈ s.openedIDs :=
    List.mem_map_of_mem (List.mem_filter.mpr ⟨hm, by simp [hi]⟩)
  rw [h.openedIDs_eq] at hid
  obtain ⟨k, hk, he⟩ := List.mem_map.mp hid
  have hle := h.nextID_le
  simp only [List.mem_range'_1, maxLocalStreamID] at hk hle
  exact ⟨k, by omega, by omega, he.symm⟩

theorem Table.id_of_outbound (h : s.Table) (hm : st ∈ s.heap) (hi : st.inbound = false) :
    st.id &&& 0x7FFFFFFF ≠ 0 ∧ st.id &&& 0x80000000 = s.cfg.role.bit ∧
      ∀ st' ∈ s.heap, st'.inbound = true → st'.id ≠ st.id := by
  obtain ⟨k, hk, hlt, hid⟩ := h.localID_of_outbound hm hi
  rw [hid]
  refine ⟨fun hz => ?_, localID_bit hlt, fun st' hm' hi' => ?_⟩
  · have hlow : k = (localID s.cfg.role k &&& 0x7FFFFFFF).toNat := (localID_low hlt).symm
    rw [hz] at hlow
    exact absurd hlow (by simpa using Nat.one_le_iff_ne_zero.mp hk)
  · exact localID_ne_of_remote hlt (h.peers st'.name (List.mem_map_of_mem hm') hi')

/-! ## A closed session -/

variable {i : ℕ} {task : Task} {refs : List Ref}

theorem delete_closed (s : Session) (r : Ref) (id : UInt32) :
    (s.delete r id).closed = s.closed := by
  unfold delete; split_ifs <;> rfl

/-- Nothing enters the table of a closed session. -/
theorem Acts.streams_nil (ha : Acts s task n) (hc : s.closed = true) (hs : s.streams = []) :
    n.sess.streams = [] := by
  cases ha with
  | detach hst => exact List.sublist_nil.mp (hs ▸ delete_sublist s _ _)
  | open_created hv hm hopen hq hid => simp [hc] at hopen
  | open_admitted h₀ hid hv hm hopen hnew hq => simp [hc] at hopen
  | fail_now hopen hrefs => rfl
  | _ => exact hs

/-- A session is closed by `fail`, which takes the streams out of the table. -/
theorem Acts.closes (ha : Acts s task n) (hc : s.closed = false) (hc' : n.sess.closed = true) :
    n.sess.streams = [] ∧ ∃ refs : List Ref, refs.Perm (s.streams.map Prod.snd) ∧
      n.push = .clearBuffered :: refs.map (fun r => .sect r (.setReset .peerGone)) ++
        [.closeConn] := by
  cases ha with
  | fail_now hopen hrefs => exact ⟨rfl, _, hrefs, rfl⟩
  | detach hst =>
    rw [delete_closed, hc] at hc'
    cases hc'
  | _ => simp [hc] at hc'

/-- The table of a closed session is empty, and stays so. -/
theorem Moves.emptied (hm : Moves s l s') (h : s.closed = true ∧ s.streams = []) :
    s'.closed = true ∧ s'.streams = [] := by
  cases hm with
  | run ht ha => exact ⟨ha.closed h.1, ha.streams_nil h.1 h.2⟩
  | _ => exact h

theorem emptied (h : Reaches step ok (new cfg) s) (hc : s.closed = true) : s.streams = [] := by
  revert hc
  refine h.invariant (I := fun s => s.closed = true → s.streams = [])
    (fun hc => by simp [new] at hc) fun s s' l _ _ hs ih hc' => ?_
  cases hc : s.closed with
  | true => exact ((moves_of_step hs).emptied ⟨hc, ih hc⟩).2
  | false =>
    cases moves_of_step hs with
    | run ht ha => exact (ha.closes hc hc').1
    | _ => simp [hc] at hc'

/-! ## `fail` -/

/-- The stream is reset. -/
def Downed (s : Session) (r : Ref) : Prop := ∃ st, s.heap[r]? = some st ∧ st.reset = true

/-- Goroutine `i` is in `fail`: the streams it took are reset, or it has still to reset them
before it closes the connection. -/
def Failing (s : Session) (i : ℕ) (refs : List Ref) : Prop :=
  ∃ todo rest, s.threads[i]? = some (todo ++ .closeConn :: rest) ∧
    ∀ r ∈ refs, s.Downed r ∨ .sect r (.setReset .peerGone) ∈ todo

theorem Downed.step (hd : s.Downed r) (h : Reaches Session.step ok (new cfg) s)
    (hs : s.step l = some s') : s'.Downed r := by
  obtain ⟨st, hst, hr⟩ := hd
  obtain ⟨st', hst', hv⟩ := (moves_of_step hs).view (reaches_table h) (reaches_serving h) hst
  refine ⟨st', hst', ?_⟩
  rcases hv with hv | ⟨a, hv, -⟩
  · exact (congrArg (fun v => v.st.reset) hv).trans hr
  · rcases hv.fires with ⟨heq, -⟩ | ⟨x, o, -, -, hf, heq, -⟩
    · exact (congrArg Stream.reset heq).trans hr
    · exact (congrArg Stream.reset heq).trans (hf.reset hr)

/-- A goroutine that has something to do does its next step, or stays where it is. -/
theorem Moves.thread (hm : Moves s l s') {ts : List Task} (hts : s.threads[i]? = some ts)
    (hne : ts ≠ []) :
    s'.threads[i]? = some ts ∨ ∃ task rest n, ts = task :: rest ∧ Acts s task n ∧
      s'.heap = n.sess.heap ∧ s'.threads[i]? = some (n.push ++ rest) := by
  have hi := (List.getElem?_eq_some_iff.mp hts).1
  have hserve {ts' : List Task} (h₀ : s.threads[0]? = some []) :
      (s.threads.set 0 ts')[i]? = some ts := by
    have hne0 : 0 ≠ i := by
      rintro rfl
      exact hne (Option.some.inj (hts.symm.trans h₀))
    rw [List.getElem?_set_ne hne0, hts]
  cases hm with
  | @run j c task rest n ht ha =>
    by_cases hj : j = i
    · subst hj
      obtain rfl := Option.some.inj (hts.symm.trans ht)
      exact .inr ⟨_, _, _, rfl, ha, rfl, advance_getElem?_self hi⟩
    · exact .inl ((advance_getElem?_ne hi hj).trans hts)
  | callOn hs h => exact .inl ((List.getElem?_append_left hi).trans hts)
  | callOpen => exact .inl ((List.getElem?_append_left hi).trans hts)
  | callClose => exact .inl ((List.getElem?_append_left hi).trans hts)
  | recv h₀ hs => exact .inl (hserve h₀)
  | readError h₀ hs => exact .inl (hserve h₀)
  | connLost => exact .inl hts

/-- `fail` resets the stream. -/
theorem Acts.downs {cause : Cause} (ha : Acts s (.sect r (.setReset cause)) n)
    (hheap : s'.heap = n.sess.heap) : s'.Downed r := by
  cases ha with
  | @sect _ _ st o hst hf ho =>
    have hlt := (List.getElem?_eq_some_iff.mp hst).1
    refine ⟨o.st, by simp [hheap, hlt], ?_⟩
    cases hf with
    | reset_again hr => exact hr
    | reset_set hr => rfl
    | ignored h => cases h
    | refused h => cases h

/-- **A step of `fail`**: it goes on, or everything it took is reset. -/
theorem Failing.step (hf : s.Failing i refs) (h : Reaches Session.step ok (new cfg) s)
    (hs : s.step l = some s') : s'.Failing i refs ∨ ∀ r ∈ refs, s'.Downed r := by
  obtain ⟨todo, rest, ht, hrefs⟩ := hf
  have hdown {r : Ref} (hd : s.Downed r) : s'.Downed r := hd.step h hs
  rcases (moves_of_step hs).thread ht (by simp) with ht' | ⟨task, rest', n, heq, ha, hheap, ht'⟩
  · exact .inl ⟨todo, rest, ht', fun r hr => (hrefs r hr).imp_left hdown⟩
  · cases todo with
    | nil => exact .inr fun r hr => hdown ((hrefs r hr).resolve_right (by simp))
    | cons t todo =>
      obtain ⟨rfl, rfl⟩ := List.cons.inj heq
      refine .inl ⟨n.push ++ todo, rest, by simpa using ht', fun r hr => ?_⟩
      rcases hrefs r hr with hd | hm
      · exact .inl (hdown hd)
      · rcases List.mem_cons.mp hm with rfl | hm
        · exact .inl (ha.downs hheap)
        · exact .inr (List.mem_append_right _ hm)

/-- **`fail` has completed** when the connection is no longer about to be closed: what it took from
the table is reset. -/
theorem downed_of_fail (h : Reaches step ok (new cfg) s) (hc : s.closed = false)
    (hok : ok s l) (hs : s.step l = some s') (hc' : s'.closed = true) (ht : Reaches step ok s' t)
    (hdone : .closeConn ∉ pending t.threads) : ∀ p ∈ s.streams, t.Downed p.2 := by
  have h' := h.tail hok hs
  obtain ⟨i, hf⟩ : ∃ i, s'.Failing i (s.streams.map Prod.snd) := by
    cases moves_of_step hs with
    | @run i c task rest n hi ha =>
      obtain ⟨-, refs, hperm, hpush⟩ := ha.closes hc hc'
      have hlt := (List.getElem?_eq_some_iff.mp hi).1
      refine ⟨i, .clearBuffered :: refs.map fun r => .sect r (.setReset .peerGone), rest, ?_,
        fun r hr => .inr ?_⟩
      · rw [advance_getElem?_self hlt, hpush]
        simp
      · exact List.mem_cons_of_mem _ (List.mem_map_of_mem (hperm.mem_iff.mpr hr))
    | _ => simp [hc] at hc'
  have hinv : t.Failing i (s.streams.map Prod.snd) ∨ ∀ r ∈ s.streams.map Prod.snd, t.Downed r := by
    refine ht.invariant (I := fun t => t.Failing i (s.streams.map Prod.snd) ∨
      ∀ r ∈ s.streams.map Prod.snd, t.Downed r) (.inl hf) fun t u l hr _ hs ih => ?_
    rcases ih with hf | hd
    · exact hf.step (h'.trans hr) hs
    · exact .inr fun r hm => (hd r hm).step (h'.trans hr) hs
  rcases hinv with ⟨todo, rest, hi, -⟩ | hd
  · -- the goroutine has still to close the connection
    refine absurd
      (Multiset.mem_coe.mpr (List.mem_flatten.mpr ⟨_, List.mem_of_getElem? hi, ?_⟩)) hdone
    simp
  · exact fun p hp => hd p.2 (List.mem_map_of_mem hp)

/-- **The stream table and the ids, over the life of a session.** In every state of every run the
table holds at most `AppMaxStreams` streams, each under its own id, and no id twice. `nextID` stays
in its range; the ids that `Open` hands out are distinct over the whole connection, have a non-zero
low part and the initiator bit of this side, and are never those of streams of the peer. The table
of a closed session is empty for ever; and once the `fail` that closed it has completed, every
stream it took from the table is reset, with an error. -/
theorem table_lifetime (h : Reachable cfg s) :
    (s.streams.length ≤ appMaxStreams ∧ (s.streams.map Prod.fst).Nodup ∧
      ∀ id r, (id, r) ∈ s.streams → ∃ st, s.heap[r]? = some st ∧ st.id = id) ∧
    s.nextID ≤ 0x7FFFFFFF ∧
    (s.openedIDs.Nodup ∧ ∀ st ∈ s.heap, st.inbound = false →
      st.id &&& 0x7FFFFFFF ≠ 0 ∧ st.id &&& 0x80000000 = cfg.role.bit ∧
        ∀ st' ∈ s.heap, st'.inbound = true → st'.id ≠ st.id) ∧
    (s.closed = true → ∀ t, Reaches step Always s t → t.closed = true ∧ t.streams = []) ∧
    ∀ l s' t, s.closed = false → s.step l = some s' → s'.closed = true →
      Reaches step Always s' t → .closeConn ∉ pending t.threads →
      ∀ p ∈ s.streams, ∃ st, t.heap[p.2]? = some st ∧ st.reset = true ∧ st.resetErr ≠ none := by
  have htab := reaches_table h
  refine ⟨⟨htab.quota, htab.keys, fun id r hm => ?_⟩, htab.nextID_le,
    ⟨htab.openedIDs_nodup, fun st hm hi => ?_⟩, fun hc t ht => ?_, ?_⟩
  · obtain ⟨b, hb⟩ := htab.ids _ hm
    rw [names_getElem?] at hb
    obtain ⟨st, hst, hname⟩ := Option.map_eq_some_iff.mp hb
    exact ⟨st, hst, congrArg Prod.fst hname⟩
  · rw [← reaches_cfg h]
    exact htab.id_of_outbound hm hi
  · exact ht.invariant (I := fun t => t.closed = true ∧ t.streams = []) ⟨hc, emptied h hc⟩
      fun _ _ _ _ _ hs ih => (moves_of_step hs).emptied ih
  · intro l s' t hc hs hc' ht hdone p hp
    obtain ⟨st, hst, hr⟩ := downed_of_fail h hc trivial hs hc' ht hdone p hp
    exact ⟨st, hst, hr, resetErr_ne_none ((Reaches.tail h trivial hs).trans ht) hst hr⟩

/-- The connection is lost while a stream is being opened. -/
theorem table_lifetime_lost :
    ∃ s s' t, Reachable { role := .guest } s ∧ s.openedIDs = [0x80000001] ∧ s.openedIDs.Nodup ∧
      s.closed = false ∧ s.step (.run 0 .go) = some s' ∧ s'.closed = true ∧
      Reaches step Always s' t ∧ .closeConn ∉ pending t.threads ∧
      ∃ st, t.heap[0]? = some st ∧ st.reset = true ∧ st.resetErr ≠ none := by
  obtain ⟨s, hs, hp⟩ := exists_reaches_of_run step Always (new { role := .guest })
    (fun s => s.openedIDs == [0x80000001] && s.streams == [(0x80000001, 0)] && !s.closed &&
      (s.step (.run 0 .go)).any fun s' => s'.closed &&
        (run step Always (List.replicate 8 (.run 0 .go)) s').any fun t =>
          !t.threads.flatten.contains .closeConn)
    [.call (.open (text "svc") []), .run 1 .go, .readError] (by decide)
  simp only [Bool.and_eq_true, beq_iff_eq, Bool.not_eq_true', Option.any_eq_true] at hp
  obtain ⟨⟨⟨hids, htab⟩, hc⟩, s', hs', hc', t, ht, hdone⟩ := hp
  have hrun : Reaches step Always s' t := reaches_of_run ht
  have hend : .closeConn ∉ pending t.threads := by simpa [pending] using hdone
  obtain ⟨-, -, ⟨hnodup, -⟩, -, hfail⟩ := table_lifetime hs
  exact ⟨s, s', t, hs, hids, hnodup, hc, hs', hc', hrun, hend,
    hfail _ s' t hc hs' hc' hrun hend (0x80000001, 0) (by simp [htab])⟩

end Session

end Mvcp.App
