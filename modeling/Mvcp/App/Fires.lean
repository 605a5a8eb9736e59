import Mvcp.App.Stream

/-!
# What a critical section can do

The transition table of a stream: each constructor is one branch of one critical section, with
the guards under which the source takes it. Every property of a stream along a run is proved
from this table; the definitions of the critical sections are opened only here.

## Main definitions

* `Stream.Fires r st x o`: the critical section `x` of stream `r` in the state `st` may do `o`

## Main results

* `Stream.fires_of_enter`: a critical section does what the table says
-/

namespace Mvcp.App

namespace Stream

/-- The violations for which a frame of the peer resets the stream, with the state they are
found in. -/
inductive Refuses (st : Stream) : Section → Cause → Prop
  | dataTooLarge {data : Bytes} (h : appMaxDataBytes < data.length) :
      Refuses st (.deliver data) .dataTooLarge
  | dataBeforeAccept {data : Bytes} (h : st.accepting = true ∨ st.opening = true) :
      Refuses st (.deliver data) .dataBeforeAccept
  | dataAfterClose {data : Bytes} (ha : st.accepting = false) (ho : st.opening = false)
      (h : st.remoteClosed = true ∨ st.reset = true) : Refuses st (.deliver data) .dataAfterClose
  | creditExceeded {data : Bytes} (ha : st.accepting = false) (ho : st.opening = false)
      (hc : st.remoteClosed = false) (hr : st.reset = false) (h : st.rcvWindow < data.length) :
      Refuses st (.deliver data) .creditExceeded
  | deliverQuota {data : Bytes} : Refuses st (.deliver data) .deliverQuota
  | creditCap {n : ℕ} (hr : st.reset = false) (h : appMaxCredit < add32 st.sndCredit n) :
      Refuses st (.addCredit n) .creditCap
  | acceptMetaTooLarge {metadata : Bytes} {grant : ℕ} (h : appMaxMetaBytes < metadata.length) :
      Refuses st (.handleAccept metadata grant) .acceptMetaTooLarge
  | invalidGrant {metadata : Bytes} {grant : ℕ} (h : grant = 0 ∨ appMaxCredit < grant) :
      Refuses st (.handleAccept metadata grant) .invalidGrant

/-- The sections of the peer's frames that leave the stream alone. -/
inductive Ignores (st : Stream) : Section → Prop
  | deliver : Ignores st (.deliver [])
  | addCredit {n : ℕ} (h : n = 0 ∨ st.reset = true) : Ignores st (.addCredit n)
  | remoteClose (h : st.reset = true ∨ st.remoteClosed = true) : Ignores st .remoteClose
  | handleAccept {metadata : Bytes} {grant : ℕ} (h : st.opening = false) :
      Ignores st (.handleAccept metadata grant)
  | handleReject {code : UInt16} {message : Bytes} (h : st.opening = false) :
      Ignores st (.handleReject code message)

/-- **The transition table of a stream.** -/
inductive Fires (r : Ref) (st : Stream) : Section → Outcome → Prop
  | write_zero {k : Caller} : Fires r st (.write [] k) { st, push := k.wrote r none }
  | write_failed {p : Bytes} {k : Caller} {err : StreamError}
      (h : st.reset = true ∨ st.localClosed = true ∨ st.closeAfterFlush = true) :
      Fires r st (.write p k)
        { st, push := k.wrote r (some err), log := [.writeFailed r err] }
  | write_overflow {p : Bytes} {k : Caller} {cause : Cause} (hr : st.reset = false)
      (hc : cause = .sendOverflow ∨ cause = .writeQuota) :
      Fires r st (.write p k)
        { st, push := .emit r (.reset cause) :: k.wrote r (some (.reset (some cause))),
              log := [.writeFailed r (.reset (some cause))] }
  | write_queued {p : Bytes} {k : Caller} (hp : p ≠ []) (hr : st.reset = false)
      (hl : st.localClosed = false) (hc : st.closeAfterFlush = false)
      (hq : st.sendBytes + p.length ≤ appMaxSendQueue) :
      Fires r st (.write p k)
        { st := st.enqueue p, push := k.wrote r none, log := [.wrote r p], reserve := p.length }
  | read_zero {k : Caller} : Fires r st (.read 0 k) { st }
  | read_failed {n : ℕ} {k : Caller} (hr : st.reset = true) :
      Fires r st (.read n k)
        { st, push := k.readFailed r st.resetError, log := [.readFailed r st.resetError] }
  | read_data {n : ℕ} {k : Caller} {c : Bytes} {q : List Bytes} (hn : 0 < n)
      (hr : st.reset = false) (hq : st.inQ = c :: q) :
      Fires r st (.read n k)
        { st := st.consume n c q,
          push := [.releaseBuffer (min n c.length), .emit r (.credit (min n c.length))] ++
            k.read r (c.take n),
          log := [.read r (c.take n)] }
  | read_eof {n : ℕ} {k : Caller} (hr : st.reset = false) (hq : st.inQ = [])
      (hc : st.remoteClosed = true) :
      Fires r st (.read n k)
        { st, push := .sect r .maybeFinish :: k.readFailed r .eof, log := [.readFailed r .eof] }
  | read_park {n : ℕ} {k : Caller} (hr : st.reset = false) (hq : st.inQ = [])
      (hc : st.remoteClosed = false) :
      Fires r st (.read n k)
        { st := { st with cond := st.cond.enqueue },
          push := [.sect r (.readWait n k st.cond.wait)] }
  | read_woken {n : ℕ} {k : Caller} {ticket : ℕ} (h : st.cond.woken ticket = true) :
      Fires r st (.readWait n k ticket) { st, push := [.sect r (.read n k)] }
  | closeWrite_again (h : st.reset = true ∨ st.localClosed = true ∨ st.closeAfterFlush = true) :
      Fires r st .closeWrite { st }
  | closeWrite_now (hr : st.reset = false) (hl : st.localClosed = false)
      (hc : st.closeAfterFlush = false) (hq : st.sendQ = []) :
      Fires r st .closeWrite
        { st := { st with closeAfterFlush := true, localClosed := true }, push := [.emit r .close] }
  | closeWrite_later (hr : st.reset = false) (hl : st.localClosed = false)
      (hc : st.closeAfterFlush = false) (hq : st.sendQ ≠ []) :
      Fires r st .closeWrite
        { st := { st with closeAfterFlush := true, cond := st.cond.broadcast } }
  | loop_exit (hr : st.reset = true) : Fires r st .writeLoop { st }
  | loop_data {c : Bytes} {q : List Bytes} (hr : st.reset = false) (hq : st.sendQ = c :: q)
      (hc : 0 < st.sndCredit) :
      Fires r st .writeLoop
        { st := st.dequeue c q,
          push := [.releaseBuffer (st.quantum c), .emit r (.data (c.take (st.quantum c)))] }
  | loop_close (hr : st.reset = false) (hq : st.sendQ = []) (hc : st.closeAfterFlush = true) :
      Fires r st .writeLoop { st := { st with localClosed := true }, push := [.emit r .close] }
  | loop_park (hr : st.reset = false)
      (h : st.sendQ ≠ [] ∧ st.sndCredit = 0 ∨ st.sendQ = [] ∧ st.closeAfterFlush = false) :
      Fires r st .writeLoop (st.park r)
  | loop_woken {ticket : ℕ} (h : st.cond.woken ticket = true) :
      Fires r st (.writeLoopWait ticket) { st, push := [.sect r .writeLoop] }
  | ignored {x : Section} (h : st.Ignores x) : Fires r st x { st }
  | refused {x : Section} {cause : Cause} (h : st.Refuses x cause) :
      Fires r st x { st, push := [.emit r (.reset cause)] }
  | deliver_accepted {data : Bytes} (hd : data ≠ []) (hlen : data.length ≤ appMaxDataBytes)
      (ha : st.accepting = false) (ho : st.opening = false) (hc : st.remoteClosed = false)
      (hr : st.reset = false) (hw : data.length ≤ st.rcvWindow) :
      Fires r st (.deliver data) { st := st.accept data, reserve := data.length }
  | credit_added {n : ℕ} (hr : st.reset = false) (h : add32 st.sndCredit n ≤ appMaxCredit) :
      Fires r st (.addCredit n)
        { st := { st with sndCredit := add32 st.sndCredit n, cond := st.cond.broadcast } }
  | remote_closed (hr : st.reset = false) (hc : st.remoteClosed = false) :
      Fires r st .remoteClose
        { st := { st with remoteClosed := true, cond := st.cond.broadcast },
          push := [.sect r .maybeFinish] }
  | accepted {metadata : Bytes} {grant : ℕ} (hm : metadata.length ≤ appMaxMetaBytes)
      (hg : 0 < grant) (hg' : grant ≤ appMaxCredit) (ho : st.opening = true) :
      Fires r st (.handleAccept metadata grant)
        { st := { st with opening := false, sndCredit := grant, acceptMeta := metadata },
          push := [.sect r .closeReady] }
  | rejected {code : UInt16} {message : Bytes} (ho : st.opening = true) :
      Fires r st (.handleReject code message)
        { st := { st with opening := false, openErr := some ⟨code, message⟩ },
          push := [.detach r, .sect r .closeReady] }
  | closeReady : Fires r st .closeReady { st := { st with readyClosed := st.readyClosed + 1 } }
  | reset_again {cause : Cause} (hr : st.reset = true) :
      Fires r st (.setReset cause) { st, push := [.sect r .broadcast] }
  | reset_set {cause : Cause} {ready : ℕ} (hr : st.reset = false) :
      Fires r st (.setReset cause)
        { st := { st with reset := true, resetErr := some cause, opening := false,
                          readyClosed := ready },
          push := [.sect r .broadcast] }
  | broadcast :
      Fires r st .broadcast
        { st := { st with cond := st.cond.broadcast }, push := [.sect r .finish] }
  | maybeFinish_done (h : st.done = true) :
      Fires r st .maybeFinish { st, push := [.sect r .finish] }
  | maybeFinish_not (h : st.done = false) : Fires r st .maybeFinish { st }
  | finish_again (h : st.finished = true) : Fires r st .finish { st }
  | finish_now {log : List Event} (h : st.finished = false)
      (hlog : log = [] ∨ log = [.streamClosed r]) :
      Fires r st .finish
        { st := { st with finished := true }, push := [.detach r, .sect r .closeEndpoint], log }
  | detachBytes :
      Fires r st .detachBytes
        { st := { st with sendBytes := 0, inBytes := 0 },
          push := if 0 < st.sendBytes + st.inBytes then
            [.releaseBuffer (st.sendBytes + st.inBytes)] else [] }
  | closeEndpoint :
      Fires r st .closeEndpoint
        { st := { st with ep := none }, push := (st.ep.map Task.epClose).toList }
  | acceptWindow {e : EpRef} {metadata : Bytes} :
      Fires r st (.acceptWindow e metadata)
        { st := { st with accepting := false, sndCredit := appInitialWindow,
                          rcvWindow := appInitialWindow, cond := st.cond.broadcast },
          push := [.sect r .markOpened, .emit r (.accept e metadata)] }
  | attachEndpoint {e : EpRef} : Fires r st (.attachEndpoint e) { st := { st with ep := some e } }
  | markOpened_again (h : st.finished = true ∨ st.opened = true) : Fires r st .markOpened { st }
  | markOpened_now {shared : Bool} {log : List Event} (hf : st.finished = false)
      (ho : st.opened = false) (hs : st.shared = true → shared = true)
      (hlog : log = [] ∨ log = [.streamOpened r]) :
      Fires r st .markOpened { st := { st with opened := true, shared }, log }
  | openResult_failed {err : OpenError} (h : st.openErr ≠ none ∨ st.resetErr ≠ none)
      (herr : ∀ e, err = .reject e → st.openErr = some e) :
      Fires r st .openResult { st, push := [.openFail (some r) err] }
  | openResult_ok (he : st.openErr = none) (hr : st.resetErr = none) :
      Fires r st .openResult
        { st, push := [.startWriteLoop r, .sect r .markOpened, .sect r .openReturn] }
  | openReturn :
      Fires r st .openReturn { st := { st with shared := true }, log := [.openReturned r] }

variable {r : Ref} {observer : Bool} {buffered : ℕ} {st : Stream} {o : Outcome}

theorem fires_write (p : Bytes) (k : Caller) :
    Fires r st (.write p k) (st.write r buffered p k) := by
  unfold Stream.write
  split_ifs with hp hr hc hq hb
  · subst hp; exact .write_zero
  · exact .write_failed (.inl hr)
  · exact .write_failed (.inr (by simpa using hc))
  · exact .write_overflow (by simpa using hr) (.inl rfl)
  · exact .write_overflow (by simpa using hr) (.inr rfl)
  · simp only [Bool.or_eq_true, not_or, Bool.not_eq_true] at hr hc
    exact .write_queued hp hr hc.1 hc.2 (Nat.not_lt.mp hq)

theorem fires_read (n : ℕ) (k : Caller) : Fires r st (.read n k) (st.read r n k) := by
  unfold Stream.read
  split
  · next hn => subst hn; exact .read_zero
  split
  · next hr => exact .read_failed hr
  next hn hr =>
  have hr' : st.reset = false := by simpa using hr
  split
  · next c q hq => exact .read_data (Nat.pos_of_ne_zero hn) hr' hq
  next hq =>
  split
  · next hc => exact .read_eof hr' hq hc
  · next hc => exact .read_park hr' hq (by simpa using hc)

theorem fires_closeWrite : Fires r st .closeWrite (st.closeWrite r) := by
  unfold Stream.closeWrite
  split_ifs with hr hc hq
  · exact .closeWrite_again (.inl hr)
  · exact .closeWrite_again (.inr (by simpa using hc))
  · simp only [Bool.or_eq_true, not_or, Bool.not_eq_true] at hr hc
    exact .closeWrite_now hr hc.1 hc.2 hq
  · simp only [Bool.or_eq_true, not_or, Bool.not_eq_true] at hr hc
    exact .closeWrite_later hr hc.1 hc.2 hq

theorem fires_writeLoop : Fires r st .writeLoop (st.writeLoop r) := by
  unfold Stream.writeLoop
  split
  · next hr => exact .loop_exit hr
  next hr =>
  have hr' : st.reset = false := by simpa using hr
  split
  · next c q hq =>
    split
    · next hc => exact .loop_data hr' hq hc
    · next hc => exact .loop_park hr' (.inl ⟨by simp [hq], by omega⟩)
  · next hq =>
    split
    · next hc => exact .loop_close hr' hq hc
    · next hc => exact .loop_park hr' (.inr ⟨hq, by simpa using hc⟩)

theorem fires_deliver (data : Bytes) :
    Fires r st (.deliver data) (st.deliver r buffered data) := by
  unfold Stream.deliver
  split_ifs with hd hlen ha hc hw hb
  · subst hd; exact .ignored .deliver
  · exact .refused (.dataTooLarge hlen)
  · exact .refused (.dataBeforeAccept (by simpa using ha))
  all_goals simp only [Bool.or_eq_true, not_or, Bool.not_eq_true] at ha
  · exact .refused (.dataAfterClose ha.1 ha.2 (by simpa using hc))
  all_goals simp only [Bool.or_eq_true, not_or, Bool.not_eq_true] at hc
  · exact .refused (.creditExceeded ha.1 ha.2 hc.1 hc.2 hw)
  · exact .refused .deliverQuota
  · exact .deliver_accepted hd (Nat.not_lt.mp hlen) ha.1 ha.2 hc.1 hc.2 (Nat.not_lt.mp hw)

theorem fires_addCredit (n : ℕ) : Fires r st (.addCredit n) (st.addCredit r n) := by
  unfold Stream.addCredit
  split_ifs with hn hr hc
  · exact .ignored (.addCredit (.inl hn))
  · exact .ignored (.addCredit (.inr hr))
  · exact .refused (.creditCap (by simpa using hr) hc)
  · exact .credit_added (by simpa using hr) (Nat.not_lt.mp hc)

theorem fires_remoteClose : Fires r st .remoteClose (st.remoteClose r) := by
  unfold Stream.remoteClose
  split_ifs with h
  · exact .ignored (.remoteClose (by simpa using h))
  · simp only [Bool.or_eq_true, not_or, Bool.not_eq_true] at h
    exact .remote_closed h.1 h.2

theorem fires_handleAccept (metadata : Bytes) (grant : ℕ) :
    Fires r st (.handleAccept metadata grant) (st.handleAccept r metadata grant) := by
  unfold Stream.handleAccept
  split_ifs with hm hg ho
  · exact .refused (.acceptMetaTooLarge hm)
  · exact .refused (.invalidGrant hg)
  · exact .accepted (Nat.not_lt.mp hm) (by omega) (by omega) ho
  · exact .ignored (.handleAccept (by simpa using ho))

theorem fires_setReset (cause : Cause) : Fires r st (.setReset cause) (st.setReset r cause) := by
  unfold Stream.setReset
  split_ifs with hr ho
  · exact .reset_again hr
  · exact .reset_set (by simpa using hr)
  · exact .reset_set (by simpa using hr)

theorem fires_markOpened : Fires r st .markOpened (st.markOpened r observer) := by
  unfold Stream.markOpened
  split_ifs with h ho
  · exact .markOpened_again (by simpa using h)
  all_goals simp only [Bool.or_eq_true, not_or, Bool.not_eq_true] at h
  · exact .markOpened_now h.1 h.2 (by simp +contextual) (.inr rfl)
  · exact .markOpened_now h.1 h.2 (by simp +contextual) (.inl rfl)

theorem fires_finish : Fires r st .finish (st.finish r observer) := by
  unfold Stream.finish
  split_ifs with h ho
  · exact .finish_again h
  · exact .finish_now (by simpa using h) (.inr rfl)
  · exact .finish_now (by simpa using h) (.inl rfl)

theorem fires_openResult : Fires r st .openResult (st.openResult r) := by
  unfold Stream.openResult
  split
  · next e he => exact .openResult_failed (.inl (by simp [he])) fun e' h => by cases h; exact he
  · next c he hr => exact .openResult_failed (.inr (by simp [hr])) (by simp)
  · next he hr => exact .openResult_ok he hr

/-- **A critical section does what the table says.** -/
theorem fires_of_enter {x : Section} (h : st.enter r observer buffered x = some o) :
    Fires r st x o := by
  cases x with
  | readWait n k ticket =>
    simp only [Stream.enter] at h
    split_ifs at h with hw
    cases h
    exact .read_woken hw
  | writeLoopWait ticket =>
    simp only [Stream.enter] at h
    split_ifs at h with hw
    cases h
    exact .loop_woken hw
  | handleReject code message =>
    cases h
    unfold Stream.handleReject
    split_ifs with ho
    · exact .rejected ho
    · exact .ignored (.handleReject (by simpa using ho))
  | maybeFinish =>
    cases h
    unfold Stream.maybeFinish
    split_ifs with hd
    · exact .maybeFinish_done hd
    · exact .maybeFinish_not (by simpa using hd)
  | detachBytes => cases h; exact .detachBytes
  | closeEndpoint => cases h; exact .closeEndpoint
  | write p k => cases h; exact fires_write p k
  | read n k => cases h; exact fires_read n k
  | closeWrite => cases h; exact fires_closeWrite
  | writeLoop => cases h; exact fires_writeLoop
  | deliver data => cases h; exact fires_deliver data
  | addCredit n => cases h; exact fires_addCredit n
  | remoteClose => cases h; exact fires_remoteClose
  | handleAccept metadata grant => cases h; exact fires_handleAccept metadata grant
  | closeReady => cases h; exact .closeReady
  | setReset cause => cases h; exact fires_setReset cause
  | broadcast => cases h; exact .broadcast
  | finish => cases h; exact fires_finish
  | acceptWindow e metadata => cases h; exact .acceptWindow
  | attachEndpoint e => cases h; exact .attachEndpoint
  | markOpened => cases h; exact fires_markOpened
  | openResult => cases h; exact fires_openResult
  | openReturn => cases h; exact .openReturn

end Stream

end Mvcp.App
