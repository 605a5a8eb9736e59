import Mvcp.Messages.Registry
import Mvcp.Vpp.Messages

/-!
# The message catalogue

What holds of every binary message type, in the registry and on the console. Decoding undoes
encoding, with two policies for what follows a message: the types with fixed fields ignore it, the
app channel refuses it. A message that is cut short is refused, but for the tail of `AttachMsg` that
older hosts do not send. And a call that fails leaves its receiver as it was, but for
`ListToolsResult`, which gives up the entries it had when it has read a count.

## Main definitions

* `Yields`, `Refuses`: both decoders of a type take a body for a message, or neither takes it
* `AppMessage.Fits`: the lengths the encoder of an app message is made for

## Main results

* `decode_undoes_encode`: decoding undoes encoding, over the whole catalogue
* `app_canonical`: the bodies of the app channel have one encoding
* `receivers_intact_iff`: which failed calls leave every receiver as it was
-/

namespace Mvcp

/-- The strings fit their prefixes, the metadata and the data are within the limits. -/
def AppMessage.Fits (m : AppMessage) : Prop := m.StringsFit ∧ m.Bounded

theorem AppMessage.Fits.sized {m : AppMessage} (h : m.Fits) : m.Sized := by
  obtain ⟨hs, hb⟩ := h
  cases m with
  | appOpen id service metadata =>
    have hm : metadata.length ≤ appMaxMetaBytes := hb
    rw [appMaxMetaBytes_eq] at hm
    exact ⟨hs, by omega⟩
  | appAccept id metadata grant =>
    have hm : metadata.length ≤ appMaxMetaBytes := hb
    rw [appMaxMetaBytes_eq] at hm
    show metadata.length < 2 ^ 32
    omega
  | appData id data =>
    have hd : data.length ≤ appMaxDataBytes := hb
    rw [appMaxDataBytes_eq] at hd
    show data.length < 2 ^ 32
    omega
  | appReject id code message => exact hs
  | appReset id code message => exact hs
  | appCredit => trivial
  | appClose => trivial

namespace Messages

open Library (Decoder Method Agrees Reads Computes Fills Intact)

section

variable (json : JsonDecoder)

/-! ## Decoding undoes encoding -/

/-- Both decoders take the body for the message, whatever the receiver held. -/
structure Yields (k : Kind) (body : Bytes) (m : (k.type json).Msg) : Prop where
  call : ∀ s, (k.type json).unmarshalBinary.call body s = (.ok (), m)
  registered : decodeMessageBody json k.typ body = .ok ⟨k, m⟩

/-- Neither decoder takes the body. -/
structure Refuses (k : Kind) (body : Bytes) : Prop where
  call : ∀ s, ∃ e, ((k.type json).unmarshalBinary.call body s).1 = .error e
  registered : ∃ e, decodeMessageBody json k.typ body = .error e

/-- What both decoders take is what the method takes, where they have the same meaning. -/
theorem yields_of_call {k : Kind} {body : Bytes} {m : (k.type json).Msg} (hk : k ≠ .heartbeat)
    (h : ∀ s, (k.type json).unmarshalBinary.call body s = (.ok (), m)) : Yields json k body m := by
  have hsame := sameMeaning_of_ne json hk body
  obtain ⟨msg, hmsg⟩ := hsame.succeeds.mpr ⟨m, h _⟩
  exact ⟨h, hmsg.trans (congrArg _ (hsame.equal msg m hmsg (h _)))⟩

theorem refuses_of_call {k : Kind} {body : Bytes} (hk : k ≠ .heartbeat)
    (h : ∀ s, ∃ e, ((k.type json).unmarshalBinary.call body s).1 = .error e) :
    Refuses json k body := by
  refine ⟨h, ?_⟩
  cases hd : decodeMessageBody json k.typ body with
  | error e => exact ⟨e, rfl⟩
  | ok msg =>
    obtain ⟨m, hm⟩ := (sameMeaning_of_ne json hk body).succeeds.mp ⟨msg, hd⟩
    obtain ⟨e, he⟩ := h (k.type json).zero
    rw [hm] at he
    simp at he

/-- A message of a type with fixed fields is taken back, whatever follows it, and refused when it
is cut short. -/
theorem record_undoes {k : RecordKind} {m : k.format.Msg} (h : k.format.Fits m) :
    (∀ t, Yields json (.record k) (k.format.marshalBinary m ++ t) m) ∧
      ∀ c t, k.format.marshalBinary m = c ++ t → t ≠ [] → Refuses json (.record k) c := by
  have hfills : Fills k.format.unmarshalBinary (k.format.marshalBinary m) m :=
    .of_agrees k.format.agrees (k.format.reads h)
  constructor
  · intro t
    exact yields_of_call json (by simp) (hfills.call_append t)
  · intro c t hct ht
    exact refuses_of_call json (by simp) (hfills.call_cut hct ht)

/-- A message of the app channel is taken back, and refused with anything behind it or when it is
cut short. -/
theorem app_undoes {k : AppKind} {m : k.format.Msg} (h : (k.format.toMessage m).Fits) :
    ∃ b, (k.format.toMessage m).marshalBinary = .ok b ∧ Yields json (.app k) b m ∧
      (∀ t, t ≠ [] → Refuses json (.app k) (b ++ t)) ∧
      ∀ c t, b = c ++ t → t ≠ [] → Refuses json (.app k) c := by
  have hfun := k.format.unmarshal_toMessage m
  -- what the function of the body refuses, the method does
  have hrefuse {c : Bytes} (hc : ∃ e, (k.format.toMessage m).unmarshal c = .error e) :
      Refuses json (.app k) c := by
    obtain ⟨e, he⟩ := hc
    rw [hfun] at he
    exact refuses_of_call json (by simp) fun s =>
      ⟨_, congrArg Prod.fst (k.format.computes.call_error he s)⟩
  refine ⟨_, AppMessage.marshalBinary_of_bounded h.2, ?_, ?_, ?_⟩
  · have hself := AppMessage.unmarshal_eq_ok.mpr ⟨rfl, h.sized, rfl⟩
    rw [hfun] at hself
    exact yields_of_call json (by simp) (k.format.computes.call_ok k.format.injective hself)
  · intro t ht
    refine hrefuse ?_
    rw [AppMessage.unmarshal_layout_append h.sized]
    exact ⟨_, if_pos (by simpa using ht)⟩
  · intro c t hct ht
    exact hrefuse (AppMessage.unmarshal_cut h.sized hct ht)

/-- **Decoding undoes encoding over the whole catalogue.** The types with fixed fields take a
message back whatever follows it; those of the app channel refuse what has anything behind it; those
of the console ignore it. A message that is cut short is refused, but for an `AttachMsg` that lost
only its tail, which is decoded without a session id. -/
theorem decode_undoes_encode :
    (∀ (k : RecordKind) (m : k.format.Msg), k.format.Fits m →
      (∀ t, Yields json (.record k) (k.format.marshalBinary m ++ t) m) ∧
        ∀ c t, k.format.marshalBinary m = c ++ t → t ≠ [] → Refuses json (.record k) c) ∧
    (∀ (k : AppKind) (m : k.format.Msg), (k.format.toMessage m).Fits →
      ∃ b, (k.format.toMessage m).marshalBinary = .ok b ∧ Yields json (.app k) b m ∧
        (∀ t, t ≠ [] → Refuses json (.app k) (b ++ t)) ∧
        ∀ c t, b = c ++ t → t ≠ [] → Refuses json (.app k) c) ∧
    (∀ (k : Vpp.Kind) (m : k.format.Msg), k.format.Fits m →
      (∀ t s, k.format.decode.call (k.format.encode m ++ t) s = (.ok (), m)) ∧
        (k ≠ .attach → ∀ c t, k.format.encode m = c ++ t → t ≠ [] →
          ∀ s, ∃ e, (k.format.decode.call c s).1 = .error e)) ∧
    ∀ m : Vpp.AttachMsg, m.Fits → ∀ c t, m.encode = c ++ t → t ≠ [] → ∀ s,
      if t.length ≤ 4 then Vpp.AttachMsg.decode.call c s = (.ok (), { m with sessionID := 0 })
      else ∃ e, (Vpp.AttachMsg.decode.call c s).1 = .error e := by
  refine ⟨fun k m h => record_undoes json h, fun k m h => app_undoes json h, ?_, ?_⟩
  · intro k m h
    exact ⟨k.format.decode_append h, fun hk c t hct ht s => Vpp.Kind.decode_cut hk hct ht s⟩
  · intro m h c t hct ht s
    exact Vpp.AttachMsg.decode_cut h hct ht s

/-! ## One encoding -/

/-- What the method of a type of the app channel takes for a message: the fields of the message, in
wire order and behind the right prefixes, and nothing more. -/
theorem AppFormat.call_eq_ok (F : AppFormat) {b : Bytes} {s m : F.Msg} :
    F.unmarshalBinary.call b s = (.ok (), m) ↔
      (F.toMessage m).Sized ∧ b = (F.toMessage m).layout := by
  have hfun : F.decoder b = .ok (F.toMessage m) ↔
      (F.toMessage m).Sized ∧ b = (F.toMessage m).layout := by
    rw [← F.unmarshal_toMessage m, AppMessage.unmarshal_eq_ok]
    exact and_iff_right rfl
  rw [← hfun]
  constructor
  · intro hc
    cases hd : F.decoder b with
    | error e =>
      rw [F.computes.call_error hd s] at hc
      simp at hc
    | ok msg =>
      -- the method left the message that the function gives in the receiver
      rcases F.computes b s with ⟨v, r, hok, hm⟩ | ⟨e, herr, -⟩
      · rw [F.computes.call_ok F.injective hok s] at hc
        rw [← (Prod.mk.inj hc).2, ← hok, hd]
      · simp [hd] at herr
  · intro hd
    exact F.computes.call_ok F.injective hd s

/-- **The bodies of the app channel have one encoding**: for each of its types, the method accepts
exactly the fields of a message behind the right prefixes with nothing after them, and encoding the
message that it took gives the body back, byte for byte, or an error beyond the limits. -/
theorem app_canonical (k : AppKind) (b : Bytes) (s : k.format.Msg) :
    ((∃ m, k.format.unmarshalBinary.call b s = (.ok (), m)) ↔
      ∃ m, (k.format.toMessage m).Sized ∧ b = (k.format.toMessage m).layout) ∧
    ∀ m, k.format.unmarshalBinary.call b s = (.ok (), m) →
      ((k.format.toMessage m).Bounded → (k.format.toMessage m).marshalBinary = .ok b) ∧
      (¬ (k.format.toMessage m).Bounded →
        ∃ e, (k.format.toMessage m).marshalBinary = .error e) := by
  refine ⟨exists_congr fun m => k.format.call_eq_ok, ?_⟩
  intro m hc
  obtain ⟨-, rfl⟩ := k.format.call_eq_ok.mp hc
  exact ⟨AppMessage.marshalBinary_of_bounded, AppMessage.marshalBinary_of_not_bounded⟩

/-! ## Failed calls -/

/-- Every method but two assigns its receiver behind its last point of failure. -/
theorem Kind.intact {k : Kind} (hexec : k ≠ .exec) (hlist : k ≠ .record .listToolsResult) :
    Intact (k.type json).unmarshalBinary := by
  cases k with
  | exec => exact absurd rfl hexec
  | hello => exact Hello.computes.intact
  | heartbeat => exact HeartbeatMsg.mirrors.intact
  | app k => exact k.format.computes.intact
  | empty k =>
    -- there is no field to assign
    cases k <;> exact fun _ _ _ _ _ => rfl
  | record k =>
    cases k with
    | listToolsResult => exact absurd rfl hlist
    | status => exact StatusMsg.mirrors.intact
    | execStream => exact ExecStream.mirrors.intact
    | execResult => exact ExecResult.mirrors.intact
    | xferInit => exact XferInit.mirrors.intact
    | xferChunk => exact XferChunk.mirrors.intact
    | xferDone => exact XferDone.mirrors.intact
    | toolCall => exact ToolCall.mirrors.intact
    | toolResult => exact ToolResult.mirrors.intact
    | eventReady => exact EventReady.mirrors.intact
    | eventFileReceived => exact EventFileReceived.mirrors.intact
    | eventMount => exact EventMount.mirrors.intact
    | eventError => exact EventErrorMsg.mirrors.intact
    | eventLog => exact EventLog.mirrors.intact
    | eventInitFailed => exact EventInitFailed.mirrors.intact
    | started => exact StartedMsg.mirrors.intact
    | error => exact ErrorMsg.mirrors.intact

/-- Whether a list is decoded does not depend on the receiver. -/
theorem ListToolsResult.call_error {body : Bytes} {m₀ : ListToolsResult} {e : String}
    (h : (ListToolsResult.unmarshalBinary.call body m₀).1 = .error e) (m : ListToolsResult) :
    ∃ e', (ListToolsResult.unmarshalBinary.call body m).1 = .error e' := by
  rcases hc : ListToolsResult.unmarshalBinary.call body m with ⟨e' | _, v⟩
  · exact ⟨e', rfl⟩
  · have hv := (call_eq_ok_of_agrees ListToolsResult.agrees).mp hc
    rw [(call_eq_ok_of_agrees ListToolsResult.agrees).mpr hv] at h
    simp at h

/-- **Failed calls leave their receiver as it was**, for every binary type and every body on which
the call fails, except when a `ListToolsResult` has read its count. -/
theorem receivers_intact_iff :
    (∀ (k : Kind) (body : Bytes), k ≠ .exec →
      (∃ m e, ((k.type json).unmarshalBinary.call body m).1 = .error e) →
      ((∀ m e m', (k.type json).unmarshalBinary.call body m = (.error e, m') → m' = m) ↔
        (k = .record .listToolsResult → body.length < 2))) ∧
    ∀ (k : Vpp.Kind) (body : Bytes) m e m',
      k.format.decode.call body m = (.error e, m') → m' = m := by
  constructor
  · intro k body hexec hfail
    by_cases hlist : k = .record .listToolsResult
    · subst hlist
      obtain ⟨m₀, e₀, h₀⟩ := hfail
      rw [imp_iff_right rfl, ← ListToolsResult.intact_iff h₀]
      constructor
      · intro hkeep m
        obtain ⟨e, he⟩ := ListToolsResult.call_error h₀ m
        exact hkeep m e _ (Prod.ext he rfl)
      · intro hkeep m e m' hc
        exact (Prod.mk.inj hc).2.symm.trans (hkeep m)
    · exact iff_of_true (fun m e m' hc => (Kind.intact json hexec hlist).call hc)
        fun h => absurd h hlist
  · intro k body m e m' hc
    exact k.format.intact.call hc

/-- A list that says it has one tool and ends there: the tool that the receiver held is gone. -/
theorem listToolsResult_lost :
    ListToolsResult.unmarshalBinary.call [0, 1] ⟨[{ name := [97] }]⟩ =
      (.error "list_tools_result: read name: EOF", ⟨[{}]⟩) := by
  decide

end

end Messages

end Mvcp
