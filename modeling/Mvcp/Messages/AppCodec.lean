import Mvcp.Messages.App
import Mvcp.Messages.Records

/-!
# The bodies of the app channel

What the strict decoders of `messages/app.go` accept, described without them: a body is accepted
exactly when it is the fields of a message in wire order, each behind a prefix it fits, and nothing
more. So an encoded message is read back, and neither a longer nor a shorter body passes for it.

## Main definitions

* `AppMessage.layout`: the fields of a message in wire order
* `AppMessage.Sized`: the fields fit their length prefixes
* `AppMessage.Bounded`: the metadata and the data are within the limits of the encoder

## Main results

* `AppMessage.unmarshal_eq_ok`: what a decoder accepts
* `AppMessage.marshalBinary_of_bounded`, `AppMessage.marshalBinary_of_not_bounded`: what the encoder
  gives
* `AppMessage.unmarshal_layout_append`, `AppMessage.unmarshal_cut`: longer and shorter bodies are
  refused
-/

namespace Mvcp

/-! ## The steps of a strict decoder -/

theorem noTrailing_eq_ok {name : String} {r : Bytes} {m m' : AppMessage} :
    noTrailing name r m = .ok m' ↔ r = [] ∧ m = m' := by
  by_cases h : r = [] <;> simp [noTrailing, h]

theorem field_bind_eq_ok {α β : Type} {name : String} {r : Except ReadError (α × Bytes)}
    {k : α × Bytes → Except String β} {c : β} :
    (field name r >>= k) = .ok c ↔ ∃ a b, r = .ok (a, b) ∧ k (a, b) = .ok c := by
  cases r with
  | error e => simp [field, Except.mapError, bind, Except.bind]
  | ok p =>
    obtain ⟨a, b⟩ := p
    simp [field, Except.mapError, bind, Except.bind]

namespace AppMessage

/-- The fields of a message in wire order. -/
def layout : AppMessage → Bytes
  | appOpen id service metadata => writeUint32 id ++ (writeString service ++ writeBytes metadata)
  | appAccept id metadata grant => writeUint32 id ++ (writeBytes metadata ++ writeUint32 grant)
  | appReject id code message => writeUint32 id ++ (writeUint16 code ++ writeString message)
  | appData id data => writeUint32 id ++ writeBytes data
  | appCredit id bytes => writeUint32 id ++ writeUint32 bytes
  | appClose id => writeUint32 id
  | appReset id code message => writeUint32 id ++ (writeUint16 code ++ writeString message)

/-- The fields fit their length prefixes. -/
def Sized : AppMessage → Prop
  | appOpen _ service metadata => service.length < 2 ^ 16 ∧ metadata.length < 2 ^ 32
  | appAccept _ metadata _ => metadata.length < 2 ^ 32
  | appReject _ _ message => message.length < 2 ^ 16
  | appData _ data => data.length < 2 ^ 32
  | appCredit .. => True
  | appClose .. => True
  | appReset _ _ message => message.length < 2 ^ 16

/-- The metadata and the data are within the limits of the encoder. -/
def Bounded : AppMessage → Prop
  | appOpen _ _ metadata => metadata.length ≤ appMaxMetaBytes
  | appAccept _ metadata _ => metadata.length ≤ appMaxMetaBytes
  | appData _ data => data.length ≤ appMaxDataBytes
  | _ => True

theorem unmarshalCoded_eq_ok {name : String} {make : UInt32 → UInt16 → Bytes → AppMessage}
    {b : Bytes} {m : AppMessage} :
    unmarshalCoded name make b = .ok m ↔ ∃ id code message, message.length < 2 ^ 16 ∧
      b = writeUint32 id ++ (writeUint16 code ++ writeString message) ∧
      make id code message = m := by
  simp only [unmarshalCoded, field_bind_eq_ok, readUint32_eq_ok, readUint16_eq_ok,
    readString_eq_ok, noTrailing_eq_ok]
  constructor
  · rintro ⟨id, _, rfl, code, _, rfl, message, _, ⟨hlen, rfl⟩, rfl, rfl⟩
    exact ⟨id, code, message, hlen, by simp, rfl⟩
  · rintro ⟨id, code, message, hlen, rfl, rfl⟩
    exact ⟨id, _, rfl, code, _, rfl, message, [], ⟨hlen, by simp⟩, rfl, rfl⟩

/-- The name of a type in the errors of its decoder. -/
def label : AppMessage → String
  | appOpen .. => "app_open"
  | appAccept .. => "app_accept"
  | appReject .. => "app_reject"
  | appData .. => "app_data"
  | appCredit .. => "app_credit"
  | appClose .. => "app_close"
  | appReset .. => "app_reset"

/-- Behind the fields of a message, its decoder finds what follows. -/
theorem unmarshal_layout_append {m : AppMessage} (h : m.Sized) (t : Bytes) :
    m.unmarshal (m.layout ++ t) = noTrailing m.label t m := by
  cases m with
  | appOpen id service metadata =>
    simp only [unmarshal, AppOpen.unmarshalBinary, layout, label, List.append_assoc,
      readUint32_append, readString_append h.1, readBytes_append h.2, field_ok, ok_bind]
  | appAccept id metadata grant =>
    simp only [unmarshal, AppAccept.unmarshalBinary, layout, label, List.append_assoc,
      readUint32_append, readBytes_append h, field_ok, ok_bind]
  | appReject id code message =>
    simp only [unmarshal, AppReject.unmarshalBinary, unmarshalCoded, layout, label,
      List.append_assoc, readUint32_append, readUint16_append, readString_append h, field_ok,
      ok_bind]
  | appData id data =>
    simp only [unmarshal, AppData.unmarshalBinary, layout, label, List.append_assoc,
      readUint32_append, readBytes_append h, field_ok, ok_bind]
  | appCredit id bytes =>
    simp only [unmarshal, AppCredit.unmarshalBinary, layout, label, List.append_assoc,
      readUint32_append, field_ok, ok_bind]
  | appClose id =>
    simp only [unmarshal, AppClose.unmarshalBinary, layout, label, readUint32_append, field_ok,
      ok_bind]
  | appReset id code message =>
    simp only [unmarshal, AppReset.unmarshalBinary, unmarshalCoded, layout, label,
      List.append_assoc, readUint32_append, readUint16_append, readString_append h, field_ok,
      ok_bind]

/-- The decoder of a type is the same for all its messages. -/
theorem unmarshal_eq_of_typ {m m' : AppMessage} (h : m'.typ = m.typ) :
    m'.unmarshal = m.unmarshal := by
  have h' := appDecoder_typ m'
  rw [h, appDecoder_typ m] at h'
  exact (Option.some.inj h').symm

/-- **A strict decoder accepts exactly the layouts of the messages of its type.** -/
theorem unmarshal_eq_ok {m m' : AppMessage} {b : Bytes} :
    m.unmarshal b = .ok m' ↔ m'.typ = m.typ ∧ m'.Sized ∧ b = m'.layout := by
  constructor
  · intro h
    cases m with
    | appOpen =>
      simp only [unmarshal, AppOpen.unmarshalBinary, field_bind_eq_ok, readUint32_eq_ok,
        readString_eq_ok, readBytes_eq_ok, noTrailing_eq_ok] at h
      obtain ⟨id, _, rfl, service, _, ⟨hs, rfl⟩, metadata, _, ⟨hm, rfl⟩, rfl, rfl⟩ := h
      exact ⟨rfl, ⟨hs, hm⟩, by simp [layout]⟩
    | appAccept =>
      simp only [unmarshal, AppAccept.unmarshalBinary, field_bind_eq_ok, readUint32_eq_ok,
        readBytes_eq_ok, noTrailing_eq_ok] at h
      obtain ⟨id, _, rfl, metadata, _, ⟨hm, rfl⟩, grant, _, rfl, rfl, rfl⟩ := h
      exact ⟨rfl, hm, by simp [layout]⟩
    | appReject =>
      obtain ⟨id, code, message, hlen, rfl, rfl⟩ := unmarshalCoded_eq_ok.mp h
      exact ⟨rfl, hlen, rfl⟩
    | appData =>
      simp only [unmarshal, AppData.unmarshalBinary, field_bind_eq_ok, readUint32_eq_ok,
        readBytes_eq_ok, noTrailing_eq_ok] at h
      obtain ⟨id, _, rfl, data, _, ⟨hd, rfl⟩, rfl, rfl⟩ := h
      exact ⟨rfl, hd, by simp [layout]⟩
    | appCredit =>
      simp only [unmarshal, AppCredit.unmarshalBinary, field_bind_eq_ok, readUint32_eq_ok,
        noTrailing_eq_ok] at h
      obtain ⟨id, _, rfl, n, _, rfl, rfl, rfl⟩ := h
      exact ⟨rfl, trivial, by simp [layout]⟩
    | appClose =>
      simp only [unmarshal, AppClose.unmarshalBinary, field_bind_eq_ok, readUint32_eq_ok,
        noTrailing_eq_ok] at h
      obtain ⟨id, _, rfl, rfl, rfl⟩ := h
      exact ⟨rfl, trivial, by simp [layout]⟩
    | appReset =>
      obtain ⟨id, code, message, hlen, rfl, rfl⟩ := unmarshalCoded_eq_ok.mp h
      exact ⟨rfl, hlen, rfl⟩
  · rintro ⟨htyp, hsized, rfl⟩
    have h := unmarshal_layout_append hsized []
    rwa [List.append_nil, noTrailing_nil, unmarshal_eq_of_typ htyp] at h

/-- A body that is cut short is refused: it would be the layout of a message, and what was cut off
would follow it. -/
theorem unmarshal_cut {m : AppMessage} (h : m.Sized) {c t : Bytes} (hct : m.layout = c ++ t)
    (ht : t ≠ []) : ∃ e, m.unmarshal c = .error e := by
  cases hc : m.unmarshal c with
  | error e => exact ⟨e, rfl⟩
  | ok m' =>
    obtain ⟨htyp, hsized, rfl⟩ := unmarshal_eq_ok.mp hc
    have hwhole := unmarshal_eq_ok.mpr ⟨rfl, h, rfl⟩
    rw [hct, ← unmarshal_eq_of_typ htyp, unmarshal_layout_append hsized] at hwhole
    exact absurd (noTrailing_eq_ok.mp hwhole).1 ht

/-- Within the limits, the encoder gives the layout. -/
theorem marshalBinary_of_bounded {m : AppMessage} (h : m.Bounded) :
    m.marshalBinary = .ok m.layout := by
  cases m <;> simp_all [marshalBinary, layout, Bounded]

/-- Metadata or data beyond the limits are an error of the encoder. -/
theorem marshalBinary_of_not_bounded {m : AppMessage} (h : ¬ m.Bounded) :
    ∃ e, m.marshalBinary = .error e := by
  cases m with
  | appOpen id service metadata => exact ⟨_, if_pos (Nat.not_le.mp h)⟩
  | appAccept id metadata grant => exact ⟨_, if_pos (Nat.not_le.mp h)⟩
  | appData id data => exact ⟨_, if_pos (Nat.not_le.mp h)⟩
  | _ => exact absurd trivial h

end AppMessage

end Mvcp
