import Mathlib.Data.List.TakeWhile
import Mvcp.Messages.Records

/-!
# The command

`ExecCmd` of `messages/exec.go`, whose body is JSON. `json.Decoder` is a library of the language: it
is a parameter that gives, from the body and the receiver, an error or the bytes behind the value
it took, and the receiver as it left it. What the method does with that is embedded: an empty body
is no error, and `More` decides whether something follows the value.

## Main definitions

* `ExecCmd`: the message
* `JsonDecoder`: `json.Decoder` with unknown fields disallowed
* `ExecCmd.unmarshalBinary`: the method
* `JsonDecoder.Delimited`, `JsonDecoder.TakesObject`: what is assumed of the library, and the bodies
  that are one object

## Main results

* `ExecCmd.unmarshalBinary_refuses_iff`: which tails behind an object the method refuses
-/

namespace Mvcp.Messages

/-- The command to run: strings are their bytes, the environment is a map as the list of its
entries. -/
structure ExecCmd where
  command : Bytes := []
  workdir : Bytes := []
  env : List (Bytes × Bytes) := []
  timeoutMs : Option Int64 := none
  spec : Bytes := []
  deriving DecidableEq

/-- The errors of `Decode`: the end of the input before a value, which `errors.Is` tells apart, and
all others. -/
inductive JsonError
  | eof
  | other (text : String)
  deriving DecidableEq

/-- `json.Decoder` with unknown fields disallowed. -/
structure JsonDecoder where
  /-- `Decode`: the bytes behind the value, or an error, and the receiver after the call. -/
  decode : Bytes → ExecCmd → Except JsonError Bytes × ExecCmd

/-- The whitespace of JSON. -/
def isSpace (b : UInt8) : Bool := b == 32 || b == 9 || b == 13 || b == 10

/-- `More`: whether a next value begins behind the whitespace. -/
def more (rest : Bytes) : Bool :=
  match rest.dropWhile isSpace with
  | [] => false
  | b :: _ => b != 93 && b != 125

namespace ExecCmd

/-- `UnmarshalBinary`: the receiver is what `Decode` made of it, whatever is returned. -/
def unmarshalBinary (json : JsonDecoder) : Unmarshal ExecCmd Unit := fun data m =>
  match json.decode data m with
  | (.error .eof, m') => (.ok ((), []), m')
  | (.error (.other text), m') => (.error ("exec: decode body: " ++ text), m')
  | (.ok rest, m') =>
    if more rest then (.error "exec: trailing data after body", m') else (.ok ((), rest), m')

end ExecCmd

/-! ## What follows an object -/

namespace JsonDecoder

/-- `Decode` takes one value, and an object ends with its brace: taking an object does not depend on
what stands behind it. -/
structure Delimited (json : JsonDecoder) : Prop where
  object : ∀ {c r m m'}, json.decode (c ++ r) m = (.ok r, m') → c.getLast? = some 125 →
    ∀ t, json.decode (c ++ t) m = (.ok t, m')

/-- The body is one object, with nothing but whitespace behind it, and `Decode` takes it into the
receiver `m` and leaves `m'`. -/
def TakesObject (json : JsonDecoder) (body : Bytes) (m m' : ExecCmd) : Prop :=
  ∃ c w, body = c ++ w ∧ c.getLast? = some 125 ∧ (∀ b ∈ w, isSpace b = true) ∧
    json.decode body m = (.ok w, m')

variable {json : JsonDecoder} {j : Bytes} {m m' : ExecCmd}

/-- An object is taken from whatever begins with it. -/
theorem TakesObject.append (h : json.TakesObject j m m') (hd : json.Delimited) (t : Bytes) :
    ∃ w, (∀ b ∈ w, isSpace b = true) ∧ json.decode (j ++ t) m = (.ok (w ++ t), m') := by
  obtain ⟨c, w, rfl, hlast, hw, hdec⟩ := h
  refine ⟨w, hw, ?_⟩
  rw [List.append_assoc]
  exact hd.object hdec hlast (w ++ t)

end JsonDecoder

/-- `More` does not see whitespace. -/
theorem more_append {w : Bytes} (hw : ∀ b ∈ w, isSpace b = true) (t : Bytes) :
    more (w ++ t) = more t := by
  rw [more, List.dropWhile_append_of_pos hw, more]

/-- `More` looks at the first byte that is not whitespace. -/
theorem more_eq_true_iff {t : Bytes} (ht : ∃ b ∈ t, isSpace b = false) :
    more t = true ↔ ∀ b ∈ (t.dropWhile isSpace).head?, b ≠ 93 ∧ b ≠ 125 := by
  cases hdrop : t.dropWhile isSpace with
  | nil =>
    -- then there is only whitespace
    obtain ⟨b, hb, hns⟩ := ht
    have hall := List.dropWhile_eq_nil_iff.mp hdrop
    simp [hall b hb] at hns
  | cons b t' => simp [more, hdrop]

namespace ExecCmd

variable {json : JsonDecoder} {j t : Bytes} {m m' : ExecCmd}

theorem unmarshalBinary_append (hd : json.Delimited) (hj : json.TakesObject j m m') :
    ∃ w, unmarshalBinary json (j ++ t) m =
      if more t then (.error "exec: trailing data after body", m') else (.ok ((), w ++ t), m') := by
  obtain ⟨w, hw, hdec⟩ := hj.append hd t
  refine ⟨w, ?_⟩
  simp only [unmarshalBinary, hdec, more_append hw]

/-- **Which tails behind an object the method refuses**: `More` is made for the inside of arrays and
objects, where a closing bracket means that no value follows. -/
theorem unmarshalBinary_refuses_iff (hd : json.Delimited) (hj : json.TakesObject j m m')
    (ht : ∃ b ∈ t, isSpace b = false) :
    (∃ e, (unmarshalBinary json (j ++ t) m).1 = .error e) ↔
      ∀ b ∈ (t.dropWhile isSpace).head?, b ≠ 93 ∧ b ≠ 125 := by
  rw [← more_eq_true_iff ht]
  obtain ⟨w, heq⟩ := unmarshalBinary_append (t := t) hd hj
  rw [heq]
  cases more t <;> simp

end ExecCmd

/-- A decoder that takes the empty object only. -/
def emptyObjects : JsonDecoder where
  decode b m :=
    match b with
    | [] => (.error .eof, m)
    | 123 :: 125 :: rest => (.ok rest, m)
    | _ => (.error (.other "invalid character"), m)

theorem emptyObjects_delimited : emptyObjects.Delimited where
  object {c r m m'} h hlast t := by
    -- what was taken is `{}`
    obtain ⟨rfl, rfl⟩ : c = [123, 125] ∧ m' = m := by
      simp only [emptyObjects] at h
      split at h
      · simp at h
      · next rest hb =>
        obtain ⟨hr, hm⟩ := Prod.mk.inj h
        rw [Except.ok.injEq] at hr
        subst hr
        exact ⟨List.append_cancel_right (hb.trans rfl), hm.symm⟩
      · simp at h
    rfl

/-- `{}` followed by a space and `x` is refused. -/
theorem ExecCmd.unmarshalBinary_refuses_x :
    ∃ e, (unmarshalBinary emptyObjects ([123, 125] ++ [32, 120]) {}).1 = .error e := by
  apply (unmarshalBinary_refuses_iff emptyObjects_delimited
    ⟨[123, 125], [], rfl, rfl, by simp, rfl⟩ ⟨120, by decide, by decide⟩).mpr
  intro b hb
  have hx : some 120 = some b := hb
  obtain rfl := Option.some.inj hx
  decide

/-- `{}` followed by a second `}` is accepted. -/
theorem ExecCmd.unmarshalBinary_accepts_brace :
    emptyObjects.Delimited ∧ emptyObjects.TakesObject [123, 125] {} {} ∧
      unmarshalBinary emptyObjects [123, 125] {} = (.ok ((), []), {}) ∧ isSpace 125 = false ∧
      unmarshalBinary emptyObjects ([123, 125] ++ [125]) {} = (.ok ((), [125]), {}) :=
  ⟨emptyObjects_delimited, ⟨[123, 125], [], rfl, rfl, by simp, rfl⟩, by decide, by decide,
    by decide⟩

end Mvcp.Messages
