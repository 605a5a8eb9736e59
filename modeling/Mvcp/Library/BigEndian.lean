import Mathlib.Tactic.Common
import Mathlib.Tactic.Ring

/-!
# Big-endian integers

The `w`-byte big-endian form of a natural number, and the number a byte string denotes.

## Main definitions

* `beBytes w n`: the low `w` bytes of `n`, most significant first
* `beNat bs`: the number denoted by `bs`

## Main results

* `beNat_beBytes`: reading back gives the number modulo `256 ^ w`
* `beBytes_beNat`: writing back gives the byte string
-/

namespace Library

/-- The low `w` bytes of `n`, most significant first. -/
def beBytes : ℕ → ℕ → List UInt8
  | 0, _ => []
  | w + 1, n => UInt8.ofNat (n / 256 ^ w) :: beBytes w n

/-- The number a big-endian byte string denotes. -/
def beNat : List UInt8 → ℕ
  | [] => 0
  | b :: bs => b.toNat * 256 ^ bs.length + beNat bs

@[simp] theorem beBytes_length (w n : ℕ) : (beBytes w n).length = w := by
  induction w with
  | zero => rfl
  | succ w ih => simp [beBytes, ih]

/-- Reading back the `w`-byte form of `n` gives `n` modulo `256 ^ w`. -/
theorem beNat_beBytes (w n : ℕ) : beNat (beBytes w n) = n % 256 ^ w := by
  induction w with
  | zero => simp [beBytes, beNat, Nat.mod_one]
  | succ w ih =>
    simp only [beBytes, beNat, beBytes_length, ih, UInt8.toNat_ofNat']
    rw [Nat.mod_pow_succ (b := 256), Nat.add_comm, Nat.mul_comm]

theorem beNat_lt (bs : List UInt8) : beNat bs < 256 ^ bs.length := by
  induction bs with
  | nil => simp [beNat]
  | cons b bs ih =>
    have hb : b.toNat + 1 ≤ 256 := b.toNat_lt
    calc beNat (b :: bs) < b.toNat * 256 ^ bs.length + 256 ^ bs.length := by
          simpa [beNat] using ih
      _ = (b.toNat + 1) * 256 ^ bs.length := by ring
      _ ≤ 256 * 256 ^ bs.length := Nat.mul_le_mul_right _ hb
      _ = 256 ^ (b :: bs).length := by rw [List.length_cons, pow_succ, Nat.mul_comm]

theorem beBytes_add_mul (w n k : ℕ) : beBytes w (k * 256 ^ w + n) = beBytes w n := by
  induction w generalizing k with
  | zero => rfl
  | succ w ih =>
    have hw : 0 < 256 ^ w := Nat.pow_pos (by decide)
    have hk : k * 256 ^ (w + 1) + n = k * 256 * 256 ^ w + n := by ring
    simp only [beBytes, hk, ih]
    congr 1
    rw [Nat.add_comm, Nat.add_mul_div_right _ _ hw]
    apply UInt8.toNat_inj.mp
    simp

/-- Writing back the number a byte string denotes gives the byte string. -/
theorem beBytes_beNat (bs : List UInt8) : beBytes bs.length (beNat bs) = bs := by
  induction bs with
  | nil => rfl
  | cons b bs ih =>
    have hw : 0 < 256 ^ bs.length := Nat.pow_pos (by decide)
    simp only [List.length_cons, beBytes, beNat, beBytes_add_mul, ih]
    congr 1
    rw [Nat.add_comm, Nat.add_mul_div_right _ _ hw, Nat.div_eq_of_lt (beNat_lt bs), Nat.zero_add]
    exact UInt8.ofNat_toNat

end Library
