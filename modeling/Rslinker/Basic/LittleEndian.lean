import Mathlib.Tactic

set_option autoImplicit false

/-! # Little-endian numbers in a byte list

`leEncode k n` is the number `n` in `k` bytes, least significant first; `leDecode` reads such a
list back. Bits of `n` from `256 ^ k` on are lost, as in a cast to a `k`-byte word.
-/

namespace Rslinker

abbrev Bytes := List UInt8

def leEncode : Nat → Nat → Bytes
  | 0, _ => []
  | k + 1, n => UInt8.ofNat n :: leEncode k (n / 256)

def leDecode : Bytes → Nat
  | [] => 0
  | b :: bs => b.toNat + 256 * leDecode bs

@[simp] theorem leEncode_length (k n : Nat) : (leEncode k n).length = k := by
  induction k generalizing n with
  | zero => rfl
  | succ k ih => simp [leEncode, ih]

theorem leDecode_leEncode_mod (k n : Nat) : leDecode (leEncode k n) = n % 256 ^ k := by
  induction k generalizing n with
  | zero => simp [leEncode, leDecode, Nat.mod_one]
  | succ k ih =>
      have hb : (UInt8.ofNat n).toNat = n % 256 := by simp
      calc leDecode (leEncode (k + 1) n)
          = n % 256 + 256 * (n / 256 % 256 ^ k) := by rw [leEncode, leDecode, ih, hb]
        _ = n % (256 * 256 ^ k) := (Nat.mod_mul).symm
        _ = n % 256 ^ (k + 1) := by rw [pow_succ']

/-- A number that fits in `k` bytes is read back as it was written. -/
theorem leDecode_leEncode {k n : Nat} (h : n < 256 ^ k) : leDecode (leEncode k n) = n := by
  rw [leDecode_leEncode_mod, Nat.mod_eq_of_lt h]

end Rslinker
