import ForeignCall.RegisterFile
import Mathlib.Algebra.Group.Nat.Defs

/-! Digit lists and words. Eight bytes and the word that they denote determine each other; fewer bytes
are filled up with zeros. -/
namespace ForeignCall

theorem numeral_lt (bytes : List Byte) : numeral bytes < 256 ^ bytes.length := by
  induction bytes with
  | nil => simp [numeral]
  | cons digit rest ih =>
    have := digit.isLt
    simp only [numeral, List.length_cons, Nat.pow_succ]
    omega

theorem numeral_digits (n value : Nat) : numeral (digits n value) = value % 256 ^ n := by
  induction n generalizing value with
  | zero => simp [digits, numeral, Nat.mod_one]
  | succ n ih =>
    rw [digits, numeral, ih, Nat.pow_succ, Nat.mul_comm (256 ^ n), Nat.mod_mul]
    simp

theorem Word.ofBytes_bytes (word : Word) : Word.ofBytes word.bytes = word := by
  apply BitVec.eq_of_toNat_eq
  have := word.isLt
  simp only [Word.ofBytes, Word.bytes, numeral_digits, BitVec.toNat_ofNat]
  omega

theorem Word.ofBytes_toNat (bytes : List Byte) (short : bytes.length ≤ 8) :
    (Word.ofBytes bytes).toNat = numeral bytes := by
  have bound := numeral_lt bytes
  have := Nat.pow_le_pow_right (show 0 < 256 by decide) short
  simp only [Word.ofBytes, BitVec.toNat_ofNat]
  omega

theorem digits_zero (n : Nat) : digits n 0 = List.replicate n 0 := by
  induction n with
  | zero => rfl
  | succ n ih => simp [digits, ih, List.replicate_succ]

theorem digits_numeral_append (bytes : List Byte) (extra : Nat) :
    digits (bytes.length + extra) (numeral bytes) = bytes ++ List.replicate extra 0 := by
  induction bytes with
  | nil => simpa [numeral] using digits_zero extra
  | cons digit rest ih =>
    have := digit.isLt
    have high : (digit.toNat + 256 * numeral rest) / 256 = numeral rest := by omega
    have low : BitVec.ofNat 8 (digit.toNat + 256 * numeral rest) = digit := by
      apply BitVec.eq_of_toNat_eq
      simp only [BitVec.toNat_ofNat]
      omega
    rw [List.length_cons, Nat.add_right_comm, digits, numeral, high, low, ih, List.cons_append]

theorem Word.bytes_ofBytes (bytes : List Byte) (short : bytes.length ≤ slotBytes) :
    (Word.ofBytes bytes).bytes = bytes ++ List.replicate (slotBytes - bytes.length) 0 := by
  have split : slotBytes = bytes.length + (slotBytes - bytes.length) := by omega
  rw [Word.bytes, Word.ofBytes_toNat bytes short, ← digits_numeral_append, ← split, slotBytes]

end ForeignCall
