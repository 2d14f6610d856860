import Mathlib.Algebra.Order.Ring.Nat
import Mathlib.Tactic.Ring

/-!
# Little-endian bytes

A number as a fixed number of bytes, least significant first. One that fits is read back (`decode_encode`), and bytes
are what their number is written as (`encode_decode`).
-/

namespace LittleEndian

def encode : Nat → Nat → List UInt8
  | 0, _ => []
  | w + 1, n => UInt8.ofNat n :: encode w (n / 256)

def decode : List UInt8 → Nat
  | [] => 0
  | b :: bs => b.toNat + 256 * decode bs

@[simp] lemma length_encode (w n : Nat) : (encode w n).length = w := by
  induction w generalizing n with
  | zero => rfl
  | succ w ih => simp [encode, ih]

lemma decode_encode {w n : Nat} (h : n < 256 ^ w) : decode (encode w n) = n := by
  induction w generalizing n with
  | zero =>
    have : n = 0 := by simpa using h
    simp [encode, decode, this]
  | succ w ih =>
    have hq : n / 256 < 256 ^ w := by
      rw [Nat.div_lt_iff_lt_mul (by decide), ← pow_succ]
      exact h
    rw [encode, decode, ih hq, UInt8.toNat_ofNat']
    omega

lemma decode_lt (bs : List UInt8) : decode bs < 256 ^ bs.length := by
  induction bs with
  | nil => simp [decode]
  | cons b bs ih =>
    have hb : b.toNat < 256 := b.toNat_lt
    rw [decode, List.length_cons, pow_succ]
    omega

lemma decode_take_lt (w : Nat) (bs : List UInt8) : decode (bs.take w) < 256 ^ w :=
  (decode_lt _).trans_le (Nat.pow_le_pow_right (by decide) (List.length_take_le _ _))

lemma encode_decode (bs : List UInt8) : encode bs.length (decode bs) = bs := by
  induction bs with
  | nil => rfl
  | cons b bs ih =>
    have hb : b.toNat < 256 := b.toNat_lt
    have hlow : UInt8.ofNat (b.toNat + 256 * decode bs) = b := by
      rw [← UInt8.toNat_inj, UInt8.toNat_ofNat']
      omega
    have hhigh : (b.toNat + 256 * decode bs) / 256 = decode bs := by omega
    rw [decode, List.length_cons, encode, hlow, hhigh, ih]

end LittleEndian
