/-
  Little-endian byte encodings of a counter, at any width. Names nothing of the relay.

  `toLE n k` is the `n`-byte little-endian encoding of `k` modulo `256^n`. It is injective
  below `256^n` (`toLE_inj`), and below 256 only its first byte is non-zero
  (`toLE_of_lt`), which is what separates a counter that carries from one that does not.
-/
import Mathlib.Data.List.Basic
import Mathlib.Tactic

namespace Ovpn2ss.Lib

/-- The `n`-byte little-endian encoding of `k` (its low `8·n` bits). -/
def toLE : Nat → Nat → List UInt8
  | 0, _ => []
  | n + 1, k => UInt8.ofNat k :: toLE n (k / 256)

@[simp] theorem toLE_length (n k : Nat) : (toLE n k).length = n := by
  induction n generalizing k with
  | zero => rfl
  | succ n ih => rw [toLE, List.length_cons, ih]

theorem ofNat_byte_eq_iff (a b : Nat) : UInt8.ofNat a = UInt8.ofNat b ↔ a % 256 = b % 256 := by
  rw [← UInt8.toNat_inj, UInt8.toNat_ofNat', UInt8.toNat_ofNat']

/-- Below `256^n` the encoding determines the counter. -/
theorem toLE_inj (n : Nat) {a b : Nat} (ha : a < 256 ^ n) (hb : b < 256 ^ n)
    (h : toLE n a = toLE n b) : a = b := by
  induction n generalizing a b with
  | zero => omega
  | succ n ih =>
    rw [toLE, toLE, List.cons.injEq, ofNat_byte_eq_iff] at h
    have hdiv : a / 256 = b / 256 :=
      ih (Nat.div_lt_of_lt_mul (by rw [Nat.pow_succ'] at ha; exact ha))
        (Nat.div_lt_of_lt_mul (by rw [Nat.pow_succ'] at hb; exact hb)) h.2
    omega

theorem toLE_zero (n : Nat) : toLE n 0 = List.replicate n 0 := by
  induction n with
  | zero => rfl
  | succ n ih => rw [toLE, Nat.zero_div, ih, List.replicate_succ]; rfl

/-- A counter that fits one byte leaves every other byte zero. -/
theorem toLE_of_lt (n : Nat) {k : Nat} (hk : k < 256) :
    toLE (n + 1) k = UInt8.ofNat k :: List.replicate n 0 := by
  rw [toLE, Nat.div_eq_of_lt hk, toLE_zero]

/-- Conversely, a counter of the width that does not fit one byte has a non-zero byte later. -/
theorem lt_of_toLE_eq (n : Nat) {k : Nat} {b : UInt8} (hk : k < 256 ^ (n + 1))
    (h : toLE (n + 1) k = b :: List.replicate n 0) : k < 256 := by
  rw [toLE, List.cons.injEq, ← toLE_zero] at h
  have hz : k / 256 = 0 :=
    toLE_inj n (Nat.div_lt_of_lt_mul (by rw [Nat.pow_succ'] at hk; exact hk))
      (Nat.pow_pos (by decide)) h.2
  omega

end Ovpn2ss.Lib
