/-
  Addresses and ports as text: reading back what the printers of `parse_ss_address` write.

  The parser prints an IP address and the encoder reads it with `asio`, so the round trip of the
  codec rests on the text. `dottedNumbers` and `hexGroups` read the two forms; they stand for
  the readers of `asio` and lwIP where the model is run on concrete input.
-/
import Ovpn2ss.Address
import Ovpn2ss.Lwip.Tcp

namespace Ovpn2ss

/-! ## Decimal numbers -/

/-- The value of decimal digits, behind those that gave `n`. -/
def decimalFrom (n : Nat) (digits : Bytes) : Nat :=
  digits.foldl (fun n c => 10 * n + (c.toNat - 0x30)) n

theorem toNat_digit {c : Char} (h : c.isDigit = true) :
    (UInt8.ofNat c.toNat).toNat = c.toNat ∧ 0x30 ≤ c.toNat ∧ c.toNat ≤ 0x39 := by
  have hrange : 0x30 ≤ c.toNat ∧ c.toNat ≤ 0x39 := by
    simpa [Char.isDigit, UInt32.le_iff_toNat_le] using h
  refine ⟨?_, hrange⟩
  rw [UInt8.toNat_ofNat']
  omega

/-- `std::to_string` prints digits. -/
theorem digit_of_mem_toDecimal {n : Nat} {b : UInt8} (h : b ∈ toDecimal n) :
    0x30 ≤ b.toNat ∧ b.toNat ≤ 0x39 := by
  obtain ⟨c, hc, rfl⟩ := List.mem_map.mp h
  obtain ⟨hval, hrange⟩ := toNat_digit (Nat.isDigit_of_mem_toDigits (by decide) (by decide) hc)
  rwa [hval]

theorem not_mem_toDecimal {n : Nat} {b : UInt8} (h : b.toNat < 0x30 ∨ 0x39 < b.toNat) :
    b ∉ toDecimal n := by
  intro hmem
  have := digit_of_mem_toDecimal hmem
  omega

theorem decimalFrom_toDecimal (n : Nat) : decimalFrom 0 (toDecimal n) = n := by
  have hdigits : decimalFrom 0 (toDecimal n) = Nat.ofDigitChars 10 (Nat.toDigits 10 n) 0 := by
    rw [decimalFrom, toDecimal, List.foldl_map, Nat.ofDigitChars_eq_foldl]
    refine List.foldl_ext _ _ _ fun a c hc => ?_
    rw [(toNat_digit (Nat.isDigit_of_mem_toDigits (by decide) (by decide) hc)).1]
    rfl
  rw [hdigits, Nat.ofDigitChars_ten_toDigits]

theorem toDecimal_inj {m n : Nat} : toDecimal m = toDecimal n ↔ m = n := by
  refine ⟨fun h => ?_, congrArg toDecimal⟩
  rw [← decimalFrom_toDecimal m, h, decimalFrom_toDecimal]

/-! ## Dotted quads -/

/-- The numbers of a dotted text, read digit by digit. -/
def dottedNumbers : Bytes → Nat → Bytes
  | [], n => [UInt8.ofNat n]
  | c :: cs, n =>
    if c = 0x2e then UInt8.ofNat n :: dottedNumbers cs 0
    else dottedNumbers cs (10 * n + (c.toNat - 0x30))

theorem dottedNumbers_digits {digits : Bytes} (h : (0x2e : UInt8) ∉ digits) (rest : Bytes) (n : Nat) :
    dottedNumbers (digits ++ rest) n = dottedNumbers rest (decimalFrom n digits) := by
  induction digits generalizing n with
  | nil => rfl
  | cons c cs ih =>
    rw [List.mem_cons, not_or] at h
    rw [List.cons_append, dottedNumbers, if_neg (Ne.symm h.1), ih h.2]
    rfl

theorem dottedNumbers_toDecimal (b : UInt8) (rest : Bytes) :
    dottedNumbers (toDecimal b.toNat ++ rest) 0 = dottedNumbers rest b.toNat := by
  rw [dottedNumbers_digits (not_mem_toDecimal (by decide)), decimalFrom_toDecimal]

theorem dottedNumbers_ipv4Text {bytes : Bytes} (h : bytes ≠ []) :
    dottedNumbers (ipv4Text bytes) 0 = bytes := by
  induction bytes using ipv4Text.induct with
  | case1 => exact absurd rfl h
  | case2 b =>
    have hlast := dottedNumbers_toDecimal b []
    rw [List.append_nil] at hlast
    rw [ipv4Text, hlast, dottedNumbers, UInt8.ofNat_toNat]
  | case3 b rest hne ih =>
    rw [ipv4Text, dottedNumbers_toDecimal, dottedNumbers, if_pos rfl, ih hne, UInt8.ofNat_toNat]
    exact hne

/-! ## Groups of hexadecimal digits -/

def hexDigit (c : UInt8) : Nat := if c.toNat < 0x3a then c.toNat - 0x30 else c.toNat - 0x57

/-- The byte of two hexadecimal digits. -/
def hexByte (hi lo : UInt8) : UInt8 := UInt8.ofNat (16 * hexDigit hi + hexDigit lo)

/-- The bytes of a text of groups of four hexadecimal digits, with one character between groups. -/
def hexGroups : Bytes → Bytes
  | [a, b, c, d] => [hexByte a b, hexByte c d]
  | a :: b :: c :: d :: _ :: rest => hexByte a b :: hexByte c d :: hexGroups rest
  | _ => []

theorem hexDigit_of_lt {d : Nat} (h : d < 16) :
    hexDigit (UInt8.ofNat (if d < 10 then 0x30 + d else 0x57 + d)) = d := by
  revert d
  decide

theorem hexByte_toHex2 (b : UInt8) : ∃ hi lo, toHex2 b = [hi, lo] ∧ hexByte hi lo = b := by
  refine ⟨_, _, rfl, ?_⟩
  have hb : b.toNat < 256 := b.toNat_lt
  rw [hexByte, hexDigit_of_lt (by omega), hexDigit_of_lt (Nat.mod_lt _ (by decide)), Nat.div_add_mod,
    UInt8.ofNat_toNat]

theorem hexGroups_ipv6Text {bytes : Bytes} (h : bytes.length % 2 = 0) :
    hexGroups (ipv6Text bytes) = bytes := by
  induction bytes using ipv6Text.induct with
  | case1 a b =>
    obtain ⟨ahi, alo, ha, hea⟩ := hexByte_toHex2 a
    obtain ⟨bhi, blo, hb, heb⟩ := hexByte_toHex2 b
    rw [ipv6Text, ha, hb, List.cons_append, List.cons_append, List.nil_append, hexGroups, hea, heb]
  | case2 a b rest hne ih =>
    obtain ⟨ahi, alo, ha, hea⟩ := hexByte_toHex2 a
    obtain ⟨bhi, blo, hb, heb⟩ := hexByte_toHex2 b
    rw [List.length_cons, List.length_cons] at h
    rw [ipv6Text, ha, hb, List.append_assoc, List.cons_append, List.cons_append, List.nil_append,
      List.cons_append, List.cons_append, List.nil_append, hexGroups, hea, heb, ih (by omega)]
    exact hne
  | case3 bytes h2 h3 =>
    match bytes with
    | [] => rfl
    | [_] => cases h
    | a :: b :: rest => exact absurd rfl (h3 a b rest)

/-- A stand-in for `ipaddr_aton` that reads what `ipv4Text` and `ipv6Text` print. -/
def printedAton (text : Bytes) : Option Lwip.IpAddr :=
  let quad := dottedNumbers text 0
  let groups := hexGroups text
  if quad.length = 4 then some ⟨false, quad⟩
  else if groups.length = 16 then some ⟨true, groups⟩
  else none

end Ovpn2ss
