/-
  JSON documents as `nlohmann::json` holds them (`third_party/json.hpp`), as far as the
  configuration loader looks at them.

  A number is kept as the document writes it. What the lexer makes of it (`scanNumber`) decides how
  it can be used: a literal without fraction or exponent is an unsigned or a signed integer of 64
  bits if it fits, and a double like every other literal if it does not. `get<int>()` converts
  whatever number it finds with a `static_cast`: integers lose their upper 32 bits, doubles their
  fraction, booleans become 0 and 1.

  `Platform` has what the language and the system leave open: which double `strtod` picks for a
  literal, the value of a cast of a double that no `int` can hold (undefined in C++, so any value),
  and which paths are regular files. A document with a number that overflows a double is refused by
  the parser and has no `Json`.
-/
import Mathlib.Data.Rat.Defs
import Mathlib.Tactic

namespace Ovpn2ss.Config

/-- A number as written: its sign and digits, or its exact value if there is a fraction or an
    exponent. -/
inductive Literal where
  | integer (negative : Bool) (digits : Nat)
  | real (value : ℚ)

inductive Json where
  | null
  | boolean (value : Bool)
  | number (literal : Literal)
  | string (value : String)
  | array (elements : List Json)
  | object (members : List (String × Json))

structure Platform where
  strtod : ℚ → ℚ
  castOverflow : ℚ → Int
  isRegularFile : String → Except String Bool

/-- The number types of `value_t`. -/
inductive Number where
  | unsigned (value : Nat)
  | integer (value : Int)
  | float (value : ℚ)

/-- The mathematical value of an integer literal. -/
def integerValue (negative : Bool) (digits : Nat) : Int := if negative then -digits else digits

/-- The end of `scan_number`. -/
def scanNumber (P : Platform) : Literal → Number
  | .integer false digits =>
    if digits < 2 ^ 64 then .unsigned digits else .float (P.strtod (integerValue false digits))
  | .integer true digits =>
    if digits ≤ 2 ^ 63 then .integer (integerValue true digits)
    else .float (P.strtod (integerValue true digits))
  | .real value => .float (P.strtod value)

namespace Json

def typeName : Json → String
  | .null => "null"
  | .object _ => "object"
  | .array _ => "array"
  | .string _ => "string"
  | .boolean _ => "boolean"
  | .number _ => "number"

def isObject : Json → Bool
  | .object _ => true
  | _ => false

/-- `contains` and `at`. A key that is written twice has the value written last. -/
def find (json : Json) (key : String) : Option Json :=
  match json with
  | .object members => members.reverse.lookup key
  | _ => none

def isNumberInteger (P : Platform) : Json → Bool
  | .number literal =>
    match scanNumber P literal with
    | .float _ => false
    | _ => true
  | _ => false

end Json

/-- `static_cast<int>` of a 64-bit integer. -/
def castInt (n : Int) : Int := n.bmod (2 ^ 32)

/-- `static_cast<int>` of a double. -/
def castDouble (P : Platform) (q : ℚ) : Int :=
  let n := q.num.tdiv q.den
  if -2 ^ 31 ≤ n ∧ n < 2 ^ 31 then n else P.castOverflow q

/-- `get<int>()`. -/
def Json.getInt (P : Platform) : Json → Except String Int
  | .number literal =>
    match scanNumber P literal with
    | .unsigned n => .ok (castInt n)
    | .integer n => .ok (castInt n)
    | .float q => .ok (castDouble P q)
  | .boolean value => .ok (if value then 1 else 0)
  | json => .error ("[json.exception.type_error.302] type must be number, but is " ++ json.typeName)

/-- An integer survives the cast exactly if an `int` can hold it. -/
theorem castInt_eq_self_iff (n : Int) : castInt n = n ↔ -2 ^ 31 ≤ n ∧ n < 2 ^ 31 := by
  have hrange := Int.bmod_lt (x := n) (m := 2 ^ 32) (by decide)
  have hrange' := Int.le_bmod (x := n) (m := 2 ^ 32) (by decide)
  constructor
  · intro h
    rw [castInt] at h
    rw [h] at hrange hrange'
    constructor <;> omega
  · rintro ⟨hle, hlt⟩
    exact Int.bmod_eq_of_le (by omega) (by omega)

/-- A JSON integer, and its value. -/
def Json.IsInteger (json : Json) (n : Int) : Prop :=
  ∃ negative digits, json = .number (.integer negative digits) ∧ integerValue negative digits = n

/-- A JSON integer that an `int` can hold. -/
def Json.FitsInt (json : Json) : Prop := ∃ n, json.IsInteger n ∧ -2 ^ 31 ≤ n ∧ n < 2 ^ 31

/-- What `get<int>()` makes of an integer: the cast of its value if 64 bits are enough for it. -/
theorem getInt_integer (P : Platform) (negative : Bool) (digits : Nat) :
    (Json.number (.integer negative digits)).getInt P =
        .ok (castInt (integerValue negative digits)) ∨
      integerValue negative digits < -2 ^ 63 ∨ 2 ^ 64 ≤ integerValue negative digits := by
  cases negative with
  | false =>
    by_cases h : digits < 2 ^ 64
    · refine .inl ?_
      simp only [Json.getInt, scanNumber, if_pos h]
      rfl
    · refine .inr (.inr ?_)
      rw [integerValue, if_neg (by decide)]
      omega
  | true =>
    by_cases h : digits ≤ 2 ^ 63
    · refine .inl ?_
      simp only [Json.getInt, scanNumber, if_pos h]
    · refine .inr (.inl ?_)
      rw [integerValue, if_pos rfl]
      omega

/-- A value in the range of `int` that `get<int>()` returns is the value written in the document
    exactly if an integer is written there that an `int` can hold. -/
theorem isInteger_iff_fitsInt {P : Platform} {json : Json} {n : Int} (h : json.getInt P = .ok n)
    (hle : -2 ^ 31 ≤ n) (hlt : n < 2 ^ 31) : json.IsInteger n ↔ json.FitsInt := by
  constructor
  · exact fun hn => ⟨n, hn, hle, hlt⟩
  · rintro ⟨m, ⟨negative, digits, rfl, rfl⟩, hmle, hmlt⟩
    refine ⟨negative, digits, rfl, ?_⟩
    rcases getInt_integer P negative digits with hget | hsmall | hlarge
    · rw [hget] at h
      rw [← Except.ok.inj h]
      exact ((castInt_eq_self_iff _).mpr ⟨hmle, hmlt⟩).symm
    · omega
    · omega

end Ovpn2ss.Config
