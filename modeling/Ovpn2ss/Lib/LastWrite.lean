/-
  A register and a list of operations, some of which overwrite it. Names nothing of the relay.

  `lastWrite f v xs` is what the register holds after the operations `xs` if it held `v` before,
  `f x` being what `x` writes, if it writes. What it held before shows exactly if nothing was written
  (`lastWrite_eq_lastWrite_iff`).
-/
import Mathlib.Data.List.Basic

namespace Ovpn2ss.Lib

variable {α β : Type}

def lastWrite (f : α → Option β) (v : β) (xs : List α) : β := (xs.filterMap f).getLast?.getD v

variable {f : α → Option β} {v w : β} {xs ys : List α}

@[simp] theorem lastWrite_nil : lastWrite f v [] = v := rfl

theorem lastWrite_cons (x : α) : lastWrite f v (x :: xs) = lastWrite f ((f x).getD v) xs := by
  cases hx : f x with
  | none => rw [lastWrite, List.filterMap_cons_none hx, Option.getD_none, lastWrite]
  | some u => rw [lastWrite, List.filterMap_cons_some hx, List.getLast?_cons, Option.getD_some,
      Option.getD_some, lastWrite]

theorem lastWrite_append : lastWrite f v (xs ++ ys) = lastWrite f (lastWrite f v xs) ys := by
  induction xs generalizing v with
  | nil => rfl
  | cons x xs ih => rw [List.cons_append, lastWrite_cons, ih, lastWrite_cons]

theorem lastWrite_of_forall_none (h : ∀ x ∈ xs, f x = none) : lastWrite f v xs = v := by
  rw [lastWrite, List.filterMap_eq_nil_iff.mpr h]
  rfl

/-- The register is as before exactly if the last write wrote what it held. -/
theorem lastWrite_eq_self_iff :
    lastWrite f v xs = v ↔ ∀ u, (xs.filterMap f).getLast? = some u → u = v := by
  rw [lastWrite]
  cases (xs.filterMap f).getLast? with
  | none => exact iff_of_true rfl fun u hu => (by cases hu)
  | some u =>
    constructor
    · intro h u' hu'
      exact (Option.some.inj hu').symm.trans h
    · intro h
      exact h u rfl

/-- Two registers agree after the same operations exactly if these write, or they agreed before. -/
theorem lastWrite_eq_lastWrite_iff :
    lastWrite f v xs = lastWrite f w xs ↔ (∃ x ∈ xs, (f x).isSome) ∨ v = w := by
  induction xs generalizing v w with
  | nil => simp
  | cons x xs ih =>
    rw [lastWrite_cons, lastWrite_cons, ih, List.exists_mem_cons_iff]
    cases hx : f x with
    | none => simp
    | some u => simp

end Ovpn2ss.Lib
