/-
  What stands in a list at an offset. Names nothing of the relay.

  A parser that walks a buffer by offsets sees, at each offset, the pieces of the format one after
  the other. `StandsAt xs offset part` says that `part` is such a piece. `standsAt_append` splits a
  piece into the two it is made of, which moves a walk from one piece to the next;
  `StandsAt.getElem?` reads a byte of it. A slice within the bounds stands where it was cut from
  (`standsAt_slice`), which is the way back, from what a walk has seen to the pieces.
-/
import Mathlib.Data.List.Basic

namespace Ovpn2ss.Lib

variable {α : Type} {xs ys part fst snd : List α} {offset : Nat}

/-- `part` is the piece of `xs` that starts at `offset`. -/
def StandsAt (xs : List α) (offset : Nat) (part : List α) : Prop :=
  ∃ pre post, xs = pre ++ part ++ post ∧ pre.length = offset

theorem standsAt_append :
    StandsAt xs offset (fst ++ snd) ↔
      StandsAt xs offset fst ∧ StandsAt xs (offset + fst.length) snd := by
  constructor
  · rintro ⟨pre, post, rfl, rfl⟩
    exact ⟨⟨pre, snd ++ post, by simp, rfl⟩, ⟨pre ++ fst, post, by simp, by simp⟩⟩
  · rintro ⟨⟨pre, post, rfl, rfl⟩, pre', post', hxs, hlen⟩
    -- both cuts have the same bytes before the second piece
    have hcut : pre ++ fst = pre' ∧ post = snd ++ post' :=
      List.append_inj (by rw [hxs, List.append_assoc]) (by rw [List.length_append, hlen])
    exact ⟨pre, post', by rw [hcut.2]; simp, rfl⟩

theorem StandsAt.left (h : StandsAt xs offset (fst ++ snd)) : StandsAt xs offset fst :=
  (standsAt_append.mp h).1

theorem StandsAt.right (h : StandsAt xs offset (fst ++ snd)) :
    StandsAt xs (offset + fst.length) snd :=
  (standsAt_append.mp h).2

theorem StandsAt.length_le (h : StandsAt xs offset part) : offset + part.length ≤ xs.length := by
  obtain ⟨pre, post, rfl, rfl⟩ := h
  simp only [List.length_append]
  omega

theorem StandsAt.getElem? (h : StandsAt xs offset part) {i : Nat} (hi : i < part.length) :
    xs[offset + i]? = part[i]? := by
  obtain ⟨pre, post, rfl, rfl⟩ := h
  rw [List.append_assoc, List.getElem?_append_right (Nat.le_add_right _ _), Nat.add_sub_cancel_left,
    List.getElem?_append_left hi]

/-- Bytes after the end do not matter. -/
theorem StandsAt.append (h : StandsAt xs offset part) : StandsAt (xs ++ ys) offset part := by
  obtain ⟨pre, post, rfl, rfl⟩ := h
  exact ⟨pre, post ++ ys, by simp, rfl⟩

theorem standsAt_self (xs : List α) : StandsAt xs 0 xs :=
  ⟨[], [], by simp, rfl⟩

theorem standsAt_nil (h : offset ≤ xs.length) : StandsAt xs offset [] :=
  ⟨xs.take offset, xs.drop offset, by simp, List.length_take_of_le h⟩

theorem standsAt_slice {n : Nat} (h : offset + n ≤ xs.length) :
    StandsAt xs offset ((xs.drop offset).take n) := by
  refine ⟨xs.take offset, xs.drop (offset + n), ?_, List.length_take_of_le (by omega)⟩
  rw [List.append_assoc, ← List.drop_drop, List.take_append_drop, List.take_append_drop]

theorem length_slice {n : Nat} (h : offset + n ≤ xs.length) :
    ((xs.drop offset).take n).length = n := by
  rw [List.length_take_of_le]
  rw [List.length_drop]
  omega

/-- An element is a piece of length one. -/
theorem standsAt_singleton {x : α} (h : xs[offset]? = some x) : StandsAt xs offset [x] := by
  obtain ⟨hlt, hx⟩ := List.getElem?_eq_some_iff.mp h
  refine ⟨xs.take offset, xs.drop (offset + 1), ?_, List.length_take_of_le (by omega)⟩
  rw [List.append_assoc, ← hx, List.singleton_append, List.getElem_cons_drop,
    List.take_append_drop]

end Ovpn2ss.Lib
