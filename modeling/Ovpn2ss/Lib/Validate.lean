/-
  Checks that fail with a message, one after the other, and keys that may not repeat. Names nothing
  of the relay.

  `bind_eq_ok_iff` and `bind_eq_error_iff` take a chain of checks apart. `Fresh key seen xs` says that
  the keys of `xs` are pairwise distinct and none of them is in `seen`: what a loop asks for that puts
  the key of each element into a set and stops at the first that is there already. `fresh_cons` is its
  iteration.
-/
import Mathlib.Data.Finset.Insert
import Mathlib.Data.List.Basic

namespace Ovpn2ss.Lib

variable {ε α β : Type}

theorem bind_eq_ok_iff {x : Except ε α} {f : α → Except ε β} {b : β} :
    (x >>= f) = .ok b ↔ ∃ a, x = .ok a ∧ f a = .ok b := by
  cases x with
  | error e => exact iff_of_false (fun h => (by cases h)) fun ⟨_, h, _⟩ => (by cases h)
  | ok a =>
    constructor
    · exact fun h => ⟨a, rfl, h⟩
    · rintro ⟨a', ha, h⟩
      cases ha
      exact h

theorem bind_eq_error_iff {x : Except ε α} {f : α → Except ε β} {e : ε} :
    (x >>= f) = .error e ↔ x = .error e ∨ ∃ a, x = .ok a ∧ f a = .error e := by
  cases x with
  | error e' =>
    constructor
    · intro h
      cases h
      exact Or.inl rfl
    · rintro (h | ⟨_, h, _⟩) <;> cases h
      rfl
  | ok a =>
    constructor
    · exact fun h => Or.inr ⟨a, rfl, h⟩
    · rintro (h | ⟨a', ha, h⟩)
      · cases h
      · cases ha
        exact h

section Fresh

variable {key : α → β} {seen : Finset β} {x : α} {xs : List α}

def Fresh (key : α → β) (seen : Finset β) (xs : List α) : Prop :=
  (∀ x ∈ xs, key x ∉ seen) ∧ (xs.map key).Nodup

theorem fresh_nil : Fresh key seen [] :=
  ⟨fun x hx => (by cases hx), List.nodup_nil⟩

theorem fresh_cons [DecidableEq β] :
    Fresh key seen (x :: xs) ↔ key x ∉ seen ∧ Fresh key (insert (key x) seen) xs := by
  constructor
  · rintro ⟨hseen, hnodup⟩
    obtain ⟨hx, hxs⟩ := List.forall_mem_cons.mp hseen
    obtain ⟨hnew, hrest⟩ := List.nodup_cons.mp hnodup
    refine ⟨hx, fun y hy hmem => ?_, hrest⟩
    rcases Finset.mem_insert.mp hmem with heq | hold
    · exact hnew (heq ▸ List.mem_map_of_mem hy)
    · exact hxs y hy hold
  · rintro ⟨hx, hseen, hnodup⟩
    refine ⟨List.forall_mem_cons.mpr ⟨hx, fun y hy hmem => ?_⟩, List.nodup_cons.mpr ⟨?_, hnodup⟩⟩
    · exact hseen y hy (Finset.mem_insert_of_mem hmem)
    · intro hmem
      obtain ⟨y, hy, heq⟩ := List.mem_map.mp hmem
      exact hseen y hy (heq ▸ Finset.mem_insert_self _ _)

theorem fresh_empty_iff : Fresh key ∅ xs ↔ (xs.map key).Nodup :=
  and_iff_right fun x _ => Finset.notMem_empty (key x)

end Fresh

end Ovpn2ss.Lib
