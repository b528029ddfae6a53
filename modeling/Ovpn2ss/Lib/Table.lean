/-
  Tables: Mathlib's association lists with values of one type, counted by their values. Names
  nothing of the relay.

  Keys are unique by construction, so what `erase` takes out is the one value `lookup` finds
  (`values_erase`). The `lookup_of_` lemmas say where a value found after an operation was before.
-/
import Mathlib.Data.List.AList
import Mathlib.Tactic

namespace Ovpn2ss.Lib

abbrev Table (κ β : Type) := AList (fun _ : κ => β)

namespace Table

variable {κ β : Type}

def values (t : Table κ β) : List β := t.entries.map Sigma.snd

variable [DecidableEq κ] {t : Table κ β} {a a' : κ} {b b' : β}

theorem lookup_of_lookup_erase (h : (t.erase a).lookup a' = some b) :
    a' ≠ a ∧ t.lookup a' = some b := by
  have hne : a' ≠ a := by
    rintro rfl
    rw [AList.lookup_erase] at h
    cases h
  rw [AList.lookup_erase_ne hne] at h
  exact ⟨hne, h⟩

theorem lookup_of_lookup_insert (h : (t.insert a b).lookup a' = some b') :
    (a' = a ∧ b' = b) ∨ (a' ≠ a ∧ t.lookup a' = some b') := by
  by_cases ha : a' = a
  · rw [ha, AList.lookup_insert] at h
    exact .inl ⟨ha, (Option.some.inj h).symm⟩
  · rw [AList.lookup_insert_ne ha] at h
    exact .inr ⟨ha, h⟩

theorem mem_values : b ∈ values t ↔ ∃ a, t.lookup a = some b := by
  constructor
  · intro h
    obtain ⟨⟨a, b'⟩, hmem, rfl⟩ := List.mem_map.mp h
    exact ⟨a, AList.mem_lookup_iff.mpr hmem⟩
  · rintro ⟨a, h⟩
    exact List.mem_map.mpr ⟨⟨a, b⟩, AList.mem_lookup_iff.mp h, rfl⟩

/-- Erasing a key takes its value out, and no other. -/
theorem values_erase (h : t.lookup a = some b) : (values t).Perm (b :: values (t.erase a)) := by
  have hmem : a ∈ t.keys := AList.lookup_isSome.mp (by rw [h]; rfl)
  obtain ⟨b', l₁, l₂, -, hsplit, herase⟩ := List.exists_of_kerase hmem
  have hb : t.lookup a = some b' := by
    refine AList.mem_lookup_iff.mpr ?_
    rw [hsplit]
    exact List.mem_append_right l₁ List.mem_cons_self
  obtain rfl := Option.some.inj (h.symm.trans hb)
  have hrest : (t.erase a).entries = l₁ ++ l₂ := herase
  unfold values
  rw [hsplit, hrest, List.map_append, List.map_append]
  exact List.perm_middle

theorem values_insert (h : t.lookup a = none) : values (t.insert a b) = b :: values t := by
  unfold values
  rw [AList.entries_insert_of_notMem (AList.lookup_eq_none.mp h)]
  rfl

end Table

end Ovpn2ss.Lib
