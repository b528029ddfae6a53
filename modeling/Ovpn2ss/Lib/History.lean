/-
  A component of a larger system: the state of an event machine with the events that led to it. Names
  nothing of the relay.

  In a system of several machines each of them takes steps of its own, between those of the others.
  A `History` is reached by construction: what holds of every run of the machine holds of the
  component, whatever the rest of the system does in between.
-/
import Ovpn2ss.Lib.Machine

namespace Ovpn2ss.Lib

variable {σ ε : Type}

structure History (step : σ → ε → Option σ) (s₀ : σ) where
  events : List ε
  state : σ
  reached : run step s₀ events = some state

namespace History

variable {step : σ → ε → Option σ} {s₀ : σ}

def initial : History step s₀ := ⟨[], s₀, rfl⟩

theorem run_snoc {s s' : σ} {es : List ε} {e : ε} (h : run step s₀ es = some s)
    (hs : step s e = some s') : run step s₀ (es ++ [e]) = some s' :=
  run_append.mpr ⟨s, h, run_cons.mpr ⟨s', hs, rfl⟩⟩

/-- One more event, if it can happen. -/
def extend (h : History step s₀) (e : ε) : Option (History step s₀) :=
  match hs : step h.state e with
  | none => none
  | some s => some ⟨h.events ++ [e], s, run_snoc h.reached hs⟩

theorem extend_eq_some {h h' : History step s₀} {e : ε} :
    h.extend e = some h' ↔ step h.state e = some h'.state ∧ h'.events = h.events ++ [e] := by
  obtain ⟨events, state, reached⟩ := h'
  unfold extend
  split
  · rename_i hs
    rw [hs]
    exact iff_of_false (by simp) (by simp)
  · rename_i s hs
    rw [Option.some.injEq, History.mk.injEq]
    constructor
    · rintro ⟨hevents, hstate⟩
      exact ⟨hs.trans (congrArg some hstate), hevents.symm⟩
    · rintro ⟨hstate, hevents⟩
      exact ⟨hevents.symm, Option.some.inj (hs.symm.trans hstate)⟩

theorem exists_extend {h : History step s₀} {e : ε} {s : σ} (hs : step h.state e = some s) :
    ∃ h', h.extend e = some h' ∧ h'.state = s :=
  ⟨⟨h.events ++ [e], s, run_snoc h.reached hs⟩, extend_eq_some.mpr ⟨hs, rfl⟩, rfl⟩

/-- The event happened in a state with `B`. -/
def SawIn (h : History step s₀) (B : σ → Prop) (e : ε) : Prop :=
  ∃ es₁ es₂ s, h.events = es₁ ++ e :: es₂ ∧ run step s₀ es₁ = some s ∧ B s

theorem sawIn_extend {h h' : History step s₀} {B : σ → Prop} {e : ε} (hext : h.extend e = some h')
    (hB : B h.state) : h'.SawIn B e :=
  ⟨h.events, [], h.state, (extend_eq_some.mp hext).2, h.reached, hB⟩

theorem SawIn.extend {h h' : History step s₀} {B : σ → Prop} {e e' : ε} (hsaw : h.SawIn B e)
    (hext : h.extend e' = some h') : h'.SawIn B e := by
  obtain ⟨es₁, es₂, s, hevents, hrest⟩ := hsaw
  refine ⟨es₁, es₂ ++ [e'], s, ?_, hrest⟩
  rw [(extend_eq_some.mp hext).2, hevents, List.append_assoc, List.cons_append]

end History

/-! ## A list of components, to which one is added or in which one takes a step -/

section

variable {α : Type} {l : List α} {a b : α} {j k : Nat}

theorem getElem?_concat_of_some (h : l[j]? = some a) (b : α) : (l ++ [b])[j]? = some a :=
  (List.getElem?_append_left (List.getElem?_eq_some_iff.mp h).1).trans h

theorem getElem?_of_concat (h : (l ++ [b])[j]? = some a) : l[j]? = some a ∨ j = l.length ∧ a = b := by
  rw [List.getElem?_append] at h
  split at h
  · exact Or.inl h
  · rw [List.getElem?_singleton] at h
    split at h
    · exact Or.inr ⟨by omega, (Option.some.inj h).symm⟩
    · cases h

/-- A count that is zero for the new component. -/
theorem getD_concat {f : α → Nat} (hb : f b = 0) (j : Nat) :
    ((l ++ [b])[j]?.map f).getD 0 = (l[j]?.map f).getD 0 := by
  cases hj : (l ++ [b])[j]? with
  | none =>
    rw [List.getElem?_eq_none_iff, List.length_append] at hj
    rw [List.getElem?_eq_none_iff.mpr (Nat.le_of_add_right_le hj)]
  | some a =>
    rcases getElem?_of_concat hj with hl | ⟨rfl, rfl⟩
    · rw [hl]
    · rw [List.getElem?_eq_none_iff.mpr (Nat.le_refl _)]
      exact hb

theorem getElem?_set_of_some (a' : α) (hk : l[k]? = some a) (h : l[j]? = some b) :
    (l.set k a')[j]? = some b ∨ j = k ∧ b = a ∧ (l.set k a')[j]? = some a' := by
  by_cases hj : k = j
  · subst hj
    have hset := List.getElem?_set_self (a := a') (List.getElem?_eq_some_iff.mp hk).1
    exact Or.inr ⟨rfl, Option.some.inj (h.symm.trans hk), hset⟩
  · exact Or.inl ((List.getElem?_set_ne hj).trans h)

theorem getElem?_of_set {a' : α} (h : (l.set k a')[j]? = some b) : l[j]? = some b ∨ j = k ∧ b = a' := by
  rw [List.getElem?_set] at h
  split at h
  · rename_i hj
    split at h
    · exact Or.inr ⟨hj.symm, (Option.some.inj h).symm⟩
    · cases h
  · exact Or.inl h

end

end Ovpn2ss.Lib
