/-
  Loops that may fail, with a bound on their iterations. Names nothing of the relay.

  `f` is one iteration of a loop on its state, `none` a failure. `Within f n s t` says that the
  loop gets from `s` to `t` in at most `n` iterations, none of which fails. Two stretches are put
  together with `Within.trans`, which adds their bounds.

  A counter of 16 bits that is tested against a bound before it is incremented does not wrap
  (`toNat_succ_of_lt`).
-/
import Mathlib.Data.List.Basic

namespace Ovpn2ss.Lib

variable {σ : Type} {f : σ → Option σ} {s t u : σ} {m n : Nat}

inductive Within (f : σ → Option σ) : Nat → σ → σ → Prop
  | refl (n : Nat) (s : σ) : Within f n s s
  | step {n : Nat} {s t : σ} (mid : σ) : f s = some mid → Within f n mid t → Within f (n + 1) s t

theorem Within.mono (h : Within f m s t) (hle : m ≤ n) : Within f n s t := by
  induction h generalizing n with
  | refl m s => exact .refl n s
  | step mid hs _ ih =>
    obtain ⟨n, rfl⟩ := Nat.exists_eq_add_of_lt hle
    exact .step mid hs (ih (Nat.le_add_right _ _))

theorem Within.trans (h : Within f m s t) (h' : Within f n t u) : Within f (m + n) s u := by
  induction h with
  | refl m s => exact h'.mono (Nat.le_add_left _ _)
  | step mid hs _ ih =>
    rw [Nat.succ_add]
    exact .step mid hs (ih h')

theorem Within.snoc (h : Within f m s t) (hs : f t = some u) : Within f (m + 1) s u :=
  h.trans (.step u hs (.refl 0 u))

theorem toNat_succ_of_lt {i bound : UInt16} (h : i < bound) : (i + 1).toNat = i.toNat + 1 := by
  have hlt : i.toNat < bound.toNat := UInt16.lt_iff_toNat_lt.mp h
  have hbound := bound.toNat_lt
  rw [UInt16.toNat_add, UInt16.toNat_one, Nat.mod_eq_of_lt (by omega)]

end Ovpn2ss.Lib
