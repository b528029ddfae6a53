/-
  Draining a buffer: the loop `while (auto item = next(view)) ...` over any reader `next`
  that may fail, stop or hand out one item and a shorter view. Names nothing of the relay.

  `drain next fuel s v` is the loop with a bound on its iterations. A reader that shortens
  the view with every item (`Consumes`) cannot make more than `v.length` items, so
  `v.length + 1` iterations are as good as any larger bound (`drain_fuel`) and the loop run
  with that bound (`drainAll`) unfolds without any (`drainAll_item`, `drainAll_stop`).
  `drain_inv` is the rule for properties of a whole run.

  `Drains` is the loop without a bound: a derivation exists exactly if the loop ends, and for a
  consuming reader it always does (`drains_drainAll`). A reader that is `Stable` decides nothing
  on part of its input that it would decide otherwise on more; for such a reader it makes no
  difference how the input is cut into reads (`drainReads_eq`).
-/
import Mathlib.Data.List.Basic
import Mathlib.Tactic

namespace Ovpn2ss.Lib

variable {σ α β ε : Type}

/-- One call of a reader: an error, nothing, or an item, with the state and the view left. -/
abbrev Reader (σ α β ε : Type) := σ → List α → Except ε (Option β) × σ × List α

/-- What a drained loop leaves behind. -/
structure Drained (σ α β ε : Type) where
  items : List β
  state : σ
  rest : List α
  error : Option ε

/-- The loop, for at most `fuel` calls. -/
def drain (next : Reader σ α β ε) : Nat → σ → List α → Drained σ α β ε
  | 0, s, v => ⟨[], s, v, none⟩
  | fuel + 1, s, v =>
    match next s v with
    | (.error e, s', v') => ⟨[], s', v', some e⟩
    | (.ok none, s', v') => ⟨[], s', v', none⟩
    | (.ok (some b), s', v') =>
      let d := drain next fuel s' v'
      { d with items := b :: d.items }

/-- The loop with a bound that never binds for a consuming reader. -/
def drainAll (next : Reader σ α β ε) (s : σ) (v : List α) : Drained σ α β ε :=
  drain next (v.length + 1) s v

/-- Every item shortens the view. -/
def Consumes (next : Reader σ α β ε) : Prop :=
  ∀ s v b s' v', next s v = (.ok (some b), s', v') → v'.length < v.length

variable {next : Reader σ α β ε}

/-- Any two bounds above the length of the view give the same loop. -/
theorem drain_fuel (hc : Consumes next) {n m : Nat} (s : σ) (v : List α)
    (hn : v.length < n) (hm : v.length < m) : drain next n s v = drain next m s v := by
  induction n generalizing m s v with
  | zero => omega
  | succ n ih =>
    obtain ⟨m, rfl⟩ : ∃ k, m = k + 1 := ⟨m - 1, by omega⟩
    rw [drain, drain]
    rcases h : next s v with ⟨_ | _ | b, s', v'⟩
    · rfl
    · rfl
    · have hlt := hc s v b s' v' h
      dsimp only
      rw [ih s' v' (by omega) (by omega : v'.length < m)]

theorem drainAll_item (hc : Consumes next) {s s' : σ} {v v' : List α} {b : β}
    (h : next s v = (.ok (some b), s', v')) :
    drainAll next s v =
      { drainAll next s' v' with items := b :: (drainAll next s' v').items } := by
  have hlt := hc s v b s' v' h
  rw [drainAll, drain, h]
  dsimp only
  rw [drain_fuel hc s' v' hlt (Nat.lt_succ_self _)]
  rfl

theorem drainAll_stop {s s' : σ} {v v' : List α} (h : next s v = (.ok none, s', v')) :
    drainAll next s v = ⟨[], s', v', none⟩ := by
  rw [drainAll, drain, h]

/-- A property of the items so far and the state that every item keeps, and that calls
    without an item keep too, holds when the loop ends. -/
theorem drain_inv (P : List β → σ → Prop)
    (hitem : ∀ bs s v b s' v', P bs s → next s v = (.ok (some b), s', v') → P (bs ++ [b]) s')
    (hstop : ∀ bs s v s' v', P bs s → next s v = (.ok none, s', v') → P bs s')
    (hfail : ∀ bs s v e s' v', P bs s → next s v = (.error e, s', v') → P bs s')
    (fuel : Nat) (bs : List β) (s : σ) (v : List α) (h : P bs s) :
    P (bs ++ (drain next fuel s v).items) (drain next fuel s v).state := by
  induction fuel generalizing bs s v with
  | zero => simpa [drain] using h
  | succ fuel ih =>
    rw [drain]
    rcases hn : next s v with ⟨_ | _ | b, s', v'⟩
    · simpa using hfail bs s v _ s' v' h hn
    · simpa using hstop bs s v s' v' h hn
    · have := ih (bs ++ [b]) s' v' (hitem bs s v b s' v' h hn)
      simpa [List.append_assoc] using this

/-- A relation that every call keeps relates the first state to the last. -/
theorem drain_trans (R : σ → σ → Prop) (hrefl : ∀ s, R s s)
    (htrans : ∀ s s' s'', R s s' → R s' s'' → R s s'') (hnext : ∀ s v, R s (next s v).2.1)
    (fuel : Nat) (s : σ) (v : List α) : R s (drain next fuel s v).state := by
  induction fuel generalizing s v with
  | zero => exact hrefl s
  | succ fuel ih =>
    have hn := hnext s v
    rw [drain]
    rcases h : next s v with ⟨_ | _ | b, s', v'⟩
    · rwa [h] at hn
    · rwa [h] at hn
    · rw [h] at hn
      exact htrans _ _ _ hn (ih s' v')

/-- Related states that every call relates again, with equal answers, drain alike. -/
theorem drain_sim (R : σ → σ → Prop)
    (hnext : ∀ s t v, R s t → (next t v).1 = (next s v).1 ∧ R (next s v).2.1 (next t v).2.1 ∧
      (next t v).2.2 = (next s v).2.2)
    (fuel : Nat) {s t : σ} (h : R s t) (v : List α) :
    (drain next fuel t v).items = (drain next fuel s v).items ∧
    R (drain next fuel s v).state (drain next fuel t v).state ∧
    (drain next fuel t v).rest = (drain next fuel s v).rest ∧
    (drain next fuel t v).error = (drain next fuel s v).error := by
  induction fuel generalizing s t v with
  | zero => exact ⟨rfl, h, rfl, rfl⟩
  | succ fuel ih =>
    have hn := hnext s t v h
    rw [drain, drain]
    rcases hs : next s v with ⟨r, s', v'⟩
    rcases ht : next t v with ⟨r', t', w'⟩
    rw [hs, ht] at hn
    obtain ⟨rfl, hst, rfl⟩ := hn
    rcases r' with e | _ | b
    · exact ⟨rfl, hst, rfl, rfl⟩
    · exact ⟨rfl, hst, rfl, rfl⟩
    · obtain ⟨h1, h2, h3, h4⟩ := ih hst w'
      exact ⟨congrArg (b :: ·) h1, h2, h3, h4⟩

/-! ## The loop without a bound -/

/-- The loop ends at the first call that fails or hands out nothing. -/
inductive Drains (next : Reader σ α β ε) : σ → List α → Drained σ α β ε → Prop
  | fail {s s' : σ} {v v' : List α} {e : ε} (h : next s v = (.error e, s', v')) :
      Drains next s v ⟨[], s', v', some e⟩
  | stop {s s' : σ} {v v' : List α} (h : next s v = (.ok none, s', v')) :
      Drains next s v ⟨[], s', v', none⟩
  | item {s s' : σ} {v v' : List α} {b : β} {d : Drained σ α β ε}
      (h : next s v = (.ok (some b), s', v')) (hd : Drains next s' v' d) :
      Drains next s v { d with items := b :: d.items }

theorem Drains.unique {s : σ} {v : List α} {d d' : Drained σ α β ε} (h : Drains next s v d)
    (h' : Drains next s v d') : d = d' := by
  induction h generalizing d' with
  | fail h =>
    cases h' with
    | fail h' => cases h.symm.trans h'; rfl
    | stop h' => cases h.symm.trans h'
    | item h' => cases h.symm.trans h'
  | stop h =>
    cases h' with
    | fail h' => cases h.symm.trans h'
    | stop h' => cases h.symm.trans h'; rfl
    | item h' => cases h.symm.trans h'
  | item h _ ih =>
    cases h' with
    | fail h' => cases h.symm.trans h'
    | stop h' => cases h.symm.trans h'
    | item h' hd' =>
      cases h.symm.trans h'
      rw [ih hd']

/-- The loop over a consuming reader ends. -/
theorem drains_drainAll (hc : Consumes next) (s : σ) (v : List α) :
    Drains next s v (drainAll next s v) := by
  -- induction on a bound of the length of the view, which every item shortens
  obtain ⟨n, hn⟩ : ∃ n, v.length < n := ⟨_, Nat.lt_succ_self _⟩
  induction n generalizing s v with
  | zero => omega
  | succ n ih =>
    rcases h : next s v with ⟨e | _ | b, s', v'⟩
    · have hd : drainAll next s v = ⟨[], s', v', some e⟩ := by rw [drainAll, drain, h]
      rw [hd]
      exact .fail h
    · rw [drainAll_stop h]
      exact .stop h
    · have hlt := hc s v b s' v' h
      rw [drainAll_item hc h]
      exact .item h (ih s' v' (by omega))

/-! ## Cutting the input -/

/-- A call decides on part of its input as it would on all of it, or decides nothing and changes
    nothing. -/
structure Stable (next : Reader σ α β ε) : Prop where
  fail : ∀ s v e s' v' x, next s v = (.error e, s', v') → next s (v ++ x) = (.error e, s', v' ++ x)
  stop : ∀ s v s' v', next s v = (.ok none, s', v') → s' = s ∧ v' = v
  item : ∀ s v b s' v' x, next s v = (.ok (some b), s', v') →
    next s (v ++ x) = (.ok (some b), s', v' ++ x)

/-- A loop that ended without failing stands at a call that hands out nothing. -/
theorem Drains.halted (hs : Stable next) {s : σ} {v : List α} {d : Drained σ α β ε}
    (h : Drains next s v d) (hd : d.error = none) :
    next d.state d.rest = (.ok none, d.state, d.rest) := by
  induction h with
  | fail => cases hd
  | @stop s s' v v' h =>
    obtain ⟨rfl, rfl⟩ := hs.stop s v s' v' h
    exact h
  | item _ _ ih => exact ih hd

/-- A loop that failed fails in the same way on more input. -/
theorem Drains.append_fail (hs : Stable next) {s : σ} {v : List α} {d : Drained σ α β ε}
    (h : Drains next s v d) (hd : d.error ≠ none) (x : List α) :
    Drains next s (v ++ x) { d with rest := d.rest ++ x } := by
  induction h with
  | fail h => exact .fail (hs.fail _ _ _ _ _ x h)
  | stop => exact absurd rfl hd
  | item h _ ih => exact .item (hs.item _ _ _ _ _ x h) (ih hd)

/-- A loop that ended goes on where it stopped. -/
theorem Drains.append (hs : Stable next) {s : σ} {v x : List α} {d d' : Drained σ α β ε}
    (h : Drains next s v d) (hd : d.error = none) (h' : Drains next d.state (d.rest ++ x) d') :
    Drains next s (v ++ x) { d' with items := d.items ++ d'.items } := by
  induction h with
  | fail => cases hd
  | @stop s s' v v' h =>
    obtain ⟨rfl, rfl⟩ := hs.stop s v s' v' h
    exact h'
  | item h _ ih => exact .item (hs.item _ _ _ _ _ x h) (ih hd h')

/-- The loop run on one read after the other, each on what the last left and the new read. After
    a failure nothing more is read. -/
def drainReads (next : Reader σ α β ε) : σ → List α → List (List α) → Drained σ α β ε
  | s, v, [] => ⟨[], s, v, none⟩
  | s, v, r :: rs =>
    let d := drainAll next s (v ++ r)
    match d.error with
    | some _ => { d with rest := d.rest ++ rs.flatten }
    | none =>
      let d' := drainReads next d.state d.rest rs
      { d' with items := d.items ++ d'.items }

/-- However the input is cut, the reads give what one read of all of it gives. -/
theorem drainReads_eq (hc : Consumes next) (hs : Stable next) {s : σ} {v : List α}
    (hv : next s v = (.ok none, s, v)) (rs : List (List α)) :
    drainReads next s v rs = drainAll next s (v ++ rs.flatten) := by
  induction rs generalizing s v with
  | nil => rw [List.flatten_nil, List.append_nil, drainAll_stop hv, drainReads]
  | cons r rs ih =>
    have hd := drains_drainAll hc s (v ++ r)
    rw [List.flatten_cons, ← List.append_assoc, drainReads]
    dsimp only
    split
    · next e he =>
      refine (hd.append_fail hs ?_ rs.flatten).unique (drains_drainAll hc _ _)
      rw [he]
      exact Option.some_ne_none e
    · next he =>
      rw [ih (hd.halted hs he)]
      exact (hd.append hs he (drains_drainAll hc _ _)).unique (drains_drainAll hc _ _)

end Ovpn2ss.Lib
