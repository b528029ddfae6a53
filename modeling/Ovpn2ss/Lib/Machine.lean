/-
  Event machines: a partial step function `step : σ → ε → Option σ` and its runs. An event
  that cannot happen in a state has no step there. Names nothing of the relay.

  `run_inv` is the invariant rule and `run_guarded_inv` the same rule for runs each of whose
  steps meets a condition on the state before it and the event (`Along`). Where such a condition
  is exactly what keeps a property in every state of a run (`Always`), `always_iff_along` says so.
  `along_of_inv` gets such a condition from an invariant. `run_countP_le` bounds the events of a
  kind by a rank that they lower. `run_append` cuts a run in two. `collect` lists what the steps of a
  run hand out; `run_collect_inv` and `run_collect_guarded_inv` are the invariant rules for properties
  of the state and that list.
-/
import Mathlib.Data.List.Basic
import Mathlib.Tactic

namespace Ovpn2ss.Lib

variable {σ ε : Type}

/-- The state after a list of events, if each of them can happen in turn. -/
def run (step : σ → ε → Option σ) : σ → List ε → Option σ
  | s, [] => some s
  | s, e :: es => (step s e).bind fun s' => run step s' es

/-- Every step of the run from `s` meets `G`, a condition on the state before and the event. -/
def Along (step : σ → ε → Option σ) (G : σ → ε → Prop) : σ → List ε → Prop
  | _, [] => True
  | s, e :: es => G s e ∧ ∀ s', step s e = some s' → Along step G s' es

/-- `B` holds in every state of the run from `s`. -/
def Always (step : σ → ε → Option σ) (B : σ → Prop) : σ → List ε → Prop
  | s, [] => B s
  | s, e :: es => B s ∧ ∀ s', step s e = some s' → Always step B s' es

variable {step : σ → ε → Option σ} {G : σ → ε → Prop}

@[simp] theorem run_nil (s : σ) : run step s [] = some s := rfl

theorem run_cons {s s' : σ} {e : ε} {es : List ε} :
    run step s (e :: es) = some s' ↔ ∃ m, step s e = some m ∧ run step m es = some s' := by
  rw [run, Option.bind_eq_some_iff]

theorem run_append {s s' : σ} {es fs : List ε} :
    run step s (es ++ fs) = some s' ↔ ∃ m, run step s es = some m ∧ run step m fs = some s' := by
  induction es generalizing s with
  | nil => simp
  | cons e es ih =>
    rw [List.cons_append, run_cons]
    constructor
    · rintro ⟨m, hm, h⟩
      obtain ⟨k, hk, h⟩ := ih.mp h
      exact ⟨k, run_cons.mpr ⟨m, hm, hk⟩, h⟩
    · rintro ⟨k, hk, h⟩
      obtain ⟨m, hm, hk⟩ := run_cons.mp hk
      exact ⟨m, hm, ih.mpr ⟨k, hk, h⟩⟩

theorem along_of_forall {es : List ε} (h : ∀ e ∈ es, ∀ s, G s e) (s : σ) : Along step G s es := by
  induction es generalizing s with
  | nil => trivial
  | cons e es ih =>
    refine ⟨h e List.mem_cons_self s, fun s' _ => ih (fun e' he' => ?_) s'⟩
    exact h e' (List.mem_cons_of_mem e he')

theorem along_cons_of_none {s : σ} {e : ε} {es : List ε} (h : step s e = none) :
    Along step G s (e :: es) ↔ G s e := by
  simp [Along, h]

theorem along_cons_of_some {s m : σ} {e : ε} {es : List ε} (h : step s e = some m) :
    Along step G s (e :: es) ↔ G s e ∧ Along step G m es := by
  simp [Along, h]

instance decidableAlong [∀ s e, Decidable (G s e)] : ∀ s es, Decidable (Along step G s es)
  | _, [] => .isTrue trivial
  | s, e :: es =>
    match h : step s e with
    | none => decidable_of_iff _ (along_cons_of_none h).symm
    | some m =>
      have := decidableAlong m es
      decidable_of_iff _ (along_cons_of_some h).symm

/-- What every step that meets `G` keeps, every run whose steps meet `G` keeps. -/
theorem run_guarded_inv (I : σ → Prop)
    (hstep : ∀ s e s', I s → G s e → step s e = some s' → I s')
    {s s' : σ} {es : List ε} (hI : I s) (hG : Along step G s es)
    (h : run step s es = some s') : I s' := by
  induction es generalizing s with
  | nil =>
    obtain rfl := Option.some.inj h
    exact hI
  | cons e es ih =>
    obtain ⟨m, hm, h⟩ := run_cons.mp h
    exact ih (hstep s e m hI hG.1 hm) (hG.2 m hm) h

/-- What every step keeps, every run keeps. -/
theorem run_inv (I : σ → Prop) (hstep : ∀ s e s', I s → step s e = some s' → I s')
    {s s' : σ} {es : List ε} (hI : I s) (h : run step s es = some s') : I s' := by
  have hG : Along step (fun _ _ => True) s es := along_of_forall (fun _ _ _ => trivial) s
  exact run_guarded_inv I (fun s e s' hI _ hs => hstep s e s' hI hs) hI hG h

/-- A condition on the steps together with one on the events. -/
theorem Along.and_events {E : ε → Prop} {s : σ} {es : List ε} (h : Along step G s es)
    (hE : ∀ e ∈ es, E e) : Along step (fun s e => G s e ∧ E e) s es := by
  induction es generalizing s with
  | nil => trivial
  | cons e es ih =>
    refine ⟨⟨h.1, hE e List.mem_cons_self⟩, fun s' hs => ih (h.2 s' hs) fun e' he' => ?_⟩
    exact hE e' (List.mem_cons_of_mem e he')

theorem Along.of_append {s : σ} {es fs : List ε} (h : Along step G s (es ++ fs)) : Along step G s es := by
  induction es generalizing s with
  | nil => trivial
  | cons e es ih => exact ⟨h.1, fun s' hs => ih (h.2 s' hs)⟩

/-- A condition that follows from an invariant of the steps of `es` is met along `es`. -/
theorem along_of_inv {I : σ → Prop} {s : σ} {es : List ε}
    (hstep : ∀ e ∈ es, ∀ s s', I s → step s e = some s' → I s') (hG : ∀ e ∈ es, ∀ s, I s → G s e)
    (hI : I s) : Along step G s es := by
  induction es generalizing s with
  | nil => trivial
  | cons e es ih =>
    refine ⟨hG e List.mem_cons_self s hI, fun s' hs' => ih ?_ ?_ ?_⟩
    · exact fun e' he' => hstep e' (List.mem_cons_of_mem e he')
    · exact fun e' he' => hG e' (List.mem_cons_of_mem e he')
    · exact hstep e List.mem_cons_self s s' hI hs'

/-- If no step that meets `G` raises the rank, and each with an event in `p` lowers it, then a run of
    such steps has no more events in `p` than it lowers the rank. -/
theorem run_countP_le (p : ε → Bool) (rank : σ → Nat)
    (hstep : ∀ s e s', G s e → step s e = some s' → (if p e then 1 else 0) + rank s' ≤ rank s)
    {s s' : σ} {es : List ε} (hG : Along step G s es) (h : run step s es = some s') :
    es.countP p + rank s' ≤ rank s := by
  induction es generalizing s with
  | nil =>
    obtain rfl := Option.some.inj h
    exact (Nat.zero_add _).le
  | cons e es ih =>
    obtain ⟨m, hm, h⟩ := run_cons.mp h
    have hfirst := hstep s e m hG.1 hm
    have hrest := ih (hG.2 m hm) h
    rw [List.countP_cons]
    omega

/-- If `I` implies `B`, steps that meet `G` keep `I`, and only such steps lead from `I` to `B`, then
    `B` holds all along a run from `I` exactly if all its steps meet `G`. -/
theorem always_iff_along {I B : σ → Prop} (hB : ∀ s, I s → B s)
    (hkeep : ∀ s e s', I s → G s e → step s e = some s' → I s')
    (hneed : ∀ s e s', I s → step s e = some s' → B s' → G s e)
    {s s' : σ} {es : List ε} (hI : I s) (h : run step s es = some s') :
    Always step B s es ↔ Along step G s es := by
  induction es generalizing s with
  | nil => exact iff_of_true (hB s hI) trivial
  | cons e es ih =>
    obtain ⟨m, hm, h⟩ := run_cons.mp h
    constructor
    · rintro ⟨-, hrest⟩
      have hrest := hrest m hm
      have hGe : G s e := by
        refine hneed s e m hI hm ?_
        cases es with
        | nil => exact hrest
        | cons e' es => exact hrest.1
      refine ⟨hGe, fun m' hm' => ?_⟩
      obtain rfl := Option.some.inj (hm.symm.trans hm')
      exact (ih (hkeep s e m hI hGe hm) h).mp hrest
    · rintro ⟨hGe, hrest⟩
      refine ⟨hB s hI, fun m' hm' => ?_⟩
      obtain rfl := Option.some.inj (hm.symm.trans hm')
      exact (ih (hkeep s e m hI hGe hm) h).mpr (hrest m hm)

/-! ## What a run hands out -/

/-- What the steps of a run hand out, in order. -/
def collect {ω : Type} (step : σ → ε → Option σ) (out : σ → ε → List ω) : σ → List ε → List ω
  | _, [] => []
  | s, e :: es => out s e ++ ((step s e).map fun s' => collect step out s' es).getD []

/-- What a run hands out, one of its steps hands out. -/
theorem mem_collect {ω : Type} {out : σ → ε → List ω} {o : ω} {s : σ} {es : List ε}
    (h : o ∈ collect step out s es) : ∃ s e, o ∈ out s e := by
  induction es generalizing s with
  | nil => cases h
  | cons e es ih =>
    rw [collect, List.mem_append] at h
    rcases h with h | h
    · exact ⟨s, e, h⟩
    · cases hs : step s e with
      | none =>
        rw [hs] at h
        cases h
      | some m =>
        rw [hs] at h
        exact ih h

/-- What the events of a run hand out, if it does not depend on the state. -/
theorem collect_events {ω : Type} {out : ε → List ω} {s s' : σ} {es : List ε}
    (h : run step s es = some s') : collect step (fun _ => out) s es = es.flatMap out := by
  induction es generalizing s with
  | nil => rfl
  | cons e es ih =>
    obtain ⟨m, hm, h⟩ := run_cons.mp h
    rw [collect, hm, Option.map_some, Option.getD_some, ih h, List.flatMap_cons]

/-- What every step that meets `G` keeps, given what it hands out, every run of such steps keeps. -/
theorem run_collect_guarded_inv {ω : Type} (out : σ → ε → List ω) (I : List ω → σ → Prop)
    (hstep : ∀ os s e s', I os s → G s e → step s e = some s' → I (os ++ out s e) s')
    {s s' : σ} {es : List ε} (hI : I [] s) (hG : Along step G s es) (h : run step s es = some s') :
    I (collect step out s es) s' := by
  -- generalised over what was handed out before
  suffices hgen : ∀ os, I os s → I (os ++ collect step out s es) s' from hgen [] hI
  clear hI
  induction es generalizing s with
  | nil =>
    intro os hos
    obtain rfl := Option.some.inj h
    rw [collect, List.append_nil]
    exact hos
  | cons e es ih =>
    intro os hos
    obtain ⟨m, hm, h⟩ := run_cons.mp h
    rw [collect, hm, Option.map_some, Option.getD_some, ← List.append_assoc]
    exact ih (hG.2 m hm) h _ (hstep os s e m hos hG.1 hm)

/-- What every step keeps, given what it hands out, every run keeps. -/
theorem run_collect_inv {ω : Type} (out : σ → ε → List ω) (I : List ω → σ → Prop)
    (hstep : ∀ os s e s', I os s → step s e = some s' → I (os ++ out s e) s')
    {s s' : σ} {es : List ε} (hI : I [] s) (h : run step s es = some s') :
    I (collect step out s es) s' := by
  have hG : Along step (fun _ _ => True) s es := along_of_forall (fun _ _ _ => trivial) s
  exact run_collect_guarded_inv out I (fun os s e s' hI _ hs => hstep os s e s' hI hs) hI hG h

/-- What every step keeps, given the events so far, every run keeps. -/
theorem run_history_inv (I : List ε → σ → Prop) {s₀ : σ} (hI : I [] s₀)
    (hstep : ∀ es s e s', run step s₀ es = some s → I es s → step s e = some s' → I (es ++ [e]) s')
    {s : σ} {es : List ε} (h : run step s₀ es = some s) : I es s := by
  induction es using List.reverseRecOn generalizing s with
  | nil =>
    obtain rfl := Option.some.inj h
    exact hI
  | append_singleton es e ih =>
    obtain ⟨m, hm, h⟩ := run_append.mp h
    obtain ⟨m', hm', h⟩ := run_cons.mp h
    obtain rfl := Option.some.inj h
    exact hstep es m e _ hm (ih hm) hm'

end Ovpn2ss.Lib
