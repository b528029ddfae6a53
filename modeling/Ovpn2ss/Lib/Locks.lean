/-
  Threads that take locks and give them back. Names nothing of the relay.

  A thread has the locks it holds and what it still does. A lock that another thread holds has to be
  waited for, and one that the thread holds itself can only be taken again if it is recursive. A thread
  is `Ordered` if it takes each lock with a higher rank than all that it holds, or takes one again, and
  gives all of them back in the end; `Balanced` is the same of a part of a thread, and composes.

  `completes`: ordered threads, however far they have come, can all get to their ends. So they never
  wait for each other in a circle.
-/
import Ovpn2ss.Lib.Machine
import Mathlib.Data.Fintype.BigOperators

namespace Ovpn2ss.Lib.Locks

inductive Op (L : Type) where
  | acquire (l : L)
  | release (l : L)

structure Thread (L : Type) where
  held : List L
  todo : List (Op L)

variable {ι L : Type} [DecidableEq L]

/-- A block under a lock. -/
def locked (l : L) (body : List (Op L)) : List (Op L) := .acquire l :: (body ++ [.release l])

section

variable (recursive : L → Bool) (rank : L → Nat)

/-- One step of thread `i`. -/
def step [DecidableEq ι] [Fintype ι] (s : ι → Thread L) (i : ι) : Option (ι → Thread L) :=
  match (s i).todo with
  | [] => none
  | .acquire l :: todo =>
    if (∀ j, l ∈ (s j).held → j = i) ∧ (l ∈ (s i).held → recursive l = true) then
      some (Function.update s i ⟨l :: (s i).held, todo⟩)
    else none
  | .release l :: todo =>
    if l ∈ (s i).held then some (Function.update s i ⟨(s i).held.erase l, todo⟩) else none

/-- The lock may be taken on top of those held. -/
def Above (held : List L) (l : L) : Prop :=
  (l ∈ held ∧ recursive l = true) ∨ ∀ m ∈ held, rank m < rank l

def Ordered : List L → List (Op L) → Prop
  | held, [] => held = []
  | held, .acquire l :: todo => Above recursive rank held l ∧ Ordered (l :: held) todo
  | held, .release l :: todo => l ∈ held ∧ Ordered (held.erase l) todo

/-- A part of a thread that leaves the locks as they were. -/
def Balanced (held : List L) (ops : List (Op L)) : Prop :=
  ∀ todo, Ordered recursive rank held todo → Ordered recursive rank held (ops ++ todo)

end

variable {recursive : L → Bool} {rank : L → Nat} {held : List L}

theorem Balanced.nil : Balanced recursive rank held [] := fun _ h => h

theorem Balanced.append {ops ops' : List (Op L)} (h : Balanced recursive rank held ops)
    (h' : Balanced recursive rank held ops') : Balanced recursive rank held (ops ++ ops') := by
  intro todo htodo
  rw [List.append_assoc]
  exact h _ (h' _ htodo)

theorem Balanced.locked {l : L} {body : List (Op L)} (hl : Above recursive rank held l)
    (h : Balanced recursive rank (l :: held) body) : Balanced recursive rank held (locked l body) := by
  intro todo htodo
  have hrelease : Ordered recursive rank (l :: held) (.release l :: todo) :=
    ⟨List.mem_cons_self, by rwa [List.erase_cons_head]⟩
  have hbody := h _ hrelease
  rw [List.append_cons] at hbody
  exact ⟨hl, hbody⟩

theorem Balanced.flatten {parts : List (List (Op L))} (h : ∀ ops ∈ parts, Balanced recursive rank held ops) :
    Balanced recursive rank held parts.flatten := by
  induction parts with
  | nil => exact .nil
  | cons ops parts ih =>
    obtain ⟨hops, hparts⟩ := List.forall_mem_cons.mp h
    exact hops.append (ih hparts)

/-! ## Threads side by side -/

variable [DecidableEq ι] {s t : ι → Thread L}

/-- No lock is held twice, and every thread is ordered. -/
structure Sound (recursive : L → Bool) (rank : L → Nat) (s : ι → Thread L) : Prop where
  exclusive : ∀ i j l, l ∈ (s i).held → l ∈ (s j).held → i = j
  ordered : ∀ i, Ordered recursive rank (s i).held (s i).todo

/-- A thread may change as long as what it holds is held by no other. -/
theorem Sound.update {i : ι} {th : Thread L} (h : Sound recursive rank s)
    (hfree : ∀ l ∈ th.held, ∀ j, l ∈ (s j).held → j = i) (hth : Ordered recursive rank th.held th.todo) :
    Sound recursive rank (Function.update s i th) := by
  refine ⟨fun a b l ha hb => ?_, fun j => ?_⟩
  · by_cases hai : a = i <;> by_cases hbi : b = i
    · rw [hai, hbi]
    · rw [hai, Function.update_self] at ha
      rw [Function.update_of_ne hbi] at hb
      rw [hai, hfree l ha b hb]
    · rw [Function.update_of_ne hai] at ha
      rw [hbi, Function.update_self] at hb
      rw [hbi, hfree l hb a ha]
    · rw [Function.update_of_ne hai] at ha
      rw [Function.update_of_ne hbi] at hb
      exact h.exclusive a b l ha hb
  · by_cases hj : j = i
    · rw [hj, Function.update_self]
      exact hth
    · rw [Function.update_of_ne hj]
      exact h.ordered j

variable [Fintype ι]

/-- The inversion of `step`. -/
theorem step_cases {i : ι} (hs : step recursive s i = some t) : ∃ l todo,
    ((s i).todo = .acquire l :: todo ∧ (∀ j, l ∈ (s j).held → j = i) ∧
        t = Function.update s i ⟨l :: (s i).held, todo⟩) ∨
      ((s i).todo = .release l :: todo ∧ t = Function.update s i ⟨(s i).held.erase l, todo⟩) := by
  unfold step at hs
  split at hs
  · cases hs
  · rename_i l todo htodo
    split at hs
    · rename_i hfree
      exact ⟨l, todo, Or.inl ⟨htodo, hfree.1, (Option.some.inj hs).symm⟩⟩
    · cases hs
  · rename_i l todo htodo
    split at hs
    · exact ⟨l, todo, Or.inr ⟨htodo, (Option.some.inj hs).symm⟩⟩
    · cases hs

theorem sound_step {i : ι} (h : Sound recursive rank s) (hs : step recursive s i = some t) :
    Sound recursive rank t := by
  have hordered := h.ordered i
  obtain ⟨l, todo, ⟨htodo, hfree, rfl⟩ | ⟨htodo, rfl⟩⟩ := step_cases hs
  · rw [htodo] at hordered
    refine h.update (List.forall_mem_cons.mpr ⟨hfree, fun m hm j hj => ?_⟩) hordered.2
    exact h.exclusive j i m hj hm
  · rw [htodo] at hordered
    exact h.update (fun m hm j hj => h.exclusive j i m hj (List.mem_of_mem_erase hm)) hordered.2

/-- A thread that cannot go on is before a lock that is held, and higher than all it holds. -/
theorem waits_of_stuck {i : ι} (h : Sound recursive rank s) (hno : step recursive s i = none)
    (hi : (s i).todo ≠ []) : ∃ l todo j, (s i).todo = .acquire l :: todo ∧ l ∈ (s j).held ∧
      ∀ m ∈ (s i).held, rank m < rank l := by
  have hordered := h.ordered i
  unfold step at hno
  split at hno
  · rename_i htodo
    exact absurd htodo hi
  · rename_i l todo htodo
    rw [htodo] at hordered
    split at hno
    · cases hno
    · rename_i hblocked
      obtain ⟨hown, hrec⟩ | habove := hordered.1
      · -- its own lock it could take again
        exact absurd ⟨fun j hj => h.exclusive j i l hj hown, fun _ => hrec⟩ hblocked
      · have hnot : l ∉ (s i).held := fun hown => Nat.lt_irrefl _ (habove l hown)
        by_contra hfree
        refine hblocked ⟨fun j hj => ?_, fun hown => absurd hown hnot⟩
        exact absurd ⟨l, todo, j, htodo, hj, habove⟩ hfree
  · rename_i l todo htodo
    rw [htodo] at hordered
    rw [if_pos hordered.1] at hno
    cases hno

/-- The rank of the lock that a thread takes next. -/
def wants (rank : L → Nat) (th : Thread L) : Nat :=
  match th.todo with
  | .acquire l :: _ => rank l
  | _ => 0

/-- Of the threads that are not at their ends one can go on. -/
theorem exists_step (h : Sound recursive rank s) (hlive : ∃ i, (s i).todo ≠ []) :
    ∃ i t, step recursive s i = some t := by
  by_contra hstuck
  have hnone (i : ι) : step recursive s i = none := by
    cases hs : step recursive s i with
    | none => rfl
    | some t => exact absurd ⟨i, t, hs⟩ hstuck
  -- the thread that wants the highest lock waits for one that wants a higher one
  have hsome : (Finset.univ.filter fun i => (s i).todo ≠ []).Nonempty := by
    obtain ⟨i, hi⟩ := hlive
    exact ⟨i, Finset.mem_filter.mpr ⟨Finset.mem_univ i, hi⟩⟩
  obtain ⟨i, hi, hmax⟩ := Finset.exists_max_image _ (fun i => wants rank (s i)) hsome
  obtain ⟨l, todo, j, htodo, hheld, -⟩ := waits_of_stuck h (hnone i) (Finset.mem_filter.mp hi).2
  have hj : (s j).todo ≠ [] := by
    intro hnil
    have hordered := h.ordered j
    rw [hnil] at hordered
    rw [show (s j).held = [] from hordered] at hheld
    cases hheld
  obtain ⟨l', todo', -, htodo', -, habove⟩ := waits_of_stuck h (hnone j) hj
  have hle := hmax j (Finset.mem_filter.mpr ⟨Finset.mem_univ j, hj⟩)
  simp only [wants, htodo, htodo'] at hle
  exact absurd (habove l hheld) (Nat.not_lt.mpr hle)

/-- How much there is left to do. -/
def remaining (s : ι → Thread L) : Nat := ∑ i, (s i).todo.length

theorem remaining_step {i : ι} (hs : step recursive s i = some t) : remaining t < remaining s := by
  have hupdate {th : Thread L} {op : Op L} (htodo : (s i).todo = op :: th.todo) :
      remaining (Function.update s i th) < remaining s := by
    refine Finset.sum_lt_sum (fun j _ => ?_) ⟨i, Finset.mem_univ i, ?_⟩
    · by_cases hj : j = i
      · rw [hj, Function.update_self, htodo]
        exact Nat.le_succ _
      · rw [Function.update_of_ne hj]
    · rw [Function.update_self, htodo]
      exact Nat.lt_succ_self _
  obtain ⟨l, todo, ⟨htodo, -, rfl⟩ | ⟨htodo, rfl⟩⟩ := step_cases hs
  · exact hupdate htodo
  · exact hupdate htodo

/-- Wherever ordered threads have got to, they can all get to their ends. -/
theorem completes (h : Sound recursive rank s) :
    ∃ is t, run (step recursive) s is = some t ∧ ∀ i, (t i).todo = [] := by
  induction hn : remaining s using Nat.strong_induction_on generalizing s with
  | _ n ih =>
    by_cases hlive : ∃ i, (s i).todo ≠ []
    · obtain ⟨i, m, hs⟩ := exists_step h hlive
      obtain ⟨is, t, hrun, hdone⟩ := ih _ (hn ▸ remaining_step hs) (sound_step h hs) rfl
      exact ⟨i :: is, t, run_cons.mpr ⟨m, hs, hrun⟩, hdone⟩
    · refine ⟨[], s, rfl, fun i => ?_⟩
      by_contra hi
      exact hlive ⟨i, hi⟩

end Ovpn2ss.Lib.Locks
