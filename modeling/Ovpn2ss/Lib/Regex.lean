/-
  Backtracking patterns and the search for them. Names nothing of the relay.

  A pattern is tried at a position of a text. `ways` lists the ways in which it matches there, in the
  order in which a backtracking matcher tries them; the match is the first of them. A search takes
  the leftmost position with a match, and the iterator goes on where the last match ended.

  The rules below remove the backtracking where a pattern cannot use it: a greedy repetition before
  something that does not start with one of its characters takes all it can (`ways_many_seq`), and
  an alternative that does not fit has no ways (`ways_seq_of_nil`).
-/
import Mathlib.Data.List.Basic
import Mathlib.Tactic

namespace Ovpn2ss.Lib

/-- A text with a position in it: what stands before, last character first, and what follows. -/
structure Cursor (α : Type) where
  before : List α
  after : List α
  deriving DecidableEq

inductive Regex (α : Type) where
  | eps
  /-- One character of a class. -/
  | one (p : α → Bool)
  /-- `^` of a multiline pattern, for the given line ends. -/
  | lineStart (eol : α → Bool)
  /-- As many characters of a class as possible. -/
  | many (p : α → Bool)
  | seq (r s : Regex α)
  /-- `r?`, rather with `r` than without. -/
  | opt (r : Regex α)
  /-- A capturing group. -/
  | group (r : Regex α)

/-- Where a match ends, and what its groups captured. -/
structure Match (α : Type) where
  stop : Cursor α
  groups : List (List α)

variable {α : Type}

namespace Cursor

def atLineStart (eol : α → Bool) (cur : Cursor α) : Bool :=
  match cur.before with
  | [] => true
  | c :: _ => eol c

/-- The position behind the characters of a class. -/
def skip (p : α → Bool) (cur : Cursor α) : Cursor α :=
  ⟨(cur.after.takeWhile p).reverse ++ cur.before, cur.after.dropWhile p⟩

/-- The positions behind characters of a class, the last one first. -/
def stops (p : α → Bool) : List α → List α → List (Cursor α)
  | before, [] => [⟨before, []⟩]
  | before, c :: cs =>
    if p c then stops p (c :: before) cs ++ [⟨before, c :: cs⟩] else [⟨before, c :: cs⟩]

/-- The text between two positions. -/
def upTo (cur stop : Cursor α) : List α := cur.after.take (cur.after.length - stop.after.length)

theorem skip_cons_pos {p : α → Bool} {c : α} (h : p c = true) (before cs : List α) :
    skip p ⟨before, c :: cs⟩ = skip p ⟨c :: before, cs⟩ := by
  simp [skip, h]

theorem skip_cons_neg {p : α → Bool} {c : α} (h : p c = false) (before cs : List α) :
    skip p ⟨before, c :: cs⟩ = ⟨before, c :: cs⟩ := by
  simp [skip, h]

/-- Skipping ends before a character that is not of the class. -/
theorem skip_stops {p : α → Bool} {cur : Cursor α} {c : α} {cs : List α}
    (h : (cur.skip p).after = c :: cs) : p c = false := by
  have hdrop : cur.after.dropWhile p = c :: cs := h
  have hhead := List.head_dropWhile_not p (l := cur.after) (by rw [hdrop]; exact List.cons_ne_nil c cs)
  simpa [hdrop] using hhead

theorem skip_of_stop {p : α → Bool} {cur : Cursor α}
    (h : ∀ c cs, cur.after = c :: cs → p c = false) : cur.skip p = cur := by
  obtain ⟨before, after⟩ := cur
  cases after with
  | nil => rfl
  | cons c cs => exact skip_cons_neg (h c cs rfl) before cs

theorem skip_append {p : α → Bool} {v : List α} (hv : ∀ c ∈ v, p c = true) (before rest : List α) :
    skip p ⟨before, v ++ rest⟩ = skip p ⟨v.reverse ++ before, rest⟩ := by
  simp only [skip, List.takeWhile_append_of_pos hv, List.dropWhile_append_of_pos hv,
    List.reverse_append, List.append_assoc]

theorem skip_length (p : α → Bool) (cur : Cursor α) : (cur.skip p).after.length ≤ cur.after.length :=
  List.Sublist.length_le (List.dropWhile_sublist p)

/-- No line starts behind characters that are no line ends. -/
theorem atLineStart_skip {p eol : α → Bool} (h : ∀ c, p c = true → eol c = false) {before : List α}
    (after : List α) (hb : atLineStart eol ⟨before, after⟩ = false) :
    (skip p ⟨before, after⟩).atLineStart eol = false := by
  induction after generalizing before with
  | nil => exact hb
  | cons c cs ih =>
    cases hc : p c with
    | false => rwa [skip_cons_neg hc]
    | true =>
      rw [skip_cons_pos hc]
      exact ih (h c hc)

theorem upTo_skip (p : α → Bool) (cur : Cursor α) : cur.upTo (cur.skip p) = cur.after.takeWhile p := by
  have hcut := List.takeWhile_append_dropWhile (p := p) (l := cur.after)
  have hlen : cur.after.length - (cur.after.dropWhile p).length = (cur.after.takeWhile p).length := by
    have := congrArg List.length hcut
    rw [List.length_append] at this
    omega
  rw [upTo, skip, hlen]
  exact List.prefix_iff_eq_take.mp (List.takeWhile_prefix p) |>.symm

/-- The longest repetition is the first. -/
theorem stops_eq_cons (p : α → Bool) (before after : List α) :
    ∃ more, stops p before after = skip p ⟨before, after⟩ :: more ∧
      ∀ q ∈ more, ∃ c cs, q.after = c :: cs ∧ p c = true := by
  induction after generalizing before with
  | nil => exact ⟨[], rfl, fun q hq => (by cases hq)⟩
  | cons c cs ih =>
    cases hc : p c with
    | false => exact ⟨[], by rw [stops, hc, skip_cons_neg hc]; rfl, fun q hq => (by cases hq)⟩
    | true =>
      obtain ⟨more, he, hmore⟩ := ih (c :: before)
      refine ⟨more ++ [⟨before, c :: cs⟩], by rw [stops, hc, skip_cons_pos hc, he]; rfl, ?_⟩
      intro q hq
      rcases List.mem_append.mp hq with hq | hq
      · exact hmore q hq
      · rw [List.mem_singleton.mp hq]
        exact ⟨c, cs, rfl, hc⟩

end Cursor

namespace Regex

/-- The ways to match at a position, in the order of the matcher. -/
def ways : Regex α → Cursor α → List (Match α)
  | .eps, cur => [⟨cur, []⟩]
  | .one p, cur =>
    match cur.after with
    | [] => []
    | c :: cs => if p c then [⟨⟨c :: cur.before, cs⟩, []⟩] else []
  | .lineStart eol, cur => if cur.atLineStart eol then [⟨cur, []⟩] else []
  | .many p, cur => (Cursor.stops p cur.before cur.after).map (⟨·, []⟩)
  | .seq r s, cur =>
    (ways r cur).flatMap fun m => (ways s m.stop).map fun m' => ⟨m'.stop, m.groups ++ m'.groups⟩
  | .opt r, cur => ways r cur ++ [⟨cur, []⟩]
  | .group r, cur => (ways r cur).map fun m => ⟨m.stop, cur.upTo m.stop :: m.groups⟩

theorem ways_seq (r s : Regex α) (cur : Cursor α) :
    (seq r s).ways cur = (r.ways cur).flatMap fun m =>
      (s.ways m.stop).map fun m' => ⟨m'.stop, m.groups ++ m'.groups⟩ := rfl

theorem ways_lineStart (eol : α → Bool) (cur : Cursor α) :
    (lineStart eol).ways cur = if cur.atLineStart eol then [⟨cur, []⟩] else [] := rfl

theorem ways_many (p : α → Bool) (cur : Cursor α) :
    (many p).ways cur = (Cursor.stops p cur.before cur.after).map (⟨·, []⟩) := rfl

theorem ways_opt (r : Regex α) (cur : Cursor α) : (opt r).ways cur = r.ways cur ++ [⟨cur, []⟩] := rfl

theorem ways_group (r : Regex α) (cur : Cursor α) :
    (group r).ways cur = (r.ways cur).map fun m => ⟨m.stop, cur.upTo m.stop :: m.groups⟩ := rfl

/-- The characters that `fold` does not tell from `c`. -/
def like {β : Type} [DecidableEq β] (fold : α → β) (c d : α) : Bool := fold d = fold c

/-- The characters of a word, up to `fold`. -/
def word {β : Type} [DecidableEq β] (fold : α → β) : List α → Regex α
  | [] => .eps
  | c :: cs => .seq (.one (like fold c)) (word fold cs)

/-- One character of a class or more. -/
def plus (p : α → Bool) : Regex α := .seq (.one p) (.many p)

/-- The leftmost match from a position on. -/
def search (r : Regex α) : List α → List α → Option (Match α)
  | before, [] => (r.ways ⟨before, []⟩).head?
  | before, c :: cs =>
    match (r.ways ⟨before, c :: cs⟩).head? with
    | some m => some m
    | none => search r (c :: before) cs

/-- The iterator: each search starts where the last match ended. For patterns without empty
    matches, which the iterator would have to step over. -/
def findAll (r : Regex α) : Nat → Cursor α → List (Match α)
  | 0, _ => []
  | fuel + 1, cur =>
    match r.search cur.before cur.after with
    | none => []
    | some m => m :: findAll r fuel m.stop

def allMatches (r : Regex α) (text : List α) : List (Match α) :=
  r.findAll (text.length + 1) ⟨[], text⟩

/-! ## Rules -/

variable {p : α → Bool} {r s : Regex α} {cur q : Cursor α}

theorem ways_seq_of_nil (h : r.ways cur = []) : (seq r s).ways cur = [] := by
  rw [ways_seq, h]
  rfl

theorem ways_seq_of_single (h : r.ways cur = [⟨q, []⟩]) : (seq r s).ways cur = s.ways q := by
  rw [ways_seq, h]
  simp

theorem ways_one_pos {c : α} {before cs : List α} (h : p c = true) :
    (one p).ways ⟨before, c :: cs⟩ = [⟨⟨c :: before, cs⟩, []⟩] :=
  if_pos h

theorem ways_one_neg (h : ∀ c cs, cur.after = c :: cs → p c = false) : (one p).ways cur = [] := by
  obtain ⟨before, after⟩ := cur
  cases after with
  | nil => rfl
  | cons c cs => exact if_neg (Bool.eq_false_iff.mp (h c cs rfl))

theorem ways_seq_assoc {t : Regex α} : (seq (seq r s) t).ways cur = (seq r (seq s t)).ways cur := by
  simp [ways_seq, List.flatMap_map, List.map_flatMap, List.flatMap_assoc, Function.comp_def]

theorem ways_seq_congr {s' : Regex α} (h : ∀ q, s.ways q = s'.ways q) (cur : Cursor α) :
    (seq r s).ways cur = (seq r s').ways cur := by
  simp only [ways_seq, h]

theorem ways_opt_seq : (seq (opt r) s).ways cur = (seq r s).ways cur ++ s.ways cur := by
  simp [ways_seq, ways_opt]

/-- A repetition takes all it can if what follows cannot start with one of its characters. -/
theorem ways_many_seq (h : ∀ q c cs, q.after = c :: cs → p c = true → s.ways q = []) (cur : Cursor α) :
    (seq (many p) s).ways cur = s.ways (cur.skip p) := by
  obtain ⟨more, he, hmore⟩ := Cursor.stops_eq_cons p cur.before cur.after
  have hnil : more.flatMap (fun q => s.ways q) = [] := by
    rw [List.flatMap_eq_nil_iff]
    intro q hq
    obtain ⟨c, cs, hafter, hc⟩ := hmore q hq
    exact h q c cs hafter hc
  have hall : (seq (many p) s).ways cur = (Cursor.stops p cur.before cur.after).flatMap fun q => s.ways q := by
    simp [ways_seq, ways_many, List.flatMap_map]
  rw [hall, he, List.flatMap_cons, hnil, List.append_nil]

/-- A repetition of at least one, before something that cannot start with its characters. -/
theorem ways_plus_seq (h : ∀ q c cs, q.after = c :: cs → p c = true → s.ways q = [])
    {c : α} {before cs : List α} (hc : p c = true) :
    (seq (plus p) s).ways ⟨before, c :: cs⟩ = s.ways (Cursor.skip p ⟨before, c :: cs⟩) := by
  rw [plus, ways_seq_assoc, ways_seq_of_single (ways_one_pos hc), ways_many_seq h,
    Cursor.skip_cons_pos hc]

/-- A repetition of at least one at the end of a pattern takes all it can. -/
theorem ways_plus_head {c : α} {before cs : List α} (hc : p c = true) :
    ((plus p).ways ⟨before, c :: cs⟩).head? = some ⟨Cursor.skip p ⟨before, c :: cs⟩, []⟩ := by
  obtain ⟨more, he, -⟩ := Cursor.stops_eq_cons p (c :: before) cs
  rw [plus, ways_seq_of_single (ways_one_pos hc), ways_many, he, Cursor.skip_cons_pos hc]
  rfl

theorem ways_group_head {m : Match α} (h : (r.ways cur).head? = some m) :
    ((group r).ways cur).head? = some ⟨m.stop, cur.upTo m.stop :: m.groups⟩ := by
  rw [ways_group, List.head?_map, h]
  rfl

theorem ways_plus_nil (h : ∀ c cs, cur.after = c :: cs → p c = false) : (plus p).ways cur = [] :=
  ways_seq_of_nil (ways_one_neg h)

section Word

variable {β : Type} [DecidableEq β] {fold : α → β} {w v : List α}

/-- The word stands at the position. -/
theorem ways_word_append (h : v.map fold = w.map fold) (before rest : List α) :
    (word fold w).ways ⟨before, v ++ rest⟩ = [⟨⟨v.reverse ++ before, rest⟩, []⟩] := by
  induction w generalizing v before with
  | nil =>
    obtain rfl := List.map_eq_nil_iff.mp h
    rfl
  | cons c w ih =>
    obtain ⟨d, v, rfl, hd, hv⟩ := List.map_eq_cons_iff.mp h
    have hlike : like fold c d = true := decide_eq_true hd
    rw [word, List.cons_append, ways_seq_of_single (ways_one_pos hlike), ih hv]
    simp

/-- The word does not stand at the position. -/
theorem ways_word_nil (h : ∀ v rest, cur.after = v ++ rest → v.map fold ≠ w.map fold) :
    (word fold w).ways cur = [] := by
  induction w generalizing cur with
  | nil => exact absurd rfl (h [] cur.after rfl)
  | cons c w ih =>
    obtain ⟨before, after⟩ := cur
    cases after with
    | nil => rfl
    | cons d ds =>
      by_cases hd : fold d = fold c
      · have hlike : like fold c d = true := decide_eq_true hd
        rw [word, ways_seq_of_single (ways_one_pos hlike)]
        refine ih fun v rest he hv => h (d :: v) rest (congrArg (d :: ·) he) ?_
        rw [List.map_cons, List.map_cons, hd, hv]
      · refine ways_seq_of_nil (ways_one_neg fun d' ds' he => ?_)
        rw [← (List.cons.inj he).1]
        exact decide_eq_false hd

/-- A word in two pieces. -/
theorem ways_word_seq (w v : List α) (s : Regex α) (cur : Cursor α) :
    (seq (word fold w) (seq (word fold v) s)).ways cur = (seq (word fold (w ++ v)) s).ways cur := by
  induction w generalizing cur with
  | nil => exact ways_seq_of_single rfl
  | cons c w ih =>
    rw [List.cons_append, word, word, ways_seq_assoc, ways_seq_assoc]
    exact ways_seq_congr ih cur

end Word

end Regex

end Ovpn2ss.Lib
