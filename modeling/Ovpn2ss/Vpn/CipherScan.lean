/-
  `scan_ovpn_for_non_aead_cipher` (`src/OpenVpnClient.cpp`): whether an OpenVPN profile names a data
  cipher that is not an AEAD cipher. The answer decides whether the first attempt allows the
  non-preferred algorithms.

  The scan runs the pattern `^\s*(?:data-)?cipher\s+(\S+)` over the profile, ignoring case and with
  `^` at every line, and looks at what it captures. The profile itself is made of lines of words,
  `tokens`. The scan answers yes exactly if somewhere the first word of a line is `cipher` or
  `data-cipher` and the word after it is neither an AEAD cipher nor `none`
  (`scan_iff_names_non_aead`), although the iterator steps over the words it has captured.

  A character is a byte of the profile; the classes are those of the C locale.
-/
import Ovpn2ss.Lib.Regex

namespace Ovpn2ss.Vpn

open Ovpn2ss.Lib

/-! ## The scan -/

/-- `\s`. -/
def isSpace (c : Char) : Bool := c.toNat = 32 || (9 ≤ c.toNat && c.toNat ≤ 13)

/-- `\S`. -/
def notSpace (c : Char) : Bool := !isSpace c

/-- What `^` of a multiline pattern looks for before it. -/
def isEol (c : Char) : Bool := c.toNat = 10 || c.toNat = 13

/-- How `icase` compares characters. -/
def lower (c : Char) : Char := c.toLower

/-- `\s+(\S+)`. -/
def argument : Regex Char := .seq (.plus isSpace) (.group (.plus notSpace))

/-- `^\s*(?:data-)?cipher\s+(\S+)`. -/
def cipherPattern : Regex Char :=
  .seq (.lineStart isEol) <| .seq (.many isSpace) <| .seq (.opt (.word lower "data-".toList)) <|
    .seq (.word lower "cipher".toList) argument

def AEAD_CIPHERS : List (List Char) :=
  ["AES-128-GCM".toList, "AES-192-GCM".toList, "AES-256-GCM".toList, "CHACHA20-POLY1305".toList]

/-- The cipher of a match that makes the scan answer yes. -/
def nonAead (m : Match Char) : Option (List Char) :=
  let cipher := (m.groups.headD []).filter (·.toNat ≠ 13)
  if cipher ≠ "none".toList && !AEAD_CIPHERS.contains cipher then some cipher else none

/-- `scan_ovpn_for_non_aead_cipher`, with the cipher that it logs. -/
def scanOvpnForNonAeadCipher (content : List Char) : Option (List Char) :=
  (cipherPattern.allMatches content).findSome? nonAead

/-! ## Lines and words -/

def lines (content : List Char) : List (List Char) := content.splitOnP isEol

def words (line : List Char) : List (List Char) := (line.splitOnP isSpace).filter (· ≠ [])

/-- A word, and whether it is the first of its line. -/
structure Token where
  word : List Char
  first : Bool
  deriving DecidableEq

def mark (first : Bool) : List (List Char) → List Token
  | [] => []
  | w :: ws => ⟨w, first⟩ :: ws.map (⟨·, false⟩)

/-- The words of a profile. -/
def tokens (content : List Char) : List Token :=
  (lines content).flatMap fun line => mark true (words line)

/-- The words from a position on, where `first` says whether its line has had no word yet. -/
def tokensFrom (first : Bool) (content : List Char) : List Token :=
  mark first (words ((lines content).headD [])) ++
    (lines content).tail.flatMap fun line => mark true (words line)

theorem tokensFrom_of_lines {content line : List Char} {more : List (List Char)}
    (h : lines content = line :: more) (first : Bool) :
    tokensFrom first content =
      mark first (words line) ++ more.flatMap fun line => mark true (words line) := by
  rw [tokensFrom, h]
  rfl

theorem tokens_eq_tokensFrom (content : List Char) : tokens content = tokensFrom true content := by
  obtain ⟨line, more, h⟩ := List.exists_cons_of_ne_nil (List.splitOnP_ne_nil isEol content)
  rw [tokensFrom_of_lines h, tokens, show lines content = line :: more from h, List.flatMap_cons]

theorem isSpace_of_isEol {c : Char} (h : isEol c = true) : isSpace c = true := by
  simp only [isEol, isSpace, Bool.or_eq_true, Bool.and_eq_true, decide_eq_true_eq] at h ⊢
  omega

theorem isEol_of_notSpace {c : Char} (h : notSpace c = true) : isEol c = false := by
  by_contra heol
  have hspace := isSpace_of_isEol ((Bool.not_eq_false _).mp heol)
  rw [notSpace, hspace] at h
  cases h

theorem lines_eol {c : Char} (h : isEol c = true) (content : List Char) :
    lines (c :: content) = [] :: lines content := by
  rw [lines, List.splitOnP_cons_eq_if_modifyHead, if_pos h, lines]

theorem lines_append {w content line : List Char} {more : List (List Char)}
    (hw : ∀ c ∈ w, isEol c = false) (h : lines content = line :: more) :
    lines (w ++ content) = (w ++ line) :: more := by
  induction w with
  | nil => exact h
  | cons c w ih =>
    have hc : ¬ isEol c = true := by
      rw [hw c List.mem_cons_self]
      decide
    have hlines := ih fun d hd => hw d (List.mem_cons_of_mem c hd)
    rw [lines] at hlines
    rw [lines, List.cons_append, List.splitOnP_cons_eq_if_modifyHead, if_neg hc, hlines]
    rfl

/-- The first line starts as the text does. -/
theorem lines_head {content line : List Char} {more : List (List Char)}
    (h : lines content = line :: more) {c : Char} {cs : List Char} (hline : line = c :: cs) :
    ∃ rest, content = c :: rest := by
  cases content with
  | nil =>
    rw [← (List.cons.inj h).1] at hline
    cases hline
  | cons d rest =>
    cases hd : isEol d with
    | true =>
      rw [lines_eol hd] at h
      rw [← (List.cons.inj h).1] at hline
      cases hline
    | false =>
      obtain ⟨line', more', h'⟩ := List.exists_cons_of_ne_nil (List.splitOnP_ne_nil isEol rest)
      have happ : lines (d :: rest) = (d :: line') :: more' :=
        lines_append (w := [d]) (by simpa using hd) h'
      rw [h] at happ
      rw [(List.cons.inj happ).1] at hline
      exact ⟨rest, by rw [(List.cons.inj hline).1]⟩

theorem notSpace_of_words {line w : List Char} (h : w ∈ words line) : ∀ c ∈ w, isSpace c = false := by
  suffices hgen : ∀ w ∈ line.splitOnP isSpace, ∀ c ∈ w, isSpace c = false from
    hgen w (List.mem_of_mem_filter h)
  clear h
  induction line with
  | nil => simp
  | cons d line ih =>
    obtain ⟨v, vs, hv⟩ := List.exists_cons_of_ne_nil (List.splitOnP_ne_nil isSpace line)
    rw [hv] at ih
    intro w hw c hc
    rw [List.splitOnP_cons_eq_if_modifyHead, hv] at hw
    split at hw
    · rcases List.mem_cons.mp hw with rfl | hw
      · cases hc
      · exact ih w hw c hc
    · rename_i hd
      rw [List.modifyHead_cons] at hw
      rcases List.mem_cons.mp hw with rfl | hw
      · rcases List.mem_cons.mp hc with rfl | hc
        · exact Bool.eq_false_iff.mpr hd
        · exact ih v List.mem_cons_self c hc
      · exact ih w (List.mem_cons_of_mem v hw) c hc

theorem words_space {c : Char} (h : isSpace c = true) (line : List Char) :
    words (c :: line) = words line := by
  rw [words, List.splitOnP_cons_eq_if_modifyHead, if_pos h, List.filter_cons_of_neg (by simp), words]

theorem words_word {w line : List Char} (hne : w ≠ []) (hw : ∀ c ∈ w, isSpace c = false)
    (hline : ∀ c cs, line = c :: cs → isSpace c = true) : words (w ++ line) = w :: words line := by
  cases line with
  | nil =>
    rw [List.append_nil, words, List.splitOnP_eq_singleton hw]
    simp [words, hne]
  | cons c cs =>
    have hc := hline c cs rfl
    rw [words_space hc, words, List.splitOnP_append_cons_of_forall_mem hw c hc,
      List.filter_cons_of_pos (by simpa using hne), words]

theorem tokensFrom_eol {c : Char} (h : isEol c = true) (first : Bool) (content : List Char) :
    tokensFrom first (c :: content) = tokensFrom true content := by
  rw [tokensFrom_of_lines (lines_eol h content), ← tokens_eq_tokensFrom, tokens]
  rfl

theorem tokensFrom_space {c : Char} (h : isSpace c = true) (he : isEol c = false) (first : Bool)
    (content : List Char) : tokensFrom first (c :: content) = tokensFrom first content := by
  obtain ⟨line, more, hl⟩ := List.exists_cons_of_ne_nil (List.splitOnP_ne_nil isEol content)
  have hl' : lines (c :: content) = (c :: line) :: more :=
    lines_append (w := [c]) (by simpa using he) hl
  rw [tokensFrom_of_lines hl, tokensFrom_of_lines hl', words_space h]

theorem tokensFrom_word {w content : List Char} (hne : w ≠ []) (hw : ∀ c ∈ w, isSpace c = false)
    (hc : ∀ c cs, content = c :: cs → isSpace c = true) (first : Bool) :
    tokensFrom first (w ++ content) = ⟨w, first⟩ :: tokensFrom false content := by
  obtain ⟨line, more, hl⟩ := List.exists_cons_of_ne_nil (List.splitOnP_ne_nil isEol content)
  have hl' : lines (w ++ content) = (w ++ line) :: more := by
    refine lines_append (fun c hcw => isEol_of_notSpace ?_) hl
    rw [notSpace, hw c hcw]
    rfl
  have hline : ∀ c cs, line = c :: cs → isSpace c = true := by
    intro c cs hline
    obtain ⟨rest, hrest⟩ := lines_head hl hline
    exact hc c rest hrest
  rw [tokensFrom_of_lines hl, tokensFrom_of_lines hl', words_word hne hw hline]
  cases words line <;> rfl

/-! ## Where the pattern matches -/

theorem notSpace_eq_false {c : Char} : notSpace c = false ↔ isSpace c = true := by
  rw [notSpace, Bool.not_eq_false']

theorem notSpace_of_not {c : Char} (h : isSpace c = false) : notSpace c = true := by
  rw [notSpace, h]
  rfl

/-- Nothing is captured where a space stands. -/
theorem ways_captured_nil {q : Cursor Char} {c : Char} {cs : List Char} (hq : q.after = c :: cs)
    (hc : isSpace c = true) : (Regex.group (.plus notSpace)).ways q = [] := by
  rw [Regex.ways_group, Regex.ways_plus_nil, List.map_nil]
  intro d ds hd
  rw [hq] at hd
  rw [← (List.cons.inj hd).1, notSpace_eq_false]
  exact hc

/-- The argument is the word after the spaces, if there is one. -/
theorem ways_argument {cur : Cursor Char} (h : ∀ c cs, cur.after = c :: cs → isSpace c = true) :
    (argument.ways cur).head? =
      if (cur.skip isSpace).after = [] then none
      else some ⟨(cur.skip isSpace).skip notSpace, [(cur.skip isSpace).after.takeWhile notSpace]⟩ := by
  obtain ⟨before, after⟩ := cur
  cases after with
  | nil => rfl
  | cons c cs =>
    rw [argument, Regex.ways_plus_seq (fun _ _ _ => ways_captured_nil) (h c cs rfl)]
    rcases hq : Cursor.skip isSpace ⟨before, c :: cs⟩ with ⟨before', after'⟩
    cases after' with
    | nil => rfl
    | cons d ds =>
      have hd : notSpace d = true := notSpace_of_not (Cursor.skip_stops (congrArg Cursor.after hq))
      rw [if_neg (List.cons_ne_nil d ds), Regex.ways_group_head (Regex.ways_plus_head hd),
        Cursor.upTo_skip]

theorem ways_argument_nil {cur : Cursor Char} {c : Char} {cs : List Char} (h : cur.after = c :: cs)
    (hc : isSpace c = false) : argument.ways cur = [] := by
  refine Regex.ways_seq_of_nil (Regex.ways_plus_nil fun d ds hd => ?_)
  rw [h] at hd
  rw [← (List.cons.inj hd).1]
  exact hc

theorem isSpace_lower (c : Char) : isSpace (lower c) = isSpace c := by
  unfold lower Char.toLower
  split
  · rename_i h
    have hA : 65 ≤ c.val.toNat := h.1
    have hZ : c.val.toNat ≤ 90 := h.2
    have hlow : (c.val + ('a'.val - 'A'.val)).toNat = c.val.toNat + 32 := by
      rw [UInt32.toNat_add, show ('a'.val - 'A'.val).toNat = 32 from rfl]
      exact Nat.mod_eq_of_lt (by omega)
    rw [Bool.eq_iff_iff]
    simp only [isSpace, Char.toNat, hlow, Bool.or_eq_true, Bool.and_eq_true, decide_eq_true_eq]
    omega
  · rfl

theorem isSpace_of_map_lower {u v : List Char} (h : v.map lower = u.map lower)
    (hu : ∀ c ∈ u, isSpace c = false) : ∀ c ∈ v, isSpace c = false := by
  intro c hc
  have hmem : lower c ∈ u.map lower := h ▸ List.mem_map_of_mem hc
  obtain ⟨d, hd, he⟩ := List.mem_map.mp hmem
  rw [← isSpace_lower, ← he, isSpace_lower]
  exact hu d hd

theorem isSpace_of_all {u : List Char} (h : u.all notSpace = true) : ∀ c ∈ u, isSpace c = false := by
  intro c hc
  simpa [notSpace] using List.all_eq_true.mp h c hc

/-- A directive with its argument: the whole word has to be the directive. -/
theorem ways_directive {u : List Char} (hu : ∀ c ∈ u, isSpace c = false) (cur : Cursor Char) :
    (Regex.seq (.word lower u) argument).ways cur =
      if (cur.after.takeWhile notSpace).map lower = u.map lower then
        argument.ways (cur.skip notSpace) else [] := by
  by_cases hstands : ∃ v rest, cur.after = v ++ rest ∧ v.map lower = u.map lower
  · obtain ⟨before, after⟩ := cur
    obtain ⟨v, rest, rfl, hv⟩ := hstands
    have hword : ∀ c ∈ v, notSpace c = true :=
      fun c hc => notSpace_of_not (isSpace_of_map_lower hv hu c hc)
    rw [Regex.ways_seq_of_single (Regex.ways_word_append hv before rest), Cursor.skip_append hword,
      List.takeWhile_append_of_pos hword]
    by_cases hrest : ∀ c cs, rest = c :: cs → notSpace c = false
    · have hnil : rest.takeWhile notSpace = [] := by
        cases rest with
        | nil => rfl
        | cons c cs => rw [List.takeWhile_cons_of_neg (by rw [hrest c cs rfl]; decide)]
      rw [hnil, List.append_nil, if_pos hv, Cursor.skip_of_stop hrest]
    · -- a longer word
      simp only [not_forall] at hrest
      obtain ⟨c, cs, rfl, hc⟩ := hrest
      have hc' : notSpace c = true := (Bool.not_eq_false _).mp hc
      have hspace : isSpace c = false := by simpa [notSpace] using hc'
      rw [ways_argument_nil rfl hspace, if_neg]
      intro hlen
      have := congrArg List.length (hlen.trans hv.symm)
      simp [hc'] at this
  · rw [Regex.ways_seq_of_nil (Regex.ways_word_nil fun v rest he hv => hstands ⟨v, rest, he, hv⟩), if_neg]
    intro hv
    exact hstands ⟨_, _, (List.takeWhile_append_dropWhile).symm, hv⟩

/-- The names of the directive, in any case. -/
def isDirective (word : List Char) : Bool :=
  word.map lower = "data-cipher".toList || word.map lower = "cipher".toList

/-- The name of the directive with its argument: at most one of the alternatives fits. -/
theorem ways_name (cur : Cursor Char) :
    (Regex.seq (.opt (.word lower "data-".toList))
        (.seq (.word lower "cipher".toList) argument)).ways cur =
      if isDirective (cur.after.takeWhile notSpace) then argument.ways (cur.skip notSpace) else [] := by
  have hdata : ("data-".toList ++ "cipher".toList).map lower = "data-cipher".toList := by decide
  have hcipher : "cipher".toList.map lower = "cipher".toList := by decide
  rw [Regex.ways_opt_seq, Regex.ways_word_seq, ways_directive (isSpace_of_all rfl),
    ways_directive (isSpace_of_all rfl), hdata, hcipher]
  unfold isDirective
  by_cases h : (cur.after.takeWhile notSpace).map lower = "data-cipher".toList
  · have hne : "data-cipher".toList ≠ "cipher".toList := by decide
    rw [h, if_pos rfl, if_neg hne, List.append_nil, if_pos (by decide)]
  · rw [if_neg h, List.nil_append, decide_eq_false h, Bool.false_or]
    simp only [decide_eq_true_eq]

/-- The name stands where no space is. -/
theorem ways_name_nil {q : Cursor Char} {c : Char} {cs : List Char} (hq : q.after = c :: cs)
    (hc : isSpace c = true) :
    (Regex.seq (.opt (.word lower "data-".toList))
      (.seq (.word lower "cipher".toList) argument)).ways q = [] := by
  have hnil : q.after.takeWhile notSpace = [] := by
    rw [hq, List.takeWhile_cons_of_neg (by rw [notSpace, hc]; decide)]
  rw [ways_name, hnil]
  rfl

/-- The first match at a position: a line starts there, and its first word, behind any blank lines,
    is the directive, with another word after it. -/
theorem ways_cipherPattern (cur : Cursor Char) :
    let word := cur.skip isSpace
    let argument := (word.skip notSpace).skip isSpace
    (cipherPattern.ways cur).head? =
      if cur.atLineStart isEol = true ∧ isDirective (word.after.takeWhile notSpace) = true ∧
          argument.after ≠ [] then
        some ⟨argument.skip notSpace, [argument.after.takeWhile notSpace]⟩
      else none := by
  intro word arg
  unfold cipherPattern
  cases hl : cur.atLineStart isEol with
  | false =>
    rw [Regex.ways_seq_of_nil (by rw [Regex.ways_lineStart, hl]; rfl), if_neg (by simp)]
    rfl
  | true =>
    have hstart : (Regex.lineStart isEol).ways cur = [⟨cur, []⟩] := by
      rw [Regex.ways_lineStart, hl]
      rfl
    rw [Regex.ways_seq_of_single hstart, Regex.ways_many_seq (fun _ _ _ => ways_name_nil), ways_name]
    cases hd : isDirective ((cur.skip isSpace).after.takeWhile notSpace) with
    | false => simp
    | true =>
      have hend : ∀ c cs, (word.skip notSpace).after = c :: cs → isSpace c = true :=
        fun c cs h => notSpace_eq_false.mp (Cursor.skip_stops h)
      rw [if_pos rfl, ways_argument hend]
      by_cases hnil : arg.after = []
      · rw [if_pos hnil, if_neg fun h => h.2.2 hnil]
      · rw [if_neg hnil, if_pos ⟨rfl, rfl, hnil⟩]

/-! ## What the iterator captures -/

/-- The next argument of the directive, and the words after it. -/
def nextCapture : List Token → Option (List Char × List Token)
  | t :: v :: rest =>
    if t.first && isDirective t.word then some (v.word, rest) else nextCapture (v :: rest)
  | _ => none

/-- The arguments of the directive, where an argument is no directive itself. -/
def captured : List Token → List (List Char)
  | t :: v :: rest =>
    if t.first && isDirective t.word then v.word :: captured rest else captured (v :: rest)
  | _ => []

theorem captured_of_none {ts : List Token} (h : nextCapture ts = none) : captured ts = [] := by
  fun_induction nextCapture ts with
  | case1 t v rest ht => cases h
  | case2 t v rest ht ih => rw [captured, if_neg ht, ih h]
  | case3 ts hts => rw [captured]; exact hts

theorem captured_of_some {ts rest : List Token} {w : List Char} (h : nextCapture ts = some (w, rest)) :
    captured ts = w :: captured rest := by
  fun_induction nextCapture ts with
  | case1 t v rest' ht =>
    obtain ⟨rfl, rfl⟩ := Prod.mk.inj (Option.some.inj h)
    rw [captured, if_pos ht]
  | case2 t v rest' ht ih => rw [captured, if_neg ht, ih h]
  | case3 ts hts => cases h

/-- A word that is no directive is passed over. -/
theorem nextCapture_cons {t : Token} (h : ¬ (t.first && isDirective t.word) = true) (ts : List Token) :
    nextCapture (t :: ts) = nextCapture ts := by
  cases ts with
  | nil => rfl
  | cons v ts => rw [nextCapture, if_neg h]

theorem nextCapture_not_first (w : List Char) (ts : List Token) :
    nextCapture (⟨w, false⟩ :: ts) = nextCapture ts :=
  nextCapture_cons (by simp) ts

theorem tokensFrom_skip (first : Bool) (before after : List Char) :
    ∃ g, tokensFrom first after = tokensFrom g (Cursor.skip isSpace ⟨before, after⟩).after ∧
      (first = true → g = true) := by
  induction after generalizing first before with
  | nil => exact ⟨first, rfl, id⟩
  | cons c cs ih =>
    cases hc : isSpace c with
    | false =>
      rw [Cursor.skip_cons_neg hc]
      exact ⟨first, rfl, id⟩
    | true =>
      rw [Cursor.skip_cons_pos hc]
      cases he : isEol c with
      | true =>
        obtain ⟨g, hg, hfirst⟩ := ih true (c :: before)
        exact ⟨g, (tokensFrom_eol he first cs).trans hg, fun _ => hfirst rfl⟩
      | false =>
        obtain ⟨g, hg, hfirst⟩ := ih first (c :: before)
        exact ⟨g, (tokensFrom_space hc he first cs).trans hg, hfirst⟩

theorem tokensFrom_at_word {cur : Cursor Char} {c : Char} {cs : List Char} (h : cur.after = c :: cs)
    (hc : isSpace c = false) (first : Bool) :
    tokensFrom first cur.after =
      ⟨cur.after.takeWhile notSpace, first⟩ :: tokensFrom false (cur.skip notSpace).after := by
  have hcut := List.takeWhile_append_dropWhile (p := notSpace) (l := cur.after)
  have hne : cur.after.takeWhile notSpace ≠ [] := by
    rw [h, List.takeWhile_cons_of_pos (notSpace_of_not hc)]
    exact List.cons_ne_nil _ _
  have hword : ∀ d ∈ cur.after.takeWhile notSpace, isSpace d = false := by
    intro d hd
    have hd' := List.all_eq_true.mp List.all_takeWhile d hd
    simpa [notSpace] using hd'
  have hend : ∀ d ds, (cur.skip notSpace).after = d :: ds → isSpace d = true :=
    fun d ds hd => notSpace_eq_false.mp (Cursor.skip_stops hd)
  have htokens := tokensFrom_word hne hword hend first
  rwa [Cursor.skip, hcut] at htokens

/-- Whether a line starts at a position matters for its first word only. -/
theorem tokensFrom_false (content : List Char) :
    tokensFrom false content = tokensFrom true content ∨
      nextCapture (tokensFrom false content) = nextCapture (tokensFrom true content).tail := by
  unfold tokensFrom
  cases words ((lines content).headD []) with
  | nil => exact Or.inl rfl
  | cons w ws => exact Or.inr (nextCapture_not_first w _)

/-- The next word from a position on. -/
theorem tokensFrom_cases (first : Bool) (cur : Cursor Char) :
    ((cur.skip isSpace).after = [] ∧ tokensFrom first cur.after = []) ∨
    ((cur.skip isSpace).after ≠ [] ∧ ∃ g, (first = true → g = true) ∧ tokensFrom first cur.after =
      ⟨(cur.skip isSpace).after.takeWhile notSpace, g⟩ ::
        tokensFrom false ((cur.skip isSpace).skip notSpace).after) := by
  obtain ⟨g, hg, hfirst⟩ := tokensFrom_skip first cur.before cur.after
  rw [hg]
  cases hafter : (cur.skip isSpace).after with
  | nil => exact Or.inl ⟨rfl, rfl⟩
  | cons c cs =>
    refine Or.inr ⟨List.cons_ne_nil c cs, g, hfirst, ?_⟩
    rw [← hafter]
    exact tokensFrom_at_word hafter (Cursor.skip_stops hafter) g

/-- Behind a word no line starts, and the text is shorter. -/
theorem skip_word {cur : Cursor Char} (h : (cur.skip isSpace).after ≠ []) :
    ((cur.skip isSpace).skip notSpace).atLineStart isEol = false ∧
      ((cur.skip isSpace).skip notSpace).after.length < cur.after.length := by
  obtain ⟨c, cs, hafter⟩ := List.exists_cons_of_ne_nil h
  have hc : notSpace c = true := notSpace_of_not (Cursor.skip_stops hafter)
  have hle := Cursor.skip_length isSpace cur
  generalize cur.skip isSpace = word at h hafter hle
  obtain ⟨before, after⟩ := word
  obtain rfl : after = c :: cs := hafter
  rw [Cursor.skip_cons_pos hc]
  constructor
  · exact Cursor.atLineStart_skip (fun _ => isEol_of_notSpace) cs (isEol_of_notSpace hc)
  · have := Cursor.skip_length notSpace ⟨c :: before, cs⟩
    simp only [List.length_cons] at hle this
    omega

/-- A match at a position, on the words from there on. -/
theorem nextCapture_of_match {cur : Cursor Char} {m : Match Char}
    (h : (cipherPattern.ways cur).head? = some m) :
    ∃ w, m.groups = [w] ∧ m.stop.atLineStart isEol = false ∧ m.stop.after.length < cur.after.length ∧
      nextCapture (tokensFrom (cur.atLineStart isEol) cur.after) =
        some (w, tokensFrom false m.stop.after) := by
  rw [ways_cipherPattern] at h
  split at h
  · rename_i hmatch
    obtain ⟨hline, hdir, hne⟩ := hmatch
    obtain rfl := Option.some.inj h
    obtain ⟨hstop, hlt⟩ := skip_word hne
    rw [hline]
    rcases tokensFrom_cases true cur with ⟨hnil, -⟩ | ⟨hword, g, hg, htokens⟩
    · -- no word, so no argument either
      refine absurd ?_ hne
      simp only [Cursor.skip] at hnil ⊢
      rw [hnil]
      rfl
    · rcases tokensFrom_cases false ((cur.skip isSpace).skip notSpace) with
        ⟨hnil, -⟩ | ⟨-, g', -, htokens'⟩
      · exact absurd hnil hne
      · refine ⟨_, rfl, hstop, hlt.trans (skip_word hword).2, ?_⟩
        rw [htokens, htokens', nextCapture, hg rfl, hdir]
        rfl
  · cases h

/-- Where a line starts without a match, its first word is no directive with an argument. -/
theorem nextCapture_of_no_match {cur : Cursor Char} (h : (cipherPattern.ways cur).head? = none)
    (hline : cur.atLineStart isEol = true) :
    nextCapture (tokensFrom true cur.after) = nextCapture (tokensFrom true cur.after).tail := by
  rw [ways_cipherPattern] at h
  split at h
  · cases h
  · rename_i hno
    rcases tokensFrom_cases true cur with ⟨-, hnil⟩ | ⟨hword, g, hg, htokens⟩
    · rw [hnil]
      rfl
    · rw [htokens, List.tail_cons]
      rcases tokensFrom_cases false ((cur.skip isSpace).skip notSpace) with
        ⟨-, hlast⟩ | ⟨hne, -⟩
      · rw [hlast]
        rfl
      · refine nextCapture_cons (fun ht => hno ⟨hline, ?_, hne⟩) _
        rw [Bool.and_eq_true] at ht
        exact ht.2

/-- One character on, without a match before it. -/
theorem nextCapture_advance {before cs : List Char} {c : Char}
    (h : (cipherPattern.ways ⟨before, c :: cs⟩).head? = none) :
    nextCapture (tokensFrom (Cursor.atLineStart isEol ⟨before, c :: cs⟩) (c :: cs)) =
      nextCapture (tokensFrom (isEol c) cs) := by
  have hno := nextCapture_of_no_match h
  cases hc : isSpace c with
  | true =>
    cases he : isEol c with
    | true => rw [tokensFrom_eol he]
    | false =>
      rw [tokensFrom_space hc he]
      cases hline : Cursor.atLineStart isEol ⟨before, c :: cs⟩ with
      | false => rfl
      | true =>
        have hno := hno hline
        rw [tokensFrom_space hc he] at hno
        rcases tokensFrom_false cs with hsame | htail
        · rw [hsame]
        · rw [htail, hno]
  | false =>
    have he : isEol c = false := isEol_of_notSpace (notSpace_of_not hc)
    let rest := Cursor.skip notSpace ⟨c :: before, cs⟩
    have hword (first : Bool) : tokensFrom first (c :: cs) =
        ⟨(c :: cs).takeWhile notSpace, first⟩ :: tokensFrom false rest.after := by
      have hskip : Cursor.skip notSpace ⟨before, c :: cs⟩ = rest :=
        Cursor.skip_cons_pos (notSpace_of_not hc) before cs
      rw [← hskip]
      exact @tokensFrom_at_word ⟨before, c :: cs⟩ c cs rfl hc first
    have hleft : nextCapture (tokensFrom (Cursor.atLineStart isEol ⟨before, c :: cs⟩) (c :: cs)) =
        nextCapture (tokensFrom false rest.after) := by
      cases hline : Cursor.atLineStart isEol ⟨before, c :: cs⟩ with
      | false => rw [hword, nextCapture_not_first]
      | true => rw [hno hline, hword, List.tail_cons]
    rw [hleft, he]
    by_cases hcs : ∀ d ds, cs = d :: ds → notSpace d = false
    · have hstop : rest = ⟨c :: before, cs⟩ := Cursor.skip_of_stop hcs
      rw [hstop]
    · -- the rest of the word is passed over
      simp only [not_forall] at hcs
      obtain ⟨d, ds, rfl, hd⟩ := hcs
      have hd' : isSpace d = false := by simpa [notSpace] using hd
      have hpass := @tokensFrom_at_word ⟨c :: before, d :: ds⟩ d ds rfl hd' false
      rw [hpass, nextCapture_not_first]

theorem search_cipherPattern (before after : List Char) :
    let ts := tokensFrom (Cursor.atLineStart isEol ⟨before, after⟩) after
    (cipherPattern.search before after = none ∧ nextCapture ts = none) ∨
    ∃ m w, cipherPattern.search before after = some m ∧ m.groups = [w] ∧
      m.stop.atLineStart isEol = false ∧ m.stop.after.length < after.length ∧
      nextCapture ts = some (w, tokensFrom false m.stop.after) := by
  induction after generalizing before with
  | nil =>
    left
    rw [Regex.search, ways_cipherPattern, if_neg fun h => h.2.2 rfl]
    exact ⟨rfl, rfl⟩
  | cons c cs ih =>
    rw [Regex.search]
    cases hways : (cipherPattern.ways ⟨before, c :: cs⟩).head? with
    | some m =>
      obtain ⟨w, hgroups, hline, hlt, hnext⟩ := nextCapture_of_match hways
      exact Or.inr ⟨m, w, rfl, hgroups, hline, hlt, hnext⟩
    | none =>
      dsimp only
      rw [nextCapture_advance hways]
      rcases ih (c :: before) with hnone | ⟨m, w, hs, hgroups, hline, hlt, hnext⟩
      · exact Or.inl hnone
      · exact Or.inr ⟨m, w, hs, hgroups, hline, hlt.trans (Nat.lt_succ_self _), hnext⟩

/-- The iterator captures the arguments of the directive, each past the one before. -/
theorem findAll_cipherPattern {fuel : Nat} {cur : Cursor Char} (h : cur.after.length < fuel) :
    (cipherPattern.findAll fuel cur).map (·.groups) =
      (captured (tokensFrom (cur.atLineStart isEol) cur.after)).map fun w => [w] := by
  induction fuel generalizing cur with
  | zero => omega
  | succ fuel ih =>
    rw [Regex.findAll]
    rcases search_cipherPattern cur.before cur.after with
      ⟨hs, hnext⟩ | ⟨m, w, hs, hgroups, hline, hlt, hnext⟩ <;> rw [hs]
    · rw [captured_of_none hnext]
      rfl
    · rw [captured_of_some hnext, List.map_cons, List.map_cons, hgroups, ih (by omega), hline]

/-! ## What the scan answers -/

/-- The ciphers for which the scan answers yes. -/
def isNonAead (cipher : List Char) : Bool := cipher ≠ "none".toList && !AEAD_CIPHERS.contains cipher

theorem notSpace_of_tokens {content : List Char} {t : Token} (h : t ∈ tokens content) :
    ∀ c ∈ t.word, isSpace c = false := by
  obtain ⟨line, -, ht⟩ := List.mem_flatMap.mp h
  have hword : t.word ∈ words line := by
    cases hws : words line with
    | nil =>
      rw [hws] at ht
      cases ht
    | cons w ws =>
      rw [hws, mark] at ht
      rcases List.mem_cons.mp ht with rfl | ht
      · exact List.mem_cons_self
      · obtain ⟨v, hv, rfl⟩ := List.mem_map.mp ht
        exact List.mem_cons_of_mem w hv
  exact notSpace_of_words hword

theorem captured_subset {ts : List Token} {w : List Char} (h : w ∈ captured ts) :
    ∃ t ∈ ts, t.word = w := by
  fun_induction captured ts with
  | case1 t v rest _ ih =>
    rcases List.mem_cons.mp h with rfl | h
    · exact ⟨v, by simp, rfl⟩
    · obtain ⟨u, hu, he⟩ := ih h
      exact ⟨u, by simp [hu], he⟩
  | case2 t v rest _ ih =>
    obtain ⟨u, hu, he⟩ := ih h
    exact ⟨u, List.mem_cons_of_mem t hu, he⟩
  | case3 ts _ => cases h

/-- A directive that the iterator steps over as an argument is no cipher itself. -/
theorem isNonAead_of_isDirective {word : List Char} (h : isDirective word = true) :
    isNonAead word = true := by
  have hall : ∀ w ∈ "none".toList :: AEAD_CIPHERS, isDirective w = false := by decide
  by_contra hcipher
  have hmem : word ∈ "none".toList :: AEAD_CIPHERS := by
    rw [isNonAead, Bool.and_eq_true, not_and_or, decide_eq_true_eq, not_not, Bool.not_eq_true',
      Bool.not_eq_false, List.contains_iff_mem] at hcipher
    exact List.mem_cons.mpr hcipher
  rw [hall word hmem] at h
  cases h

/-- Some pair of words that follow each other is a directive with a cipher that is no AEAD cipher. -/
def NamesNonAead (ts : List Token) : Prop :=
  ∃ pre d v post, ts = pre ++ d :: v :: post ∧ d.first = true ∧ isDirective d.word = true ∧
    isNonAead v.word = true

theorem NamesNonAead.cons {ts : List Token} (h : NamesNonAead ts) (t : Token) :
    NamesNonAead (t :: ts) := by
  obtain ⟨pre, d, v, post, rfl, hd⟩ := h
  exact ⟨t :: pre, d, v, post, rfl, hd⟩

theorem NamesNonAead.two {ts : List Token} (h : NamesNonAead ts) : ∃ d v post, ts = d :: v :: post := by
  obtain ⟨pre, d, v, post, rfl, -⟩ := h
  cases pre with
  | nil => exact ⟨d, v, post, rfl⟩
  | cons p pre =>
    cases pre with
    | nil => exact ⟨p, d, v :: post, rfl⟩
    | cons q pre => exact ⟨p, q, pre ++ d :: v :: post, rfl⟩

/-- The pair is at the front, or it is in the rest. -/
theorem namesNonAead_cons {t v : Token} {ts : List Token} (h : NamesNonAead (t :: v :: ts)) :
    (t.first = true ∧ isDirective t.word = true ∧ isNonAead v.word = true) ∨
      NamesNonAead (v :: ts) := by
  obtain ⟨pre, d, u, post, he, hd⟩ := h
  cases pre with
  | nil =>
    simp only [List.nil_append, List.cons.injEq] at he
    obtain ⟨rfl, rfl, -⟩ := he
    exact Or.inl hd
  | cons p pre => exact Or.inr ⟨pre, d, u, post, (List.cons.inj he).2, hd⟩

theorem any_captured (ts : List Token) : (captured ts).any isNonAead = true ↔ NamesNonAead ts := by
  fun_induction captured ts with
  | case1 t v rest ht ih =>
    rw [List.any_cons, Bool.or_eq_true, ih]
    rw [Bool.and_eq_true] at ht
    constructor
    · rintro (hv | hrest)
      · exact ⟨[], t, v, rest, rfl, ht.1, ht.2, hv⟩
      · exact (hrest.cons v).cons t
    · intro h
      rcases namesNonAead_cons h with ⟨-, -, hv⟩ | h
      · exact Or.inl hv
      · cases rest with
        | nil =>
          obtain ⟨d, u, post, he⟩ := h.two
          cases he
        | cons u rest =>
          -- an argument that is a directive with an argument is no AEAD cipher either
          rcases namesNonAead_cons h with ⟨-, hv, -⟩ | h
          · exact Or.inl (isNonAead_of_isDirective hv)
          · exact Or.inr h
  | case2 t v rest ht ih =>
    rw [ih]
    refine ⟨fun h => h.cons t, fun h => ?_⟩
    rcases namesNonAead_cons h with ⟨hf, hd, -⟩ | h
    · rw [hf, hd] at ht
      exact absurd rfl ht
    · exact h
  | case3 ts hts =>
    refine ⟨fun h => (by cases h), fun h => ?_⟩
    obtain ⟨d, v, post, he⟩ := h.two
    exact (hts d v post he).elim

/-- Captured words hold no carriage return to take out. -/
theorem filter_captured {content w : List Char} (h : w ∈ captured (tokens content)) :
    w.filter (·.toNat ≠ 13) = w := by
  obtain ⟨t, ht, rfl⟩ := captured_subset h
  rw [List.filter_eq_self]
  intro c hc
  have hspace := notSpace_of_tokens ht c hc
  simp only [isSpace, Bool.or_eq_false_iff, Bool.and_eq_false_iff, decide_eq_false_iff_not] at hspace
  simp only [ne_eq, decide_eq_true_eq]
  omega

theorem scan_eq_captured (content : List Char) :
    (scanOvpnForNonAeadCipher content).isSome = (captured (tokens content)).any isNonAead := by
  let verdict (groups : List (List Char)) : Bool :=
    isNonAead ((groups.headD []).filter (·.toNat ≠ 13))
  have hverdict : ∀ m, (nonAead m).isSome = verdict m.groups := by
    intro m
    unfold nonAead
    dsimp only [verdict]
    rw [isNonAead]
    split <;> simp_all
  have hgroups : (cipherPattern.allMatches content).map (·.groups) =
      (captured (tokens content)).map fun w => [w] := by
    rw [tokens_eq_tokensFrom]
    exact findAll_cipherPattern (Nat.lt_succ_self _)
  calc (scanOvpnForNonAeadCipher content).isSome
      = ((cipherPattern.allMatches content).map (·.groups)).any verdict := by
        rw [scanOvpnForNonAeadCipher, List.isSome_findSome?, List.any_map]
        exact congrArg _ (funext hverdict)
    _ = (captured (tokens content)).any fun w => isNonAead (w.filter (·.toNat ≠ 13)) := by
        rw [hgroups, List.any_map]
        rfl
    _ = (captured (tokens content)).any isNonAead := by
        rw [Bool.eq_iff_iff, List.any_eq_true, List.any_eq_true]
        refine exists_congr fun w => and_congr_right fun hw => ?_
        rw [filter_captured hw]

/-- The scan answers yes exactly if somewhere in the profile the first word of a line is `cipher` or
    `data-cipher`, in any case, and the word after it is neither `none` nor an AEAD cipher. -/
theorem scan_iff_names_non_aead (content : List Char) :
    (scanOvpnForNonAeadCipher content).isSome = true ↔
      ∃ pre d v post, tokens content = pre ++ d :: v :: post ∧ d.first = true ∧
        isDirective d.word = true ∧ v.word ≠ "none".toList ∧ v.word ∉ AEAD_CIPHERS := by
  rw [scan_eq_captured, any_captured, NamesNonAead]
  simp only [isNonAead, Bool.and_eq_true, decide_eq_true_eq, Bool.not_eq_true', ne_eq,
    List.contains_eq_mem, decide_eq_false_iff_not]

-- a bare `cipher` takes the first word of the next line for its argument
example : (scanOvpnForNonAeadCipher "cipher\nremote a".toList).isSome = true := by decide
example : (scanOvpnForNonAeadCipher "data-ciphers BF-CBC\n Cipher AES-256-GCM".toList).isSome = false := by
  decide

end Ovpn2ss.Vpn
