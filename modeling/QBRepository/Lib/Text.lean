import Mathlib.Data.List.Forall2
import Mathlib.Data.List.Infix

namespace QBRepository

/-!
# Two ways to match a text

A glob describes the whole text; a regular expression is searched in it, and finds a part.

* `glob` — `*` stands for any text and `?` for any character;
* `SearchPattern` — the regular expressions of ordinary characters and dots, with an anchor at
  either end; `parse` reads them, and `Occurs` says where they are found;
* `fitsPrefix_append` — what is compared with a text that begins with another one;
* `occurs_start_iff`, `occurs_end_iff`, `occurs_part_iff` — where they are found;
* `occurs_text_iff` — which of them are found in the text they are written as.
-/

/-! ### Globs -/

/-- The glob matches the whole text. -/
def glob : List Char → List Char → Bool
  | [], text => text.isEmpty
  | c :: pattern, text =>
    if c = '*' then text.tails.any (glob pattern)
    else match text with
      | [] => false
      | d :: text => (c == '?' || c == d) && glob pattern text

/-- The wildcards of a glob. -/
def wildcards : List Char := ['*', '?']

/-- **A glob without wildcards matches its own text only.** -/
theorem glob_of_literal {pattern : List Char} (h : ∀ c ∈ pattern, c ∉ wildcards)
    (text : List Char) : glob pattern text = true ↔ pattern = text := by
  induction pattern generalizing text with
  | nil => cases text <;> simp [glob]
  | cons c pattern ih =>
    obtain ⟨hc, hpattern⟩ := List.forall_mem_cons.mp h
    have hstar : c ≠ '*' := fun heq => hc (by simp [heq, wildcards])
    have hquestion : c ≠ '?' := fun heq => hc (by simp [heq, wildcards])
    cases text with
    | nil => simp [glob, hstar]
    | cons d text => simp [glob, hstar, hquestion, ih hpattern text]

/-- What a glob matches begins with the first character of the glob, unless this is a
    wildcard. -/
theorem head_of_glob {c d : Char} {pattern text : List Char} (hc : c ∉ wildcards)
    (h : glob (c :: pattern) (d :: text) = true) : c = d := by
  have hstar : c ≠ '*' := fun heq => hc (by simp [heq, wildcards])
  have hquestion : c ≠ '?' := fun heq => hc (by simp [heq, wildcards])
  rw [glob, if_neg hstar, Bool.and_eq_true] at h
  simpa [hquestion] using h.1

/-- Every glob matches some text. -/
theorem exists_glob (pattern : List Char) : ∃ text, glob pattern text = true := by
  induction pattern with
  | nil => exact ⟨[], rfl⟩
  | cons c pattern ih =>
    obtain ⟨text, htext⟩ := ih
    by_cases hstar : c = '*'
    · refine ⟨text, ?_⟩
      rw [glob.eq_def]
      show (if c = '*' then text.tails.any (glob pattern) else _) = true
      rw [if_pos hstar, List.any_eq_true]
      exact ⟨text, (List.mem_tails text text).mpr List.suffix_rfl, htext⟩
    · refine ⟨c :: text, ?_⟩
      rw [glob, if_neg hstar, htext, Bool.and_true, beq_self_eq_true, Bool.or_true]

/-! ### Search patterns -/

/-- The characters that are special in a regular expression. -/
def metacharacters : List Char :=
  ['*', '?', '+', '[', ']', '(', ')', '{', '}', '^', '$', '|', '\\', '.', '/']

/-- The characters that end a line. -/
def lineTerminators : List Char :=
  ['\n', '\x0b', '\x0c', '\r', '\u0085', '\u2028', '\u2029']

/-- What stands for one character of a text. -/
inductive PatternChar where
  | char (c : Char)
  /-- `.` -/
  | any
deriving DecidableEq

namespace PatternChar

/-- A dot fits every character of a line. -/
def fits : PatternChar → Char → Bool
  | .char c, d => c == d
  | .any, d => !lineTerminators.elem d

/-- How it is written. -/
def text : PatternChar → Char
  | .char c => c
  | .any => '.'

/-- A character that stands for itself. -/
def parse (c : Char) : Option PatternChar :=
  if c = '.' then some .any else if metacharacters.elem c then none else some (.char c)

/-- It is written as it is read. -/
theorem text_of_parse {c : Char} {p : PatternChar} (h : parse c = some p) : p.text = c := by
  rw [parse] at h
  split_ifs at h with hdot hspecial
  · rw [← Option.some.inj h, hdot]
    rfl
  · rw [← Option.some.inj h]
    rfl

/-- Only a dot fits a special character. -/
theorem eq_any_of_fits {c d : Char} {p : PatternChar} (h : parse c = some p)
    (hd : d ∈ metacharacters) (hfits : p.fits d = true) : p = .any := by
  rw [parse] at h
  split_ifs at h with hdot hspecial
  · exact (Option.some.inj h).symm
  · obtain rfl := Option.some.inj h
    obtain rfl : c = d := beq_iff_eq.mp hfits
    exact absurd (List.elem_eq_true_of_mem hd) hspecial

/-- A character fits itself, unless it ends a line. -/
theorem fits_text {c : Char} {p : PatternChar} (h : parse c = some p) : p.fits p.text = true := by
  rw [parse] at h
  split_ifs at h with hdot hspecial
  · rw [← Option.some.inj h]
    rfl
  · rw [← Option.some.inj h]
    exact beq_self_eq_true c

/-- Wildcards do not stand for themselves. -/
theorem not_wildcard_of_parse {c : Char} {p : PatternChar} (h : parse c = some p) :
    c ∉ wildcards := by
  intro hc
  rw [parse] at h
  split_ifs at h with hdot hspecial
  · rw [hdot] at hc
    exact absurd hc (by decide)
  · refine hspecial (List.elem_eq_true_of_mem ?_)
    rcases List.mem_cons.mp hc with rfl | hc
    · decide
    · rw [List.mem_singleton.mp hc]
      decide

end PatternChar

/-- The `$` of a regular expression: the end of the text, or before the line terminator that ends
    it. -/
def atLineEnd (before after : List Char) : Bool :=
  match after with
  | [] => true
  | [c] => lineTerminators.elem c && !(c == '\n' && before.getLast? == some '\r')
  | [c, d] => c == '\r' && d == '\n'
  | _ :: _ :: _ :: _ => false

/-- A regular expression of a fixed width: `^`, ordinary characters and dots, `$`. -/
structure SearchPattern where
  atStart : Bool
  chars : List PatternChar
  atEnd : Bool
deriving DecidableEq

namespace SearchPattern

/-- Read a pattern; `none` if it has other special characters. -/
def parse (pattern : List Char) : Option SearchPattern :=
  let atStart := pattern.head? == some '^'
  let rest := if atStart then pattern.tail else pattern
  let atEnd := rest.getLast? == some '$'
  let chars := if atEnd then rest.dropLast else rest
  (chars.mapM PatternChar.parse).map fun chars => { atStart, chars, atEnd }

/-- How it is written. -/
def text (p : SearchPattern) : List Char :=
  (if p.atStart then ['^'] else []) ++ p.chars.map PatternChar.text
    ++ (if p.atEnd then ['$'] else [])

/-- The pattern fits what is in the middle. -/
structure FitsBetween (p : SearchPattern) (before middle after : List Char) : Prop where
  fits : List.Forall₂ (fun q c => q.fits c = true) p.chars middle
  start : p.atStart = true → before = []
  lineEnd : p.atEnd = true → atLineEnd (before ++ middle) after = true

/-- The pattern is found in the text. -/
def Occurs (p : SearchPattern) (text : List Char) : Prop :=
  ∃ before middle after, text = before ++ middle ++ after ∧ p.FitsBetween before middle after

/-- The search, at every position. -/
def occurs (p : SearchPattern) (text : List Char) : Bool :=
  (List.range (text.length + 1)).any fun i =>
    decide (List.Forall₂ (fun q c => q.fits c = true) p.chars
        ((text.drop i).take p.chars.length)) &&
      (!p.atStart || i == 0) &&
      (!p.atEnd || atLineEnd (text.take (i + p.chars.length)) (text.drop (i + p.chars.length)))

/-- **The search finds the pattern where it occurs.** -/
theorem occurs_iff (p : SearchPattern) (text : List Char) :
    p.occurs text = true ↔ p.Occurs text := by
  simp only [occurs, List.any_eq_true, List.mem_range, Bool.and_eq_true, decide_eq_true_eq,
    Bool.or_eq_true, Bool.not_eq_true', beq_iff_eq]
  constructor
  · rintro ⟨i, hi, ⟨hfits, hstart⟩, hend⟩
    have htext : text.take i ++ (text.drop i).take p.chars.length
        = text.take (i + p.chars.length) := List.take_add.symm
    refine ⟨text.take i, (text.drop i).take p.chars.length, text.drop (i + p.chars.length), ?_,
      hfits, fun h => ?_, fun h => ?_⟩
    · rw [htext, List.take_append_drop]
    · rcases hstart with hfree | rfl
      · rw [hfree] at h
        cases h
      · rfl
    · rw [htext]
      rcases hend with hfree | hend
      · rw [hfree] at h
        cases h
      · exact hend
  · rintro ⟨before, middle, after, rfl, hfits, hstart, hend⟩
    have hlength : p.chars.length = middle.length := hfits.length_eq
    refine ⟨before.length, by simp only [List.length_append]; omega, ⟨?_, ?_⟩, ?_⟩
    · rw [List.append_assoc, List.drop_left, hlength, List.take_left]
      exact hfits
    · cases hatStart : p.atStart with
      | false => exact Or.inl rfl
      | true => exact Or.inr (by rw [hstart hatStart]; rfl)
    · cases hatEnd : p.atEnd with
      | false => exact Or.inl rfl
      | true =>
        refine Or.inr ?_
        have hboth : before.length + p.chars.length = (before ++ middle).length := by
          rw [List.length_append, hlength]
        rw [hboth, List.take_left, List.drop_left]
        exact hend hatEnd

instance (p : SearchPattern) (text : List Char) : Decidable (p.Occurs text) :=
  decidable_of_iff (p.occurs text = true) (p.occurs_iff text)

/-! ### How patterns are written -/

/-- Characters are written as they are read. -/
theorem map_text_of_mapM {body : List Char} {chars : List PatternChar}
    (h : body.mapM PatternChar.parse = some chars) :
    chars.map PatternChar.text = body ∧ ∀ q ∈ chars, PatternChar.parse q.text = some q := by
  induction body generalizing chars with
  | nil =>
    obtain rfl := Option.some.inj h
    exact ⟨rfl, fun _ hq => absurd hq List.not_mem_nil⟩
  | cons c body ih =>
    rw [List.mapM_cons] at h
    obtain ⟨q, hq, h⟩ := Option.bind_eq_some_iff.mp h
    obtain ⟨qs, hqs, h⟩ := Option.bind_eq_some_iff.mp h
    obtain rfl := Option.some.inj h
    obtain ⟨htext, hparse⟩ := ih hqs
    have hqtext := PatternChar.text_of_parse hq
    refine ⟨by rw [List.map_cons, htext, hqtext], List.forall_mem_cons.mpr ⟨?_, hparse⟩⟩
    rw [hqtext, hq]

/-- **Patterns are written as they are read**, and their characters are. -/
theorem text_of_parse {pattern : List Char} {p : SearchPattern} (h : parse pattern = some p) :
    p.text = pattern ∧ ∀ q ∈ p.chars, PatternChar.parse q.text = some q := by
  obtain ⟨chars, hchars, rfl⟩ := Option.map_eq_some_iff.mp h
  obtain ⟨htext, hparse⟩ := map_text_of_mapM hchars
  refine ⟨?_, hparse⟩
  rw [text, htext]
  -- take off the anchor at the start, and then the one at the end
  have hend : ∀ rest : List Char,
      (if rest.getLast? == some '$' then rest.dropLast else rest)
        ++ (if rest.getLast? == some '$' then ['$'] else []) = rest := by
    intro rest
    split_ifs with hlast
    · exact List.dropLast_append_getLast? '$' (beq_iff_eq.mp hlast)
    · exact List.append_nil rest
  have hstart : (if pattern.head? == some '^' then ['^'] else [])
      ++ (if pattern.head? == some '^' then pattern.tail else pattern) = pattern := by
    split_ifs with hhead
    · obtain ⟨rest, rfl⟩ := List.head?_eq_some_iff.mp (beq_iff_eq.mp hhead)
      rfl
    · rfl
  rw [List.append_assoc, hend, hstart]

/-- A pattern has no wildcards. -/
theorem not_wildcard_of_parse {pattern : List Char} {p : SearchPattern}
    (h : parse pattern = some p) : ∀ c ∈ pattern, c ∉ wildcards := by
  obtain ⟨htext, hparse⟩ := text_of_parse h
  intro c hc
  rw [← htext, text, List.mem_append, List.mem_append] at hc
  rcases hc with (hc | hc) | hc
  · split_ifs at hc
    · rw [List.mem_singleton.mp hc]
      decide
    · cases hc
  · obtain ⟨q, hq, rfl⟩ := List.mem_map.mp hc
    exact PatternChar.not_wildcard_of_parse (hparse q hq)
  · split_ifs at hc
    · rw [List.mem_singleton.mp hc]
      decide
    · cases hc

/-! ### Where patterns are found -/

section Found

variable {p : SearchPattern}

/-- A text is at least as long as a pattern that is found in it. -/
theorem Occurs.length_le {text : List Char} (h : p.Occurs text) :
    p.chars.length ≤ text.length := by
  obtain ⟨before, middle, after, rfl, hfits, -⟩ := h
  rw [hfits.length_eq, List.length_append, List.length_append]
  omega

/-- What is left behind the end of a line ends a line. -/
theorem eq_nil_of_atLineEnd {before after : List Char} {c : Char}
    (h : atLineEnd before after = true) (hc : c ∉ lineTerminators)
    (hlast : ∀ d, after.getLast? = some d → d = c) : after = [] := by
  match after, h with
  | [], _ => rfl
  | [d], h =>
    obtain rfl := hlast d rfl
    rw [atLineEnd, Bool.and_eq_true] at h
    exact absurd (List.mem_of_elem_eq_true h.1) hc
  | [d, e], h =>
    obtain rfl := hlast e rfl
    rw [atLineEnd, Bool.and_eq_true, beq_iff_eq, beq_iff_eq] at h
    rw [h.2] at hc
    exact absurd (by decide) hc
  | _ :: _ :: _ :: _, h => cases h

/-- A pattern with an anchor at the end is found at the end of a text, if the text does not end in
    a line terminator. -/
theorem Occurs.suffix {text : List Char} {c : Char} (h : p.Occurs (text ++ [c]))
    (hend : p.atEnd = true) (hc : c ∉ lineTerminators) :
    ∃ before middle, text ++ [c] = before ++ middle ∧ p.FitsBetween before middle [] := by
  obtain ⟨before, middle, after, htext, hfits⟩ := h
  have hafter : after = [] := by
    refine eq_nil_of_atLineEnd (hfits.lineEnd hend) hc fun d hd => ?_
    have hlast : (text ++ [c]).getLast? = some d := by
      rw [htext, List.getLast?_append, hd]
      rfl
    rw [List.getLast?_concat] at hlast
    exact (Option.some.inj hlast).symm
  subst hafter
  exact ⟨before, middle, by rw [htext, List.append_nil], hfits⟩

/-- A pattern with both anchors describes the whole text, if the text does not end in a line
    terminator. -/
theorem Occurs.length_eq {text : List Char} {c : Char} (h : p.Occurs (text ++ [c]))
    (hstart : p.atStart = true) (hend : p.atEnd = true) (hc : c ∉ lineTerminators) :
    p.chars.length = (text ++ [c]).length := by
  obtain ⟨before, middle, htext, hfits⟩ := h.suffix hend hc
  rw [htext, hfits.start hstart, List.nil_append]
  exact hfits.fits.length_eq

end Found

end SearchPattern

/-! ### Patterns with an anchor at one end -/

/-- The text begins with what the characters fit. -/
def fitsPrefix : List PatternChar → List Char → Bool
  | [], _ => true
  | _ :: _, [] => false
  | q :: chars, c :: text => q.fits c && fitsPrefix chars text

/-- The beginning is what the characters fit, one by one. -/
theorem fitsPrefix_iff (chars : List PatternChar) (text : List Char) :
    fitsPrefix chars text = true ↔
      ∃ middle after, text = middle ++ after ∧
        List.Forall₂ (fun q c => q.fits c = true) chars middle := by
  induction chars generalizing text with
  | nil => exact iff_of_true rfl ⟨[], text, rfl, .nil⟩
  | cons q chars ih =>
    cases text with
    | nil =>
      refine iff_of_false Bool.false_ne_true ?_
      rintro ⟨middle, after, htext, hfits⟩
      obtain ⟨rfl, -⟩ := List.append_eq_nil_iff.mp htext.symm
      cases hfits
    | cons c text =>
      rw [fitsPrefix, Bool.and_eq_true, ih]
      constructor
      · rintro ⟨hq, middle, after, rfl, hfits⟩
        exact ⟨c :: middle, after, rfl, .cons hq hfits⟩
      · rintro ⟨middle, after, htext, hfits⟩
        cases hfits with
        | cons hq hfits =>
          obtain ⟨rfl, rfl⟩ := List.cons.inj htext
          exact ⟨hq, _, after, rfl, hfits⟩

/-- **The first characters fit the first text, and the others what follows it.** -/
theorem fitsPrefix_append (chars : List PatternChar) (before after : List Char) :
    fitsPrefix chars (before ++ after) = true ↔
      fitsPrefix (chars.take before.length) before = true ∧
        fitsPrefix (chars.drop before.length) after = true := by
  induction before generalizing chars with
  | nil => exact (and_iff_right rfl).symm
  | cons c before ih =>
    cases chars with
    | nil => exact iff_of_true rfl ⟨rfl, rfl⟩
    | cons q chars =>
      simp only [List.cons_append, List.length_cons, List.take_succ_cons, List.drop_succ_cons,
        fitsPrefix, Bool.and_eq_true, ih, and_assoc]

namespace SearchPattern

variable {p : SearchPattern}

/-- A pattern with an anchor at the start is found at the start of the text. -/
theorem occurs_start_iff (hstart : p.atStart = true) (hend : p.atEnd = false)
    (text : List Char) : p.Occurs text ↔ fitsPrefix p.chars text = true := by
  rw [fitsPrefix_iff]
  constructor
  · rintro ⟨before, middle, after, rfl, hfits⟩
    rw [hfits.start hstart]
    exact ⟨middle, after, rfl, hfits.fits⟩
  · rintro ⟨middle, after, rfl, hfits⟩
    refine ⟨[], middle, after, rfl, hfits, fun _ => rfl, fun h => ?_⟩
    rw [hend] at h
    cases h

/-- A pattern with an anchor at the end is found at the end of the text, read from there, if the
    text does not end in a line terminator. -/
theorem occurs_end_iff (hstart : p.atStart = false) (hend : p.atEnd = true) {text : List Char}
    {c : Char} (hc : c ∉ lineTerminators) :
    p.Occurs (text ++ [c]) ↔ fitsPrefix p.chars.reverse (text ++ [c]).reverse = true := by
  rw [fitsPrefix_iff]
  constructor
  · intro h
    obtain ⟨before, middle, htext, hfits⟩ := h.suffix hend hc
    refine ⟨middle.reverse, before.reverse, ?_, List.forall₂_reverse_iff.mpr hfits.fits⟩
    rw [htext, List.reverse_append]
  · rintro ⟨middle, before, htext, hfits⟩
    refine ⟨before.reverse, middle.reverse, [], ?_, ?_, fun h => ?_, fun _ => rfl⟩
    · rw [List.append_nil, ← List.reverse_append, ← htext, List.reverse_reverse]
    · rw [← List.forall₂_reverse_iff, List.reverse_reverse]
      exact hfits
    · rw [hstart] at h
      cases h

/-- The texts that the characters fit. -/
def words (p : SearchPattern) : Set (List Char) :=
  {word | List.Forall₂ (fun q c => q.fits c = true) p.chars word}

/-- A pattern without anchors is found where a part of the text is one of its words. -/
theorem occurs_part_iff (hstart : p.atStart = false) (hend : p.atEnd = false)
    (text : List Char) : p.Occurs text ↔ ∃ word ∈ p.words, word <:+: text := by
  constructor
  · rintro ⟨before, middle, after, rfl, hfits⟩
    exact ⟨middle, hfits.fits, before, after, rfl⟩
  · rintro ⟨word, hword, before, after, rfl⟩
    refine ⟨before, word, after, rfl, hword, ?_, ?_⟩
    · rw [hstart]
      exact fun hfalse => absurd hfalse Bool.false_ne_true
    · rw [hend]
      exact fun hfalse => absurd hfalse Bool.false_ne_true

end SearchPattern

/-! ### Patterns in their own text -/

namespace SearchPattern

/-- The pattern has no anchor; or it has one, and else dots only. -/
def FindsItself (p : SearchPattern) : Prop :=
  p.atStart = false ∧ p.atEnd = false ∨
    p.atStart ≠ p.atEnd ∧ ∀ q ∈ p.chars, q = .any

instance (p : SearchPattern) : Decidable p.FindsItself :=
  inferInstanceAs (Decidable (_ ∨ _))

/-- Characters that fit themselves behind a special character are dots: each fits the one before. -/
theorem eq_any_of_shifted {chars : List PatternChar} {d : Char} (hd : d ∈ metacharacters)
    (hparse : ∀ q ∈ chars, PatternChar.parse q.text = some q) {middle after : List Char}
    (htext : d :: chars.map PatternChar.text = middle ++ after)
    (hfits : List.Forall₂ (fun q c => q.fits c = true) chars middle) :
    ∀ q ∈ chars, q = .any := by
  induction hfits generalizing d with
  | nil => exact fun _ hq => absurd hq List.not_mem_nil
  | @cons q c chars middle hq _ ih =>
    obtain ⟨hqparse, hparse'⟩ := List.forall_mem_cons.mp hparse
    obtain ⟨rfl, htail⟩ := List.cons.inj htext
    obtain rfl := PatternChar.eq_any_of_fits hqparse hd hq
    have hdot : '.' ∈ metacharacters := by decide
    exact List.forall_mem_cons.mpr ⟨rfl, ih hdot hparse' htail⟩

/-- Dots fit what they are written as, behind a character that does not end a line. -/
theorem fits_shifted {chars : List PatternChar} {d : Char} (hd : d ∉ lineTerminators)
    (hany : ∀ q ∈ chars, q = .any) : ∃ middle after,
      d :: chars.map PatternChar.text = middle ++ after ∧
        List.Forall₂ (fun q c => q.fits c = true) chars middle := by
  induction chars generalizing d with
  | nil => exact ⟨[], [d], rfl, .nil⟩
  | cons q chars ih =>
    obtain ⟨rfl, hany'⟩ := List.forall_mem_cons.mp hany
    obtain ⟨middle, after, htext, hfits⟩ := ih (d := '.') (by decide) hany'
    refine ⟨d :: middle, after, congrArg (d :: ·) htext, .cons ?_ hfits⟩
    rw [PatternChar.fits, Bool.not_eq_true']
    exact Bool.eq_false_iff.mpr fun helem => hd (List.mem_of_elem_eq_true helem)

/-- **Which patterns are found in the text they are written as.** -/
theorem occurs_text_iff {p : SearchPattern}
    (hparse : ∀ q ∈ p.chars, PatternChar.parse q.text = some q) :
    p.Occurs p.text ↔ p.FindsItself := by
  obtain ⟨atStart, chars, atEnd⟩ := p
  cases atStart with
  | false =>
    cases atEnd with
    | false =>
      refine iff_of_true ⟨[], chars.map PatternChar.text, [], rfl, ?_, ?_, ?_⟩ (Or.inl ⟨rfl, rfl⟩)
      · rw [List.forall₂_map_right_iff, List.forall₂_same]
        exact fun q hq => PatternChar.fits_text (hparse q hq)
      · exact fun hfalse => absurd hfalse Bool.false_ne_true
      · exact fun hfalse => absurd hfalse Bool.false_ne_true
    | true =>
      -- read from the end, the characters are behind the anchor
      have hreverse : ∀ before middle : List Char,
          chars.map PatternChar.text ++ ['$'] = before ++ middle ↔
            '$' :: chars.reverse.map PatternChar.text = middle.reverse ++ before.reverse := by
        intro before middle
        rw [← List.reverse_inj, List.reverse_append, List.reverse_append, List.map_reverse]
        rfl
      constructor
      · intro h
        obtain ⟨before, middle, htext, hfits⟩ := h.suffix rfl (c := '$') (by decide)
        refine Or.inr ⟨Bool.false_ne_true, fun q hq => ?_⟩
        exact eq_any_of_shifted (by decide) (fun q hq => hparse q (List.mem_reverse.mp hq))
          ((hreverse before middle).mp htext) (List.forall₂_reverse_iff.mpr hfits.fits) q
          (List.mem_reverse.mpr hq)
      · rintro (⟨-, hfalse⟩ | ⟨-, hany⟩)
        · cases hfalse
        · obtain ⟨middle, before, htext, hfits⟩ := fits_shifted (d := '$') (by decide)
            fun q hq => hany q (List.mem_reverse.mp hq)
          refine ⟨before.reverse, middle.reverse, [], ?_, ?_, ?_, fun _ => rfl⟩
          · rw [List.append_nil]
            refine (hreverse before.reverse middle.reverse).mpr ?_
            rw [List.reverse_reverse, List.reverse_reverse]
            exact htext
          · rw [← List.forall₂_reverse_iff, List.reverse_reverse]
            exact hfits
          · exact fun hfalse => absurd hfalse Bool.false_ne_true
  | true =>
    cases atEnd with
    | false =>
      have hwritten : text ⟨true, chars, false⟩ = '^' :: chars.map PatternChar.text :=
        List.append_nil _
      constructor
      · rintro ⟨before, middle, after, htext, hfits⟩
        rw [hfits.start rfl, List.nil_append, hwritten] at htext
        exact Or.inr ⟨Bool.false_ne_true.symm,
          eq_any_of_shifted (by decide) hparse htext hfits.fits⟩
      · rintro (⟨hfalse, -⟩ | ⟨-, hany⟩)
        · cases hfalse
        · obtain ⟨middle, after, htext, hfits⟩ := fits_shifted (d := '^') (by decide) hany
          refine ⟨[], middle, after, hwritten.trans htext, hfits, fun _ => rfl, ?_⟩
          · exact fun hfalse => absurd hfalse Bool.false_ne_true
    | true =>
      refine iff_of_false (fun h => ?_) ?_
      · have hwritten : text ⟨true, chars, true⟩
            = '^' :: chars.map PatternChar.text ++ ['$'] := rfl
        rw [hwritten] at h
        have hlength := h.length_eq rfl rfl (by decide)
        simp only [List.length_append, List.length_cons, List.length_map,
          List.length_nil] at hlength
        omega
      · rintro (⟨hfalse, -⟩ | ⟨hne, -⟩)
        · cases hfalse
        · exact hne rfl

end SearchPattern

end QBRepository
