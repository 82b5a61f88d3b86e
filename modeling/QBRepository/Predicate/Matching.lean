import QBRepository.Lib.Text
import QBRepository.Predicate.Agreement
import QBRepository.Predicate.Conformances

namespace QBRepository

/-!
# The string operators in memory and in the store

In the store `~=` is a glob of the whole string and `<<` a search that ignores case and
diacritics.  In memory `~=` searches the description of the property with a regular expression,
and `<<` searches the string ignoring case only.

* `isMatching_agrees_iff` — when the two forms of `~=` select a string alike;
* `isContaining_agrees_iff` — the same for `<<`;
* `seesThroughOptional_iff` — when `~=` on an optional string is `~=` on the string.
-/

variable {Model Character : Type}

/-! ### What is assumed of Foundation and of the store -/

/-- A valid pattern of ordinary characters and dots, with or without anchors, is found where it
    occurs. -/
def Foundation.FindsPatterns (foundation : Foundation) : Prop :=
  ∀ pattern firstMatch p, SearchPattern.parse pattern.toList = some p →
    foundation.regularExpression pattern = some firstMatch →
    ∀ string, firstMatch string = true ↔ p.Occurs string.toList

/-- `LIKE` is a glob. -/
def Store.LikeIsGlob (S : Store NSObject Model) : Prop :=
  ∀ string pattern, S.like (.string string) pattern = glob pattern.toList string.toList

/-- The characters of the lowercased string without diacritics; `characters` are the characters
    of a string up to canonical equivalence, and `base` is what is left of one. -/
def Foundation.folded (foundation : Foundation) (characters : String → List Character)
    (base : Character → Character) (string : String) : List Character :=
  (characters (foundation.lowercased string)).map base

/-- `CONTAINS[cd]` searches for a needle ignoring case and diacritics. -/
def Store.ContainsIsFolded (S : Store NSObject Model) (foundation : Foundation)
    (characters : String → List Character) (base : Character → Character) : Prop :=
  ∀ string needle, S.containsCD (.string string) needle = true ↔
    needle ≠ "" ∧
      foundation.folded characters base needle <:+: foundation.folded characters base string

/-- `contains` searches for a part of the characters, and no string becomes empty, or ceases to
    be, in `lowercased()`. -/
structure Foundation.SearchesParts (foundation : Foundation)
    (characters : String → List Character) : Prop where
  contains_iff : ∀ string part, foundation.contains string part = true ↔
    part ≠ "" ∧ characters part <:+: characters string
  characters_empty : characters "" = []
  lowercased_eq_empty : ∀ string, foundation.lowercased string = "" ↔ string = ""

/-- `regex?.firstMatch(in: string) != nil` -/
def Foundation.finds (foundation : Foundation) (pattern string : String) : Bool :=
  match foundation.regularExpression pattern with
  | some firstMatch => firstMatch string
  | none => false

/-- An invalid pattern finds nothing. -/
theorem Foundation.finds_of_invalid {foundation : Foundation} {pattern : String}
    (h : foundation.regularExpression pattern = none) (string : String) :
    foundation.finds pattern string = false := by
  rw [finds, h]

/-- A valid pattern of the known kind is found where it occurs. -/
theorem Foundation.finds_iff {foundation : Foundation} (hfinds : foundation.FindsPatterns)
    {pattern : String} {p : SearchPattern} (hp : SearchPattern.parse pattern.toList = some p)
    (hvalid : foundation.regularExpression pattern ≠ none) (string : String) :
    foundation.finds pattern string = true ↔ p.Occurs string.toList := by
  obtain ⟨firstMatch, hfirstMatch⟩ := Option.ne_none_iff_exists'.mp hvalid
  rw [finds, hfirstMatch]
  exact hfinds pattern firstMatch p hp hfirstMatch string

/-- `~=` searches the description of the property. -/
theorem evaluate_isMatching {Property : Type} [RegexMatchableProperty NSObject Property]
    (foundation : Foundation) (keyPath : KeyPath Model Property) (pattern : String)
    (model : Model) : (keyPath.isMatching foundation pattern).evaluate model =
      foundation.finds pattern (RegexMatchableProperty.describing (keyPath.get model)) := rfl

/-! ### A sample of words -/

namespace Sample

/-- An `e` and a combining acute accent are one character. -/
def composed : List Char → List Char
  | [] => []
  | 'e' :: '\u0301' :: rest => 'é' :: composed rest
  | c :: rest => c :: composed rest

/-- The characters of a word. -/
def characters (word : String) : List Char := composed word.toList

/-- The character without an acute accent. -/
def withoutAcute (c : Char) : Char := if c = 'é' then 'e' else c

/-- Foundation on words without capitals and patterns without other special characters than dots
    and anchors. -/
def foundation : Foundation where
  regularExpression pattern :=
    if pattern = "" then none
    else (SearchPattern.parse pattern.toList).map fun p string => p.occurs string.toList
  lowercased string := string
  contains string part := decide (part ≠ "" ∧ characters part <:+: characters string)

/-- A store of words. -/
def words : Store NSObject String where
  valueForKeyPath word _ := _object word
  equal a b := a == b
  less _ _ := false
  like
    | .string string, pattern => glob pattern.toList string.toList
    | .integer _, _ | .float _, _ | .double _, _ | .date _, _ => false
  containsCD
    | .string string, needle => decide (needle ≠ "" ∧
        foundation.folded characters withoutAcute needle <:+:
          foundation.folded characters withoutAcute string)
    | .integer _, _ | .float _, _ | .double _, _ | .date _, _ => false

/-- A word as its own property. -/
def word : KeyPath String String := ⟨id, some "word"⟩

/-- An optional word as its own property. -/
def optionalWord : KeyPath (Option String) (Option String) := ⟨id, some "word"⟩

/-- The store has the word. -/
theorem word_resolves : word.Resolves words := ⟨"word", rfl, fun _ => rfl⟩

/-- It matches `LIKE` as a glob. -/
theorem words_likeIsGlob : words.LikeIsGlob := fun _ _ => rfl

/-- It searches strings with their accents removed. -/
theorem words_containsIsFolded : words.ContainsIsFolded foundation characters withoutAcute :=
  fun _ _ => decide_eq_true_iff

/-- Strings are searched character by character. -/
theorem foundation_searchesParts : foundation.SearchesParts characters where
  contains_iff _ _ := decide_eq_true_iff
  characters_empty := rfl
  lowercased_eq_empty _ := Iff.rfl

/-- Patterns without metacharacters are found as they stand. -/
theorem foundation_findsPatterns : foundation.FindsPatterns := by
  intro pattern firstMatch p hp hvalid string
  obtain ⟨-, hvalid⟩ := Option.ite_none_left_eq_some.mp hvalid
  obtain ⟨p', hp', rfl⟩ := Option.map_eq_some_iff.mp hvalid
  obtain rfl := Option.some.inj (hp.symm.trans hp')
  exact p.occurs_iff string.toList

end Sample

/-- A format over a resolved key path compares the property of the model. -/
theorem KeyPath.Resolves.agrees_iff {Object Property : Type}
    [ManagedObjectProperty Object Property] {S : Store Object Model} {model : Model}
    {keyPath : KeyPath Model Property} (hkp : keyPath.Resolves S) {p : AnyPredicate Object Model}
    {comparison : String → NSPredicate Object} (hp : p.predicate = keyPath.format comparison) :
    ∃ key, S.valueForKeyPath model key = _object (keyPath.get model) ∧
      (p.Agrees S model ↔ S.holds model (comparison key) = p.evaluate model) := by
  obtain ⟨key, hkey, hvalue⟩ := hkp
  refine ⟨key, hvalue model, ?_⟩
  rw [AnyPredicate.Agrees, hp, KeyPath.format, hkey, Option.map_some, Option.map_some,
    Option.some.injEq]

/-! ### `~=` on a string -/

/-- The pattern is invalid, or has no other special characters than dots and anchors. -/
def Foundation.Decides (foundation : Foundation) (pattern : String) : Prop :=
  foundation.regularExpression pattern = none ∨ ∃ p, SearchPattern.parse pattern.toList = some p

/-- The regular expression and the glob of a pattern select a string alike. -/
inductive RegexMeansGlob (foundation : Foundation) (pattern string : String) : Prop where
  /-- an invalid expression finds nothing, so the glob must not match -/
  | invalid (hinvalid : foundation.regularExpression pattern = none)
      (hglob : glob pattern.toList string.toList = false)
  /-- the string is the pattern, which is found in itself -/
  | own (p : SearchPattern) (hp : SearchPattern.parse pattern.toList = some p)
      (hvalid : foundation.regularExpression pattern ≠ none) (hown : pattern = string)
      (hfinds : p.FindsItself)
  /-- the string is another one, and the pattern occurs nowhere in it -/
  | other (p : SearchPattern) (hp : SearchPattern.parse pattern.toList = some p)
      (hvalid : foundation.regularExpression pattern ≠ none) (hother : pattern ≠ string)
      (habsent : ¬ p.Occurs string.toList)

/-- The pattern does not begin with a wildcard, and is found in whatever a string is part of in
    which it is found. -/
structure Foundation.FindsAnywhere (foundation : Foundation) (pattern : String) : Prop where
  head : ∀ c ∈ pattern.toList.head?, c ∉ wildcards
  anywhere : ∀ before string after, foundation.finds pattern string = true →
    foundation.finds pattern (before ++ string ++ after) = true

section Matching

variable {S : Store NSObject Model} {foundation : Foundation} {keyPath : KeyPath Model String}

/-- The two forms of `~=` are a search and a glob. -/
theorem isMatching_agrees_glob (hlike : S.LikeIsGlob) (hkp : keyPath.Resolves S)
    (pattern : String) (model : Model) : (keyPath.isMatching foundation pattern).Agrees S model ↔
      glob pattern.toList (keyPath.get model).toList
        = foundation.finds pattern (keyPath.get model) := by
  obtain ⟨key, hvalue, hagrees⟩ := hkp.agrees_iff (p := keyPath.isMatching foundation pattern) rfl
  rw [hagrees, Store.holds, hvalue, evaluate_isMatching]
  show S.like (.string (keyPath.get model)) pattern = _ ↔ _
  rw [hlike]
  rfl

/-- A glob and a search of the known kind select a string alike if the pattern is found in itself
    and in no other text. -/
theorem glob_eq_finds_iff (hfinds : foundation.FindsPatterns) {pattern : String}
    {p : SearchPattern} (hp : SearchPattern.parse pattern.toList = some p)
    (hvalid : foundation.regularExpression pattern ≠ none) (string : String) :
    glob pattern.toList string.toList = foundation.finds pattern string ↔
      pattern = string ∧ p.FindsItself ∨ pattern ≠ string ∧ ¬ p.Occurs string.toList := by
  obtain ⟨htext, hchars⟩ := SearchPattern.text_of_parse hp
  rw [Bool.eq_iff_iff, glob_of_literal (SearchPattern.not_wildcard_of_parse hp),
    foundation.finds_iff hfinds hp hvalid, String.toList_inj]
  by_cases hown : pattern = string
  · rw [← hown, ← htext, SearchPattern.occurs_text_iff hchars]
    simp
  · simp [hown]

/-- Where the regular expression is found anywhere, some string is selected by one form only. -/
theorem exists_glob_ne_finds {pattern : String} (hpattern : foundation.FindsAnywhere pattern) :
    ∃ string, glob pattern.toList string.toList ≠ foundation.finds pattern string := by
  by_contra hall
  have halike : ∀ string, glob pattern.toList string.toList = foundation.finds pattern string :=
    fun string => not_not.mp fun hne => hall ⟨string, hne⟩
  obtain ⟨text, htext⟩ := exists_glob pattern.toList
  -- no text that begins otherwise matches the glob
  obtain ⟨d, hd⟩ : ∃ d : Char, glob pattern.toList (d :: text) = false := by
    cases hchars : pattern.toList with
    | nil => exact ⟨'a', rfl⟩
    | cons c rest =>
      have hc : c ∉ wildcards := hpattern.head c (by rw [hchars]; rfl)
      refine ⟨if c = 'a' then 'b' else 'a', Bool.eq_false_iff.mpr fun hglob => ?_⟩
      have hhead := head_of_glob hc hglob
      split_ifs at hhead with ha
      · exact absurd (ha.symm.trans hhead) (by decide)
      · exact ha hhead
  have hfound : foundation.finds pattern (String.ofList text) = true := by
    rw [← halike, String.toList_ofList, htext]
  have hlonger := hpattern.anywhere (String.ofList [d]) (String.ofList text) "" hfound
  rw [← halike] at hlonger
  have htoList : (String.ofList [d] ++ String.ofList text ++ "").toList = d :: text := by simp
  rw [htoList, hd] at hlonger
  exact Bool.false_ne_true hlonger

/-- **`~=` selects a string alike in memory and in the store** if the pattern is invalid and its
    glob does not match, or the pattern is the string, or does not occur in it; and for patterns
    without other special characters than dots and anchors, only then.  Where a pattern with other
    special characters is found anywhere, some string is selected by one form only. -/
theorem isMatching_agrees_iff (hlike : S.LikeIsGlob) (hfinds : foundation.FindsPatterns)
    (hkp : keyPath.Resolves S) (pattern : String) :
    (∀ model, RegexMeansGlob foundation pattern (keyPath.get model) →
      (keyPath.isMatching foundation pattern).Agrees S model) ∧
    (foundation.Decides pattern → ∀ model,
      (keyPath.isMatching foundation pattern).Agrees S model →
        RegexMeansGlob foundation pattern (keyPath.get model)) ∧
    (foundation.FindsAnywhere pattern → ∃ string, ∀ model, keyPath.get model = string →
      ¬ (keyPath.isMatching foundation pattern).Agrees S model) := by
  have hagrees : ∀ model, (keyPath.isMatching foundation pattern).Agrees S model ↔ _ :=
    isMatching_agrees_glob hlike hkp pattern
  refine ⟨fun model h => (hagrees model).mpr ?_, fun hdecides model h => ?_, fun hpattern => ?_⟩
  · cases h with
    | invalid hinvalid hglob => rw [hglob, foundation.finds_of_invalid hinvalid]
    | own p hp hvalid hown hitself =>
      exact (glob_eq_finds_iff hfinds hp hvalid _).mpr (Or.inl ⟨hown, hitself⟩)
    | other p hp hvalid hother habsent =>
      exact (glob_eq_finds_iff hfinds hp hvalid _).mpr (Or.inr ⟨hother, habsent⟩)
  · have halike := (hagrees model).mp h
    by_cases hinvalid : foundation.regularExpression pattern = none
    · exact .invalid hinvalid (by rw [halike, foundation.finds_of_invalid hinvalid])
    · obtain ⟨p, hp⟩ := hdecides.resolve_left hinvalid
      rcases (glob_eq_finds_iff hfinds hp hinvalid _).mp halike with
        ⟨hown, hitself⟩ | ⟨hother, habsent⟩
      · exact .own p hp hinvalid hown hitself
      · exact .other p hp hinvalid hother habsent
  · obtain ⟨string, hne⟩ := exists_glob_ne_finds hpattern
    refine ⟨string, fun model hstring h => hne ?_⟩
    rw [← hstring]
    exact (hagrees model).mp h

end Matching

/-- A word is selected by itself, and by no pattern that it does not contain. -/
theorem isMatching_agrees_words :
    (Sample.word.isMatching Sample.foundation "swift").Agrees Sample.words "swift" ∧
      (Sample.word.isMatching Sample.foundation "^s.t$").Agrees Sample.words "swift" := by
  have hagrees := fun pattern => (isMatching_agrees_iff Sample.words_likeIsGlob
    Sample.foundation_findsPatterns Sample.word_resolves pattern).1 "swift"
  refine ⟨hagrees "swift" (.own ⟨false, _, false⟩ rfl ?_ rfl ?_),
    hagrees "^s.t$" (.other ⟨true, [.char 's', .any, .char 't'], true⟩ rfl ?_ ?_ ?_)⟩
  · exact Option.some_ne_none _
  · exact Or.inl ⟨rfl, rfl⟩
  · exact Option.some_ne_none _
  · decide
  · decide

/-- The beginning of a word selects it in memory only. -/
theorem not_isMatching_agrees_words :
    ¬ (Sample.word.isMatching Sample.foundation "swift").Agrees Sample.words "swiftly" := by
  intro h
  have hvalues : some false = some true := h
  simp at hvalues

/-! ### `<<` on a string -/

/-- The needle does not occur in the string only because diacritics are ignored. -/
def OccursByCase (foundation : Foundation) (characters : String → List Character)
    (base : Character → Character) (needle string : String) : Prop :=
  foundation.folded characters base needle <:+: foundation.folded characters base string →
    characters (foundation.lowercased needle) <:+: characters (foundation.lowercased string)

/-- **`<<` selects the same strings in memory and in the store** exactly where the needle does
    not occur up to diacritics only. -/
theorem isContaining_agrees_iff {S : Store NSObject Model} {foundation : Foundation}
    {characters : String → List Character} {base : Character → Character}
    (hstore : S.ContainsIsFolded foundation characters base)
    (hparts : foundation.SearchesParts characters) {keyPath : KeyPath Model String}
    (hkp : keyPath.Resolves S) (needle : String) (model : Model) :
    (keyPath.isContaining foundation needle).Agrees S model ↔
      OccursByCase foundation characters base needle (keyPath.get model) := by
  obtain ⟨key, hvalue, hagrees⟩ := hkp.agrees_iff
    (p := keyPath.isContaining foundation needle) rfl
  have hevaluate : (keyPath.isContaining foundation needle).evaluate model =
      foundation.contains (foundation.lowercased (keyPath.get model))
        (foundation.lowercased needle) := rfl
  rw [hagrees, Store.holds, hvalue, hevaluate]
  generalize keyPath.get model = string
  show S.containsCD (.string string) needle = _ ↔ _
  rw [Bool.eq_iff_iff, hstore, hparts.contains_iff]
  simp only [ne_eq, hparts.lowercased_eq_empty, and_congr_right_iff]
  constructor
  · intro h hfolded
    by_cases hempty : needle = ""
    · rw [(hparts.lowercased_eq_empty needle).mpr hempty, hparts.characters_empty]
      exact List.nil_infix
    · exact (h hempty).mp hfolded
  · -- what occurs ignoring case occurs ignoring more
    exact fun h _ => ⟨h, fun hinfix => hinfix.map base⟩

/-- A part of a word selects it. -/
theorem isContaining_agrees_words :
    (Sample.word.isContaining Sample.foundation "caf").Agrees Sample.words "café" :=
  (isContaining_agrees_iff Sample.words_containsIsFolded Sample.foundation_searchesParts
    Sample.word_resolves "caf" "café").mpr fun _ => by decide

/-- A word without its accent selects the word in the store only, however the accent is encoded. -/
theorem not_isContaining_agrees_words :
    ¬ (Sample.word.isContaining Sample.foundation "cafe").Agrees Sample.words "café" ∧
      ¬ (Sample.word.isContaining Sample.foundation "cafe").Agrees Sample.words "cafe\u0301" := by
  constructor
  · intro h
    have hvalues : some true = some false := h
    simp at hvalues
  · intro h
    have hvalues : some true = some false := h
    simp at hvalues

/-- Strings without diacritics are searched alike. -/
theorem occursByCase_of_base {foundation : Foundation} {characters : String → List Character}
    {base : Character → Character} {needle string : String}
    (hneedle : ∀ c ∈ characters (foundation.lowercased needle), base c = c)
    (hstring : ∀ c ∈ characters (foundation.lowercased string), base c = c) :
    OccursByCase foundation characters base needle string := by
  intro h
  rwa [Foundation.folded, Foundation.folded, List.map_congr_left hneedle,
    List.map_congr_left hstring, List.map_id', List.map_id'] at h

/-! ### `~=` on an optional string -/

/-- Some character of the string is described by others. -/
def IsEscaped (string : String) : Prop := ∃ c ∈ string.toList, escaped c ≠ [c]

/-- What the description of an optional string begins with. -/
def beforeOptional : List Char := "Optional(\"".toList

/-- What it ends with. -/
def afterOptional : List Char := ['"', ')']

/-- The characters of the string, as they are described in between. -/
def describedChars (string : String) : List Char := string.toList.flatMap escaped

/-- The description of an optional string ends with a bracket. -/
theorem toList_describingOptional_concat (string : String) :
    (describingOptional (some string)).toList
      = beforeOptional ++ describedChars string ++ ['"'] ++ [')'] := by
  unfold beforeOptional describedChars
  simp [describingOptional, debugDescription]

/-- It is that of the characters, and what is around it. -/
theorem toList_describingOptional (string : String) :
    (describingOptional (some string)).toList
      = beforeOptional ++ describedChars string ++ afterOptional := by
  rw [toList_describingOptional_concat, List.append_assoc _ ['"'] [')']]
  rfl

/-- Without escapes, the characters describe themselves. -/
theorem describedChars_of_not_escaped {string : String} (h : ¬ IsEscaped string) :
    describedChars string = string.toList := by
  have hsame : ∀ c ∈ string.toList, escaped c = [c] := fun c hc =>
    not_not.mp fun hne => h ⟨c, hc, hne⟩
  rw [describedChars, List.flatMap_congr hsame, List.flatMap_singleton']

/-- An escape is not shorter than what is escaped. -/
theorem length_le_escaped (chars : List Char) : chars.length ≤ (chars.flatMap escaped).length := by
  induction chars with
  | nil => exact Nat.le_refl 0
  | cons c chars ih =>
    have hc : 1 ≤ (escaped c).length := by
      rw [escaped]
      split_ifs <;> simp
    rw [List.flatMap_cons, List.length_append, List.length_cons]
    omega

/-! #### Parts of the text -/

/-- A part of the text is in the language. -/
def HasPart (language : Set (List Char)) (text : List Char) : Prop :=
  ∃ part ∈ language, part <:+: text

/-- The pattern is found where a part of the text is in the language, as are the expressions without
    anchors and without conditions on what is around a match. -/
def Foundation.FindsParts (foundation : Foundation) (pattern : String)
    (language : Set (List Char)) : Prop :=
  ∀ string, foundation.finds pattern string = true ↔ HasPart language string.toList

/-- A word of the language occurs in the description, reaching into the text around the string. -/
def ReachesOut (language : Set (List Char)) (string : String) : Prop :=
  ∃ word ∈ language, word <:+: (describingOptional (some string)).toList ∧
    ¬ word <:+: describedChars string

/-- A word of the language reaches into the text around the string only if one occurs in the string;
    and escapes bring in no word, and take none away. -/
structure PartsSeeThrough (language : Set (List Char)) (string : String) : Prop where
  around : ReachesOut language string → HasPart language string.toList
  brought : IsEscaped string → HasPart language (describedChars string) →
    HasPart language string.toList
  taken : IsEscaped string → HasPart language string.toList →
    HasPart language (describedChars string) ∨ ReachesOut language string

/-- A word in the description reaches out of the string, or does not. -/
theorem hasPart_describingOptional (language : Set (List Char)) (string : String) :
    HasPart language (describingOptional (some string)).toList ↔
      HasPart language (describedChars string) ∨ ReachesOut language string := by
  constructor
  · rintro ⟨word, hword, hinfix⟩
    by_cases hinside : word <:+: describedChars string
    · exact Or.inl ⟨word, hword, hinside⟩
    · exact Or.inr ⟨word, hword, hinfix, hinside⟩
  · rintro (⟨word, hword, hinside⟩ | ⟨word, hword, hinfix, -⟩)
    · rw [toList_describingOptional]
      exact ⟨word, hword, hinside.trans ⟨_, _, rfl⟩⟩
    · exact ⟨word, hword, hinfix⟩

/-- When an optional string has a part in the language if the string has. -/
theorem partsSeeThrough_iff (language : Set (List Char)) (string : String) :
    PartsSeeThrough language string ↔
      (HasPart language (describingOptional (some string)).toList ↔
        HasPart language string.toList) := by
  rw [hasPart_describingOptional]
  constructor
  · intro h
    by_cases hescaped : IsEscaped string
    · exact ⟨fun hpart => hpart.elim (h.brought hescaped) h.around, h.taken hescaped⟩
    · rw [describedChars_of_not_escaped hescaped]
      exact ⟨fun hpart => hpart.elim id h.around, Or.inl⟩
  · intro h
    exact ⟨fun hreaches => h.mp (Or.inr hreaches), fun _ hpart => h.mp (Or.inl hpart),
      fun _ => h.mpr⟩

/-! #### Anchors -/

namespace SearchPattern

/-- With `^`, the pattern reads the text before the string first.  If its first characters do not
    fit this text, it must not fit the beginning of the string; if they do, the others must fit what
    follows exactly if it does. -/
def StartSeesThrough (p : SearchPattern) (string : String) : Prop :=
  if fitsPrefix (p.chars.take beforeOptional.length) beforeOptional then
    fitsPrefix (p.chars.drop beforeOptional.length)
        (describedChars string ++ afterOptional) = true ↔
      p.Occurs string.toList
  else ¬ p.Occurs string.toList

/-- With `$`, it reads the text after the string, from the end. -/
def EndSeesThrough (p : SearchPattern) (string : String) : Prop :=
  if fitsPrefix (p.chars.reverse.take afterOptional.length) afterOptional.reverse then
    fitsPrefix (p.chars.reverse.drop afterOptional.length)
        (beforeOptional ++ describedChars string).reverse = true ↔
      p.Occurs string.toList
  else ¬ p.Occurs string.toList

/-- The pattern is not found in the description of `nil`, and sees an optional string as the string
    itself; if it has both anchors, it is found in neither. -/
def SeesThrough (p : SearchPattern) (string : String) : Prop :=
  ¬ p.Occurs (describingOptional none).toList ∧
    match p.atStart, p.atEnd with
    | true, true => ¬ p.Occurs (describingOptional (some string)).toList ∧ ¬ p.Occurs string.toList
    | true, false => p.StartSeesThrough string
    | false, true => p.EndSeesThrough string
    | false, false => PartsSeeThrough p.words string

variable {p : SearchPattern}

/-- With `^`: the text before the string, and then the others. -/
theorem startSeesThrough_iff (hstart : p.atStart = true) (hend : p.atEnd = false)
    (string : String) : p.StartSeesThrough string ↔
      (p.Occurs (describingOptional (some string)).toList ↔ p.Occurs string.toList) := by
  rw [occurs_start_iff hstart hend (describingOptional (some string)).toList,
    toList_describingOptional, List.append_assoc, fitsPrefix_append, StartSeesThrough]
  split_ifs with hbefore
  · rw [and_iff_right hbefore]
  · exact (iff_false_left fun h => hbefore h.1).symm

/-- With `$`: the text after the string, and then the others. -/
theorem endSeesThrough_iff (hstart : p.atStart = false) (hend : p.atEnd = true)
    (string : String) : p.EndSeesThrough string ↔
      (p.Occurs (describingOptional (some string)).toList ↔ p.Occurs string.toList) := by
  have hreverse : (beforeOptional ++ describedChars string ++ ['"'] ++ [')']).reverse
      = afterOptional.reverse ++ (beforeOptional ++ describedChars string).reverse := by
    rw [List.append_assoc _ ['"'] [')'], List.reverse_append]
    rfl
  rw [toList_describingOptional_concat, occurs_end_iff hstart hend (by decide), hreverse,
    fitsPrefix_append, EndSeesThrough, List.length_reverse]
  split_ifs with hafter
  · rw [and_iff_right hafter]
  · exact (iff_false_left fun h => hafter h.1).symm

/-- A pattern with both anchors is not found in a string and in its description. -/
theorem not_occurs_both (hstart : p.atStart = true) (hend : p.atEnd = true)
    {string : String} (hsome : p.Occurs (describingOptional (some string)).toList) :
    ¬ p.Occurs string.toList := by
  intro hstring
  have hle := hstring.length_le
  have hescaped := length_le_escaped string.toList
  rw [toList_describingOptional_concat] at hsome
  have hlength := hsome.length_eq hstart hend (by decide)
  simp only [describedChars, List.length_append, List.length_cons, List.length_nil] at hlength
  omega

/-- When a pattern sees an optional string as the string. -/
theorem seesThrough_iff (p : SearchPattern) (string : String) : p.SeesThrough string ↔
    (p.Occurs (describingOptional (some string)).toList ↔ p.Occurs string.toList) ∧
      ¬ p.Occurs (describingOptional none).toList := by
  rw [SeesThrough, and_comm]
  refine and_congr_left fun _ => ?_
  cases hstart : p.atStart with
  | false =>
    cases hend : p.atEnd with
    | false =>
      rw [occurs_part_iff hstart hend, occurs_part_iff hstart hend]
      exact partsSeeThrough_iff p.words string
    | true => exact endSeesThrough_iff hstart hend string
  | true =>
    cases hend : p.atEnd with
    | false => exact startSeesThrough_iff hstart hend string
    | true =>
      constructor
      · exact fun ⟨hsome, hstring⟩ => iff_of_false hsome hstring
      · intro h
        have hsome := fun hoccurs => not_occurs_both hstart hend hoccurs (h.mp hoccurs)
        exact ⟨hsome, fun hstring => hsome (h.mpr hstring)⟩

end SearchPattern

/-- The pattern sees through `Optional`. -/
inductive RegexSeesThrough (foundation : Foundation) (pattern string : String) : Prop where
  | invalid (h : foundation.regularExpression pattern = none)
  | pattern (p : SearchPattern) (hp : SearchPattern.parse pattern.toList = some p)
      (hvalid : foundation.regularExpression pattern ≠ none) (h : p.SeesThrough string)
  | parts (language : Set (List Char)) (hlanguage : foundation.FindsParts pattern language)
      (hmissing : ¬ HasPart language (describingOptional none).toList)
      (h : PartsSeeThrough language string)

section Optional

variable {foundation : Foundation}

/-- **Pattern matching sees through `Optional`** for invalid patterns and for those that find
    nothing in the text around the string, nor in `nil`; for patterns without other special
    characters than dots and anchors, and for those that are found by a part of the text, only for
    these. -/
theorem seesThroughOptional_iff {Model' : Type} (hfinds : foundation.FindsPatterns)
    (pattern string : String) {keyPath : KeyPath Model (Option String)}
    {keyPath' : KeyPath Model' String} {model nilModel : Model} {model' : Model'}
    (hsome : keyPath.get model = some string)
    (hnil : keyPath.get nilModel = none) (hstring : keyPath'.get model' = string) :
    (RegexSeesThrough foundation pattern string →
      (keyPath.isMatching foundation pattern).evaluate model =
          (keyPath'.isMatching foundation pattern).evaluate model' ∧
        (keyPath.isMatching foundation pattern).evaluate nilModel = false) ∧
    (foundation.Decides pattern ∨ (∃ language, foundation.FindsParts pattern language) →
      (keyPath.isMatching foundation pattern).evaluate model =
          (keyPath'.isMatching foundation pattern).evaluate model' ∧
        (keyPath.isMatching foundation pattern).evaluate nilModel = false →
      RegexSeesThrough foundation pattern string) := by
  have hmeans : ((keyPath.isMatching foundation pattern).evaluate model =
          (keyPath'.isMatching foundation pattern).evaluate model' ∧
        (keyPath.isMatching foundation pattern).evaluate nilModel = false) ↔
      (foundation.finds pattern (describingOptional (some string)) = true ↔
        foundation.finds pattern string = true) ∧
        ¬ foundation.finds pattern (describingOptional none) = true := by
    simp only [evaluate_isMatching, hsome, hnil, hstring]
    rw [Bool.eq_iff_iff, Bool.not_eq_true]
    rfl
  rw [hmeans]
  constructor
  · intro h
    cases h with
    | invalid h =>
      simp only [foundation.finds_of_invalid h]
      exact ⟨trivial, Bool.false_ne_true⟩
    | pattern p hp hvalid h =>
      simp only [foundation.finds_iff hfinds hp hvalid]
      exact (p.seesThrough_iff string).mp h
    | parts language hlanguage hmissing h =>
      simp only [hlanguage _]
      exact ⟨(partsSeeThrough_iff language string).mp h, hmissing⟩
  · intro hknown h
    by_cases hinvalid : foundation.regularExpression pattern = none
    · exact .invalid hinvalid
    · rcases hknown with hdecides | ⟨language, hlanguage⟩
      · obtain ⟨p, hp⟩ := hdecides.resolve_left hinvalid
        simp only [foundation.finds_iff hfinds hp hinvalid] at h
        exact .pattern p hp hinvalid ((p.seesThrough_iff string).mpr h)
      · simp only [hlanguage _] at h
        exact .parts language hlanguage h.2 ((partsSeeThrough_iff language string).mpr h.1)

end Optional

/-- A word is found in the optional as well; so is its end, but not with an anchor, and then it
    has to be missing in the word. -/
theorem seesThroughOptional_words :
    ((Sample.optionalWord.isMatching Sample.foundation "swift").evaluate (some "swift") =
        (Sample.word.isMatching Sample.foundation "swift").evaluate "swift" ∧
      (Sample.optionalWord.isMatching Sample.foundation "swift").evaluate none = false) ∧
    RegexSeesThrough Sample.foundation "^if$" "swift" := by
  have hiff := fun pattern => seesThroughOptional_iff Sample.foundation_findsPatterns pattern
    "swift" (rfl : Sample.optionalWord.get (some "swift") = some "swift")
    (rfl : Sample.optionalWord.get none = none) (rfl : Sample.word.get "swift" = "swift")
  refine ⟨(hiff "swift").1 (.pattern ⟨false, _, false⟩ rfl (Option.some_ne_none _) ?_),
    (hiff "^if$").2 (Or.inl (Or.inr ⟨_, rfl⟩)) ?_⟩
  · rw [SearchPattern.seesThrough_iff]
    decide
  · decide

/-- A missing word is found by its description. -/
theorem not_seesThroughOptional_words :
    ¬ ∀ (pattern : String) (model : Option String), model = none →
      (Sample.optionalWord.isMatching Sample.foundation pattern).evaluate model = false := by
  intro h
  have hvalue : true = false := h "nil" none rfl
  simp at hvalue

end QBRepository
