/-
The grammar of namespaces. It is written down twice: as the parts between double colons, each
of them a name (`Grammatical`), and as a regular expression with a starred group (`pattern`).
The two say the same of every text (`mem_pattern_iff`): going through the group once more is
splitting once more, because no name has a colon in it.

A namespace is what follows the grammar and is no reserved word in any case
(`ofValue_eq_ok_iff`). All characters of the grammar are ASCII, so lower case for all of
Unicode is as good as that for ASCII (`lower_eq_map_toLower`), and one character that the
grammar has not, wherever it stands, is enough to refuse a text.

# The regular expression

`pattern` is built of the library's regular expressions, and what it matches is the language the
library gives it. A class of characters is a sum of single ones (`oneOf`), so each layer has its
own lemma: a class, any number of a class, a name, the group with its two colons
(`mem_oneOf_iff`, `mem_star_oneOf_iff`, `mem_namePattern_iff`, `mem_group_iff`). A starred group
is a list of words that each match it; the induction is on this list, and what it carries is
that the components of the whole are the names of the groups (`isName_of_mem_components`).

# Which fault

A text is refused in two ways. The empty one is missing (`ofValue_eq_missing_iff`); every other
one is invalid, with the text itself in the report (`ofValue_of_invalid`). There is no third: a
text that is accepted comes back as it was given.
-/
import ApiAuthz.Proofs.Namespace
import ApiAuthz.Text.Lowercase
import Mathlib.Computability.RegularExpressions

namespace ApiAuthz

-- ==================================================== ASCII

namespace Text

/-- An ASCII character is one of the first 128. -/
theorem exists_ofNat {c : Char} (hc : c.toNat < 128) : ∃ n < 128, c = Char.ofNat n :=
  ⟨c.toNat, hc, (Char.ofNat_toNat c).symm⟩

/-- The small letters of ASCII are those of Unicode. -/
theorem smallOf_eq_toLower {c : Char} (hc : c.toNat < 128) : smallOf c = c.toLower := by
  have hall : ∀ n < 128, smallOf (Char.ofNat n) = (Char.ofNat n).toLower := by decide +kernel
  obtain ⟨n, hn, rfl⟩ := exists_ofNat hc
  exact hall n hn

/-- Of ASCII, lower case is letter by letter. -/
theorem lowerFrom_eq_map_toLower {cs : List Char} (h : ∀ c ∈ cs, c.toNat < 128)
    (before : List Char) : lowerFrom before cs = cs.map Char.toLower := by
  induction cs generalizing before with
  | nil => rfl
  | cons c cs ih =>
      rw [List.forall_mem_cons] at h
      have hsigma : c ≠ 'Σ' := by
        rintro rfl
        exact absurd h.1 (by decide)
      have hdotted : c ≠ 'İ' := by
        rintro rfl
        exact absurd h.1 (by decide)
      rw [lowerFrom, ih h.2, if_neg (fun hc => hsigma hc.1), if_neg hdotted,
        smallOf_eq_toLower h.1]
      rfl

/-- In ASCII small letters are what they are elsewhere. -/
theorem lower_eq_map_toLower {cs : List Char} (h : ∀ c ∈ cs, c.toNat < 128) :
    lower cs = cs.map Char.toLower :=
  lowerFrom_eq_map_toLower h []

end Text

namespace Namespace

variable {s : String} {c : Char} {cs part : List Char}

-- ==================================================== names

/-- The characters that names start with. -/
def startChars : List Char := "_abcdefghijklmnopqrstuvwxyzABCDEFGHIJKLMNOPQRSTUVWXYZ".toList

/-- The characters that names go on with. -/
def restChars : List Char := startChars ++ "0123456789".toList

theorem toNat_lt_of_mem_restChars : ∀ c ∈ restChars, c.toNat < 128 := by
  have hall : (restChars.all fun c => decide (c.toNat < 128)) = true := by decide
  simpa using hall

theorem colon_notMem_restChars : ':' ∉ restChars := by decide

/-- Names are made of ASCII. -/
theorem toNat_lt_of_isNameRest (h : isNameRest c = true) : c.toNat < 128 := by
  unfold isNameRest Char.isAlphanum Char.isAlpha Char.isUpper Char.isLower Char.isDigit at h
  simp only [Bool.or_eq_true, Bool.and_eq_true, decide_eq_true_eq, beq_iff_eq, ge_iff_le,
    UInt32.le_iff_toNat_le] at h
  rcases h with ((hupper | hlower) | hdigit) | rfl
  · exact Nat.lt_of_le_of_lt hupper.2 (by decide)
  · exact Nat.lt_of_le_of_lt hlower.2 (by decide)
  · exact Nat.lt_of_le_of_lt hdigit.2 (by decide)
  · decide

theorem isNameRest_iff : isNameRest c = true ↔ c ∈ restChars := by
  have hall : ∀ n < 128, isNameRest (Char.ofNat n) = true ↔ Char.ofNat n ∈ restChars := by
    decide +kernel
  constructor
  · intro h
    obtain ⟨n, hn, rfl⟩ := Text.exists_ofNat (toNat_lt_of_isNameRest h)
    exact (hall n hn).1 h
  · intro h
    obtain ⟨n, hn, rfl⟩ := Text.exists_ofNat (toNat_lt_of_mem_restChars c h)
    exact (hall n hn).2 h

theorem isNameStart_iff : isNameStart c = true ↔ c ∈ startChars := by
  have hall : (restChars.all fun c => isNameStart c == startChars.contains c) = true := by
    decide +kernel
  have hsame : ∀ c ∈ restChars, isNameStart c = startChars.contains c := fun c hc =>
    eq_of_beq (List.all_eq_true.1 hall c hc)
  constructor
  · intro h
    rw [hsame c (isNameRest_iff.1 (isNameRest_of_isNameStart h))] at h
    exact List.contains_iff_mem.1 h
  · intro h
    rw [hsame c (List.mem_append_left _ h)]
    exact List.contains_iff_mem.2 h

/-- Not empty, and made of the characters of names. -/
def IsName (part : List Char) : Prop :=
  ∃ c cs, part = c :: cs ∧ c ∈ startChars ∧ ∀ d ∈ cs, d ∈ restChars

/-- A component is what the grammar calls a name. -/
theorem isComponent_iff : isComponent part = true ↔ IsName part := by
  cases part with
  | nil => simp [isComponent, IsName]
  | cons c cs => simp [isComponent, IsName, isNameStart_iff, isNameRest_iff]

theorem IsName.mem_restChars (h : IsName part) : ∀ c ∈ part, c ∈ restChars := by
  obtain ⟨c, cs, rfl, hc, hcs⟩ := h
  rw [List.forall_mem_cons]
  exact ⟨List.mem_append_left _ hc, hcs⟩

/-- No name has a colon in it, so it is one part. -/
theorem IsName.components_eq (h : IsName part) : components part = [part] := by
  apply components_of_not_infix
  intro hcolons
  apply colon_notMem_restChars
  exact h.mem_restChars ':' (hcolons.subset List.mem_cons_self)

/-- A name in front of two colons is the first component. -/
theorem IsName.components_append (h : IsName part) (rest : List Char) :
    components (part ++ ':' :: ':' :: rest) = part :: components rest := by
  rw [Namespace.components_append, h.components_eq, List.singleton_append]
  rw [h.components_eq, List.forall_mem_singleton]
  intro hcolon
  exact colon_notMem_restChars (h.mem_restChars ':' hcolon)

-- ==================================================== the regular expression

/-- One of some characters. -/
def oneOf : List Char → RegularExpression Char
  | [] => 0
  | c :: cs => .char c + oneOf cs

/-- A name: `[_a-zA-Z][_a-zA-Z0-9]*`. -/
def namePattern : RegularExpression Char := oneOf startChars * .star (oneOf restChars)

/-- A name, then any number of names behind a double colon each. -/
def pattern : RegularExpression Char :=
  namePattern * .star (.char ':' * .char ':' * namePattern)

/-- A class of characters matches one of them. -/
theorem mem_oneOf_iff {word : List Char} :
    word ∈ (oneOf cs).matches' ↔ ∃ c ∈ cs, word = [c] := by
  induction cs with
  | nil => simp [oneOf]
  | cons c cs ih =>
      rw [oneOf, RegularExpression.matches'_add, Language.mem_add, ih,
        RegularExpression.matches'_char, List.exists_mem_cons_iff]
      rfl

/-- Any number of characters is what has no others. -/
theorem mem_star_oneOf_iff {word : List Char} :
    word ∈ (RegularExpression.star (oneOf cs)).matches' ↔ ∀ c ∈ word, c ∈ cs := by
  rw [RegularExpression.matches'_star, Language.mem_kstar]
  constructor
  · rintro ⟨letters, rfl, hletters⟩ c hc
    obtain ⟨letter, hletter, hc⟩ := List.mem_flatten.1 hc
    obtain ⟨d, hd, rfl⟩ := mem_oneOf_iff.1 (hletters letter hletter)
    rw [List.mem_singleton.1 hc]
    exact hd
  · intro h
    refine ⟨word.map fun c => [c], ?_, ?_⟩
    · rw [← List.flatMap_def, List.flatMap_singleton']
    · intro letter hletter
      obtain ⟨c, hc, rfl⟩ := List.mem_map.1 hletter
      exact mem_oneOf_iff.2 ⟨c, h c hc, rfl⟩

/-- The pattern of a name matches names. -/
theorem mem_namePattern_iff : part ∈ namePattern.matches' ↔ IsName part := by
  rw [namePattern, RegularExpression.matches'_mul, Language.mem_mul]
  constructor
  · rintro ⟨first, hfirst, rest, hrest, rfl⟩
    obtain ⟨c, hc, rfl⟩ := mem_oneOf_iff.1 hfirst
    exact ⟨c, rest, rfl, hc, mem_star_oneOf_iff.1 hrest⟩
  · rintro ⟨c, cs, rfl, hc, hcs⟩
    exact ⟨[c], mem_oneOf_iff.2 ⟨c, hc, rfl⟩, cs, mem_star_oneOf_iff.2 hcs, rfl⟩

/-- What the group of the pattern matches: a name behind a double colon. -/
theorem mem_group_iff {word : List Char} :
    word ∈ (RegularExpression.char ':' * .char ':' * namePattern).matches' ↔
      ∃ part, IsName part ∧ word = ':' :: ':' :: part := by
  simp only [RegularExpression.matches'_mul, RegularExpression.matches'_char, Language.mem_mul,
    mem_namePattern_iff]
  constructor
  · rintro ⟨colons, ⟨first, hfirst, second, hsecond, rfl⟩, part, hpart, rfl⟩
    cases hfirst
    cases hsecond
    exact ⟨part, hpart, rfl⟩
  · rintro ⟨part, hpart, rfl⟩
    exact ⟨[':', ':'], ⟨[':'], rfl, [':'], rfl, rfl⟩, part, hpart, rfl⟩

/-- A name with names behind it has just these parts. -/
theorem isName_of_mem_components {groups : List (List Char)} (hpart : IsName part)
    (hgroups : ∀ group ∈ groups, ∃ other, IsName other ∧ group = ':' :: ':' :: other) :
    ∀ other ∈ components (part ++ groups.flatten), IsName other := by
  induction groups generalizing part with
  | nil =>
      rw [List.flatten_nil, List.append_nil, hpart.components_eq, List.forall_mem_singleton]
      exact hpart
  | cons group groups ih =>
      rw [List.forall_mem_cons] at hgroups
      obtain ⟨other, hother, rfl⟩ := hgroups.1
      show ∀ x ∈ components (part ++ ':' :: ':' :: (other ++ groups.flatten)), IsName x
      rw [hpart.components_append, List.forall_mem_cons]
      exact ⟨hpart, ih hother hgroups.2⟩

/-- The pattern matches what has names only between its double colons. -/
theorem mem_pattern_iff : cs ∈ pattern.matches' ↔ ∀ part ∈ components cs, IsName part := by
  rw [pattern, RegularExpression.matches'_mul, Language.mem_mul]
  constructor
  · rintro ⟨part, hpart, rest, hrest, rfl⟩
    obtain ⟨groups, rfl, hgroups⟩ := Language.mem_kstar.1 hrest
    apply isName_of_mem_components (mem_namePattern_iff.1 hpart)
    intro group hgroup
    exact mem_group_iff.1 (hgroups group hgroup)
  · intro h
    have hsplits := splits_components cs
    revert h
    generalize components cs = parts at hsplits
    induction hsplits with
    | @whole cs last =>
        intro h
        rw [List.forall_mem_singleton] at h
        exact ⟨cs, mem_namePattern_iff.2 h, [], Language.nil_mem_kstar _, List.append_nil cs⟩
    | @behind part rest parts first hsplits ih =>
        intro h
        rw [List.forall_mem_cons] at h
        obtain ⟨other, hother, more, hmore, rfl⟩ := ih h.2
        obtain ⟨groups, rfl, hgroups⟩ := Language.mem_kstar.1 hmore
        refine ⟨part, mem_namePattern_iff.2 h.1, ':' :: ':' :: (other ++ groups.flatten), ?_, rfl⟩
        -- the group is gone through once more
        refine Language.mem_kstar.2 ⟨(':' :: ':' :: other) :: groups, rfl, ?_⟩
        rw [List.forall_mem_cons]
        exact ⟨mem_group_iff.2 ⟨other, mem_namePattern_iff.1 hother, rfl⟩, hgroups⟩

-- ==================================================== the grammar

/-- Every part between double colons is a name. -/
def Grammatical (s : String) : Prop :=
  ∃ parts, Splits s.toList parts ∧ ∀ part ∈ parts, IsName part

/-- In lower case, the whole is a reserved word. -/
def IsReservedWord (s : String) : Prop := String.ofList (Text.lower s.toList) ∈ reservedWords

/-- A text follows the grammar if its components are names. -/
theorem grammatical_iff : Grammatical s ↔ ∀ part ∈ components s.toList, IsName part := by
  unfold Grammatical
  simp only [splits_iff, exists_eq_left']

/-- The grammar has no other characters than those of names, and the colon. -/
theorem Grammatical.mem (h : Grammatical s) (hc : c ∈ s.toList) : c = ':' ∨ c ∈ restChars := by
  rcases mem_components hc with hcolon | ⟨part, hpart, hc⟩
  · exact Or.inl hcolon
  · exact Or.inr ((grammatical_iff.1 h part hpart).mem_restChars c hc)

/-- What follows the grammar is ASCII, so its small letters are known. -/
theorem Grammatical.toNat_lt (h : Grammatical s) : ∀ c ∈ s.toList, c.toNat < 128 := by
  intro c hc
  rcases h.mem hc with rfl | hrest
  · decide
  · exact toNat_lt_of_mem_restChars c hrest

/-- The test for reserved words finds them in what follows the grammar. -/
theorem Grammatical.isReserved_iff (h : Grammatical s) :
    isReserved s = true ↔ IsReservedWord s := by
  unfold isReserved IsReservedWord
  rw [List.contains_iff_mem, Text.lower_eq_map_toLower h.toNat_lt]

/-- The test for a namespace is the grammar without the reserved words. -/
theorem isValid_iff : isValid s = true ↔ Grammatical s ∧ ¬IsReservedWord s := by
  unfold isValid
  rw [Bool.and_eq_true, List.all_eq_true, Bool.not_eq_true']
  simp only [isComponent_iff]
  rw [← grammatical_iff]
  refine and_congr_right ?_
  intro h
  rw [← h.isReserved_iff, Bool.not_eq_true]

-- ==================================================== namespaces

/-- A text that is not empty is accepted or refused as it is. -/
theorem ofValue_of_ne_empty (hne : s ≠ "") : ofValue (.text s) =
    if isValid s then .ok s else .error (.reported (.invalidNamespace s)) := by
  have htruthy : (Value.text s).truthy = true := by
    show (s != "") = true
    rw [bne_iff_ne]
    exact hne
  unfold ofValue
  rw [htruthy]
  rfl

/-- The empty text has one part, which is no name. -/
theorem not_grammatical_empty : ¬Grammatical "" := by
  rw [grammatical_iff]
  intro h
  obtain ⟨c, cs, hpart, -⟩ := h [] List.mem_cons_self
  cases hpart

/-- A namespace follows the grammar and is no reserved word. -/
theorem ofValue_eq_ok_iff : ofValue (.text s) = .ok s ↔ Grammatical s ∧ ¬IsReservedWord s := by
  by_cases hne : s = ""
  · subst hne
    constructor
    · intro h
      cases h
    · intro h
      exact absurd h.1 not_grammatical_empty
  · rw [ofValue_of_ne_empty hne, ← isValid_iff]
    cases isValid s with
    | true => simp
    | false => simp

/-- Only no text at all is missing. -/
theorem ofValue_eq_missing_iff :
    ofValue (.text s) = .error (.reported .missingNamespace) ↔ s = "" := by
  constructor
  · intro h
    by_contra hne
    rw [ofValue_of_ne_empty hne] at h
    split at h
    · cases h
    · cases h
  · rintro rfl
    rfl

/-- What breaks the grammar is refused, with the text in the report. -/
theorem ofValue_of_invalid (hne : s ≠ "") (h : ¬(Grammatical s ∧ ¬IsReservedWord s)) :
    ofValue (.text s) = .error (.reported (.invalidNamespace s)) := by
  rw [ofValue_of_ne_empty hne, if_neg]
  rw [isValid_iff]
  exact h

/-- A character that the grammar has not is enough. -/
theorem ofValue_of_foreign (hc : c ∈ s.toList) (hcolon : c ≠ ':') (hrest : c ∉ restChars) :
    ofValue (.text s) = .error (.reported (.invalidNamespace s)) := by
  apply ofValue_of_invalid
  · rintro rfl
    cases hc
  · intro h
    rcases h.1.mem hc with hsame | hmem
    · exact hcolon hsame
    · exact hrest hmem

/-- The namespaces are the texts whose parts between double colons are all names, but for
reserved words in any case; that is, those the pattern matches. Only the empty text, and null,
are missing. Every other text that is no namespace is reported as invalid, by itself: among
them whatever has a line feed behind it, and every text with a character that is not ASCII. -/
theorem ofValue_grammar (s : String) :
    (ofValue (.text s) = .ok s ↔ Grammatical s ∧ ¬IsReservedWord s) ∧
      (Grammatical s ↔ s.toList ∈ pattern.matches') ∧
      (ofValue (.text s) = .error (.reported .missingNamespace) ↔ s = "") ∧
      ofValue .null = .error (.reported .missingNamespace) ∧
      (s ≠ "" → ofValue (.text s) ≠ .ok s →
        ofValue (.text s) = .error (.reported (.invalidNamespace s))) ∧
      (MappingError.invalidNamespace s).report.kind = .invalidNamespace ∧
      (MappingError.invalidNamespace s).report.details = [(.text "namespace", .text s)] ∧
      ofValue (.text (s ++ "\n")) = .error (.reported (.invalidNamespace (s ++ "\n"))) ∧
      ((∃ c ∈ s.toList, 128 ≤ c.toNat) →
        ofValue (.text s) = .error (.reported (.invalidNamespace s))) := by
  refine ⟨ofValue_eq_ok_iff, ?_, ofValue_eq_missing_iff, rfl, ?_, rfl, rfl, ?_, ?_⟩
  · rw [mem_pattern_iff]
    exact grammatical_iff
  · intro hne hrefused
    rw [Ne, ofValue_eq_ok_iff] at hrefused
    exact ofValue_of_invalid hne hrefused
  · apply ofValue_of_foreign (c := '\n')
    · simp
    · decide
    · decide
  · rintro ⟨c, hc, hlarge⟩
    apply ofValue_of_foreign hc
    · rintro rfl
      exact absurd hlarge (by decide)
    · intro hrest
      exact Nat.not_lt.2 hlarge (toNat_lt_of_mem_restChars c hrest)

/-- A letter with an accent is enough to refuse a text, and so is a third colon: what stands
behind the second does not start a name. -/
theorem ofValue_grammar_refused :
    'é' ∈ "Café".toList ∧
      ofValue (.text "Café") = .error (.reported (.invalidNamespace "Café")) ∧
      ¬Grammatical "Shop:::Api" ∧
      ofValue (.text "Shop:::Api") = .error (.reported (.invalidNamespace "Shop:::Api")) := by
  have haccent : 'é' ∈ "Café".toList := by decide
  obtain ⟨-, -, -, -, -, -, -, -, hforeign⟩ := ofValue_grammar "Café"
  obtain ⟨haccepted, -, -, -, hrefused, -⟩ := ofValue_grammar "Shop:::Api"
  have hnot : ofValue (.text "Shop:::Api") ≠ .ok "Shop:::Api" := by
    intro h
    cases h
  refine ⟨haccent, hforeign ⟨'é', haccent, by decide⟩, ?_, hrefused (by decide) hnot⟩
  intro hgrammatical
  exact hnot (haccepted.2 ⟨hgrammatical, by unfold IsReservedWord; decide +kernel⟩)

end Namespace

end ApiAuthz
