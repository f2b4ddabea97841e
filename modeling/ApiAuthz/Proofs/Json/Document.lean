/-
JSON objects as YAML documents. What the reader asks of a text is the sum of what its parts ask:
that its characters are allowed, that the scan comes to the end, that names fit, that integers
are within the limit of digits (`readable`). A text that has all this is read, with numbers and
strings as the scalars they are, and no other text is (`ofText_eq_ok_iff`).

So a text is read as what it denotes if, moreover, its numbers and strings are read as they are;
`legible` says what that comes to for each of them (`legible_eq`).

# Four stages

The reader goes through a text four times, and each pass has a rule of its own that is kept or
broken part by part: `allowed` for the characters (this module), `scanned` for the tokens
(`Proofs/Json/Tokens`), `fitting` for the nodes (`Proofs/Json/Nodes`) and `limited` for the
values (`Proofs/Json/Values`). A rule that is broken stops its pass, so `readable` is both
sufficient (`ofText_eq_ok`) and necessary (`readable_of_ofText`).

# What is read otherwise

A text may be readable and still be read as something else: a number with a bare exponent as its
text, a string with a raw line separator as a folded one, and the two escapes of a pair as two
halves and not as the character of the pair. `IsLegible` rules the last two out for strings and
`Name.IsLegible` for names, where breaks are ruled out anyway. For objects without repeated
names this is all: what is read of them is known member by member, so a difference in one part
shows (`legible_of_readable`). Where a name is repeated the difference may be in a member that
is put out by a later one.
-/
import ApiAuthz.Proofs.Json.Values
import ApiAuthz.Proofs.Yaml.Folding
import ApiAuthz.Proofs.Yaml.Reading

namespace ApiAuthz.Json

open Text (unifyLineEnds)
open Yaml (isAllowed isBreak)
open Yaml.QuotedScalar (Marked Unfolded folded_eq_iff nearest_folded not_marked_of_no_break
  unfolded_of_no_break)

-- ==================================================== characters of strings

/-- What ASCII can print is allowed in YAML. -/
theorem isAllowed_of_ascii {c : Char} (hlow : 0x20 ≤ c.toNat) (hhigh : c.toNat ≤ 0x7e) :
    isAllowed c = true := by
  unfold isAllowed
  simp [hlow, hhigh]

/-- Nor does any of it end a line. -/
theorem not_isBreak_of_ascii {c : Char} (hlow : 0x20 ≤ c.toNat) (hhigh : c.toNat ≤ 0x7e) :
    isBreak c = false := by
  unfold isBreak
  simp only [Bool.or_eq_false_iff, beq_eq_false_iff_ne]
  refine ⟨⟨⟨⟨?_, ?_⟩, ?_⟩, ?_⟩, ?_⟩ <;> rintro rfl
  · exact absurd hlow (by decide)
  · exact absurd hlow (by decide)
  · exact absurd hhigh (by decide)
  · exact absurd hhigh (by decide)
  · exact absurd hhigh (by decide)

theorem ascii_of_hexDigit {c : Char} (h : (hexDigit? c).isSome = true) :
    0x20 ≤ c.toNat ∧ c.toNat ≤ 0x7e := by
  unfold hexDigit? at h
  simp only [Char.le_def, UInt32.le_iff_toNat_le] at h
  have hnine : '9'.val.toNat = 57 := rfl
  have hzero : '0'.val.toNat = 48 := rfl
  have ha : 'a'.val.toNat = 97 := rfl
  have hf : 'f'.val.toNat = 102 := rfl
  have hA : 'A'.val.toNat = 65 := rfl
  have hF : 'F'.val.toNat = 70 := rfl
  have hc : c.toNat = c.val.toNat := rfl
  split at h
  · omega
  · split at h
    · omega
    · split at h
      · omega
      · cases h

section Characters

variable {P : Char → Prop}

/-- An escape is made of such characters. -/
theorem CodeUnit.forall_text (hP : ∀ c : Char, 0x20 ≤ c.toNat → c.toNat ≤ 0x7e → P c)
    (u : CodeUnit) : ∀ c ∈ u.text, P c := by
  unfold text
  refine List.forall_mem_cons.2 ⟨hP _ (by decide) (by decide),
    List.forall_mem_cons.2 ⟨hP _ (by decide) (by decide), fun c hc => ?_⟩⟩
  obtain ⟨hlow, hhigh⟩ := ascii_of_hexDigit (u.areDigits c hc)
  exact hP c hlow hhigh

/-- A property of ASCII is one of all characters of a letter if its raw character has it. -/
theorem Letter.forall_text (hP : ∀ c : Char, 0x20 ≤ c.toNat → c.toNat ≤ 0x7e → P c)
    (l : Letter) : (∀ c ∈ l.text, P c) ↔ ∀ c ∈ l.raw?, P c := by
  cases l with
  | raw c _ => simp [text, raw?]
  | short letter c h =>
      refine iff_of_true ?_ nofun
      refine List.forall_mem_cons.2 ⟨hP _ (by decide) (by decide), List.forall_mem_singleton.2 ?_⟩
      unfold simpleEscape? at h
      split at h <;> first | exact hP _ (by decide) (by decide) | cases h
  | unit u _ => exact iff_of_true (u.forall_text hP) nofun
  | pair high low _ _ =>
      exact iff_of_true (List.forall_mem_append.2 ⟨high.forall_text hP, low.forall_text hP⟩) nofun

/-- What holds of these holds of a string where it holds of the characters that stand for
themselves. -/
theorem forall_quoted (hP : ∀ c : Char, 0x20 ≤ c.toNat → c.toNat ≤ 0x7e → P c)
    (s : List Letter) : (∀ c ∈ quoted s, P c) ↔ ∀ c, some c ∈ raws s → P c := by
  have hquote : P '"' := hP _ (by decide) (by decide)
  have hletters : (∀ c ∈ s.flatMap Letter.text, P c) ↔ ∀ c, some c ∈ raws s → P c := by
    induction s with
    | nil => simp [raws]
    | cons l s ih =>
        rw [List.flatMap_cons, List.forall_mem_append, l.forall_text hP, ih]
        simp only [raws, List.map_cons, List.mem_cons, Option.mem_def]
        constructor
        · rintro ⟨hl, hs⟩ c (hc | hc)
          · exact hl c hc.symm
          · exact hs c hc
        · exact fun h => ⟨fun c hc => h c (Or.inl hc.symm), fun c hc => h c (Or.inr hc)⟩
  unfold quoted
  rw [List.forall_mem_cons, List.forall_mem_append, hletters, List.forall_mem_singleton]
  exact ⟨fun h => h.2.1, fun h => ⟨hquote, h, hquote⟩⟩

end Characters

-- ==================================================== allowed characters

/-- What the reader asks of all characters; it can only fail in strings. -/
def allowed : Rule where
  blank := fun _ => True
  number := fun _ => True
  string := fun s => ∀ c, some c ∈ raws s → isAllowed c = true
  name := fun n => ∀ c, some c ∈ raws n.letters → isAllowed c = true

/-- YAML allows all of these characters. -/
def AreAllowed (cs : List Char) : Prop := ∀ c ∈ cs, isAllowed c = true

theorem areAllowed_cons {c : Char} (h : isAllowed c = true) {cs : List Char} :
    AreAllowed (c :: cs) ↔ AreAllowed cs := by
  unfold AreAllowed
  rw [List.forall_mem_cons, and_iff_right h]

/-- Characters are allowed part by part. -/
theorem areAllowed_append {cs ds : List Char} :
    AreAllowed (cs ++ ds) ↔ AreAllowed cs ∧ AreAllowed ds := List.forall_mem_append

theorem areAllowed_singleton {c : Char} (h : isAllowed c = true) : AreAllowed [c] :=
  List.forall_mem_singleton.2 h

/-- What stands between tokens is allowed. -/
theorem Blank.areAllowed (b : Blank) : AreAllowed (unifyLineEnds b.chars) := by
  intro c hc
  rcases b.mem_unifyLineEnds c hc with rfl | rfl | rfl <;> decide

/-- A string is allowed for the characters that stand for themselves. -/
theorem areAllowed_quoted (s : List Letter) :
    AreAllowed (quoted s) ↔ ∀ c, some c ∈ raws s → isAllowed c = true :=
  forall_quoted (fun _ => isAllowed_of_ascii) s

/-- A number is allowed. -/
theorem Number.areAllowed (n : Number) : AreAllowed n.text := by
  intro c hc
  have hall : ∀ c ∈ numberChars, isAllowed c = true := forall_mem_of_all (by decide)
  exact hall c (n.mem_text hc)

/-- A name is allowed where it keeps the rule. -/
theorem Name.areAllowed_spelled (n : Name) :
    AreAllowed (n.spelled unifyLineEnds) ↔ allowed.name n := by
  unfold Name.spelled
  rw [areAllowed_append, areAllowed_append, areAllowed_append, areAllowed_quoted]
  have hcolon : AreAllowed [':'] := areAllowed_singleton (by decide)
  have hbefore := n.before.areAllowed
  have hafter := n.after.areAllowed
  unfold allowed
  tauto

mutual

/-- So is a value; the induction follows the grammar, and only strings and names have something to
ask. -/
theorem Phrase.areAllowed_spelled :
    (p : Phrase) → (AreAllowed (p.spelled unifyLineEnds) ↔ p.Obeys allowed)
  | .null => iff_of_true (forall_mem_of_all (by decide)) trivial
  | .bool b => iff_of_true (by cases b <;> exact forall_mem_of_all (by decide)) trivial
  | .number n => iff_of_true n.areAllowed trivial
  | .string s => areAllowed_quoted s
  | .emptyList inside => by
    have hinside := inside.areAllowed
    have hclose : AreAllowed [']'] := areAllowed_singleton (by decide)
    unfold Phrase.spelled
    rw [areAllowed_cons (by decide), areAllowed_append]
    exact iff_of_true ⟨hinside, hclose⟩ trivial
  | .list items => by
    have hclose : AreAllowed [']'] := areAllowed_singleton (by decide)
    unfold Phrase.spelled
    rw [areAllowed_cons (by decide), areAllowed_append, items.areAllowed_spelled]
    exact and_iff_left hclose
  | .emptyObject inside => by
    have hinside := inside.areAllowed
    have hclose : AreAllowed ['\x7d'] := areAllowed_singleton (by decide)
    unfold Phrase.spelled
    rw [areAllowed_cons (by decide), areAllowed_append]
    exact iff_of_true ⟨hinside, hclose⟩ trivial
  | .object fields => by
    have hclose : AreAllowed ['\x7d'] := areAllowed_singleton (by decide)
    unfold Phrase.spelled
    rw [areAllowed_cons (by decide), areAllowed_append, fields.areAllowed_spelled]
    exact and_iff_left hclose

/-- So are items. -/
theorem Items.areAllowed_spelled :
    (items : Items) → (AreAllowed (items.spelled unifyLineEnds) ↔ items.Obeys allowed)
  | .last before item after => by
    have hbefore := before.areAllowed
    have hafter := after.areAllowed
    unfold Items.spelled Items.Obeys
    rw [areAllowed_append, areAllowed_append, item.areAllowed_spelled]
    unfold allowed
    tauto
  | .more before item after rest => by
    have hbefore := before.areAllowed
    have hafter := after.areAllowed
    unfold Items.spelled Items.Obeys
    rw [areAllowed_append, areAllowed_append, areAllowed_append, areAllowed_cons (by decide),
      item.areAllowed_spelled, rest.areAllowed_spelled]
    unfold allowed
    tauto

/-- So are members. -/
theorem Fields.areAllowed_spelled :
    (fields : Fields) → (AreAllowed (fields.spelled unifyLineEnds) ↔ fields.Obeys allowed)
  | .last name before item after => by
    have hbefore := before.areAllowed
    have hafter := after.areAllowed
    unfold Fields.spelled Fields.Obeys
    rw [areAllowed_append, areAllowed_append, areAllowed_append, name.areAllowed_spelled,
      item.areAllowed_spelled]
    unfold allowed
    tauto
  | .more name before item after rest => by
    have hbefore := before.areAllowed
    have hafter := after.areAllowed
    unfold Fields.spelled Fields.Obeys
    rw [areAllowed_append, areAllowed_append, areAllowed_append, areAllowed_append,
      areAllowed_cons (by decide), name.areAllowed_spelled, item.areAllowed_spelled,
      rest.areAllowed_spelled]
    unfold allowed
    tauto

end

/-- A whole text is allowed where all its strings and names are. -/
theorem ObjectText.all_isAllowed (d : ObjectText) :
    (d.spelled unifyLineEnds).all isAllowed = true ↔ d.Obeys allowed := by
  have hbefore := d.before.areAllowed
  have hafter := d.after.areAllowed
  rw [List.all_eq_true]
  show AreAllowed (d.spelled unifyLineEnds) ↔ _
  unfold ObjectText.spelled ObjectText.Obeys
  rw [areAllowed_append, areAllowed_append, d.object.areAllowed_spelled]
  unfold allowed
  tauto

-- ==================================================== reading

/-- All that the reader asks of a text. -/
def readable : Rule := ((allowed.and scanned).and fitting).and limited

/-- A text is readable if it keeps the rules of all four stages. -/
theorem ObjectText.obeys_readable {d : ObjectText} :
    d.Obeys readable ↔
      d.Obeys allowed ∧ d.Obeys scanned ∧ d.object.Obeys fitting ∧ d.object.Obeys limited := by
  have hfitting : d.Obeys fitting ↔ d.object.Obeys fitting :=
    ⟨fun h => h.2.1, fun h => ⟨trivial, h, trivial⟩⟩
  have hlimited : d.Obeys limited ↔ d.object.Obeys limited :=
    ⟨fun h => h.2.1, fun h => ⟨trivial, h, trivial⟩⟩
  unfold readable
  rw [ObjectText.obeys_and, ObjectText.obeys_and, ObjectText.obeys_and, hfitting, hlimited,
    and_assoc, and_assoc]

variable {d : ObjectText}

/-- A readable text is read as what the reader of YAML makes of its parts. -/
theorem ObjectText.ofText_eq_ok (h : d.Obeys readable) :
    Yaml.Document.ofText (d.spelled unifyLineEnds) = .ok (d.object.denoted asRead) := by
  obtain ⟨hallowed, hscanned, hfitting, hlimited⟩ := ObjectText.obeys_readable.1 h
  obtain ⟨nodes, hnodes, hobject⟩ := Phrase.ofTokens_of_fitting hfitting
  unfold Yaml.Document.ofText
  rw [d.all_isAllowed.2 hallowed, ObjectText.tokens_of_scanned hscanned, hnodes]
  exact Phrase.ofGraph_of_limited hobject hlimited

/-- What is read is readable: each stage stops at what breaks its rule. -/
theorem ObjectText.readable_of_ofText {v : Value Broken}
    (h : Yaml.Document.ofText (d.spelled unifyLineEnds) = .ok v) : d.Obeys readable := by
  unfold Yaml.Document.ofText at h
  rw [ObjectText.obeys_readable]
  have hallowed : d.Obeys allowed := by
    rw [← d.all_isAllowed]
    by_contra hnot
    rw [Bool.not_eq_true] at hnot
    rw [hnot] at h
    cases h
  rw [d.all_isAllowed.2 hallowed] at h
  have hscanned : d.Obeys scanned := by
    by_contra hnot
    cases hgraph : Yaml.Graph.ofTokens (Yaml.Token.ofText (d.spelled unifyLineEnds)) with
    | ok p =>
        exact ObjectText.streamEnd_not_mem_of_not_scanned hnot
          (Yaml.Graph.streamEnd_mem_of_ofTokens hgraph)
    | error f =>
        rw [hgraph] at h
        cases h
  rw [ObjectText.tokens_of_scanned hscanned] at h
  have hfitting : d.object.Obeys fitting := by
    by_contra hnot
    obtain ⟨f, hf⟩ := Phrase.not_ofTokens_of_not_fitting hnot
    rw [hf] at h
    cases h
  obtain ⟨nodes, hnodes, hobject⟩ := Phrase.ofTokens_of_fitting hfitting
  rw [hnodes] at h
  exact ⟨hallowed, hscanned, hfitting, (Phrase.limited_of_ofGraph hobject h).1⟩

/-- What a text is read as, if it is read. -/
theorem ObjectText.ofText_eq_ok_iff {v : Value Broken} :
    Yaml.Document.ofText (d.spelled unifyLineEnds) = .ok v ↔
      d.Obeys readable ∧ v = d.object.denoted asRead := by
  constructor
  · intro h
    have hreadable := ObjectText.readable_of_ofText h
    rw [ObjectText.ofText_eq_ok hreadable] at h
    exact ⟨hreadable, (Except.ok.inj h).symm⟩
  · rintro ⟨hreadable, rfl⟩
    exact ObjectText.ofText_eq_ok hreadable

-- ==================================================== reading as it is

/-- An exponent stands behind a fraction, and has a sign. -/
def Number.IsSpelledOut (n : Number) : Prop :=
  ∀ e ∈ n.exponent, n.fraction.isSome = true ∧ e.sign.isSome = true

/-- A string of allowed characters, none of them given by the escapes of a pair, in which no raw
line separator is folded, or has a document mark behind it. -/
structure IsLegible (s : List Letter) : Prop where
  allowed : ∀ c, some c ∈ raws s → isAllowed c = true
  unpaired : ∀ l ∈ s, l.isPair = false
  unmarked : ¬Marked (raws s)
  unfolded : Unfolded (raws s)

/-- A name of allowed characters, none of them given by the escapes of a pair, on one line with
its colon and not too far from it. -/
structure Name.IsLegible (n : Name) : Prop where
  before : '\t' ∉ n.before.chars
  letters : ∀ c, some c ∈ raws n.letters → isAllowed c = true ∧ isBreak c = false
  unpaired : ∀ l ∈ n.letters, l.isPair = false
  after : ∀ w ∈ n.after.chars, w = ' '
  short : (quoted n.letters).length + n.after.chars.length ≤ 1024

/-- What it takes for a text to be read as it is. -/
def legible : Rule where
  blank := fun b => '\t' ∉ b.chars
  number := fun n => n.IsSpelledOut ∧ n.WithinLimit
  string := IsLegible
  name := Name.IsLegible

/-- A number is spelled out if it is one of the forms that YAML has. -/
theorem Number.isSpelledOut_iff (n : Number) : n.IsSpelledOut ↔ n.IsPointed ∨ n.IsInteger := by
  unfold IsSpelledOut IsPointed IsInteger
  cases n.exponent with
  | none => cases n.fraction <;> simp
  | some e => simp

/-- Only such a number is read as the number it denotes; any other is read as a text. -/
theorem Number.reading_eq_iff (n : Number) : n.reading = n.value ↔ n.IsSpelledOut := by
  rw [n.isSpelledOut_iff]
  unfold reading
  constructor
  · intro h
    by_contra hnot
    rw [if_neg hnot] at h
    unfold value at h
    split at h <;> cases h
  · exact fun h => if_pos h

/-- A string is read as the one it denotes if no break in it is folded and no pair is escaped. -/
theorem asRead_string_eq_iff (s : List Letter) :
    asRead.string s = Meaning.exact.string s ↔
      Unfolded (raws s) ∧ ∀ l ∈ s, l.isPair = false := by
  have hpoints : Text.points (contents s) = (s.map Letter.char).map .char :=
    congrArg (List.map CodePoint.char) String.toList_ofList
  rw [← folded_eq_iff, ← hpoints]
  exact Scalar.ofPoints_eq_text

/-- Unified line ends bring no blanks in and leave none out. -/
theorem unifyLineEnds_spaces {ws : List Char} :
    (∀ w ∈ unifyLineEnds ws, w = ' ') ↔ ∀ w ∈ ws, w = ' ' := by
  fun_induction unifyLineEnds ws with
  | case1 cs ih => simp
  | case2 cs _ ih => simp
  | case3 c cs _ _ ih => simp [ih]
  | case4 => rfl

theorem unifyLineEnds_of_spaces {ws : List Char} (h : ∀ w ∈ ws, w = ' ') :
    unifyLineEnds ws = ws := by
  have hreturn : '\r' ∉ ws := fun hmem => absurd (h _ hmem) (by decide)
  have hall := unifyLineEnds_append_left hreturn []
  rwa [List.append_nil, show unifyLineEnds [] = [] from rfl, List.append_nil] at hall

/-- What the reader of tokens asks of a name, in terms of its letters. -/
theorem Name.fits_iff (n : Name) :
    n.Fits ↔ (∀ c, some c ∈ raws n.letters → isBreak c = false) ∧
      (∀ w ∈ unifyLineEnds n.after.chars, isBreak w = false) ∧
      (quoted n.letters).length + (unifyLineEnds n.after.chars).length ≤ 1024 := by
  unfold Fits Yaml.Scan.Fits
  rw [List.forall_mem_append, forall_quoted fun _ => not_isBreak_of_ascii, List.length_append,
    and_assoc]

theorem any_isBreak_raws {s : List Letter} (h : ∀ c, some c ∈ raws s → isBreak c = false) :
    ∀ o ∈ raws s, o.any isBreak = false
  | none, _ => rfl
  | some c, hc => h c hc

/-- The blanks behind a name are spaces if none of them is a tab or ends the line. -/
theorem Blank.spaces_iff (b : Blank) :
    (∀ w ∈ b.chars, w = ' ') ↔
      '\t' ∉ b.chars ∧ ∀ w ∈ unifyLineEnds b.chars, isBreak w = false := by
  rw [← unifyLineEnds_spaces, ← tab_mem_unifyLineEnds]
  constructor
  · intro h
    refine ⟨fun hmem => absurd (h _ hmem) (by decide), fun w hw => ?_⟩
    rw [h w hw]
    rfl
  · rintro ⟨htab, hbreak⟩ w hw
    rcases b.mem_unifyLineEnds w hw with rfl | rfl | rfl
    · rfl
    · exact absurd hw htab
    · exact absurd (hbreak _ hw) (by decide)

/-- A name that may be a key is read as it is but for pairs of escapes. -/
theorem Name.asRead_of_fits {n : Name} (h : n.Fits) :
    asRead.string n.letters = Meaning.exact.string n.letters ↔
      ∀ l ∈ n.letters, l.isPair = false := by
  rw [asRead_string_eq_iff]
  exact and_iff_right (unfolded_of_no_break (any_isBreak_raws (n.fits_iff.1 h).1))

/-- The text nearest to what a name is read as, if it may be a key, is what it denotes. -/
theorem Name.nearest_asRead_of_fits {n : Name} (h : n.Fits) :
    (asRead.string n.letters).nearest = .text (contents n.letters) := by
  refine (Scalar.nearest_ofPoints _).trans (congrArg Scalar.text ?_)
  exact nearest_folded (any_isBreak_raws (n.fits_iff.1 h).1)

/-- A name is legible if it keeps the rules of all stages and has no escaped pair. -/
theorem Name.isLegible_iff (n : Name) :
    n.IsLegible ↔ (allowed.name n ∧ scanned.name n ∧ fitting.name n) ∧
      ∀ l ∈ n.letters, l.isPair = false := by
  show n.IsLegible ↔ ((∀ c, some c ∈ raws n.letters → isAllowed c = true) ∧
    ('\t' ∉ n.before.chars ∧ ¬Marked (raws n.letters) ∧ '\t' ∉ n.after.chars) ∧ n.Fits) ∧ _
  rw [n.fits_iff]
  constructor
  · rintro ⟨hbefore, hletters, hunpaired, hafter, hshort⟩
    have hnone := any_isBreak_raws fun c hc => (hletters c hc).2
    obtain ⟨htab, hbreak⟩ := n.after.spaces_iff.1 hafter
    rw [← unifyLineEnds_of_spaces hafter] at hshort
    exact ⟨⟨fun c hc => (hletters c hc).1, ⟨hbefore, not_marked_of_no_break hnone, htab⟩,
      fun c hc => (hletters c hc).2, hbreak, hshort⟩, hunpaired⟩
  · rintro ⟨⟨hallowed, ⟨hbefore, _, htab⟩, hletters, hbreak, hshort⟩, hunpaired⟩
    have hafter := n.after.spaces_iff.2 ⟨htab, hbreak⟩
    rw [unifyLineEnds_of_spaces hafter] at hshort
    exact ⟨hbefore, fun c hc => ⟨hallowed c hc, hletters c hc⟩, hunpaired, hafter, hshort⟩

/-- In a text that is read, no two names are taken for one key unless they denote the same. -/
theorem readable_and_keepsNames : readable.and asRead.keepsNames = readable := by
  refine Rule.eq_of_iff (fun _ => and_iff_left trivial) (fun _ => and_iff_left trivial)
    (fun _ => and_iff_left trivial) fun n => and_iff_left_of_imp ?_
  rintro ⟨⟨_, hfits⟩, _⟩
  exact Name.nearest_asRead_of_fits hfits

/-- A text is read as it is if it is read, and its numbers and strings are read as they are. -/
theorem legible_eq : legible = readable.and (asRead.agree .exact) := by
  refine Rule.eq_of_iff (fun b => ?_) (fun n => ?_) (fun s => ?_) fun n => ?_
  · show '\t' ∉ b.chars ↔ (((True ∧ '\t' ∉ b.chars) ∧ True) ∧ True) ∧ True
    tauto
  · show n.IsSpelledOut ∧ n.WithinLimit ↔
      (((True ∧ True) ∧ True) ∧ n.WithinLimit) ∧ n.reading = n.value
    rw [n.reading_eq_iff]
    tauto
  · show IsLegible s ↔
      ((((∀ c, some c ∈ raws s → isAllowed c = true) ∧ ¬Marked (raws s)) ∧ True) ∧ True) ∧
        asRead.string s = Meaning.exact.string s
    rw [asRead_string_eq_iff]
    constructor
    · rintro ⟨hallowed, hunpaired, hunmarked, hunfolded⟩
      exact ⟨⟨⟨⟨hallowed, hunmarked⟩, trivial⟩, trivial⟩, hunfolded, hunpaired⟩
    · rintro ⟨⟨⟨⟨hallowed, hunmarked⟩, -⟩, -⟩, hunfolded, hunpaired⟩
      exact ⟨hallowed, hunpaired, hunmarked, hunfolded⟩
  · show n.IsLegible ↔ (((allowed.name n ∧ scanned.name n) ∧ fitting.name n) ∧ True) ∧
      asRead.string n.letters = Meaning.exact.string n.letters
    rw [n.isLegible_iff]
    have hname : fitting.name n → (asRead.string n.letters = Meaning.exact.string n.letters ↔
        ∀ l ∈ n.letters, l.isPair = false) := Name.asRead_of_fits
    tauto

/-- With different names, a text that is read as what it denotes is legible. -/
theorem ObjectText.legible_of_readable (hd : d.Distinct) (h : d.Obeys readable)
    (hvalue : d.object.denoted asRead = d.value) : d.Obeys legible := by
  rw [← readable_and_keepsNames, ObjectText.obeys_and] at h
  obtain ⟨hreadable, _, hnames, _⟩ := h
  rw [legible_eq, ObjectText.obeys_and]
  exact ⟨hreadable, trivial, d.object.agree_of_denoted_eq hd hnames hvalue, trivial⟩

end ApiAuthz.Json
