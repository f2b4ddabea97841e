/-
JSON texts by the grammar. A `Phrase` is a value together with every choice that its text
leaves open: the blanks between tokens, which characters of a string are escaped and how, the
form of a number, and members that name the same thing twice. So a text is JSON if it is that
of a phrase with blanks around it, and `Phrase.value` is what it denotes; `Phrase.denoted` is
what it comes to if numbers and strings are read in another way.

# Well-formed by construction

Parts carry what makes them well-formed: a blank is made of the four blank characters, a raw
letter is no control character and needs no escape, an escape has four hexadecimal digits,
digits are not empty and the whole part of a number has no leading zero. So there is no phrase
that is not JSON, and what is proved of all phrases is proved of all texts.

Strings hold characters: an escape gives a character by one code that is no half of a pair, or
by the two codes of a pair. A half that stands alone is no letter, for it denotes no character.

# Rules and meanings

`Rule` and `Phrase.Obeys` say that all blanks, numbers, strings and names in a phrase have a
property; each stage of a reader asks one of them. `Meaning` says how numbers and strings are
read, and `Phrase.denoted` carries it through a phrase. Two meanings that agree on the parts of
a phrase agree on the phrase (`Phrase.denoted_congr`), and where no object names a thing twice
they agree on no other phrase (`Phrase.agree_of_denoted_eq`); for this the other meaning has to
keep names apart (`Meaning.keepsNames`). All inductions follow the three types of the grammar:
values, the items of lists, the members of objects.
-/
import ApiAuthz.Json.Reader
import ApiAuthz.Proofs.Members
import Mathlib.Tactic.IntervalCases
import Mathlib.Tactic.Simps.Basic
import Mathlib.Tactic.Tauto

namespace ApiAuthz.Json

-- ==================================================== lists of characters

-- A statement about all characters in a list may be decided for all characters there are, so
-- what is decided here is a check of the list.

/-- What a check of a list finds holds of all characters in it. -/
theorem forall_mem_of_all {P : Char → Prop} [DecidablePred P] {cs : List Char}
    (h : (cs.all fun c => decide (P c)) = true) : ∀ c ∈ cs, P c :=
  fun c hc => of_decide_eq_true (List.all_eq_true.1 h c hc)

-- ==================================================== blanks

/-- What may stand between two tokens. -/
structure Blank where
  chars : List Char
  isBlank : ∀ c ∈ chars, isSpace c = true

namespace Blank

/-- No blank at all. -/
def none : Blank := ⟨[], nofun⟩

/-- One space. -/
def space : Blank := ⟨[' '], List.forall_mem_singleton.2 rfl⟩

end Blank

-- ==================================================== strings

/-- Four hexadecimal digits. -/
structure CodeUnit where
  digits : List Char
  isFour : digits.length = 4
  areDigits : ∀ c ∈ digits, (hexDigit? c).isSome = true

namespace CodeUnit

/-- The number that the digits denote. -/
def code (u : CodeUnit) : Nat :=
  u.digits.foldl (fun n c => n * 16 + (hexDigit? c).getD 0) 0

/-- The escape as it is spelled. -/
def text (u : CodeUnit) : List Char := '\\' :: 'u' :: u.digits

end CodeUnit

/-- A character of a string as it is written. -/
inductive Letter where
  /-- A character that stands for itself. -/
  | raw (c : Char) (isRaw : 0x20 ≤ c.toNat ∧ c ≠ '"' ∧ c ≠ '\\')
  /-- A backslash and a letter. -/
  | short (letter c : Char) (isShort : simpleEscape? letter = some c)
  /-- The code of a character. -/
  | unit (u : CodeUnit)
    (isWhole : CodePoint.opens u.code = false ∧ CodePoint.closes u.code = false)
  /-- The codes of the two halves of a character. -/
  | pair (high low : CodeUnit) (isHigh : CodePoint.opens high.code = true)
    (isLow : CodePoint.closes low.code = true)

namespace Letter

/-- The letter as it is spelled. -/
def text : Letter → List Char
  | raw c _ => [c]
  | short letter _ _ => ['\\', letter]
  | unit u _ => u.text
  | pair high low _ _ => high.text ++ low.text

/-- The character that a letter denotes. -/
def char : Letter → Char
  | raw c _ => c
  | short _ c _ => c
  | unit u _ => Char.ofNat u.code
  | pair high low _ _ => CodePoint.paired high.code low.code

/-- The character, if it stands for itself. -/
def raw? : Letter → Option Char
  | raw c _ => some c
  | _ => none

/-- The character is given by the codes of its two halves. -/
def isPair : Letter → Bool
  | pair _ _ _ _ => true
  | _ => false

end Letter

/-- The characters that stand for themselves, each in its place. -/
def raws (s : List Letter) : List (Option Char) := s.map Letter.raw?

/-- A string between its quotes. -/
def quoted (s : List Letter) : List Char := '"' :: (s.flatMap Letter.text ++ ['"'])

/-- What a string holds. -/
def contents (s : List Letter) : String := String.ofList (s.map Letter.char)

/-- Every letter takes a character at least. -/
theorem length_le_text (s : List Letter) : s.length ≤ (s.flatMap Letter.text).length := by
  induction s with
  | nil => exact Nat.le_refl _
  | cons l s ih =>
      have hl : 0 < l.text.length := by
        cases l <;> exact Nat.succ_pos _
      rw [List.flatMap_cons, List.length_append, List.length_cons]
      omega

-- ==================================================== numbers

/-- The digits of ASCII. -/
def digitChars : List Char := "0123456789".toList

theorem mem_of_isDigit {c : Char} (h : isDigit c = true) : c ∈ digitChars := by
  have hrange : 48 ≤ c.toNat ∧ c.toNat ≤ 57 := by
    unfold isDigit at h
    simpa [Char.le_def, UInt32.le_iff_toNat_le] using h
  rw [← Char.ofNat_toNat c]
  obtain ⟨hlow, hhigh⟩ := hrange
  interval_cases c.toNat <;> decide

/-- One digit or more. -/
def Digits (cs : List Char) : Prop := cs ≠ [] ∧ ∀ c ∈ cs, isDigit c = true

theorem digits_singleton {c : Char} (h : isDigit c = true) : Digits [c] :=
  ⟨List.cons_ne_nil _ _, List.forall_mem_singleton.2 h⟩

/-- A power of ten behind a number. -/
structure Exponent where
  mark : Char
  sign : Option Char
  digits : List Char
  isMark : mark = 'e' ∨ mark = 'E'
  isSign : ∀ c ∈ sign, c = '+' ∨ c = '-'
  areDigits : Digits digits

namespace Exponent

/-- The exponent as it is spelled. -/
def text (e : Exponent) : List Char := e.mark :: (e.sign.toList ++ e.digits)

/-- The power of ten. -/
def value (e : Exponent) : Int :=
  if e.sign = some '-' then -(natOf e.digits : Int) else natOf e.digits

end Exponent

/-- A number as it is written; zero starts no other number. -/
structure Number where
  negative : Bool
  whole : List Char
  fraction : Option (List Char)
  exponent : Option Exponent
  isWhole : Digits whole ∧ (whole.head? = some '0' → whole = ['0'])
  isFraction : ∀ f ∈ fraction, Digits f

namespace Number

/-- The number as it is spelled. -/
def text (n : Number) : List Char :=
  (if n.negative then ['-'] else []) ++ (n.whole ++
    (n.fraction.elim [] ('.' :: ·) ++ n.exponent.elim [] Exponent.text))

/-- The digits behind the point. -/
def decimals (n : Number) : List Char := n.fraction.getD []

/-- Neither a fraction nor an exponent is written. -/
def IsInteger (n : Number) : Prop := n.fraction = none ∧ n.exponent = none

instance (n : Number) : Decidable n.IsInteger :=
  decidable_of_iff (n.fraction.isNone ∧ n.exponent.isNone) (by simp [IsInteger])

/-- An integer, or the nearest double. -/
def value (n : Number) : Scalar Broken :=
  if n.IsInteger then .int (Binary64.withSign n.negative (natOf n.whole))
  else .float (Binary64.ofDecimal n.negative (natOf (n.whole ++ n.decimals))
    (n.exponent.elim 0 Exponent.value - n.decimals.length))

end Number

-- ==================================================== values

/-- The name of a member with the blanks around it. -/
structure Name where
  before : Blank
  letters : List Letter
  after : Blank

mutual

/-- A value as it is written. -/
inductive Phrase where
  | null
  | bool (b : Bool)
  | number (n : Number)
  | string (s : List Letter)
  | emptyList (inside : Blank)
  | list (items : Items)
  | emptyObject (inside : Blank)
  | object (fields : Fields)

/-- Items between brackets, with commas between them. -/
inductive Items where
  | last (before : Blank) (item : Phrase) (after : Blank)
  | more (before : Blank) (item : Phrase) (after : Blank) (rest : Items)

/-- Members between braces, with commas between them. -/
inductive Fields where
  | last (name : Name) (before : Blank) (item : Phrase) (after : Blank)
  | more (name : Name) (before : Blank) (item : Phrase) (after : Blank) (rest : Fields)

end

/-- The text of a member up to its colon, given how blanks are spelled. -/
def Name.spelled (blank : List Char → List Char) (n : Name) : List Char :=
  blank n.before.chars ++ (quoted n.letters ++ (blank n.after.chars ++ [':']))

mutual

/-- The text of a phrase, given how its blanks are spelled. -/
def Phrase.spelled (blank : List Char → List Char) : Phrase → List Char
  | .null => "null".toList
  | .bool b => (if b then "true" else "false").toList
  | .number n => n.text
  | .string s => quoted s
  | .emptyList inside => '[' :: (blank inside.chars ++ [']'])
  | .list items => '[' :: (items.spelled blank ++ [']'])
  | .emptyObject inside => '\x7b' :: (blank inside.chars ++ ['\x7d'])
  | .object fields => '\x7b' :: (fields.spelled blank ++ ['\x7d'])

/-- Items between brackets, with a comma between each two. -/
def Items.spelled (blank : List Char → List Char) : Items → List Char
  | .last before item after =>
    blank before.chars ++ (item.spelled blank ++ blank after.chars)
  | .more before item after rest =>
    blank before.chars ++ (item.spelled blank ++ (blank after.chars ++ ',' :: rest.spelled blank))

/-- Members between braces, with a comma between each two. -/
def Fields.spelled (blank : List Char → List Char) : Fields → List Char
  | .last name before item after =>
    name.spelled blank ++ (blank before.chars ++ (item.spelled blank ++ blank after.chars))
  | .more name before item after rest =>
    name.spelled blank ++ (blank before.chars ++
      (item.spelled blank ++ (blank after.chars ++ ',' :: rest.spelled blank)))

end

/-- How numbers and strings are read. -/
structure Meaning where
  number : Number → Scalar Broken
  string : List Letter → Scalar Broken

/-- The meaning that the grammar gives them. -/
def Meaning.exact : Meaning := ⟨Number.value, fun s => .text (contents s)⟩

mutual

/-- What a phrase comes to: the last value of a name counts, in the place of the first. -/
def Phrase.denoted (m : Meaning) : Phrase → Value Broken
  | .null => .null
  | .bool b => .bool b
  | .number n => .scalar (m.number n)
  | .string s => .scalar (m.string s)
  | .emptyList _ => .list []
  | .list items => .list (items.denoted m)
  | .emptyObject _ => .map []
  | .object fields => .map (Members.ofEntries (fields.denoted m))

/-- The values of items. -/
def Items.denoted (m : Meaning) : Items → List (Value Broken)
  | .last _ item _ => [item.denoted m]
  | .more _ item _ rest => item.denoted m :: rest.denoted m

/-- The members that are put into an object one after another. -/
def Fields.denoted (m : Meaning) : Fields → List (Scalar Broken × Value Broken)
  | .last name _ item _ => [(m.string name.letters, item.denoted m)]
  | .more name _ item _ rest => (m.string name.letters, item.denoted m) :: rest.denoted m

end

/-- What a phrase denotes. -/
def Phrase.value (p : Phrase) : Value Broken := p.denoted .exact

/-- A text that is a JSON object, blanks around it allowed. -/
structure ObjectText where
  before : Blank
  object : Phrase
  after : Blank
  isObject : object.value.isMap = true

namespace ObjectText

/-- The text with its blanks changed. -/
def spelled (blank : List Char → List Char) (d : ObjectText) : List Char :=
  blank d.before.chars ++ (d.object.spelled blank ++ blank d.after.chars)

/-- The text as it stands. -/
def text (d : ObjectText) : List Char := d.spelled id

/-- The object that the text denotes. -/
def value (d : ObjectText) : Value Broken := d.object.value

/-- An object is one whatever its numbers and strings are read as. -/
theorem isMap_denoted (d : ObjectText) (m : Meaning) : (d.object.denoted m).isMap = true := by
  have h := d.isObject
  revert h
  cases d.object with
  | emptyObject inside => exact fun _ => rfl
  | object fields => exact fun _ => rfl
  | null | bool b | number n | string s | emptyList inside | list items => exact nofun

end ObjectText

-- ==================================================== names

/-- The names as they stand, repeated ones too. -/
def Fields.names : Fields → List String
  | .last name _ _ _ => [contents name.letters]
  | .more name _ _ _ rest => contents name.letters :: rest.names

mutual

/-- No object has two members of one name. -/
def Phrase.Distinct : Phrase → Prop
  | .list items => items.Distinct
  | .object fields => fields.names.Nodup ∧ fields.Distinct
  | _ => True

/-- No object among the items names a thing twice. -/
def Items.Distinct : Items → Prop
  | .last _ item _ => item.Distinct
  | .more _ item _ rest => item.Distinct ∧ rest.Distinct

/-- No object among the values of members does. -/
def Fields.Distinct : Fields → Prop
  | .last _ _ item _ => item.Distinct
  | .more _ _ item _ rest => item.Distinct ∧ rest.Distinct

end

/-- No object in the text names a thing twice. -/
def ObjectText.Distinct (d : ObjectText) : Prop := d.object.Distinct

-- ==================================================== properties of all parts

/-- A property of each kind of part. -/
structure Rule where
  blank : Blank → Prop
  number : Number → Prop
  string : List Letter → Prop
  name : Name → Prop

mutual

/-- All parts have the property. -/
def Phrase.Obeys (r : Rule) : Phrase → Prop
  | .null => True
  | .bool _ => True
  | .number n => r.number n
  | .string s => r.string s
  | .emptyList inside => r.blank inside
  | .list items => items.Obeys r
  | .emptyObject inside => r.blank inside
  | .object fields => fields.Obeys r

/-- All parts of the items keep the rule. -/
def Items.Obeys (r : Rule) : Items → Prop
  | .last before item after => r.blank before ∧ item.Obeys r ∧ r.blank after
  | .more before item after rest =>
    r.blank before ∧ item.Obeys r ∧ r.blank after ∧ rest.Obeys r

/-- All parts of the members keep the rule. -/
def Fields.Obeys (r : Rule) : Fields → Prop
  | .last name before item after =>
    r.name name ∧ r.blank before ∧ item.Obeys r ∧ r.blank after
  | .more name before item after rest =>
    r.name name ∧ r.blank before ∧ item.Obeys r ∧ r.blank after ∧ rest.Obeys r

end

/-- All parts of the text keep the rule. -/
def ObjectText.Obeys (r : Rule) (d : ObjectText) : Prop :=
  r.blank d.before ∧ d.object.Obeys r ∧ r.blank d.after

/-- The property is one of every part. -/
structure Rule.Always (r : Rule) : Prop where
  blank : ∀ b, r.blank b
  number : ∀ n, r.number n
  string : ∀ s, r.string s
  name : ∀ n, r.name n

mutual

/-- A rule that asks nothing is kept. -/
theorem Phrase.obeys_of_always {r : Rule} (h : r.Always) : (p : Phrase) → p.Obeys r
  | .null | .bool _ => trivial
  | .number n => h.number n
  | .string s => h.string s
  | .emptyList inside => h.blank inside
  | .list items => items.obeys_of_always h
  | .emptyObject inside => h.blank inside
  | .object fields => fields.obeys_of_always h

theorem Items.obeys_of_always {r : Rule} (h : r.Always) : (items : Items) → items.Obeys r
  | .last before item after => ⟨h.blank before, item.obeys_of_always h, h.blank after⟩
  | .more before item after rest =>
    ⟨h.blank before, item.obeys_of_always h, h.blank after, rest.obeys_of_always h⟩

theorem Fields.obeys_of_always {r : Rule} (h : r.Always) : (fields : Fields) → fields.Obeys r
  | .last name before item after =>
    ⟨h.name name, h.blank before, item.obeys_of_always h, h.blank after⟩
  | .more name before item after rest =>
    ⟨h.name name, h.blank before, item.obeys_of_always h, h.blank after, rest.obeys_of_always h⟩

end

/-- Both properties. -/
@[simps] def Rule.and (r r' : Rule) : Rule where
  blank := fun b => r.blank b ∧ r'.blank b
  number := fun n => r.number n ∧ r'.number n
  string := fun s => r.string s ∧ r'.string s
  name := fun n => r.name n ∧ r'.name n

mutual

/-- Two rules are kept together if each is kept. -/
theorem Phrase.obeys_and {r r' : Rule} :
    (p : Phrase) → (p.Obeys (r.and r') ↔ p.Obeys r ∧ p.Obeys r')
  | .null => by simp [Phrase.Obeys]
  | .bool _ => by simp [Phrase.Obeys]
  | .number _ => Iff.rfl
  | .string _ => Iff.rfl
  | .emptyList _ => Iff.rfl
  | .list items => items.obeys_and
  | .emptyObject _ => Iff.rfl
  | .object fields => fields.obeys_and

theorem Items.obeys_and {r r' : Rule} :
    (items : Items) → (items.Obeys (r.and r') ↔ items.Obeys r ∧ items.Obeys r')
  | .last before item after => by
    simp only [Items.Obeys, item.obeys_and, Rule.and_blank]
    tauto
  | .more before item after rest => by
    simp only [Items.Obeys, item.obeys_and, rest.obeys_and, Rule.and_blank]
    tauto

theorem Fields.obeys_and {r r' : Rule} :
    (fields : Fields) → (fields.Obeys (r.and r') ↔ fields.Obeys r ∧ fields.Obeys r')
  | .last name before item after => by
    simp only [Fields.Obeys, item.obeys_and, Rule.and_blank, Rule.and_name]
    tauto
  | .more name before item after rest => by
    simp only [Fields.Obeys, item.obeys_and, rest.obeys_and, Rule.and_blank, Rule.and_name]
    tauto

end

/-- So it is for whole texts. -/
theorem ObjectText.obeys_and {r r' : Rule} (d : ObjectText) :
    d.Obeys (r.and r') ↔ d.Obeys r ∧ d.Obeys r' := by
  simp only [ObjectText.Obeys, d.object.obeys_and, Rule.and_blank]
  tauto

/-- Rules that ask the same of every part are the same. -/
theorem Rule.eq_of_iff {r r' : Rule} (hblank : ∀ b, r.blank b ↔ r'.blank b)
    (hnumber : ∀ n, r.number n ↔ r'.number n) (hstring : ∀ s, r.string s ↔ r'.string s)
    (hname : ∀ n, r.name n ↔ r'.name n) : r = r' := by
  cases r
  cases r'
  congr <;> funext x
  · exact propext (hblank x)
  · exact propext (hnumber x)
  · exact propext (hstring x)
  · exact propext (hname x)

-- ==================================================== meanings that agree

section Agreeing

variable {m m' : Meaning}

/-- What a name denotes is the text nearest to what it is read as. -/
def Meaning.keepsNames (m : Meaning) : Rule where
  blank := fun _ => True
  number := fun _ => True
  string := fun _ => True
  name := fun n => (m.string n.letters).nearest = .text (contents n.letters)

/-- The exact meaning keeps the names. -/
theorem Meaning.always_keepsNames : (Meaning.keepsNames .exact).Always :=
  ⟨fun _ => trivial, fun _ => trivial, fun _ => trivial, fun _ => rfl⟩

/-- Numbers, strings and names are read as the same. -/
def Meaning.agree (m m' : Meaning) : Rule where
  blank := fun _ => True
  number := fun n => m.number n = m'.number n
  string := fun s => m.string s = m'.string s
  name := fun n => m.string n.letters = m'.string n.letters

mutual

/-- Readings that agree on the strings and numbers of a value agree on the value. -/
theorem Phrase.denoted_congr : (p : Phrase) → p.Obeys (m.agree m') → p.denoted m = p.denoted m'
  | .null, _ => rfl
  | .bool _, _ => rfl
  | .number _, h => congrArg Value.scalar h
  | .string _, h => congrArg Value.scalar h
  | .emptyList _, _ => rfl
  | .list items, h => congrArg Value.list (items.denoted_congr h)
  | .emptyObject _, _ => rfl
  | .object fields, h =>
    congrArg (fun es => Value.map (Members.ofEntries es)) (fields.denoted_congr h)

theorem Items.denoted_congr :
    (items : Items) → items.Obeys (m.agree m') → items.denoted m = items.denoted m'
  | .last _ item _, ⟨_, h, _⟩ => congrArg ([·]) (item.denoted_congr h)
  | .more _ item _ rest, ⟨_, h, _, hrest⟩ =>
    congrArg₂ List.cons (item.denoted_congr h) (rest.denoted_congr hrest)

theorem Fields.denoted_congr :
    (fields : Fields) → fields.Obeys (m.agree m') → fields.denoted m = fields.denoted m'
  | .last _ _ item _, ⟨hname, _, h, _⟩ =>
    congrArg₂ (fun k v => [(k, v)]) hname (item.denoted_congr h)
  | .more _ _ item _ rest, ⟨hname, _, h, _, hrest⟩ => by
    unfold Fields.denoted
    rw [hname, item.denoted_congr h, rest.denoted_congr hrest]

end

/-- A reading that keeps the names has them for keys. -/
theorem Fields.nearest_keys_denoted :
    (fields : Fields) → fields.Obeys m.keepsNames →
      (Members.keys (fields.denoted m)).map Scalar.nearest = fields.names.map .text
  | .last _ _ _ _, ⟨hname, _⟩ => congrArg (fun k => [k]) hname
  | .more _ _ _ _ rest, ⟨hname, _, _, _, hrest⟩ =>
    congrArg₂ List.cons hname (rest.nearest_keys_denoted hrest)

/-- With different names, the members of an object are its entries: names that are read as one
key would denote the same. -/
theorem Fields.ofEntries_denoted {fields : Fields} (hd : fields.names.Nodup)
    (hn : fields.Obeys m.keepsNames) :
    Members.ofEntries (fields.denoted m) = fields.denoted m := by
  refine Members.ofEntries_eq_self (Members.distinct_iff_apart.2 ?_)
  have hapart : ((Members.keys (fields.denoted m)).map Scalar.nearest).Pairwise
      fun k k' => k.same k' = false := by
    rw [fields.nearest_keys_denoted hn]
    refine List.pairwise_map.2 (hd.imp fun hne => ?_)
    rw [Scalar.same_text]
    exact decide_eq_false hne
  refine (List.pairwise_map.1 hapart).imp fun hnearest => ?_
  rw [Bool.eq_false_iff] at hnearest ⊢
  exact fun hsame => hnearest (Scalar.same_nearest hsame)

mutual

/-- With different names, a phrase that comes to what it denotes is read as it is, part by
part. -/
theorem Phrase.agree_of_denoted_eq :
    (p : Phrase) → p.Distinct → p.Obeys m.keepsNames → p.denoted m = p.value →
      p.Obeys (m.agree .exact)
  | .null, _, _, _ | .bool _, _, _, _ | .emptyList _, _, _, _ | .emptyObject _, _, _, _ => trivial
  | .number _, _, _, h => Value.scalar.inj h
  | .string _, _, _, h => Value.scalar.inj h
  | .list items, hd, hn, h => items.agree_of_denoted_eq hd hn (Value.list.inj h)
  | .object fields, hd, hn, h => by
    have heq := Value.map.inj h
    rw [Fields.ofEntries_denoted hd.1 hn,
      Fields.ofEntries_denoted hd.1 (fields.obeys_of_always Meaning.always_keepsNames)] at heq
    exact fields.agree_of_denoted_eq hd.2 hn heq

/-- From the values of items back to their parts. -/
theorem Items.agree_of_denoted_eq :
    (items : Items) → items.Distinct → items.Obeys m.keepsNames →
      items.denoted m = items.denoted .exact → items.Obeys (m.agree .exact)
  | .last _ item _, hd, ⟨_, hn, _⟩, h =>
    ⟨trivial, item.agree_of_denoted_eq hd hn (List.cons.inj h).1, trivial⟩
  | .more _ item _ rest, hd, ⟨_, hn, _, hnrest⟩, h =>
    ⟨trivial, item.agree_of_denoted_eq hd.1 hn (List.cons.inj h).1, trivial,
      rest.agree_of_denoted_eq hd.2 hnrest (List.cons.inj h).2⟩

/-- From members back to their parts: without repeated names no member hides another. -/
theorem Fields.agree_of_denoted_eq :
    (fields : Fields) → fields.Distinct → fields.Obeys m.keepsNames →
      fields.denoted m = fields.denoted .exact → fields.Obeys (m.agree .exact)
  | .last _ _ item _, hd, ⟨_, _, hn, _⟩, h =>
    have ⟨hname, hitem⟩ := Prod.mk.inj (List.cons.inj h).1
    ⟨hname, trivial, item.agree_of_denoted_eq hd hn hitem, trivial⟩
  | .more _ _ item _ rest, hd, ⟨_, _, hn, _, hnrest⟩, h =>
    have ⟨hname, hitem⟩ := Prod.mk.inj (List.cons.inj h).1
    ⟨hname, trivial, item.agree_of_denoted_eq hd.1 hn hitem, trivial,
      rest.agree_of_denoted_eq hd.2 hnrest (List.cons.inj h).2⟩

end

end Agreeing

end ApiAuthz.Json
