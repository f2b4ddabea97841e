/-
JSON descriptions, read as YAML. A file that holds a JSON object is read as what the reader of
YAML makes of its parts (`outcome_eq_ok_iff`), so it is read as the object that it denotes if the
text is legible, and only then where no object names a thing twice (`load_json`).

# What is legible

A text of JSON is any way to write an object: blanks, escapes, forms of numbers and the order of
members are all left open (`Proofs/Json/Grammar`). It is legible if, part by part,

  * the blanks have no tab in them,
  * the numbers are integers within the limit of digits, or have a point, and a sign in the
    exponent if there is one,
  * the strings have only characters that may be printed, no raw break that would be folded, and
    no character that is given by the two escapes of a pair, for YAML reads these as two halves,
  * the names are on one line with their colon, and not too long.

A string with a pair of escapes is read, then, but not as the character of the pair: what is read
has two points where the string has one. The character itself may stand in the text as it is.
Strings denote texts of characters, so an escape of a half that stands alone is not among them.

# Exactness

Legible texts are read alike by both readers (`outcome_eq_read_of_legible`). A text that is not
legible is refused, or something in it is read as something else, and then the whole is another
value: what is read is told part by part (`outcome_eq_ok_iff`). With a repeated name the part may
be one that is put out again by a later one, so here the names of each object have to be distinct
(`legible_of_outcome`).

That not every object is read as it denotes has its shortest example in a number, ten to the
fifth without a point (`bare_power_not_read`); with point and sign the same form is a number
(`load_json_signed_power`).
-/
import ApiAuthz.Proofs.FileTree
import ApiAuthz.Proofs.Json.Document
import ApiAuthz.Proofs.Json.Reading
import ApiAuthz.SpecFile

namespace ApiAuthz.SpecFile

open Json (ObjectText legible readable asRead)
open Text (unifyLineEnds)

-- ==================================================== files

/-- There is a file of this text. -/
structure HoldsText (t : FileTree) (path : FilePath) (text : List Char) : Prop where
  asked : FilePath.holdsNull path.text = false
  file : ∃ content, t.read path = .ok content ∧ Text.Utf8.decode content = .ok text

variable {t : FileTree} {path : FilePath} {d : ObjectText} {v : Value Broken}

/-- The text of a file is read with its line ends unified. -/
theorem HoldsText.readText {text : List Char} (h : HoldsText t path text) :
    t.readText path = .ok (unifyLineEnds text) := by
  obtain ⟨content, hread, hdecode⟩ := h.file
  rw [FileTree.readText_of_read h.asked hread]
  unfold FileTree.textOf
  rw [hdecode]

/-- A file is read, then taken apart, then checked; the log does not matter to the outcome. -/
theorem outcome_eq (t : FileTree) (path : FilePath) :
    (load t path).outcome = (t.readText path >>= fun text => parse path text >>= checked path) := by
  unfold load
  dsimp only
  split
  · next w hw => exact hw.symm
  · next f hf => exact hf.symm

/-- What a text is read as is what it holds as YAML. -/
theorem parse_eq_ok {text : List Char} :
    parse path text = .ok v ↔ Yaml.Document.ofText text = .ok v := by
  unfold parse
  cases Yaml.Document.ofText text with
  | ok w => simp
  | error f => cases f <;> simp

/-- Only a mapping is a description. -/
theorem checked_eq_ok {w : Value Broken} : checked path w = .ok v ↔ w = v ∧ w.isMap = true := by
  unfold checked
  cases w.isMap <;> simp

theorem outcome_of_readText {text : List Char} (h : t.readText path = .ok text) :
    (load t path).outcome = .ok v ↔ Yaml.Document.ofText text = .ok v ∧ v.isMap = true := by
  rw [outcome_eq, h]
  show (parse path text >>= checked path) = .ok v ↔ _
  rw [Attempt.bind_eq_ok]
  constructor
  · rintro ⟨w, hw, hchecked⟩
    obtain ⟨rfl, hmap⟩ := checked_eq_ok.1 hchecked
    exact ⟨parse_eq_ok.1 hw, hmap⟩
  · rintro ⟨hv, hmap⟩
    exact ⟨v, parse_eq_ok.2 hv, checked_eq_ok.2 ⟨rfl, hmap⟩⟩

/-- What a file of JSON is read as. -/
theorem outcome_eq_ok_iff (h : HoldsText t path d.text) :
    (load t path).outcome = .ok v ↔ d.Obeys readable ∧ v = d.object.denoted asRead := by
  have hread := h.readText
  rw [d.unifyLineEnds_text] at hread
  rw [outcome_of_readText hread, ObjectText.ofText_eq_ok_iff, and_iff_left_iff_imp]
  rintro ⟨_, rfl⟩
  exact d.isMap_denoted asRead

/-- A legible text is read as the object that it denotes. -/
theorem outcome_of_legible (h : HoldsText t path d.text) (hlegible : d.Obeys legible) :
    (load t path).outcome = .ok d.value := by
  rw [Json.legible_eq, ObjectText.obeys_and] at hlegible
  exact (outcome_eq_ok_iff h).2 ⟨hlegible.1, (d.object.denoted_congr hlegible.2.2.1).symm⟩

/-- Both readers make the same of a legible text. -/
theorem outcome_eq_read_of_legible (h : HoldsText t path d.text) (hlegible : d.Obeys legible) :
    ∃ v, Json.read d.text = .ok v ∧ (load t path).outcome = .ok v := by
  have hread := hlegible
  rw [Json.legible_eq, ObjectText.obeys_and, ObjectText.obeys_readable] at hread
  obtain ⟨⟨_, _, _, hlimited⟩, _⟩ := hread
  exact ⟨d.value, ObjectText.read_text hlimited, outcome_of_legible h hlegible⟩

/-- A text without repeated names that is read so is legible. -/
theorem legible_of_outcome (h : HoldsText t path d.text) (hdistinct : d.Distinct)
    (hread : (load t path).outcome = .ok d.value) : d.Obeys legible := by
  obtain ⟨hreadable, hvalue⟩ := (outcome_eq_ok_iff h).1 hread
  exact ObjectText.legible_of_readable hdistinct hreadable hvalue.symm

-- ==================================================== objects of one number

/-- An object that names one number. -/
def numbered (n : Json.Number) : ObjectText where
  before := .none
  object := .object (.last ⟨.none, [.raw 'a' (by decide)], .none⟩ .space (.number n) .none)
  after := .none
  isObject := rfl

/-- An object of one number is legible with its number. -/
theorem legible_numbered {n : Json.Number} (h : n.IsSpelledOut ∧ n.WithinLimit) :
    (numbered n).Obeys legible := by
  have hname : Json.Name.IsLegible ⟨.none, [.raw 'a' (by decide)], .none⟩ := by
    refine ⟨nofun, fun c hc => ?_, fun l hl => ?_, nofun, by decide⟩
    · cases List.mem_singleton.1 hc
      decide
    · cases List.mem_singleton.1 hl
      rfl
  have hspace : '\t' ∉ Json.Blank.space.chars := by decide
  exact ⟨nofun, ⟨hname, hspace, h, nofun⟩, nofun⟩

/-- The only file, of this ASCII text. -/
def onlyFile (text : List Char) : FileTree :=
  ⟨[(["spec.json"], .file (text.map fun c => UInt8.ofNat c.toNat))]⟩

/-- 1.5e+3 -/
def signedPower : Json.Number where
  negative := false
  whole := ['1']
  fraction := some ['5']
  exponent := some ⟨'e', some '+', ['3'], Or.inl rfl, fun _ h => Or.inl (Option.some.inj h).symm,
    Json.digits_singleton rfl⟩
  isWhole := ⟨Json.digits_singleton rfl, nofun⟩
  isFraction := by
    rintro _ ⟨⟩
    exact Json.digits_singleton rfl

/-- 1e5 -/
def barePower : Json.Number where
  negative := false
  whole := ['1']
  fraction := none
  exponent := some ⟨'e', none, ['5'], Or.inl rfl, nofun, Json.digits_singleton rfl⟩
  isWhole := ⟨Json.digits_singleton rfl, nofun⟩
  isFraction := nofun

-- ==================================================== JSON

/-- A file of a JSON object is read as the object if its text is legible. Where no object in it
names a thing twice, this is the only way to be read so. -/
theorem load_json (h : HoldsText t path d.text) :
    (d.Obeys legible → (load t path).outcome = .ok d.value) ∧
      (d.Distinct → (load t path).outcome = .ok d.value → d.Obeys legible) :=
  ⟨outcome_of_legible h, legible_of_outcome h⟩

/-- A number with a signed power of ten. -/
theorem load_json_signed_power :
    HoldsText (onlyFile (numbered signedPower).text) (.ofString "spec.json")
        (numbered signedPower).text ∧
      (numbered signedPower).Distinct ∧
      (load (onlyFile (numbered signedPower).text) (.ofString "spec.json")).outcome =
        .ok (numbered signedPower).value ∧
      (numbered signedPower).Obeys legible := by
  have hfile : HoldsText (onlyFile (numbered signedPower).text) (.ofString "spec.json")
      (numbered signedPower).text := ⟨by rfl, _, by rfl, by rfl⟩
  have hdistinct : (numbered signedPower).Distinct := ⟨List.nodup_singleton _, trivial⟩
  have hspelled : signedPower.IsSpelledOut := by
    rintro _ ⟨⟩
    exact ⟨rfl, rfl⟩
  have hread := (load_json hfile).1 (legible_numbered ⟨hspelled, nofun⟩)
  exact ⟨hfile, hdistinct, hread, (load_json hfile).2 hdistinct hread⟩

/-- Not every JSON object is read as the object that it denotes. -/
theorem bare_power_not_read :
    ¬∀ (t : FileTree) (path : FilePath) (d : ObjectText),
      HoldsText t path d.text → (load t path).outcome = .ok d.value := by
  intro hclaim
  have hfile : HoldsText (onlyFile (numbered barePower).text) (.ofString "spec.json")
      (numbered barePower).text := ⟨by rfl, _, by rfl, by rfl⟩
  have hlegible := legible_of_outcome hfile ⟨List.nodup_singleton _, trivial⟩ (hclaim _ _ _ hfile)
  obtain ⟨_, ⟨_, _, ⟨hspelled, _⟩, _⟩, _⟩ := hlegible
  cases (hspelled _ rfl).1

end ApiAuthz.SpecFile
