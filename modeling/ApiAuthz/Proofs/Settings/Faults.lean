/-
Which faults of a configuration file are reported. Loading settings gives some, or reports an
error about the configuration, unless one of four things stands in the way (`Unreported`): a
null character in the path, octets that are not UTF-8, a scalar that has no value, and a member
that is not named by a text. A file that is missing or no file, malformed text, a document that
is no mapping and settings of the wrong kind are all reported (`loaded_or_reported_iff`).

The text that is malformed is told from the scalar that has no value by where the flaws of a
document come from (`Yaml.explains_ofText`).

# Stage by stage

Loading goes from the path to the octets, from there to text, to a document, to its members and
to the settings. `Answered` is said of each of these stages, from the last one backwards: of
members always, of a document unless a member is not named by a text
(`answered_ofDocument_iff`), of a text unless a scalar has no value as well
(`answered_ofText_iff`), and of a file unless its path or its octets are refused
(`answered_of_error`). The four ways of `Unreported` are disjoint, because each of them says
that the stages before it were passed; this is what makes the statement exact.

# The file tree

All of it is about any file tree and any path, with no file given as one of the cases. That a
file is missing, or a directory, or may not be reached, is told by the tree and reported like
malformed text. The counterexample is a tree of one file with one octet.
-/
import ApiAuthz.Proofs.FileTree
import ApiAuthz.Proofs.Settings
import ApiAuthz.Proofs.Yaml.Flaws

namespace ApiAuthz

namespace Settings

open FilePath (holdsNull)

variable {t : FileTree} {path : FilePath} {text : List Char} {doc : Value}

-- ==================================================== vocabulary

/-- The outcome is an error that is reported, and about the configuration. -/
def IsReported (outcome : Attempt Settings) : Prop :=
  ∃ cause, outcome = .error (.reported cause) ∧ cause.report.kind = .configurationError

/-- What keeps settings from being loaded without being reported. -/
inductive Unreported (t : FileTree) : Option FilePath → Prop
  /-- The path cannot even be asked for. -/
  | nullInPath {path : FilePath} (null : holdsNull path.text = true) : Unreported t (some path)
  /-- The octets of the file are not UTF-8. -/
  | undecodable {path : FilePath} {content : List UInt8} {diagnosis : String}
      (asked : holdsNull path.text = false) (file : t.read path = .ok content)
      (refused : Text.Utf8.decode content = .error diagnosis) : Unreported t (some path)
  /-- A scalar of the document has no value. -/
  | unconstructible {path : FilePath} {text : List Char} {f : Yaml.Flaw}
      (read : t.readText path = .ok text) (refused : Yaml.Document.ofText text = .error f)
      (flaw : Yaml.Unconstructible f) : Unreported t (some path)
  /-- A member of the document has a name that is no string. -/
  | unnamed {path : FilePath} {text : List Char} {raw : Value Broken} {ms : Members Value}
      {m : Scalar × Value} (read : t.readText path = .ok text)
      (document : Yaml.Document.ofText text = .ok raw) (mapping : raw.nearest.body = .map ms)
      (member : m ∈ ms) (name : (Value.scalar m.1).text? = none) : Unreported t (some path)

/-- Settings are loaded, or a report says why not. -/
def Answered (outcome : Attempt Settings) : Prop := (∃ s, outcome = .ok s) ∨ IsReported outcome

/-- A fault that is not reported is no answer. -/
theorem not_answered_of_error {f : Fault} (h : ∀ cause, f ≠ .reported cause) :
    ¬Answered (.error f) := by
  rintro (⟨s, hs⟩ | ⟨cause, hcause, -⟩)
  · cases hs
  · exact h cause (Except.error.inj hcause)

-- ==================================================== documents

theorem answered_ofMembers_or (doc : Value) :
    Answered (match ofMembers doc with
      | .ok s => .ok s
      | .error ps => Fault.report (.invalidSettings path.text ps)) := by
  split
  · next s _ => exact Or.inl ⟨s, rfl⟩
  · next ps _ => exact Or.inr ⟨.invalidSettings path.text ps, rfl, rfl⟩

/-- The settings of a document are answered for, unless it is a mapping with a member that
no text names. -/
theorem answered_ofDocument_iff :
    Answered (ofDocument path doc) ↔
      ∀ ms, doc.body = .map ms → ∀ m ∈ ms, (Value.scalar m.1).text? ≠ none := by
  unfold ofDocument
  split
  · next hnull =>
    rw [hnull]
    exact ⟨fun _ => nofun, fun _ => Or.inl ⟨default, rfl⟩⟩
  · next ms hms =>
    split
    · next hnamed =>
      rw [List.all_eq_true] at hnamed
      refine ⟨fun _ ms' hms' m hm hnone => ?_, fun _ => answered_ofMembers_or doc⟩
      cases hms.symm.trans hms'
      have hsome := hnamed m hm
      rw [hnone] at hsome
      cases hsome
    · next hnamed =>
      refine ⟨fun h => absurd h (not_answered_of_error nofun), fun h => absurd ?_ hnamed⟩
      exact List.all_eq_true.2 fun m hm => Option.isSome_iff_ne_none.2 (h ms hms m hm)
  · next hmap =>
    refine ⟨fun _ ms hms => absurd hms (hmap ms), fun _ => ?_⟩
    exact Or.inr ⟨.settingsNotMapping path.text, rfl, rfl⟩

-- ==================================================== texts

/-- Malformed YAML is no value that cannot be made. -/
theorem not_unconstructible_malformed : ¬Yaml.Unconstructible .malformed := by
  intro h
  cases h with
  | code _ refused =>
      unfold Yaml.QuotedScalar.pointOf at refused
      split at refused
      · cases refused
      · split at refused <;> cases refused
  | value _ special => exact special rfl

/-- The settings of a text are answered for, unless a scalar has no value or a member no
name. -/
theorem answered_ofText_iff :
    Answered (ofText path text) ↔
      (∀ f, Yaml.Document.ofText text = .error f → ¬Yaml.Unconstructible f) ∧
      ∀ raw, Yaml.Document.ofText text = .ok raw → Answered (ofDocument path raw.nearest) := by
  have hexplained := Yaml.explains_ofText text
  unfold ofText
  cases h : Yaml.Document.ofText text with
  | ok raw =>
      constructor
      · refine fun hanswered => ⟨nofun, ?_⟩
        rintro _ ⟨⟩
        exact hanswered
      · exact fun hall => hall.2 raw rfl
  | error f =>
      rcases hexplained f h with rfl | hflaw
      · constructor
        · refine fun _ => ⟨?_, nofun⟩
          rintro _ ⟨⟩
          exact not_unconstructible_malformed
        · exact fun _ => Or.inr ⟨.unreadableSettings path.text yamlDiagnosis, rfl, rfl⟩
      · refine ⟨fun hanswered => absurd hanswered ?_, fun hall => absurd hflaw (hall.1 f rfl)⟩
        cases f with
        | malformed => exact absurd hflaw not_unconstructible_malformed
        | unreadable diagnosis => exact not_answered_of_error nofun
        | misused how => exact not_answered_of_error nofun

-- ==================================================== files

/-- Where there is a text, its document or a scalar of it has to be at fault. -/
theorem unreported_iff_of_readText (h : t.readText path = .ok text) :
    Unreported t (some path) ↔
      (∃ f, Yaml.Document.ofText text = .error f ∧ Yaml.Unconstructible f) ∨
      ∃ raw ms m, Yaml.Document.ofText text = .ok raw ∧ raw.nearest.body = .map ms ∧ m ∈ ms ∧
        (Value.scalar m.1).text? = none := by
  constructor
  · intro hunreported
    cases hunreported with
    | nullInPath null =>
        rcases FileTree.readText_cases t path with ⟨-, herror⟩ | ⟨f, hasked, -⟩ |
          ⟨content, hasked, -⟩
        · cases h.symm.trans herror
        · cases null.symm.trans hasked
        · cases null.symm.trans hasked
    | undecodable asked file refused =>
        rw [FileTree.readText_of_read asked file] at h
        unfold FileTree.textOf at h
        rw [refused] at h
        cases h
    | unconstructible read refused flaw =>
        cases h.symm.trans read
        exact Or.inl ⟨_, refused, flaw⟩
    | unnamed read document mapping member name =>
        cases h.symm.trans read
        exact Or.inr ⟨_, _, _, document, mapping, member, name⟩
  · rintro (⟨f, hf, hflaw⟩ | ⟨raw, ms, m, hraw, hms, hm, hname⟩)
    · exact .unconstructible h hf hflaw
    · exact .unnamed h hraw hms hm hname

/-- A file whose text can be read is answered unless its fault is of a kind that is not reported. -/
theorem answered_of_readText (h : t.readText path = .ok text) :
    Answered (load t (some path)) ↔ ¬Unreported t (some path) := by
  have hload : load t (some path) = ofText path text := by
    show ofFile t path = _
    unfold ofFile
    rw [h]
  rw [hload, answered_ofText_iff, unreported_iff_of_readText h, not_or]
  refine and_congr ?_ ?_
  · exact ⟨fun hall ⟨f, hf, hflaw⟩ => hall f hf hflaw, fun hnone f hf hflaw => hnone ⟨f, hf, hflaw⟩⟩
  · constructor
    · rintro hall ⟨raw, ms, m, hraw, hms, hm, hname⟩
      exact answered_ofDocument_iff.1 (hall raw hraw) ms hms m hm hname
    · intro hnone raw hraw
      exact answered_ofDocument_iff.2 fun ms hms m hm hname =>
        hnone ⟨raw, ms, m, hraw, hms, hm, hname⟩

/-- Where there is no text, only a fault of the file itself is answered for. -/
theorem answered_of_error {f : Fault} (h : t.readText path = .error f)
    (hf : ∀ cause, f ≠ .reported cause) :
    Answered (load t (some path)) ↔ ∃ fault, f = .file fault := by
  have hload : load t (some path) = ofFile t path := rfl
  unfold ofFile at hload
  rw [hload, h]
  cases f with
  | file fault =>
      exact ⟨fun _ => ⟨fault, rfl⟩, fun _ => Or.inr ⟨.unreadableSettings _ _, rfl, rfl⟩⟩
  | reported cause => exact absurd rfl (hf cause)
  | _ => exact ⟨fun hanswered => absurd hanswered (not_answered_of_error nofun), nofun⟩

/-- Whatever the file is, settings are loaded from it or an error about the configuration is
reported, unless the path holds a null character, the octets are not UTF-8, a scalar has no
value, or a member is not named by a text. In these cases neither happens. -/
theorem loaded_or_reported_iff (t : FileTree) (path? : Option FilePath) :
    ((∃ s, load t path? = .ok s) ∨
      ∃ cause, load t path? = .error (.reported cause) ∧
        cause.report.kind = .configurationError) ↔
    ¬Unreported t path? := by
  change Answered (load t path?) ↔ _
  cases path? with
  | none => exact ⟨nofun, fun _ => Or.inl ⟨default, rfl⟩⟩
  | some path =>
      rcases FileTree.readText_cases t path with ⟨hnull, herror⟩ | ⟨f, hasked, hfile, herror⟩ |
        ⟨content, hasked, hfile, hread⟩
      · rw [answered_of_error herror nofun]
        exact ⟨nofun, fun h => absurd (.nullInPath hnull) h⟩
      · rw [answered_of_error herror nofun]
        refine ⟨fun _ hunreported => ?_, fun _ => ⟨f, rfl⟩⟩
        cases hunreported with
        | nullInPath null => cases null.symm.trans hasked
        | undecodable _ file _ => cases hfile.symm.trans file
        | unconstructible read _ _ => cases herror.symm.trans read
        | unnamed read _ _ _ _ => cases herror.symm.trans read
      · cases htext : FileTree.textOf content with
        | ok text => exact answered_of_readText (hread.trans htext)
        | error f =>
            obtain ⟨diagnosis, hdecode, rfl⟩ := FileTree.textOf_eq_error htext
            rw [answered_of_error (hread.trans htext) nofun]
            exact ⟨nofun, fun h => absurd (.undecodable hasked hfile hdecode) h⟩

/-- A file that is not UTF-8. -/
def undecodableSettings : FileTree := ⟨[(["cedar.yaml"], .file [0xff])]⟩

/-- Not every file is answered for. -/
theorem undecodable_settings_not_reported :
    ¬∀ (t : FileTree) (path? : Option FilePath),
      (∃ s, load t path? = .ok s) ∨
        ∃ cause, load t path? = .error (.reported cause) ∧
          cause.report.kind = .configurationError := by
  intro hclaim
  have hread : undecodableSettings.readText (.ofString "cedar.yaml") =
      .error (.undecodable "'utf-8' codec can't decode byte 0xff in position 0: invalid start byte") :=
    by rfl
  obtain ⟨f, ⟨⟩⟩ := (answered_of_error hread nofun).1 (hclaim undecodableSettings _)

end Settings

end ApiAuthz
