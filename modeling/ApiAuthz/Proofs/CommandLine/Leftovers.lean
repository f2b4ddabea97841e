/-
What a run of `generate-schema` that fails leaves behind. Until everything has been
computed nothing is written, so a fault that is reported has changed nothing
(`unchanged_or_generates`). A run that comes to write makes the directory, then writes
the plain schema, then the annotated one, and each of these may be refused; what was
made before stays. `Leftover` lists the ways in which that differs from the files
before, in terms of the files before alone, and `leftovers_of_run` says that there are
no others.

# The chain

`Writing` has a case for each point at which the writing of both files can end, and
`writing_writeSchemas` says that it ends at one of them. When a file is refused is known
before anything is written: its name is too long or a directory has it
(`plain_refused_iff`, `annotated_refused_iff`). So a case of `Writing` in which the run
fails and something has changed is a case of `Leftover` (`Writing.leftover`), and a
leftover is a difference indeed (`Leftover.not_same`) and belongs to a run that fails
(`Leftover.failed`).

Both directions matter. That there are no other leftovers says how far the promise to
leave no partial output holds; that each of them comes about says where it does not.
-/
import ApiAuthz.Proofs.CommandLine.Generating
import ApiAuthz.Proofs.Directories

namespace ApiAuthz.CommandLine

open FileTree (Same startOf)
open FilePath (isTooLong holdsNull IsName)
open Text.Utf8 (encode)

variable {t t' : FileTree} {environment : Option String} {arguments : List String}
  {d : FilePath} {x : Generated} {output : String}

-- ==================================================== writing both files

/-- How writing the schema files of `x` into a directory may go. -/
inductive Writing (t : FileTree) (d : FilePath) (x : Generated) (output : String) :
    Outcome → Prop
  | noDirectory {t₁ : FileTree} {f : Fault} (refused : t.makeDirectories d = (t₁, some f)) :
      Writing t d x output (.failed t₁ output f)
  | noPlain {t₁ : FileTree} {f : Fault} (made : t.makeDirectories d = (t₁, none))
      (refused : t₁.writeText (d.child plainName) x.plain = .error f) :
      Writing t d x output (.failed t₁ output f)
  | noAnnotated {t₁ t₂ : FileTree} {f : Fault} (made : t.makeDirectories d = (t₁, none))
      (plain : t₁.writeText (d.child plainName) x.plain = .ok t₂)
      (refused : t₂.writeText (d.child annotatedName) x.annotated = .error f) :
      Writing t d x output (.failed t₂ output f)
  | both {t₁ t₂ t₃ : FileTree} (made : t.makeDirectories d = (t₁, none))
      (plain : t₁.writeText (d.child plainName) x.plain = .ok t₂)
      (annotated : t₂.writeText (d.child annotatedName) x.annotated = .ok t₃) :
      Writing t d x output (.succeeded t₃ (output ++ schemaNotice))

/-- What the writing of both files comes to, case by case. -/
theorem writing_writeSchemas (t : FileTree) (d : FilePath) (x : Generated) (output : String) :
    Writing t d x output (writeSchemas t d x output) := by
  unfold writeSchemas
  split
  · rename_i hrefused
    exact .noDirectory hrefused
  · rename_i hmade
    split
    · rename_i hrefused
      exact .noPlain hmade hrefused
    · rename_i hplain
      split
      · rename_i hrefused
        exact .noAnnotated hmade hplain hrefused
      · rename_i hannotated
        exact .both hmade hplain hannotated

theorem isName_plainName : IsName plainName := ⟨by decide, by decide, by decide⟩

theorem isName_annotatedName : IsName annotatedName := ⟨by decide, by decide, by decide⟩

/-- Where the directory was made, the plain schema is refused exactly if its path is too
long or is that of a directory. -/
theorem plain_refused_iff {t₁ : FileTree} {plain : String}
    (hmade : t.makeDirectories d = (t₁, none)) :
    (∃ f, t₁.writeText (d.child plainName) plain = .error f) ↔
      isTooLong (d.child plainName).text = true ∨ t₁.isDirectory (d.child plainName) = true :=
  FileTree.writeText_child_eq_error isName_plainName (FileTree.makeDirectories_eq_ok.1 hmade).1
    (FileTree.isDirectory_of_makeDirectories hmade)

/-- Where the plain schema was written, the annotated one is refused exactly if a
directory stood at its path. -/
theorem annotated_refused_iff {t₁ t₂ : FileTree} {plain annotated : String}
    (hmade : t.makeDirectories d = (t₁, none))
    (hplain : t₁.writeText (d.child plainName) plain = .ok t₂) :
    (∃ f, t₂.writeText (d.child annotatedName) annotated = .error f) ↔
      t₁.isDirectory (d.child annotatedName) = true := by
  have hnull := (FileTree.makeDirectories_eq_ok.1 hmade).1
  have hd := FileTree.isDirectory_of_makeDirectories hmade
  have hwritten := (FileTree.writeText_eq_ok.1 hplain).2
  have hd' : t₂.isDirectory d = true :=
    FileTree.isDirectory_of_keeps (FileTree.keeps_of_write hwritten) hd
  -- both names are of one length, and the other path was not too long
  have hshort : ¬isTooLong (d.child annotatedName).text = true := by
    intro hlong
    have hsame := FilePath.isTooLong_child_congr d
      (by decide : annotatedName.utf8ByteSize = plainName.utf8ByteSize)
    rw [hsame] at hlong
    have hrefused : ∃ f, t₁.writeText (d.child plainName) plain = .error f :=
      (plain_refused_iff hmade).2 (Or.inl hlong)
    obtain ⟨f, hrefused⟩ := hrefused
    rw [hplain] at hrefused
    cases hrefused
  rw [FileTree.writeText_child_eq_error isName_annotatedName hnull hd', or_iff_right hshort,
    FileTree.isDirectory_child_of_write isName_plainName isName_annotatedName (by decide) hd
      hwritten]

/-- Where the plain schema was written, something is new unless it could be read from
there before. -/
theorem not_same_of_plain_iff {t₁ t₂ : FileTree} {plain : String}
    (hmade : t.makeDirectories d = (t₁, none))
    (hplain : t₁.writeText (d.child plainName) plain = .ok t₂) :
    ¬t.Same t₂ ↔ t.read (d.child plainName) ≠ .ok (encode plain) := by
  have hwritten := (FileTree.writeText_eq_ok.1 hplain).2
  refine not_congr ⟨fun hsame => ?_, fun hread => ?_⟩
  · rw [← FileTree.read_congr hsame]
    exact FileTree.read_of_write hwritten
  · -- the directory was there, so it is the tree before that is written to
    obtain ⟨place, hplace, -⟩ := FileTree.read_eq_ok.1 hread
    have hd := FileTree.isDirectory_of_placeOf_child hplace
    rw [FileTree.makeDirectories_of_isDirectory (FileTree.makeDirectories_eq_ok.1 hmade).1 hd]
      at hmade
    obtain ⟨rfl, -⟩ := Prod.mk.inj hmade
    exact FileTree.same_of_write hread hwritten

-- ==================================================== what is left behind

/-- The files that a run leaves behind when it fails to write what it has generated,
where they are not the files before: directories on the way to one that cannot be made;
the directory without the plain schema, when that is refused; or the plain schema
without the annotated one. -/
inductive Leftover (t : FileTree) (d : FilePath) (x : Generated) : FileTree → Prop
  | directories (asked : holdsNull d.text = false)
      (missing : t.makeDirectory d = .error .notFound)
      (refused : ¬t.Clear (startOf d) d.parts) : Leftover t d x (t.makeDirectories d).1
  | directoryAlone {t₁ : FileTree} (missing : t.isDirectory d = false)
      (made : t.makeDirectories d = (t₁, none))
      (refused : isTooLong (d.child plainName).text = true ∨
        t₁.isDirectory (d.child plainName) = true) : Leftover t d x t₁
  | plainAlone {t₁ t₂ : FileTree} (made : t.makeDirectories d = (t₁, none))
      (written : t₁.writeText (d.child plainName) x.plain = .ok t₂)
      (refused : t₁.isDirectory (d.child annotatedName) = true)
      (another : t.read (d.child plainName) ≠ .ok (encode x.plain)) : Leftover t d x t₂

/-- Writing that fails leaves one of these behind, if anything. -/
theorem Writing.leftover {o : Outcome} (hroot : d.Rooted) (h : Writing t d x output o)
    (hfailed : o.exitCode ≠ 0) (hnew : ¬t.Same o.files) : Leftover t d x o.files := by
  cases h with
  | noDirectory hrefused =>
      obtain ⟨hnull, hmissing⟩ := (FileTree.not_same_of_fault_iff hroot hrefused).1 hnew
      have hblocked : ¬t.Clear (startOf d) d.parts := by
        intro hclear
        have hmade := (FileTree.makeDirectories_made_iff hroot).2
          ⟨hnull, FileTree.isTooLong_of_missing hmissing, hclear⟩
        rw [hrefused] at hmade
        cases hmade
      have hleftover : Leftover t d x (t.makeDirectories d).1 :=
        .directories hnull hmissing hblocked
      rw [hrefused] at hleftover
      exact hleftover
  | noPlain hmade hrefused =>
      exact .directoryAlone ((FileTree.not_same_of_made_iff hmade).1 hnew) hmade
        ((plain_refused_iff hmade).1 ⟨_, hrefused⟩)
  | noAnnotated hmade hplain hrefused =>
      exact .plainAlone hmade hplain ((annotated_refused_iff hmade hplain).1 ⟨_, hrefused⟩)
        ((not_same_of_plain_iff hmade hplain).1 hnew)
  | both => exact absurd rfl hfailed

/-- What may be left behind is something new. -/
theorem Leftover.not_same (hroot : d.Rooted) (h : Leftover t d x t') : ¬t.Same t' := by
  cases h with
  | directories hnull hmissing hblocked =>
      cases hrun : t.makeDirectories d with
      | mk t₁ fault? =>
          cases fault? with
          | none =>
              have hmade := (FileTree.makeDirectories_made_iff hroot).1 (congrArg Prod.snd hrun)
              exact absurd hmade.2.2 hblocked
          | some f => exact (FileTree.not_same_of_fault_iff hroot hrun).2 ⟨hnull, hmissing⟩
  | directoryAlone hmissing hmade _ => exact (FileTree.not_same_of_made_iff hmade).2 hmissing
  | plainAlone hmade hplain _ hanother =>
      exact (not_same_of_plain_iff hmade hplain).2 hanother

/-- Where something may be left behind, writing fails. -/
theorem Leftover.failed {o : Outcome} (hroot : d.Rooted) (h : Leftover t d x t')
    (hwriting : Writing t d x output o) : o.exitCode ≠ 0 := by
  cases hwriting with
  | noDirectory => exact Nat.one_ne_zero
  | noPlain => exact Nat.one_ne_zero
  | noAnnotated => exact Nat.one_ne_zero
  | both hmade hplain hannotated =>
      exfalso
      cases h with
      | directories _ _ hblocked =>
          have hclear := (FileTree.makeDirectories_made_iff hroot).1 (congrArg Prod.snd hmade)
          exact hblocked hclear.2.2
      | directoryAlone _ hmade' hrefused =>
          rw [hmade] at hmade'
          cases hmade'
          obtain ⟨f, hrefused⟩ := (plain_refused_iff hmade).2 hrefused
          rw [hplain] at hrefused
          cases hrefused
      | plainAlone hmade' _ hrefused _ =>
          rw [hmade] at hmade'
          cases hmade'
          obtain ⟨f, hrefused⟩ := (annotated_refused_iff hmade hplain).2 hrefused
          rw [hannotated] at hrefused
          cases hrefused

/-- Writing that fails leaves everything else as it was: what is new are directories and
the whole plain schema. -/
theorem Writing.kept {o : Outcome} (h : Writing t d x output o) (hfailed : o.exitCode ≠ 0)
    (place : Place) :
    o.files.entryAt? place = t.entryAt? place ∨
      (t.entryAt? place = none ∧ o.files.entryAt? place = some .directory) ∨
      (o.files.placeOf (d.child plainName) = .ok place ∧
        o.files.entryAt? place = some (.file (encode x.plain))) := by
  have hgrown := FileTree.grown_makeDirectories t d
  cases h with
  | noDirectory hrefused =>
      rw [hrefused] at hgrown
      exact (hgrown place).imp_right Or.inl
  | noPlain hmade _ =>
      rw [hmade] at hgrown
      exact (hgrown place).imp_right Or.inl
  | noAnnotated hmade hplain _ =>
      rw [hmade] at hgrown
      have hwritten := (FileTree.writeText_eq_ok.1 hplain).2
      have hkeeps := FileTree.keeps_of_write hwritten
      obtain ⟨q, hq, hentry, rfl⟩ := FileTree.write_eq_ok.1 hwritten
      by_cases hplace : place = q
      · subst hplace
        have hstart := FileTree.isStart_of_not_directory hentry
        exact Or.inr (Or.inr ⟨FileTree.placeOf_of_keeps hkeeps hq,
          FileTree.entryAt?_put_self hstart _⟩)
      · show (FileTree.put q _ _).entryAt? place = _ ∨
          (_ ∧ (FileTree.put q _ _).entryAt? place = _) ∨ _
        rw [FileTree.entryAt?_put_of_ne hplace]
        exact (hgrown place).imp_right Or.inl
  | both => exact absurd rfl hfailed

/-- A fault in writing is not reported. -/
theorem Writing.uncaught {o : Outcome} (h : Writing t d x output o) (hfailed : o.exitCode ≠ 0) :
    o.uncaught ≠ none := by
  cases h with
  | noDirectory => exact Option.some_ne_none _
  | noPlain => exact Option.some_ne_none _
  | noAnnotated => exact Option.some_ne_none _
  | both => exact absurd rfl hfailed

-- ==================================================== whole runs

/-- A run that generates schema files goes the way that writing them goes. -/
theorem Generates.writing (h : Generates t environment arguments d x) :
    ∃ output, Writing t d x output (run t environment arguments) := by
  obtain ⟨output, hrun⟩ := h.run_eq
  refine ⟨output, ?_⟩
  rw [hrun]
  exact writing_writeSchemas t d x output

/-- A run of `generate-schema` that fails with a report has changed nothing. Any that
fails has something new exactly if it comes to write and one of the leftovers stands
where it writes; and then everything is as it was but for new directories and the plain
schema, which is whole. -/
theorem leftovers_of_run {t : FileTree} {environment : Option String} {arguments : List String}
    (h : ∀ a, asked? arguments = some a → a.command = .generateSchema) :
    let o := run t environment arguments
    (o.exitCode ≠ 0 → o.uncaught = none → o.files = t) ∧
    (o.exitCode ≠ 0 ∧ ¬t.Same o.files ↔
      ∃ d x, Generates t environment arguments d x ∧ Leftover t d x o.files) ∧
    (o.exitCode ≠ 0 → ∀ place, o.files.entryAt? place = t.entryAt? place ∨
      (t.entryAt? place = none ∧ o.files.entryAt? place = some .directory) ∨
      ∃ d x, Generates t environment arguments d x ∧
        o.files.placeOf (d.child plainName) = .ok place ∧
        o.files.entryAt? place = some (.file (encode x.plain))) := by
  intro o
  have hcases : o.files = t ∨ ∃ d x, Generates t environment arguments d x :=
    unchanged_or_generates h
  refine ⟨fun hfailed hreported => ?_, ⟨fun ⟨hfailed, hnew⟩ => ?_, ?_⟩, fun hfailed place => ?_⟩
  · rcases hcases with hsame | ⟨d, x, hgenerates⟩
    · exact hsame
    · obtain ⟨output, hwriting⟩ := hgenerates.writing
      exact absurd hreported (hwriting.uncaught hfailed)
  · rcases hcases with hsame | ⟨d, x, hgenerates⟩
    · rw [hsame] at hnew
      exact absurd (Same.refl t) hnew
    · obtain ⟨output, hwriting⟩ := hgenerates.writing
      exact ⟨d, x, hgenerates, hwriting.leftover hgenerates.rooted hfailed hnew⟩
  · rintro ⟨d, x, hgenerates, hleftover⟩
    obtain ⟨output, hwriting⟩ := hgenerates.writing
    exact ⟨hleftover.failed hgenerates.rooted hwriting, hleftover.not_same hgenerates.rooted⟩
  · rcases hcases with hsame | ⟨d, x, hgenerates⟩
    · exact Or.inl (by rw [hsame])
    · obtain ⟨output, hwriting⟩ := hgenerates.writing
      rcases hwriting.kept hfailed place with hkept | hnew | hplain
      · exact Or.inl hkept
      · exact Or.inr (Or.inl hnew)
      · exact Or.inr (Or.inr ⟨d, x, hgenerates, hplain⟩)

/-- An API without paths, to be generated where a directory bears the name of the
annotated schema. -/
def blockedTree : FileTree :=
  ⟨[(["api.yaml"], .file (encode "paths: \x7b\x7d\n")), ([annotatedName], .directory)]⟩

/-- The arguments that ask for a schema in the present directory. -/
def schemaArguments : List String :=
  ["generate-schema", "--api-spec", "api.yaml", "--namespace", "NS"]

/-- A run that fails may leave the plain schema alone behind. -/
theorem plain_left_alone :
    ¬((run blockedTree none schemaArguments).exitCode ≠ 0 →
      blockedTree.Same (run blockedTree none schemaArguments).files) := by
  intro hclaim
  have hsame := hclaim (by decide +kernel) [plainName]
  revert hsame
  decide +kernel

/-- A run whose directory would lie in a file, behind one that is still to be made. -/
theorem leftovers_behind_file :
    ∃ d x, Generates blockedTree none (schemaArguments ++ ["-o", "new/../api.yaml/out"]) d x ∧
      Leftover blockedTree d x
        (run blockedTree none (schemaArguments ++ ["-o", "new/../api.yaml/out"])).files := by
  have hasked : ∀ a, asked? (schemaArguments ++ ["-o", "new/../api.yaml/out"]) = some a →
      a.command = .generateSchema := by
    intro a ha
    have hcommand : (asked? (schemaArguments ++ ["-o", "new/../api.yaml/out"])).map
        Asked.command = some .generateSchema := by decide +kernel
    rw [ha] at hcommand
    exact Option.some.inj hcommand
  refine (leftovers_of_run hasked).2.1.1 ⟨by decide +kernel, fun hsame => ?_⟩
  have hnew := hsame ["new"]
  revert hnew
  decide +kernel

end ApiAuthz.CommandLine
