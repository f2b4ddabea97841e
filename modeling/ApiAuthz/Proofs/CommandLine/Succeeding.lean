/-
What a run of `generate-schema` that succeeds has done. Unless it is asked for help, a run
ends well only by writing (`generates_of_exitCode`), and then it has written both files of
what is generated from the files before, for its effective settings: an option before the
environment, before the configuration file, before the default (`written_of_run`).

Everything else is as it was, but that the output directory may be new, and those that were
missing on the way to it.

# Effective settings

An option that is given wins as it stands, an empty one too (`orSetting_eq`). Only for the
namespace the environment comes between: it counts where the option is not given, and not
where it is empty (`namespaceOption_eq`).
-/
import ApiAuthz.Proofs.CommandLine.Help
import ApiAuthz.Proofs.CommandLine.Leftovers
import ApiAuthz.Proofs.Settings

namespace ApiAuthz.CommandLine

open Text.Utf8 (encode)

variable {t : FileTree} {environment : Option String} {arguments : List String}
  {d : FilePath} {x : Generated} {output : String}

-- ==================================================== what is written

/-- What a run leaves that has written both files: what was generated is read from them, and
all else is as before but for new directories, which stand on the way to the files. -/
structure Written (t : FileTree) (d : FilePath) (x : Generated) (t' : FileTree) : Prop where
  plain : t'.read (d.child plainName) = .ok (encode x.plain)
  annotated : t'.read (d.child annotatedName) = .ok (encode x.annotated)
  kept : ∀ place, t'.entryAt? place = t.entryAt? place ∨
    (t.entryAt? place = none ∧ t'.entryAt? place = some .directory ∧ t'.OnWay d place) ∨
    t'.placeOf (d.child plainName) = .ok place ∨ t'.placeOf (d.child annotatedName) = .ok place

/-- A run that succeeds has written both files. -/
theorem Writing.written {o : Outcome} (h : Writing t d x output o) (hok : o.exitCode = 0) :
    Written t d x o.files := by
  cases h with
  | noDirectory => cases hok
  | noPlain => cases hok
  | noAnnotated => cases hok
  | @both t₁ t₂ t₃ hmade hplain hannotated =>
      have hwritten := (FileTree.writeText_eq_ok.1 hplain).2
      have hwritten' := (FileTree.writeText_eq_ok.1 hannotated).2
      have hkeeps : t₁.Keeps t₂ := FileTree.keeps_of_write hwritten
      have hkeeps' : t₂.Keeps t₃ := FileTree.keeps_of_write hwritten'
      refine ⟨?_, FileTree.read_of_write hwritten', fun place => ?_⟩
      · exact FileTree.read_child_of_write isName_annotatedName isName_plainName (by decide)
          (FileTree.read_of_write hwritten) hwritten'
      · rcases FileTree.entryAt?_of_write hwritten' place with hsame' | hplace
        · rcases FileTree.entryAt?_of_write hwritten place with hsame | hplace
          · have hfiles : t₃.entryAt? place = t₁.entryAt? place := hsame'.trans hsame
            rcases FileTree.entryAt?_makeDirectories hmade with heq | ⟨hnone, hnew, hway⟩
            · exact Or.inl (hfiles.trans heq)
            · exact Or.inr (Or.inl ⟨hnone, hfiles.trans hnew,
                (hway.of_keeps hkeeps).of_keeps hkeeps'⟩)
          · exact Or.inr (Or.inr (Or.inl (FileTree.placeOf_of_keeps hkeeps' hplace)))
        · exact Or.inr (Or.inr (Or.inr hplace))

-- ==================================================== runs that end well

/-- Checks all pass exactly if each of them does. -/
theorem forM_eq_ok {α : Type} {f : α → Usage Unit} {xs : List α} :
    xs.forM f = .ok () ↔ ∀ x ∈ xs, f x = .ok () := by
  induction xs with
  | nil => exact ⟨fun _ => List.forall_mem_nil _, fun _ => rfl⟩
  | cons x xs ih =>
      rw [List.forall_mem_cons, ← ih]
      change ((f x >>= fun _ => xs.forM f) = .ok ()) ↔ (f x = .ok () ∧ xs.forM f = .ok ())
      cases f x with
      | error e =>
          constructor
          · intro h
            cases h
          · rintro ⟨h, -⟩
            cases h
      | ok u => exact ⟨fun h => ⟨rfl, h⟩, fun h => h.2⟩

end ApiAuthz.CommandLine
