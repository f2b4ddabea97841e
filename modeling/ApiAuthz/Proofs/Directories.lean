/-
Directories made with what is missing on the way to them. Directories are only added
where nothing stood, with a fault or without one (`grown_makeDirectories`). Without one
the directory is there afterwards, and what was there already is left alone
(`isDirectory_of_makeDirectories`, `makeDirectories_of_isDirectory`).

The directory can be made exactly if nothing is in its way (`makeDirectories_made_iff`):
the way passes no file, also where two dots lead back, and no part of it is too long. A fault
leaves directories behind exactly if something was missing on the way
(`not_same_of_fault_iff`), for then something is made before the fault is met.

# Rounds

A round tries to make the directory, makes those on the way if something is missing, and
tries again. `makeDirectoriesUpTo_succ` says what one round comes to, and every result is an
induction over rounds with the path one part shorter each time; a path has as many rounds as
parts, so the last one stands before a root or the present directory, where nothing can be
missing (`makeDirectory_root_ne`).

# What is in the way

`Clear` looks at a way part by part, as it is walked: no place on it holds a file and no part
is too long, whether or not the places exist, so two dots may lead back out of what is still
to be made. It does not change when directories are added (`Grown.clear_iff`), which is what
carries it from a round to the next; `made_iff_of_found` and `made_iff_of_missing` are the two
cases of one round.

# Files in a directory

Behind that stand the files in a directory: which names it takes (`receives_iff`), and what
has changed when some have been written one after another (`Wrote`).
-/
import ApiAuthz.Proofs.FileTree

namespace ApiAuthz.FileTree

open FilePath (isTooLong isPartTooLong holdsNull)

variable {t t' : FileTree} {p d : FilePath}

-- ==================================================== directories and those on the way

/-- One round: the directory is made at once, or refused for a reason of its own, or
something is missing; then those on the way are made first. -/
theorem makeDirectoriesUpTo_succ (n : Nat) (t : FileTree) (p : FilePath) :
    (∃ t', t.makeDirectory p = .ok t' ∧ makeDirectoriesUpTo (n + 1) t p = (t', none)) ∨
    (∃ f, t.makeDirectory p = .error f ∧ f ≠ .notFound ∧
      makeDirectoriesUpTo (n + 1) t p = (t, t.unlessDirectory p f)) ∨
    (t.makeDirectory p = .error .notFound ∧ ∃ t', (makeDirectoriesUpTo n t p.parent).1 = t' ∧
      ((∃ f, makeDirectoriesUpTo (n + 1) t p = (t', some f)) ∨
       (∃ t'', t'.makeDirectory p = .ok t'' ∧ makeDirectoriesUpTo (n + 1) t p = (t'', none)) ∨
       ∃ f, makeDirectoriesUpTo (n + 1) t p = (t', t'.unlessDirectory p f))) := by
  rw [makeDirectoriesUpTo]
  split
  · rename_i t' hmade
    exact Or.inl ⟨t', hmade, rfl⟩
  · rename_i hmissing
    refine Or.inr (Or.inr ⟨hmissing, ?_⟩)
    split
    · rename_i t' f hparent
      exact ⟨t', by rw [hparent], Or.inl ⟨f, rfl⟩⟩
    · rename_i t' hparent
      refine ⟨t', by rw [hparent], ?_⟩
      split
      · rename_i t'' hmade
        exact Or.inr (Or.inl ⟨t'', hmade, rfl⟩)
      · exact Or.inl ⟨.notFound, rfl⟩
      · rename_i f _ _
        exact Or.inr (Or.inr ⟨f, rfl⟩)
  · rename_i f hne hrefused
    exact Or.inr (Or.inl ⟨f, hrefused, hne, rfl⟩)

/-- Making directories adds to what exists, and changes nothing. -/
theorem grown_makeDirectoriesUpTo (n : Nat) (t : FileTree) (p : FilePath) :
    t.Grown (makeDirectoriesUpTo n t p).1 := by
  induction n generalizing p with
  | zero => exact Grown.refl t
  | succ n ih =>
      rcases makeDirectoriesUpTo_succ n t p with
        ⟨t', hmade, hrun⟩ | ⟨f, -, -, hrun⟩ | ⟨-, t', hparent, hrest⟩
      · rw [hrun]
        exact grown_of_makeDirectory hmade
      · rw [hrun]
        exact Grown.refl t
      · have hgrown := ih p.parent
        rw [hparent] at hgrown
        rcases hrest with ⟨f, hrun⟩ | ⟨t'', hmade, hrun⟩ | ⟨f, hrun⟩ <;> rw [hrun]
        · exact hgrown
        · exact hgrown.trans (grown_of_makeDirectory hmade)
        · exact hgrown

/-- A place on the way to a path: that of the path, or that of one it lies in. -/
def OnWay (t : FileTree) (p : FilePath) (place : Place) : Prop :=
  ∃ n, t.placeOf { p with parts := p.parts.take n } = .ok place

theorem onWay_of_placeOf {place : Place} (h : t.placeOf p = .ok place) : t.OnWay p place :=
  ⟨p.parts.length, by rwa [List.take_length]⟩

/-- What is on the way to the parent is on the way to the child. -/
theorem OnWay.of_parent {place : Place} (h : t.OnWay p.parent place) : t.OnWay p place := by
  obtain ⟨n, hn⟩ := h
  refine ⟨min n (p.parts.length - 1), ?_⟩
  unfold FilePath.parent at hn
  rwa [List.dropLast_eq_take, List.take_take] at hn

/-- A place stays on the way while directories stay. -/
theorem OnWay.of_keeps {place : Place} (hk : t.Keeps t') (h : t.OnWay p place) :
    t'.OnWay p place := by
  obtain ⟨n, hn⟩ := h
  exact ⟨n, placeOf_of_keeps hk hn⟩

/-- A directory that has been made is on the way to itself. -/
theorem onWay_of_makeDirectory {place : Place} (h : t.makeDirectory p = .ok t')
    (hnone : t.entryAt? place = none) (hnew : t'.entryAt? place = some .directory) :
    t'.OnWay p place := by
  have hkeeps := (grown_of_makeDirectory h).keeps
  obtain ⟨q, hq, -, rfl⟩ := makeDirectory_eq_ok.1 h
  by_cases hplace : place = q
  · rw [hplace]
    exact onWay_of_placeOf (placeOf_of_keeps hkeeps hq)
  · rw [entryAt?_put_of_ne hplace, hnone] at hnew
    cases hnew

/-- Whatever is new where a directory is made stands on the way to it. -/
theorem onWay_of_makeDirectoriesUpTo (n : Nat) (t : FileTree) (p : FilePath) {place : Place}
    (hnone : t.entryAt? place = none)
    (hnew : (makeDirectoriesUpTo n t p).1.entryAt? place = some .directory) :
    (makeDirectoriesUpTo n t p).1.OnWay p place := by
  induction n generalizing p with
  | zero =>
      have hsame : t.entryAt? place = some .directory := hnew
      rw [hnone] at hsame
      cases hsame
  | succ n ih =>
      rcases makeDirectoriesUpTo_succ n t p with
        ⟨t', hmade, hrun⟩ | ⟨f, -, -, hrun⟩ | ⟨-, t', hparent, hrest⟩
      · rw [hrun] at hnew ⊢
        exact onWay_of_makeDirectory hmade hnone hnew
      · rw [hrun, hnone] at hnew
        cases hnew
      · have habove := ih p.parent
        rw [hparent] at habove
        rcases hrest with ⟨f, hrun⟩ | ⟨t'', hmade, hrun⟩ | ⟨f, hrun⟩ <;> rw [hrun] at hnew ⊢
        · exact (habove hnew).of_parent
        · -- new before the directory itself was made, or new with it
          have hgrown := grown_of_makeDirectory hmade
          rcases hgrown place with heq | ⟨hnone', -⟩
          · rw [heq] at hnew
            exact (habove hnew).of_parent.of_keeps hgrown.keeps
          · exact onWay_of_makeDirectory hmade hnone' hnew
        · exact (habove hnew).of_parent

/-- Without a fault there is a directory in the end. -/
theorem isDirectory_of_makeDirectoriesUpTo {n : Nat}
    (h : makeDirectoriesUpTo n t p = (t', none)) : t'.isDirectory p = true := by
  cases n with
  | zero =>
      obtain ⟨rfl, hnone⟩ := Prod.mk.inj h
      exact unlessDirectory_eq_none.1 hnone
  | succ n =>
      rcases makeDirectoriesUpTo_succ n t p with ⟨t₁, hmade, hrun⟩ | ⟨f, -, -, hrun⟩ |
        ⟨-, t₁, -, ⟨f, hrun⟩ | ⟨t₂, hmade, hrun⟩ | ⟨f, hrun⟩⟩ <;>
        rw [hrun] at h <;> obtain ⟨rfl, hnone⟩ := Prod.mk.inj h
      · exact isDirectory_of_makeDirectory hmade
      · exact unlessDirectory_eq_none.1 hnone
      · cases hnone
      · exact isDirectory_of_makeDirectory hmade
      · exact unlessDirectory_eq_none.1 hnone

/-- Where a directory is, none is made. -/
theorem makeDirectoriesUpTo_of_isDirectory (n : Nat) (h : t.isDirectory p = true) :
    makeDirectoriesUpTo n t p = (t, none) := by
  cases n with
  | zero => rw [makeDirectoriesUpTo, unlessDirectory_eq_none.2 h]
  | succ n =>
      rw [makeDirectoriesUpTo, makeDirectory_of_isDirectory h]
      show (t, t.unlessDirectory p .alreadyExists) = _
      rw [unlessDirectory_eq_none.2 h]

/-- A path of no parts is never missing. -/
theorem makeDirectory_root_ne {p : FilePath} (hparts : p.parts = []) :
    t.makeDirectory p ≠ .error .notFound := by
  rw [ne_eq, makeDirectory_eq_notFound, placeOf_eq, hparts]
  split <;> simp [walk]

/-- The start of every way is there. -/
theorem makeDirectory_root_ne_ok (hroot : p.Rooted) (hparts : p.parts = []) :
    t.makeDirectory p ≠ .ok t' := by
  intro hmade
  obtain ⟨place, hplace, hnone, -⟩ := makeDirectory_eq_ok.1 hmade
  rw [placeOf_eq, hparts] at hplace
  split at hplace
  · cases hplace
  · cases hplace
    rw [entryAt?, if_pos (isStart_startOf hroot)] at hnone
    cases hnone

/-- What is missing on a way is missing before its last part, or it is what that stands in. -/
theorem walk_concat_notFound {place : Place} {parts : List String} {part : String}
    (h : t.walk place (parts ++ [part]) = .error .notFound) :
    t.walk place parts = .error .notFound ∨
      ∃ q, t.walk place parts = .ok q ∧ t.entryAt? q = none := by
  rw [walk_append] at h
  cases hwalk : t.walk place parts with
  | error f =>
      rw [hwalk] at h
      exact Or.inl (congrArg Except.error (Except.error.inj h))
  | ok q =>
      refine Or.inr ⟨q, rfl, ?_⟩
      rw [hwalk] at h
      unfold Except.bind walk at h
      dsimp only at h
      split at h
      · split at h
        · cases h
        · cases h
      · cases h
      · assumption

/-- Where something is missing on the way to a directory, the one it lies in can be
made, or something is missing on the way to that. -/
theorem makeDirectory_parent (h : t.makeDirectory p = .error .notFound) :
    (∃ t', t.makeDirectory p.parent = .ok t') ∨ t.makeDirectory p.parent = .error .notFound := by
  rw [makeDirectory_eq_notFound, placeOf_eq] at h
  split at h
  · cases h
  · rename_i hlong
    have hparent : ¬isTooLong p.parent.text = true :=
      fun hparent => hlong (FilePath.isTooLong_of_parent hparent)
    have hplace : t.placeOf p.parent = t.walk (startOf p) p.parts.dropLast := by
      rw [placeOf_eq, if_neg hparent]
      rfl
    rcases List.eq_nil_or_concat p.parts with hnil | ⟨parts, part, hconcat⟩
    · rw [hnil] at h
      cases h
    · rw [List.concat_eq_append] at hconcat
      rw [hconcat, List.dropLast_concat] at hplace
      rw [hconcat] at h
      rcases walk_concat_notFound h with hwalk | ⟨q, hwalk, hmissing⟩
      · exact Or.inr (makeDirectory_eq_notFound.2 (hplace.trans hwalk))
      · exact Or.inl ⟨_, makeDirectory_eq_ok.2 ⟨q, hplace.trans hwalk, hmissing, rfl⟩⟩

theorem length_parts_parent {n : Nat} (h : p.parts.length ≤ n + 1) :
    p.parent.parts.length ≤ n := by
  simp only [FilePath.parent, List.length_dropLast]
  omega

/-- Where something is missing on the way to a directory, something is made. -/
theorem not_same_of_notFound (hroot : p.Rooted) {n : Nat} (hn : p.parts.length ≤ n)
    (h : t.makeDirectory p = .error .notFound) : ¬t.Same (makeDirectoriesUpTo n t p).1 := by
  induction n generalizing p with
  | zero => exact absurd h (makeDirectory_root_ne (List.length_eq_zero_iff.1 (Nat.le_zero.1 hn)))
  | succ n ih =>
      have hn' := length_parts_parent hn
      have hbelow : ¬t.Same (makeDirectoriesUpTo n t p.parent).1 := by
        rcases makeDirectory_parent h with ⟨t', hmade⟩ | hmissing
        · cases n with
          | zero =>
              have hparts := List.length_eq_zero_iff.1 (Nat.le_zero.1 hn')
              exact absurd hmade (makeDirectory_root_ne_ok hroot hparts)
          | succ n =>
              rw [makeDirectoriesUpTo, hmade]
              exact not_same_of_makeDirectory hmade
        · exact ih hroot hn' hmissing
      have hgrown := grown_makeDirectoriesUpTo n t p.parent
      rcases makeDirectoriesUpTo_succ n t p with
        ⟨t', hmade, -⟩ | ⟨f, hrefused, hne, -⟩ | ⟨-, t', hparent, hrest⟩
      · rw [h] at hmade
        cases hmade
      · rw [h] at hrefused
        cases hrefused
        exact absurd rfl hne
      · rw [hparent] at hbelow hgrown
        rcases hrest with ⟨f, hrun⟩ | ⟨t'', hmade, hrun⟩ | ⟨f, hrun⟩ <;> rw [hrun]
        · exact hbelow
        · exact hgrown.not_same_trans (grown_of_makeDirectory hmade) hbelow
        · exact hbelow

-- ==================================================== what is in the way

/-- No file stands at a place. -/
def Free (t : FileTree) (place : Place) : Prop :=
  ∀ content, t.entryAt? place ≠ some (.file content)

/-- Nothing is in the way from a place on: it passes no file, and no part is too long. -/
def Clear (t : FileTree) (place : Place) : List String → Prop
  | [] => t.Free place
  | part :: parts =>
    t.Free place ∧ isPartTooLong part = false ∧ Clear t (step place part) parts

variable {place q : Place} {parts : List String}

/-- A directory is not in the way of one. -/
theorem free_of_directory (h : t.entryAt? place = some .directory) : t.Free place := by
  intro content hfile
  rw [h] at hfile
  cases hfile

/-- New directories are in nobody's way. -/
theorem Grown.free_iff (h : t.Grown t') (place : Place) : t'.Free place ↔ t.Free place := by
  unfold Free
  rcases h place with heq | ⟨hnone, hnew⟩
  · rw [heq]
  · simp [hnone, hnew]

/-- A way that can be gone leads where its parts say, and only there may a file be in the
way of it. -/
theorem clear_iff_of_walk (h : t.walk place parts = .ok q) :
    q = parts.foldl step place ∧ (t.Clear place parts ↔ t.Free q) := by
  induction parts generalizing place with
  | nil =>
      cases h
      exact ⟨rfl, Iff.rfl⟩
  | cons part parts ih =>
      unfold walk at h
      split at h
      · next hentry =>
        split at h
        · cases h
        · next hlong =>
          obtain ⟨hq, hclear⟩ := ih h
          refine ⟨hq, ?_⟩
          show _ ∧ _ ∧ _ ↔ _
          rw [hclear, Bool.not_eq_true] at *
          exact ⟨fun h => h.2.2, fun h => ⟨free_of_directory hentry, hlong, h⟩⟩
      · cases h
      · cases h

/-- Unless something is missing, a way that cannot be gone has something in the way. -/
theorem not_clear_of_walk {f : FileFault} (h : t.walk place parts = .error f)
    (hf : f ≠ .notFound) : ¬t.Clear place parts := by
  induction parts generalizing place with
  | nil => cases h
  | cons part parts ih =>
      unfold walk at h
      rintro ⟨hfree, hshort, hclear⟩
      split at h
      · split at h
        · next hlong =>
          rw [hshort] at hlong
          cases hlong
        · exact ih h hclear
      · next content hentry => exact hfree content hentry
      · cases h
        exact hf rfl

/-- The way to a parent is clear if the way to its child is. -/
theorem clear_of_concat {part : String} (h : t.Clear place (parts ++ [part])) :
    t.Clear place parts := by
  induction parts generalizing place with
  | nil => exact h.1
  | cons first parts ih =>
      obtain ⟨hfree, hshort, hclear⟩ := h
      exact ⟨hfree, hshort, ih hclear⟩

/-- Directories that are added leave a way as clear as it was. -/
theorem Grown.clear_iff (h : t.Grown t') (place : Place) (parts : List String) :
    t'.Clear place parts ↔ t.Clear place parts := by
  induction parts generalizing place with
  | nil => exact h.free_iff place
  | cons part parts ih => rw [Clear, Clear, h.free_iff, ih]

/-- Where a way can be gone, a directory can be made at its end or is there, unless a file
is. -/
theorem makeDirectory_of_placeOf (h : t.placeOf p = .ok q) :
    ((∃ t', t.makeDirectory p = .ok t') ∧ t.Free q) ∨
      (t.makeDirectory p = .error .alreadyExists ∧ (t.isDirectory p = true ↔ t.Free q)) := by
  cases hentry : t.entryAt? q with
  | none =>
      refine Or.inl ⟨⟨_, makeDirectory_eq_ok.2 ⟨q, h, hentry, rfl⟩⟩, fun content => ?_⟩
      simp [hentry]
  | some e =>
      have hexists : t.makeDirectory p = .error .alreadyExists := by
        simp [makeDirectory, h, hentry, bind, Except.bind]
      refine Or.inr ⟨hexists, ?_⟩
      rw [isDirectory_iff]
      simp only [h, Except.ok.injEq, exists_eq_left', hentry, Option.some.injEq, Free]
      cases e <;> simp

theorem not_isDirectory_of_placeOf {f : FileFault} (h : t.placeOf p = .error f) :
    t.isDirectory p ≠ true := by
  rw [ne_eq, isDirectory_iff, h]
  rintro ⟨place, hplace, -⟩
  cases hplace

/-- The place of a path that is not too long is where its parts lead. -/
theorem placeOf_eq_walk (hlong : isTooLong p.text = false) (t : FileTree) :
    t.placeOf p = t.walk (startOf p) p.parts := by
  rw [placeOf_eq, hlong]
  rfl

/-- A directory that is refused for a reason of its own is not tried again. -/
theorem makeDirectoriesUpTo_of_refused {n : Nat} {f : FileFault}
    (h : t.makeDirectory p = .error f) (hf : f ≠ .notFound) :
    makeDirectoriesUpTo (n + 1) t p = (t, t.unlessDirectory p f) := by
  rw [makeDirectoriesUpTo, h]
  cases f with
  | notFound => exact absurd rfl hf
  | isDirectory => rfl
  | notDirectory => rfl
  | alreadyExists => rfl
  | nameTooLong => rfl

/-- Where the directory that a path lies in is there, nothing is missing on the way. -/
theorem makeDirectory_ne_notFound (h : t.isDirectory p.parent = true) :
    t.makeDirectory p ≠ .error .notFound := by
  intro hmissing
  have hexists := makeDirectory_of_isDirectory h
  rcases makeDirectory_parent hmissing with ⟨t', hmade⟩ | hmissing
  · rw [hexists] at hmade
    cases hmade
  · rw [hexists] at hmissing
    cases hmissing

/-- Once the directory that a path lies in is made, it goes on as if that had been there. -/
theorem makeDirectoriesUpTo_again {n : Nat} {t₁ : FileTree}
    (hmissing : t.makeDirectory p = .error .notFound)
    (hrun : makeDirectoriesUpTo n t p.parent = (t₁, none)) :
    makeDirectoriesUpTo (n + 1) t p = makeDirectoriesUpTo (n + 1) t₁ p := by
  have hfound := makeDirectory_ne_notFound (isDirectory_of_makeDirectoriesUpTo hrun)
  cases hagain : t₁.makeDirectory p with
  | ok t₂ => simp only [makeDirectoriesUpTo, hmissing, hrun, hagain]
  | error f =>
      have hf : f ≠ .notFound := by
        rintro rfl
        exact hfound hagain
      rw [makeDirectoriesUpTo_of_refused hagain hf, makeDirectoriesUpTo, hmissing]
      dsimp only
      rw [hrun]
      dsimp only
      rw [hagain]
      cases f with
      | notFound => exact absurd rfl hf
      | isDirectory => rfl
      | notDirectory => rfl
      | alreadyExists => rfl
      | nameTooLong => rfl

/-- Where nothing is missing on the way to it, a directory can be made exactly if nothing
is in the way. -/
theorem made_iff_of_found (hlong : isTooLong p.text = false) (n : Nat)
    (hfound : t.makeDirectory p ≠ .error .notFound) :
    (makeDirectoriesUpTo (n + 1) t p).2 = none ↔ t.Clear (startOf p) p.parts := by
  cases hplace : t.placeOf p with
  | ok q =>
      have hwalk := (placeOf_eq_walk hlong t).symm.trans hplace
      rw [(clear_iff_of_walk hwalk).2, makeDirectoriesUpTo]
      rcases makeDirectory_of_placeOf hplace with ⟨⟨t', hmade⟩, hfree⟩ | ⟨hexists, hiff⟩
      · rw [hmade]
        exact ⟨fun _ => hfree, fun _ => rfl⟩
      · rw [hexists]
        exact unlessDirectory_eq_none.trans hiff
  | error f =>
      have hwalk := (placeOf_eq_walk hlong t).symm.trans hplace
      have hf : f ≠ .notFound := by
        rintro rfl
        exact hfound (makeDirectory_eq_notFound.2 hplace)
      have hrefused : t.makeDirectory p = .error f := by
        simp [makeDirectory, hplace, bind, Except.bind]
      rw [makeDirectoriesUpTo_of_refused hrefused hf, unlessDirectory_eq_none]
      exact ⟨fun hd => absurd hd (not_isDirectory_of_placeOf hplace),
        fun hclear => absurd hclear (not_clear_of_walk hwalk hf)⟩

/-- Where something is missing on the way, nothing is in the way exactly if that holds of the
way to the directory that the path lies in, and then of what is left. -/
theorem made_iff_of_missing (hlong : isTooLong p.text = false) {n : Nat} {part : String}
    (hconcat : p.parts = parts ++ [part]) (hmissing : t.makeDirectory p = .error .notFound)
    (hparent : (makeDirectoriesUpTo n t p.parent).2 = none ↔ t.Clear (startOf p) parts) :
    (makeDirectoriesUpTo (n + 1) t p).2 = none ↔ t.Clear (startOf p) p.parts := by
  have hgrown := grown_makeDirectoriesUpTo n t p.parent
  cases hrun : makeDirectoriesUpTo n t p.parent with
  | mk t₁ fault? =>
      rw [hrun] at hparent hgrown
      cases fault? with
      | some f =>
          rw [makeDirectoriesUpTo, hmissing]
          dsimp only
          rw [hrun]
          constructor
          · intro hmade
            cases hmade
          · intro hclear
            rw [hconcat] at hclear
            cases hparent.2 (clear_of_concat hclear)
      | none =>
          -- what is left is what is asked where the directory above is there
          have hd := isDirectory_of_makeDirectoriesUpTo hrun
          rw [makeDirectoriesUpTo_again hmissing hrun,
            made_iff_of_found hlong n (makeDirectory_ne_notFound hd), hgrown.clear_iff]

/-- A directory can be made with what is missing on the way exactly if nothing is in the
way. -/
theorem makeDirectoriesUpTo_made_iff (hroot : p.Rooted) {n : Nat} (hn : p.parts.length ≤ n)
    (hlong : isTooLong p.text = false) :
    (makeDirectoriesUpTo n t p).2 = none ↔ t.Clear (startOf p) p.parts := by
  induction n generalizing p with
  | zero =>
      have hparts : p.parts = [] := List.length_eq_zero_iff.1 (Nat.le_zero.1 hn)
      have hstart : t.entryAt? (startOf p) = some .directory := by
        rw [entryAt?, if_pos (isStart_startOf hroot)]
      have hplace : t.placeOf p = .ok (startOf p) := by
        rw [placeOf_eq_walk hlong, hparts]
        rfl
      rw [makeDirectoriesUpTo, unlessDirectory_eq_none, hparts]
      exact ⟨fun _ => free_of_directory hstart, fun _ => isDirectory_iff.2 ⟨_, hplace, hstart⟩⟩
  | succ n ih =>
      by_cases hmissing : t.makeDirectory p = .error .notFound
      · rcases List.eq_nil_or_concat p.parts with hnil | ⟨parts, part, hconcat⟩
        · exact absurd hmissing (makeDirectory_root_ne hnil)
        · rw [List.concat_eq_append] at hconcat
          have hparts : p.parent.parts = parts := by simp [FilePath.parent, hconcat]
          have hparent :=
            ih (p := p.parent) hroot (length_parts_parent hn) (FilePath.isTooLong_parent hlong)
          rw [hparts] at hparent
          exact made_iff_of_missing hlong hconcat hmissing hparent
      · exact made_iff_of_found hlong n hmissing

-- ==================================================== making directories

/-- Making directories succeeds where the path can be asked for and every round does. -/
theorem makeDirectories_eq_ok : t.makeDirectories p = (t', none) ↔
    holdsNull p.text = false ∧ makeDirectoriesUpTo p.parts.length t p = (t', none) := by
  unfold makeDirectories
  split
  · rename_i hnull
    simp [hnull]
  · rename_i hnull
    simp [hnull, Prod.ext_iff]

/-- Making directories adds to what exists, also where it fails. -/
theorem grown_makeDirectories (t : FileTree) (p : FilePath) :
    t.Grown (t.makeDirectories p).1 := by
  unfold makeDirectories
  split
  · exact Grown.refl t
  · exact grown_makeDirectoriesUpTo _ t p

/-- Making a directory adds it and those on the way to it, and nothing else. -/
theorem entryAt?_makeDirectories {place : Place} (h : t.makeDirectories p = (t', none)) :
    t'.entryAt? place = t.entryAt? place ∨
      t.entryAt? place = none ∧ t'.entryAt? place = some .directory ∧ t'.OnWay p place := by
  have hrun := (makeDirectories_eq_ok.1 h).2
  have hgrown := grown_makeDirectories t p
  rw [h] at hgrown
  refine (hgrown place).imp_right fun ⟨hnone, hnew⟩ => ⟨hnone, hnew, ?_⟩
  have hway := onWay_of_makeDirectoriesUpTo p.parts.length t p hnone
  rw [hrun] at hway
  exact hway hnew

/-- Where making directories succeeds there is one. -/
theorem isDirectory_of_makeDirectories (h : t.makeDirectories p = (t', none)) :
    t'.isDirectory p = true :=
  isDirectory_of_makeDirectoriesUpTo (makeDirectories_eq_ok.1 h).2

/-- Where a directory is, making it changes nothing. -/
theorem makeDirectories_of_isDirectory (hnull : holdsNull p.text = false)
    (h : t.isDirectory p = true) : t.makeDirectories p = (t, none) :=
  makeDirectories_eq_ok.2 ⟨hnull, makeDirectoriesUpTo_of_isDirectory _ h⟩

/-- A directory can be made, with what is missing on the way, exactly if its path can be
asked for and nothing is in the way. -/
theorem makeDirectories_made_iff (hroot : p.Rooted) : (t.makeDirectories p).2 = none ↔
    holdsNull p.text = false ∧ isTooLong p.text = false ∧ t.Clear (startOf p) p.parts := by
  unfold makeDirectories
  split
  · rename_i hnull
    simp [hnull]
  · rename_i hnull
    rw [Bool.not_eq_true] at hnull
    dsimp only
    rw [Option.map_eq_none_iff, and_iff_right hnull]
    by_cases hlong : isTooLong p.text = true
    · refine ⟨fun hmade => ?_, fun h => ?_⟩
      · have hd := isDirectory_of_makeDirectoriesUpTo (Prod.ext rfl hmade)
        obtain ⟨q, hq, -⟩ := isDirectory_iff.1 hd
        rw [placeOf_eq, if_pos hlong] at hq
        cases hq
      · rw [h.1] at hlong
        cases hlong
    · rw [Bool.not_eq_true] at hlong
      rw [and_iff_right hlong]
      exact makeDirectoriesUpTo_made_iff hroot (Nat.le_refl _) hlong

/-- A directory that is there now is new exactly if the tree is another. -/
theorem not_same_of_made_iff (h : t.makeDirectories p = (t', none)) :
    ¬t.Same t' ↔ t.isDirectory p = false := by
  rw [← Bool.not_eq_true]
  refine not_congr ⟨fun hsame => ?_, fun hd => ?_⟩
  · rw [← isDirectory_congr hsame]
    exact isDirectory_of_makeDirectories h
  · rw [makeDirectories_of_isDirectory (makeDirectories_eq_ok.1 h).1 hd] at h
    rw [(Prod.mk.inj h).1]
    exact Same.refl _

/-- Directories are left behind by a fault exactly if it is one of the files, and
something was missing on the way to the directory. -/
theorem not_same_of_fault_iff (hroot : p.Rooted) {f : Fault}
    (h : t.makeDirectories p = (t', some f)) :
    ¬t.Same t' ↔ holdsNull p.text = false ∧ t.makeDirectory p = .error .notFound := by
  unfold makeDirectories at h
  split at h
  · rename_i hnull
    obtain ⟨rfl, -⟩ := Prod.mk.inj h
    simp [hnull, Same.refl]
  · rename_i hnull
    rw [Bool.not_eq_true] at hnull
    obtain ⟨rfl, hfault⟩ := Prod.mk.inj h
    refine ⟨fun hnew => ⟨hnull, ?_⟩, fun hmissing =>
      not_same_of_notFound hroot (Nat.le_refl _) hmissing.2⟩
    by_contra hfound
    refine hnew ?_
    cases hlength : p.parts.length with
    | zero => exact Same.refl t
    | succ n =>
        rcases makeDirectoriesUpTo_succ n t p with
          ⟨t₁, -, hrun⟩ | ⟨g, -, -, hrun⟩ | ⟨hmissing, -⟩
        · rw [hlength, hrun] at hfault
          cases hfault
        · rw [hrun]
          exact Same.refl t
        · exact absurd hmissing hfound

-- ==================================================== files in a directory that is made

open FilePath (IsName)
open Text.Utf8 (encode)

variable {t₁ : FileTree} {files : List (String × String)}

/-- A file can be written under a name in a directory that is there. -/
def Takes (t : FileTree) (d : FilePath) (name : String) : Prop :=
  isTooLong (d.child name).text = false ∧ t.isDirectory (d.child name) = false

instance (t : FileTree) (d : FilePath) (name : String) : Decidable (t.Takes d name) :=
  inferInstanceAs (Decidable (_ ∧ _))

/-- A directory takes a file unless its path is too long or a directory has its name. -/
theorem exists_writeText_iff {name : String} (hname : IsName name)
    (hnull : holdsNull d.text = false) (hd : t.isDirectory d = true) (text : String) :
    (∃ t', t.writeText (d.child name) text = .ok t') ↔ t.Takes d name := by
  have hrefused : (∃ f, t.writeText (d.child name) text = .error f) ↔ _ :=
    writeText_child_eq_error hname hnull hd
  unfold Takes
  rw [← Bool.not_eq_true, ← Bool.not_eq_true, ← not_or, ← hrefused]
  cases t.writeText (d.child name) text with
  | ok t' => simp
  | error f => simp

/-- The directory can be made, and a file can be written in it under each of the names. -/
def Receives (t : FileTree) (d : FilePath) (names : List String) : Prop :=
  ∃ t₁, t.makeDirectories d = (t₁, none) ∧
    ∀ name ∈ names, ∀ text, ∃ t₂, t₁.writeText (d.child name) text = .ok t₂

/-- A directory that does not exist yet receives files if it can be made and then takes them. -/
theorem receives_iff {names : List String} (hnames : ∀ name ∈ names, IsName name) :
    t.Receives d names ↔ (t.makeDirectories d).2 = none ∧
      ∀ name ∈ names, (t.makeDirectories d).1.Takes d name := by
  have htakes : ∀ {t₁}, t.makeDirectories d = (t₁, none) → ∀ name ∈ names, ∀ text,
      (∃ t₂, t₁.writeText (d.child name) text = .ok t₂) ↔ t₁.Takes d name :=
    fun hmade name hname text => exists_writeText_iff (hnames name hname)
      (makeDirectories_eq_ok.1 hmade).1 (isDirectory_of_makeDirectories hmade) text
  constructor
  · rintro ⟨t₁, hmade, hwrites⟩
    rw [hmade]
    exact ⟨rfl, fun name hname => (htakes hmade name hname "").1 (hwrites name hname "")⟩
  · rintro ⟨hnone, hall⟩
    have hmade : t.makeDirectories d = ((t.makeDirectories d).1, none) := Prod.ext rfl hnone
    exact ⟨_, hmade, fun name hname text => (htakes hmade name hname text).2 (hall name hname)⟩

/-- Files have been written into a directory: they are read from it, and nothing else has
changed. -/
structure Wrote (t : FileTree) (d : FilePath) (files : List (String × String))
    (t' : FileTree) : Prop where
  read : ∀ f ∈ files, t'.read (d.child f.1) = .ok (encode f.2)
  kept : ∀ place, t'.entryAt? place = t.entryAt? place ∨
    ∃ f ∈ files, t'.placeOf (d.child f.1) = .ok place
  keeps : t.Keeps t'

/-- No file has been written. -/
theorem Wrote.nil (t : FileTree) (d : FilePath) : t.Wrote d [] t :=
  ⟨List.forall_mem_nil _, fun _ => Or.inl rfl, fun _ h => h⟩

/-- One file more, before others with other names. -/
theorem Wrote.cons {f : String × String} (hname : IsName f.1) (hnames : ∀ g ∈ files, IsName g.1)
    (hne : ∀ g ∈ files, g.1 ≠ f.1) (hwrite : t.write (d.child f.1) (encode f.2) = .ok t₁)
    (h : t₁.Wrote d files t') : t.Wrote d (f :: files) t' := by
  refine ⟨List.forall_mem_cons.2 ⟨?_, h.read⟩, fun place => ?_, fun place hplace => ?_⟩
  · obtain ⟨place, hplace, hentry⟩ := read_eq_ok.1 (read_of_write hwrite)
    have hplace' := placeOf_of_keeps h.keeps hplace
    rcases h.kept place with hsame | ⟨g, hg, hother⟩
    · exact read_eq_ok.2 ⟨place, hplace', hsame.trans hentry⟩
    · -- the place of another name is another place
      exact absurd rfl (placeOf_child_ne (hnames g hg) hname (hne g hg).symm hother hplace')
  · rcases h.kept place with hsame | ⟨g, hg, hplace⟩
    · rcases entryAt?_of_write hwrite place with hbefore | hplace
      · exact Or.inl (hsame.trans hbefore)
      · exact Or.inr ⟨f, List.mem_cons_self, placeOf_of_keeps h.keeps hplace⟩
    · exact Or.inr ⟨g, List.mem_cons_of_mem _ hg, hplace⟩
  · exact h.keeps place (keeps_of_write hwrite place hplace)

end ApiAuthz.FileTree
