/-
What operations do to the files. A tree is told by what stands at its places, and two
trees are the same if the same stands everywhere (`Same`). Whatever looks at a tree
does so through its places, so it finds the same in trees that are the same.

# Operations

An operation that succeeds puts one entry at one place (`makeDirectory_eq_ok`,
`write_eq_ok`), and `entryAt?_put_self` and `entryAt?_put_of_ne` say what that changes.
All that is proved of operations goes through these four, and nothing looks at the list
of entries again.

# What is kept

What only adds directories where nothing stood makes a tree grow (`Grown`), and what
leaves all directories in place keeps every way that leads somewhere (`Keeps`,
`placeOf_of_keeps`). Growing is what making directories does, also where it fails;
keeping is weaker, and writing files does it too. The two are stated apart because a
file that is written may stand where another one stood, and then the tree has changed
without having grown.

# Names in a directory

A name leads to its own place in a directory, and different names to different places
(`placeOf_child_ne`); so a file that is written changes no other one
(`read_child_of_write`).
-/
import ApiAuthz.FileTree
import ApiAuthz.Proofs.FilePath
import Mathlib.Data.List.Basic

namespace ApiAuthz

namespace FileTree

open FilePath (isTooLong isPartTooLong holdsNull IsName)

variable {t t' t'' : FileTree} {p d : FilePath} {place : Place}

-- ==================================================== entries

/-- The same stands everywhere. -/
def Same (t t' : FileTree) : Prop := ∀ place, t'.entryAt? place = t.entryAt? place

theorem Same.refl (t : FileTree) : t.Same t := fun _ => rfl

/-- The starting points are directories. -/
theorem isStart_of_not_directory (h : t.entryAt? place ≠ some .directory) :
    isStart place = false := by
  cases hstart : isStart place with
  | false => rfl
  | true => exact absurd (by simp [entryAt?, hstart]) h

theorem find?_replaced (entries : List (Place × Entry)) (place q : Place) (e : Entry) :
    ((entries.map fun x => if x.1 == place then (place, e) else x).find? fun x => x.1 == q) =
      (entries.find? fun x => x.1 == q).map fun x => if x.1 == place then (place, e) else x := by
  rw [List.find?_map]
  congr 2
  funext x
  by_cases hx : x.1 = place <;> simp [hx]

/-- An entry that is put at a place stands there. -/
theorem entryAt?_put_self (h : isStart place = false) (e : Entry) :
    (t.put place e).entryAt? place = some e := by
  rw [entryAt?, if_neg (by rw [h]; decide), put]
  split
  · rename_i hany
    obtain ⟨x, hx, hxplace⟩ := List.any_eq_true.1 hany
    have hfound : (t.entries.find? fun x => x.1 == place).isSome = true :=
      List.find?_isSome.2 ⟨x, hx, hxplace⟩
    obtain ⟨y, hy⟩ := Option.isSome_iff_exists.1 hfound
    have hyplace : y.1 = place := by simpa using List.find?_some hy
    simp only [find?_replaced, hy, Option.map_some, hyplace, beq_self_eq_true, if_true]
  · rename_i hany
    have hnone : (t.entries.find? fun x => x.1 == place) = none := by
      rw [List.find?_eq_none]
      exact fun x hx hxplace => hany (List.any_eq_true.2 ⟨x, hx, hxplace⟩)
    simp only [List.find?_append, hnone, Option.none_or, List.find?_singleton, beq_self_eq_true,
      if_true, Option.map_some]

/-- What stands at other places stays. -/
theorem entryAt?_put_of_ne {q : Place} (h : q ≠ place) (e : Entry) :
    (t.put place e).entryAt? q = t.entryAt? q := by
  unfold entryAt? put
  split
  · rfl
  · split
    · rw [find?_replaced, Option.map_map]
      cases hy : t.entries.find? fun x => x.1 == q with
      | none => rfl
      | some y =>
          have hyq : y.1 = q := by simpa using List.find?_some hy
          simp [hyq, h]
    · have hne : place ≠ q := fun hsame => h hsame.symm
      simp [List.find?_append, hne]

-- ==================================================== ways

/-- A way leads to the same place in files that are the same. -/
theorem walk_congr (h : t.Same t') (p : Place) (parts : List String) :
    t'.walk p parts = t.walk p parts := by
  induction parts generalizing p with
  | nil => rfl
  | cons part parts ih => simp only [walk, h p, ih]

/-- Directories stay directories. -/
def Keeps (t t' : FileTree) : Prop :=
  ∀ place, t.entryAt? place = some .directory → t'.entryAt? place = some .directory

/-- A way through directories stays one. -/
theorem walk_of_keeps (h : t.Keeps t') {p q : Place} {parts : List String}
    (hwalk : t.walk p parts = .ok q) : t'.walk p parts = .ok q := by
  induction parts generalizing p with
  | nil => exact hwalk
  | cons part parts ih =>
      unfold walk at hwalk ⊢
      split at hwalk
      · rename_i hp
        rw [h p hp]
        show (if isPartTooLong part then _ else _) = _
        split at hwalk
        · cases hwalk
        · rename_i hlong
          rw [if_neg hlong]
          exact ih hwalk
      · cases hwalk
      · cases hwalk

/-- A way is walked by walking its parts one behind the other. -/
theorem walk_append (t : FileTree) (p : Place) (parts rest : List String) :
    t.walk p (parts ++ rest) = (t.walk p parts).bind fun q => t.walk q rest := by
  induction parts generalizing p with
  | nil => rfl
  | cons part parts ih =>
      simp only [List.cons_append, walk]
      split
      · split
        · rfl
        · exact ih _
      · rfl
      · rfl

/-- Where the way of a path starts. -/
def startOf (p : FilePath) : Place := if p.root == "" then [] else [p.root]

theorem placeOf_eq (t : FileTree) (p : FilePath) :
    t.placeOf p = if isTooLong p.text then .error .nameTooLong else t.walk (startOf p) p.parts :=
  rfl

/-- A path starts where a directory always is. -/
theorem isStart_startOf (h : p.Rooted) : isStart (startOf p) = true := by
  unfold startOf
  rcases h with h | h | h <;> rw [h] <;> decide

theorem placeOf_congr (h : t.Same t') (p : FilePath) : t'.placeOf p = t.placeOf p := by
  rw [placeOf_eq, placeOf_eq, walk_congr h]

/-- A way that led somewhere still does while directories stay. -/
theorem placeOf_of_keeps (h : t.Keeps t') (hplace : t.placeOf p = .ok place) :
    t'.placeOf p = .ok place := by
  rw [placeOf_eq] at hplace ⊢
  split at hplace
  · cases hplace
  · rename_i hlong
    rw [if_neg hlong]
    exact walk_of_keeps h hplace

/-- There is a directory where the path leads to the place of one. -/
theorem isDirectory_iff : t.isDirectory p = true ↔
    ∃ place, t.placeOf p = .ok place ∧ t.entryAt? place = some .directory := by
  unfold isDirectory entryOf entryAtPlace
  cases hplace : t.placeOf p with
  | error f => simp [bind, Except.bind]
  | ok place =>
      cases hentry : t.entryAt? place with
      | none => simp [bind, Except.bind, hentry]
      | some e => cases e <;> simp [bind, Except.bind, hentry]

theorem isDirectory_congr (h : t.Same t') (p : FilePath) :
    t'.isDirectory p = t.isDirectory p := by
  rw [Bool.eq_iff_iff, isDirectory_iff, isDirectory_iff, placeOf_congr h]
  simp only [h _]

/-- A directory is still there while directories stay. -/
theorem isDirectory_of_keeps (h : t.Keeps t') (hd : t.isDirectory p = true) :
    t'.isDirectory p = true := by
  obtain ⟨place, hplace, hentry⟩ := isDirectory_iff.1 hd
  exact isDirectory_iff.2 ⟨place, placeOf_of_keeps h hplace, h place hentry⟩

-- ==================================================== names in a directory

/-- A name in a directory leads to its place there, unless the path is too long. -/
theorem placeOf_child {name : String} (hname : IsName name) (hplace : t.placeOf d = .ok place)
    (hentry : t.entryAt? place = some .directory)
    (hlong : isTooLong (d.child name).text = false) :
    t.placeOf (d.child name) = .ok (place ++ [name]) := by
  rw [placeOf_eq] at hplace
  split at hplace
  · cases hplace
  · rw [placeOf_eq, hlong]
    show t.walk (startOf d) (d.parts ++ [name]) = _
    rw [walk_append, hplace]
    simp [Except.bind, walk, hentry, hname.short, step, hname.stays]

/-- Whatever a name in a directory leads to, the directory is there. -/
theorem isDirectory_of_placeOf_child {name : String}
    (h : t.placeOf (d.child name) = .ok place) : t.isDirectory d = true := by
  rw [placeOf_eq] at h
  split at h
  · cases h
  · rename_i hlong
    have hparent : ¬isTooLong d.text = true := fun hparent =>
      hlong (FilePath.isTooLong_of_parent (by rw [FilePath.parent_child]; exact hparent))
    change t.walk (startOf d) (d.parts ++ [name]) = _ at h
    rw [walk_append] at h
    cases hwalk : t.walk (startOf d) d.parts with
    | error f =>
        rw [hwalk] at h
        cases h
    | ok q =>
        rw [hwalk] at h
        have hq : t.entryAt? q = some .directory := by
          unfold Except.bind walk at h
          dsimp only at h
          split at h
          · assumption
          · cases h
          · cases h
        exact isDirectory_iff.2 ⟨q, by rw [placeOf_eq, if_neg hparent, hwalk], hq⟩

/-- A path that leads somewhere is not too long. -/
theorem isTooLong_of_placeOf (h : t.placeOf p = .ok place) : isTooLong p.text = false := by
  rw [placeOf_eq] at h
  split at h
  · cases h
  · rename_i hshort
    exact Bool.not_eq_true _ ▸ hshort

/-- Where a name in a directory leads, it is the last part of the way. -/
theorem placeOf_child_eq_ok {name : String} (hname : IsName name)
    (h : t.placeOf (d.child name) = .ok place) :
    ∃ q, t.placeOf d = .ok q ∧ t.entryAt? q = some .directory ∧ place = q ++ [name] := by
  obtain ⟨q, hq, hentry⟩ := isDirectory_iff.1 (isDirectory_of_placeOf_child h)
  have hchild := placeOf_child hname hq hentry (isTooLong_of_placeOf h)
  rw [h] at hchild
  exact ⟨q, hq, hentry, Except.ok.inj hchild⟩

/-- Two names in a directory lead to two places. -/
theorem placeOf_child_ne {name other : String} (hname : IsName name) (hother : IsName other)
    (hne : other ≠ name) {q : Place} (h : t.placeOf (d.child name) = .ok q)
    (h' : t.placeOf (d.child other) = .ok place) : place ≠ q := by
  obtain ⟨r, hr, -, rfl⟩ := placeOf_child_eq_ok hname h
  obtain ⟨r', hr', -, rfl⟩ := placeOf_child_eq_ok hother h'
  rw [hr] at hr'
  cases hr'
  simpa using hne

-- ==================================================== one operation

/-- A directory is made at a place where nothing is. -/
theorem makeDirectory_eq_ok : t.makeDirectory p = .ok t' ↔
    ∃ place, t.placeOf p = .ok place ∧ t.entryAt? place = none ∧ t' = t.put place .directory := by
  unfold makeDirectory
  cases hplace : t.placeOf p with
  | error f => simp [bind, Except.bind]
  | ok place => cases hentry : t.entryAt? place <;>
      simp [bind, Except.bind, pure, Except.pure, hentry, eq_comm]

/-- A directory is not made twice. -/
theorem makeDirectory_of_isDirectory (h : t.isDirectory p = true) :
    t.makeDirectory p = .error .alreadyExists := by
  obtain ⟨place, hplace, hentry⟩ := isDirectory_iff.1 h
  simp [makeDirectory, hplace, bind, Except.bind, hentry]

/-- Something on the way is missing where the path leads nowhere for that reason. -/
theorem makeDirectory_eq_notFound :
    t.makeDirectory p = .error .notFound ↔ t.placeOf p = .error .notFound := by
  unfold makeDirectory
  cases hplace : t.placeOf p with
  | error f => simp [bind, Except.bind]
  | ok place => cases hentry : t.entryAt? place <;>
      simp [bind, Except.bind, pure, Except.pure, hentry]

theorem isTooLong_of_missing (h : t.makeDirectory p = .error .notFound) :
    isTooLong p.text = false := by
  rw [makeDirectory_eq_notFound, placeOf_eq] at h
  by_contra hlong
  rw [Bool.not_eq_false] at hlong
  rw [if_pos hlong] at h
  cases h

/-- A file is written at a place that is no directory. -/
theorem write_eq_ok {content : List UInt8} : t.write p content = .ok t' ↔
    ∃ place, t.placeOf p = .ok place ∧ t.entryAt? place ≠ some .directory ∧
      t' = t.put place (.file content) := by
  unfold write
  cases hplace : t.placeOf p with
  | error f => simp [bind, Except.bind]
  | ok place =>
      cases hentry : t.entryAt? place with
      | none => simp [bind, Except.bind, pure, Except.pure, hentry, eq_comm]
      | some e => cases e <;> simp [bind, Except.bind, pure, Except.pure, hentry, eq_comm]

/-- What a path leads to is what is at its place. -/
theorem entryOf_eq_ok {p : FilePath} {e : Entry} : t.entryOf p = .ok e ↔
    ∃ place, t.placeOf p = .ok place ∧ t.entryAt? place = some e := by
  unfold entryOf entryAtPlace
  cases hplace : t.placeOf p with
  | error f => simp [bind, Except.bind]
  | ok place => cases hentry : t.entryAt? place <;> simp [bind, Except.bind, hentry]

/-- The content of a file is read where the path leads to its place. -/
theorem read_eq_ok {content : List UInt8} : t.read p = .ok content ↔
    ∃ place, t.placeOf p = .ok place ∧ t.entryAt? place = some (.file content) := by
  unfold read entryOf entryAtPlace
  cases hplace : t.placeOf p with
  | error f => simp [bind, Except.bind]
  | ok place =>
      cases hentry : t.entryAt? place with
      | none => simp [bind, Except.bind, hentry]
      | some e => cases e <;> simp [bind, Except.bind, pure, Except.pure, hentry]

/-- A content has no text only for its octets. -/
theorem textOf_eq_error {content : List UInt8} {f : Fault} (h : textOf content = .error f) :
    ∃ diagnosis, Text.Utf8.decode content = .error diagnosis ∧ f = .undecodable diagnosis := by
  unfold textOf at h
  split at h
  · cases h
  · next diagnosis hdecode =>
    cases h
    exact ⟨diagnosis, hdecode, rfl⟩

/-- The text of a file that is there is that of its octets. -/
theorem readText_of_read {content : List UInt8} (hasked : holdsNull p.text = false)
    (hread : t.read p = .ok content) : t.readText p = textOf content := by
  unfold readText asked
  rw [hasked, hread]
  rfl

/-- What reading the text of a file can come to. -/
theorem readText_cases (t : FileTree) (p : FilePath) :
    (holdsNull p.text = true ∧ t.readText p = .error Fault.nullInPath) ∨
    (∃ f, holdsNull p.text = false ∧ t.read p = .error f ∧ t.readText p = .error (.file f)) ∨
    ∃ content, holdsNull p.text = false ∧ t.read p = .ok content ∧
      t.readText p = textOf content := by
  cases hasked : holdsNull p.text with
  | true =>
      refine Or.inl ⟨rfl, ?_⟩
      unfold readText asked
      rw [hasked]
      rfl
  | false =>
      cases hread : t.read p with
      | error f =>
          refine Or.inr (Or.inl ⟨f, rfl, rfl, ?_⟩)
          unfold readText asked
          rw [hasked, hread]
          rfl
      | ok content => exact Or.inr (Or.inr ⟨content, rfl, rfl, readText_of_read hasked hread⟩)

/-- Writing a file takes no directory away. -/
theorem keeps_put {content : List UInt8} (h : t.entryAt? place ≠ some .directory) :
    t.Keeps (t.put place (.file content)) := by
  intro q hq
  have hne : q ≠ place := by
    rintro rfl
    exact h hq
  rw [entryAt?_put_of_ne hne, hq]

/-- Writing a file leaves directories alone. -/
theorem keeps_of_write {content : List UInt8} (h : t.write p content = .ok t') : t.Keeps t' := by
  obtain ⟨place, -, hentry, rfl⟩ := write_eq_ok.1 h
  exact keeps_put hentry

/-- What is written to a file is read from it. -/
theorem read_of_write {content : List UInt8} (h : t.write p content = .ok t') :
    t'.read p = .ok content := by
  obtain ⟨place, hplace, hentry, rfl⟩ := write_eq_ok.1 h
  exact read_eq_ok.2 ⟨place, placeOf_of_keeps (keeps_put hentry) hplace,
    entryAt?_put_self (isStart_of_not_directory hentry) _⟩

/-- Writing changes nothing but at the place it leads to. -/
theorem entryAt?_of_write {content : List UInt8} (h : t.write p content = .ok t')
    (place : Place) : t'.entryAt? place = t.entryAt? place ∨ t'.placeOf p = .ok place := by
  obtain ⟨q, hq, hentry, rfl⟩ := write_eq_ok.1 h
  by_cases hplace : place = q
  · rw [hplace]
    exact Or.inr (placeOf_of_keeps (keeps_put hentry) hq)
  · exact Or.inl (entryAt?_put_of_ne hplace _)

theorem read_congr (h : t.Same t') (p : FilePath) : t'.read p = t.read p := by
  unfold read entryOf entryAtPlace
  rw [placeOf_congr h]
  simp only [h _]

-- ==================================================== only directories more

/-- Everything stays, and where something is new it is a directory. -/
def Grown (t t' : FileTree) : Prop :=
  ∀ place, t'.entryAt? place = t.entryAt? place ∨
    t.entryAt? place = none ∧ t'.entryAt? place = some .directory

theorem Grown.refl (t : FileTree) : t.Grown t := fun _ => Or.inl rfl

/-- What is added twice is added. -/
theorem Grown.trans (h : t.Grown t') (h' : t'.Grown t'') : t.Grown t'' := by
  intro place
  rcases h' place with heq | ⟨hnone, hnew⟩
  · rw [heq]
    exact h place
  · rcases h place with heq | ⟨-, hdirectory⟩
    · exact Or.inr ⟨heq ▸ hnone, hnew⟩
    · rw [hnone] at hdirectory
      cases hdirectory

/-- What is added to leaves directories alone. -/
theorem Grown.keeps (h : t.Grown t') : t.Keeps t' := by
  intro place hplace
  rcases h place with heq | ⟨-, hnew⟩
  · exact heq.trans hplace
  · exact hnew

/-- What is new in a tree is still new when more is added. -/
theorem Grown.not_same_trans (h : t.Grown t') (h' : t'.Grown t'') (hnew : ¬t.Same t') :
    ¬t.Same t'' := by
  intro hsame
  refine hnew fun place => ?_
  rcases h place with heq | ⟨hnone, hdirectory⟩
  · exact heq
  · have hstill := h'.keeps place hdirectory
    rw [hsame place, hnone] at hstill
    cases hstill

/-- A directory that is made is added. -/
theorem grown_of_makeDirectory (h : t.makeDirectory p = .ok t') : t.Grown t' := by
  obtain ⟨place, -, hnone, rfl⟩ := makeDirectory_eq_ok.1 h
  intro q
  by_cases hq : q = place
  · subst hq
    have hstart : isStart q = false := isStart_of_not_directory (by rw [hnone]; simp)
    exact Or.inr ⟨hnone, entryAt?_put_self hstart _⟩
  · exact Or.inl (entryAt?_put_of_ne hq _)

/-- A directory that has been made is there. -/
theorem isDirectory_of_makeDirectory (h : t.makeDirectory p = .ok t') :
    t'.isDirectory p = true := by
  have hgrown := grown_of_makeDirectory h
  obtain ⟨place, hplace, hnone, rfl⟩ := makeDirectory_eq_ok.1 h
  have hstart : isStart place = false := isStart_of_not_directory (by rw [hnone]; simp)
  exact isDirectory_iff.2
    ⟨place, placeOf_of_keeps hgrown.keeps hplace, entryAt?_put_self hstart _⟩

/-- A directory that has been made was not there. -/
theorem not_same_of_makeDirectory (h : t.makeDirectory p = .ok t') : ¬t.Same t' := by
  intro hsame
  have hd := isDirectory_of_makeDirectory h
  rw [isDirectory_congr hsame] at hd
  rw [makeDirectory_of_isDirectory hd] at h
  cases h

theorem unlessDirectory_eq_none {f : FileFault} :
    t.unlessDirectory p f = none ↔ t.isDirectory p = true := by
  unfold unlessDirectory
  split <;> simp_all

-- ==================================================== files in a directory

/-- A text is written by its octets, at a path that can be asked for. -/
theorem writeText_eq_ok {text : String} : t.writeText p text = .ok t' ↔
    holdsNull p.text = false ∧ t.write p (Text.Utf8.encode text) = .ok t' := by
  unfold writeText asked
  split
  · rename_i hnull
    simp [hnull]
  · rename_i hnull
    cases t.write p (Text.Utf8.encode text) <;> simp [hnull]

/-- A file in a directory is not written exactly if its path is too long or is that of a
directory. -/
theorem writeText_child_eq_error {name text : String} (hname : IsName name)
    (hnull : holdsNull d.text = false) (hd : t.isDirectory d = true) :
    (∃ f, t.writeText (d.child name) text = .error f) ↔
      isTooLong (d.child name).text = true ∨ t.isDirectory (d.child name) = true := by
  obtain ⟨place, hplace, hentry⟩ := isDirectory_iff.1 hd
  constructor
  · rintro ⟨f, hrefused⟩
    by_contra hfree
    rw [not_or, Bool.not_eq_true] at hfree
    have hchild := placeOf_child hname hplace hentry hfree.1
    have hnone : t.entryAt? (place ++ [name]) ≠ some .directory := fun hdirectory =>
      hfree.2 (isDirectory_iff.2 ⟨_, hchild, hdirectory⟩)
    have hwritten : t.writeText (d.child name) text = .ok _ := writeText_eq_ok.2
      ⟨FilePath.holdsNull_child hnull hname.asked, write_eq_ok.2 ⟨_, hchild, hnone, rfl⟩⟩
    rw [hwritten] at hrefused
    cases hrefused
  · intro hrefused
    cases hwritten : t.writeText (d.child name) text with
    | error f => exact ⟨f, rfl⟩
    | ok t' =>
        obtain ⟨q, hq, hnone, -⟩ := write_eq_ok.1 (writeText_eq_ok.1 hwritten).2
        rcases hrefused with hlong | hdirectory
        · rw [placeOf_eq, if_pos hlong] at hq
          cases hq
        · obtain ⟨q', hq', hdirectory⟩ := isDirectory_iff.1 hdirectory
          rw [hq] at hq'
          cases hq'
          exact absurd hdirectory hnone

/-- Writing a file in a directory leaves alone what is a directory there. -/
theorem isDirectory_child_of_write {name other : String} {content : List UInt8}
    (hname : IsName name) (hother : IsName other) (hne : other ≠ name)
    (hd : t.isDirectory d = true) (h : t.write (d.child name) content = .ok t') :
    t'.isDirectory (d.child other) = t.isDirectory (d.child other) := by
  obtain ⟨place, hplace, hentry⟩ := isDirectory_iff.1 hd
  obtain ⟨q, hq, hnone, rfl⟩ := write_eq_ok.1 h
  have hkeeps : t.Keeps (t.put q (.file content)) := keeps_put hnone
  rw [Bool.eq_iff_iff, isDirectory_iff, isDirectory_iff]
  by_cases hlong : isTooLong (d.child other).text = true
  · simp [placeOf_eq, hlong]
  · rw [Bool.not_eq_true] at hlong
    have hchild := placeOf_child hother hplace hentry hlong
    have hdiffers : place ++ [other] ≠ q := placeOf_child_ne hname hother hne hq hchild
    rw [hchild, placeOf_of_keeps hkeeps hchild]
    simp [entryAt?_put_of_ne hdiffers]

/-- Writing a file in a directory leaves alone what can be read from another one there. -/
theorem read_child_of_write {name other : String} {content content' : List UInt8}
    (hname : IsName name) (hother : IsName other) (hne : other ≠ name)
    (hread : t.read (d.child other) = .ok content')
    (h : t.write (d.child name) content = .ok t') : t'.read (d.child other) = .ok content' := by
  obtain ⟨place, hplace, hentry⟩ := read_eq_ok.1 hread
  obtain ⟨q, hq, hnone, rfl⟩ := write_eq_ok.1 h
  have hdiffers : place ≠ q := placeOf_child_ne hname hother hne hq hplace
  refine read_eq_ok.2 ⟨place, placeOf_of_keeps (keeps_put hnone) hplace, ?_⟩
  rw [entryAt?_put_of_ne hdiffers, hentry]

/-- Writing what can be read already changes nothing. -/
theorem same_of_write {content : List UInt8} (hread : t.read p = .ok content)
    (h : t.write p content = .ok t') : t.Same t' := by
  obtain ⟨place, hplace, hentry⟩ := read_eq_ok.1 hread
  obtain ⟨q, hq, hnone, rfl⟩ := write_eq_ok.1 h
  rw [hplace] at hq
  cases hq
  intro q
  by_cases hq : q = place
  · subst hq
    rw [entryAt?_put_self (isStart_of_not_directory hnone), hentry]
  · exact entryAt?_put_of_ne hq _

end FileTree

end ApiAuthz
