/-
Texts of paths. The path of a name in a directory is the name behind a text that
depends on the directory alone (`exists_text_child`); so whether it is too long hangs
on the length of the name, and it holds no null character if neither part does.

A parent has a shorter text than its child (`isTooLong_of_parent`), so what is known of
the length of a path is known of all directories on the way to it. Names here are single
parts that are none of the special ones (`IsName`); a path that starts at a root or at
the present directory is `Rooted`, and every path that is read from a text does.
-/
import ApiAuthz.FilePath

namespace ApiAuthz

namespace FilePath

-- ==================================================== lengths

/-- The last part stands behind a separator. -/
theorem joined_concat (separator name : String) {parts : List String} (h : parts ≠ []) :
    joined separator (parts ++ [name]) = joined separator parts ++ separator ++ name := by
  induction parts with
  | nil => exact absurd rfl h
  | cons part parts ih =>
      match parts, ih with
      | [], _ => rfl
      | other :: rest, ih =>
          show part ++ separator ++ joined separator (other :: rest ++ [name]) = _
          rw [ih (by simp)]
          simp [joined, String.append_assoc]

/-- Without its last part a path is no longer. -/
theorem utf8ByteSize_joined_dropLast (separator : String) (parts : List String) :
    (joined separator parts.dropLast).utf8ByteSize ≤ (joined separator parts).utf8ByteSize := by
  rcases List.eq_nil_or_concat parts with rfl | ⟨rest, last, rfl⟩
  · exact Nat.le_refl _
  · rw [List.concat_eq_append, List.dropLast_concat]
    by_cases hrest : rest = []
    · rw [hrest]
      exact Nat.zero_le _
    · rw [joined_concat separator last hrest]
      simp only [String.utf8ByteSize_append]
      omega

/-- What a path lies in is too long only if the path is. -/
theorem isTooLong_of_parent {p : FilePath} (h : isTooLong p.parent.text = true) :
    isTooLong p.text = true := by
  have hshorter := utf8ByteSize_joined_dropLast "/" p.parts
  simp only [isTooLong, decide_eq_true_eq] at h ⊢
  by_cases hparent : p.root = "" ∧ p.parts.dropLast = []
  · have hdot : p.parent.text = "." := by simp [text, parent, hparent]
    rw [hdot] at h
    exact absurd h (by decide)
  · have hpath : ¬(p.root = "" ∧ p.parts = []) := fun hp => hparent ⟨hp.1, by rw [hp.2]; rfl⟩
    have hparentText : p.parent.text = p.root ++ joined "/" p.parts.dropLast := by
      simp [text, parent, hparent]
    have hpathText : p.text = p.root ++ joined "/" p.parts := by
      simp [text, hpath]
    rw [hparentText, String.utf8ByteSize_append] at h
    rw [hpathText, String.utf8ByteSize_append]
    omega

/-- A parent has a shorter path. -/
theorem isTooLong_parent {p : FilePath} (h : isTooLong p.text = false) :
    isTooLong p.parent.text = false := by
  rw [Bool.eq_false_iff] at h ⊢
  exact fun hparent => h (isTooLong_of_parent hparent)

-- ==================================================== names in a directory

/-- A name that can stand in a directory. -/
structure IsName (name : String) : Prop where
  short : isPartTooLong name = false
  asked : holdsNull name = false
  stays : name ≠ "" ∧ name ≠ "." ∧ name ≠ ".."

/-- The parent of a child is where it was put. -/
theorem parent_child (p : FilePath) (name : String) : (p.child name).parent = p := by
  simp [child, parent]

/-- The path of a name in a directory is the name behind a text of the directory's own. -/
theorem exists_text_child (p : FilePath) :
    ∃ s, (∀ c ∈ s.toList, c ∈ p.text.toList ∨ c = '/') ∧
      ∀ name, (p.child name).text = s ++ name := by
  by_cases hparts : p.parts = []
  · refine ⟨p.root, fun c hc => Or.inl ?_, fun name => by simp [text, child, hparts, joined]⟩
    have hroot : p.root ≠ "" := by
      rintro hroot
      simp [hroot] at hc
    simpa [text, hroot, hparts, joined] using hc
  · have htext : p.text = p.root ++ joined "/" p.parts := by simp [text, hparts]
    refine ⟨p.text ++ "/", fun c hc => by simpa using hc, fun name => ?_⟩
    rw [htext]
    simp [text, child, joined_concat _ _ hparts, String.append_assoc]

/-- No null character comes in with a name that has none. -/
theorem holdsNull_child {p : FilePath} {name : String} (hp : holdsNull p.text = false)
    (hname : holdsNull name = false) : holdsNull (p.child name).text = false := by
  obtain ⟨s, hs, htext⟩ := exists_text_child p
  simp only [holdsNull, List.contains_eq_mem, decide_eq_false_iff_not] at hp hname ⊢
  rw [htext, String.toList_append, List.mem_append]
  rintro (hnull | hnull)
  · rcases hs _ hnull with hnull | hslash
    · exact hp hnull
    · exact absurd hslash (by decide)
  · exact hname hnull

/-- Only the number of octets of a name matters to the length of its path. -/
theorem isTooLong_child_congr (p : FilePath) {name name' : String}
    (h : name.utf8ByteSize = name'.utf8ByteSize) :
    isTooLong (p.child name).text = isTooLong (p.child name').text := by
  obtain ⟨s, -, htext⟩ := exists_text_child p
  simp only [isTooLong, htext, String.utf8ByteSize_append, h]

-- ==================================================== paths that start somewhere

/-- A path from the present directory or from a root. -/
def Rooted (p : FilePath) : Prop := p.root = "" ∨ p.root = "/" ∨ p.root = "//"

/-- A path that is read from a text starts at a root or at the present directory. -/
theorem rooted_ofString (s : String) : (ofString s).Rooted := by
  unfold Rooted ofString rootOf
  split
  · exact Or.inl rfl
  · exact Or.inr (Or.inr rfl)
  · exact Or.inr (Or.inl rfl)

end FilePath

end ApiAuthz
