/-
Paths as they are written. A text and the path it is read as lead to the same entry: the
parts that do not count stay where they are (`walk_filter_isPart`), and the path is no longer
than the text (`utf8ByteSize_ofString_le`), so it is not too long if the text is not
(`entryOf_of_entryOfText`). They also hold the same characters but for slashes and dots, so a
null character stands in both or in neither (`holdsNull_ofString`).

# Counting octets

The limit on the length of a path is one of octets. A part takes its octets and one for a slash
(`room`), so a text takes the room of its parts less one (`room_splitOn`), and leaving parts out
takes no more of it (`room_filter_le`). The slashes at the start have to be counted apart: one
or two of them stay as the root of the path, and they stand for empty parts that are left out
(`slashes`, `room_filter_isPart`, `utf8ByteSize_rootOf_le`).
-/
import ApiAuthz.Proofs.FileTree
import ApiAuthz.Proofs.Text.Parts
import Mathlib.Algebra.GroupWithZero.Nat

namespace ApiAuthz

namespace FilePath

-- ==================================================== lengths

/-- The octets of characters. -/
def octets (cs : List Char) : Nat := (String.ofList cs).utf8ByteSize

/-- Octets are counted character by character. -/
theorem octets_cons (c : Char) (cs : List Char) : octets (c :: cs) = octets [c] + octets cs := by
  unfold octets
  rw [← List.singleton_append, String.ofList_append, String.utf8ByteSize_append]

theorem octets_pos (c : Char) : 0 < octets [c] := by
  have hsize : octets [c] = c.utf8Size := by
    simp [octets]
  rw [hsize]
  exact Char.utf8Size_pos c

/-- The octets of parts, with one more for each of them. -/
def room (parts : List (List Char)) : Nat := (parts.map fun part => octets part + 1).sum

/-- A part takes its octets and one for the slash. -/
theorem room_cons (part : List Char) (parts : List (List Char)) :
    room (part :: parts) = octets part + 1 + room parts := by
  unfold room
  rw [List.map_cons, List.sum_cons]

/-- A text has as many octets as its parts and what stands between them. -/
theorem room_splitOn (cs : List Char) : room (List.splitOn '/' cs) = octets cs + 1 := by
  induction cs with
  | nil => rfl
  | cons c cs ih =>
      by_cases hc : c = '/'
      · have hslash : octets ['/'] = 1 := by decide
        have hnone : octets [] = 0 := rfl
        rw [hc, Text.splitOn_cons_self, room_cons, ih, octets_cons]
        omega
      · obtain ⟨part, parts, hparts, hsplit⟩ := Text.splitOn_cons_of_ne hc cs
        rw [hparts, room_cons] at ih
        rw [hsplit, room_cons, octets_cons, octets_cons c cs]
        omega

/-- Fewer parts take no more room. -/
theorem room_filter_le (p : List Char → Bool) (parts : List (List Char)) :
    room (parts.filter p) ≤ room parts := by
  induction parts with
  | nil => exact Nat.le_refl _
  | cons part parts ih =>
      rw [List.filter_cons, room_cons]
      split
      · rw [room_cons]
        omega
      · omega

/-- The slashes a text starts with. -/
def slashes (cs : List Char) : Nat := (cs.takeWhile (· == '/')).length

/-- Slashes at the start leave empty parts, which take room but do not count. -/
theorem room_filter_isPart (cs : List Char) :
    room ((List.splitOn '/' cs).filter isPart) + slashes cs ≤ octets cs + 1 := by
  induction cs with
  | nil => decide
  | cons c cs ih =>
      by_cases hc : c = '/'
      · have hslash : octets ['/'] = 1 := by decide
        have hslashes : slashes ('/' :: cs) = slashes cs + 1 := rfl
        have hempty : isPart [] = false := rfl
        subst hc
        rw [Text.splitOn_cons_self, List.filter_cons_of_neg (by rw [hempty]; decide), hslashes,
          octets_cons]
        omega
      · have hslashes : slashes (c :: cs) = 0 := by
          unfold slashes
          rw [List.takeWhile_cons_of_neg (by simpa using hc)]
          rfl
        have hfilter := room_filter_le isPart (List.splitOn '/' (c :: cs))
        rw [room_splitOn] at hfilter
        omega

/-- Joined parts take the room of all but one slash. -/
theorem utf8ByteSize_joined {parts : List (List Char)} (h : parts ≠ []) :
    (joined "/" (parts.map String.ofList)).utf8ByteSize + 1 = room parts := by
  induction parts with
  | nil => exact absurd rfl h
  | cons part parts ih =>
      cases parts with
      | nil => rfl
      | cons other parts =>
          have hrest := ih (List.cons_ne_nil _ _)
          have hslash : "/".utf8ByteSize = 1 := rfl
          rw [room_cons, ← hrest]
          show (String.ofList part ++ "/" ++ joined "/" ((other :: parts).map _)).utf8ByteSize + 1 =
            (String.ofList part).utf8ByteSize + 1 + _
          rw [String.utf8ByteSize_append, String.utf8ByteSize_append]
          omega

/-- The root is no longer than the slashes at the front. -/
theorem utf8ByteSize_rootOf_le (cs : List Char) : (rootOf cs).utf8ByteSize ≤ slashes cs := by
  unfold rootOf slashes
  split
  · exact Nat.zero_le _
  · next h => rw [h]; decide
  · next h _ => exact Nat.one_le_iff_ne_zero.2 h

theorem slashes_le (cs : List Char) : slashes cs ≤ octets cs := by
  induction cs with
  | nil => exact Nat.le_refl _
  | cons c cs ih =>
      have hpos := octets_pos c
      unfold slashes at ih ⊢
      rw [octets_cons, List.takeWhile_cons]
      split
      · rw [List.length_cons]
        omega
      · exact Nat.zero_le _

/-- The path a text is read as is no longer than the text. -/
theorem utf8ByteSize_ofString_le {s : String} (h : s ≠ "") :
    (ofString s).text.utf8ByteSize ≤ s.utf8ByteSize := by
  have hs : s.utf8ByteSize = octets s.toList := by rw [octets, String.ofList_toList]
  have hroot := utf8ByteSize_rootOf_le s.toList
  have hparts : (ofString s).parts =
      ((List.splitOn '/' s.toList).filter isPart).map String.ofList := rfl
  rw [hs]
  by_cases hnone : (List.splitOn '/' s.toList).filter isPart = []
  · rw [hnone, List.map_nil] at hparts
    by_cases hhere : (ofString s).root = ""
    · have hdot : (ofString s).text = "." := by simp [text, hhere, hparts]
      have hpos : s.utf8ByteSize ≠ 0 := fun hzero => h (String.utf8ByteSize_eq_zero_iff.1 hzero)
      have hone : ".".utf8ByteSize = 1 := rfl
      rw [hdot, ← hs]
      omega
    · have htext : (ofString s).text = (ofString s).root := by
        simp [text, hparts, hhere, joined]
      rw [htext]
      exact Nat.le_trans hroot (slashes_le _)
  · have hjoined := utf8ByteSize_joined hnone
    have hroom := room_filter_isPart s.toList
    have htext : (ofString s).text = rootOf s.toList ++
        joined "/" (((List.splitOn '/' s.toList).filter isPart).map String.ofList) := by
      simp [text, hnone, ofString]
    rw [htext, String.utf8ByteSize_append]
    omega

-- ==================================================== null characters

/-- A character of joined parts is a slash or in one of them. -/
theorem mem_joined {parts : List String} {c : Char} (h : c ∈ (joined "/" parts).toList) :
    c = '/' ∨ ∃ part ∈ parts, c ∈ part.toList := by
  induction parts with
  | nil => cases h
  | cons part parts ih =>
      cases parts with
      | nil => exact Or.inr ⟨part, List.mem_cons_self, h⟩
      | cons other parts =>
          change c ∈ (part ++ "/" ++ joined "/" (other :: parts)).toList at h
          rw [String.toList_append, String.toList_append, List.mem_append, List.mem_append] at h
          rcases h with (h | h) | h
          · exact Or.inr ⟨part, List.mem_cons_self, h⟩
          · exact Or.inl (List.mem_singleton.1 h)
          · rcases ih h with hslash | ⟨part', hpart', hc⟩
            · exact Or.inl hslash
            · exact Or.inr ⟨part', List.mem_cons_of_mem _ hpart', hc⟩

/-- The characters of a part are in the joined text. -/
theorem mem_joined_of_mem {parts : List String} {part : String} {c : Char} (h : part ∈ parts)
    (hc : c ∈ part.toList) : c ∈ (joined "/" parts).toList := by
  induction parts with
  | nil => cases h
  | cons first parts ih =>
      cases parts with
      | nil =>
          rw [List.mem_singleton] at h
          rwa [h] at hc
      | cons other parts =>
          show c ∈ (first ++ "/" ++ joined "/" (other :: parts)).toList
          rw [String.toList_append, String.toList_append, List.mem_append, List.mem_append]
          rcases List.mem_cons.1 h with rfl | h
          · exact Or.inl (Or.inl hc)
          · exact Or.inr (ih h)

/-- What stands in a part of a path stands in its text. -/
theorem mem_text_of_mem {p : FilePath} {part : String} {c : Char} (h : part ∈ p.parts)
    (hc : c ∈ part.toList) : c ∈ p.text.toList := by
  have hparts : p.parts ≠ [] := List.ne_nil_of_mem h
  have htext : p.text = p.root ++ joined "/" p.parts := by simp [text, hparts]
  rw [htext, String.toList_append]
  exact List.mem_append_right _ (mem_joined_of_mem h hc)

/-- A text without a null character is read as a path without one. -/
theorem holdsNull_ofString {s : String} (h : holdsNull s = false) :
    holdsNull (ofString s).text = false := by
  simp only [holdsNull, List.contains_eq_mem, decide_eq_false_iff_not] at h ⊢
  have hroot : '\x00' ∉ (rootOf s.toList).toList := by
    unfold rootOf
    split <;> decide
  have hparts : '\x00' ∉ (joined "/" (ofString s).parts).toList := by
    intro hnull
    rcases mem_joined hnull with hslash | ⟨part, hpart, hc⟩
    · cases hslash
    · obtain ⟨cs, hcs, rfl⟩ := List.mem_map.1 hpart
      rw [String.toList_ofList] at hc
      exact h (Text.exists_mem_splitOn_iff.1 ⟨cs, (List.mem_filter.1 hcs).1, hc⟩).1
  unfold text
  split
  · decide
  · rw [String.toList_append, List.mem_append, not_or]
    exact ⟨hroot, hparts⟩

/-- A path read from a text with a null character has it in one of its parts. -/
theorem exists_part_of_holdsNull {s : String} (h : holdsNull s = true) :
    ∃ part ∈ (ofString s).parts, '\x00' ∈ part.toList := by
  simp only [holdsNull, List.contains_eq_mem, decide_eq_true_eq] at h
  have hne : '\x00' ≠ '/' := by decide
  obtain ⟨cs, hcs, hnull⟩ := Text.exists_mem_splitOn_iff.2 ⟨h, hne⟩
  have hpart : isPart cs = true := by
    unfold isPart
    rw [Bool.and_eq_true, Bool.not_eq_true', List.isEmpty_eq_false_iff, bne_iff_ne]
    refine ⟨List.ne_nil_of_mem hnull, ?_⟩
    rintro rfl
    cases List.mem_singleton.1 hnull
  refine ⟨String.ofList cs, List.mem_map_of_mem (List.mem_filter.2 ⟨hcs, hpart⟩), ?_⟩
  rwa [String.toList_ofList]

end FilePath

namespace FileTree

open FilePath (isPart isTooLong ofString)

variable {t : FileTree}

-- ==================================================== entries

/-- What is no part leads nowhere, so it may be dropped from a path. -/
theorem step_of_not_isPart {part : List Char} (h : ¬isPart part = true) (place : Place) :
    step place (String.ofList part) = place := by
  have hpart : part = [] ∨ part = ['.'] := by
    simpa [isPart, Decidable.or_iff_not_imp_left] using h
  rcases hpart with rfl | rfl
  · rfl
  · rfl

/-- Parts that do not count stay where they are. -/
theorem walk_filter_isPart {place q : Place} {parts : List (List Char)}
    (h : t.walk place (parts.map String.ofList) = .ok q) :
    t.walk place ((parts.filter isPart).map String.ofList) = .ok q := by
  induction parts generalizing place with
  | nil => exact h
  | cons part parts ih =>
      rw [List.map_cons, walk] at h
      split at h
      · next hdirectory =>
        split at h
        · cases h
        · next hshort =>
          by_cases hpart : isPart part = true
          · rw [List.filter_cons_of_pos hpart, List.map_cons, walk, hdirectory]
            show (if _ then _ else _) = _
            rw [if_neg hshort]
            exact ih h
          · rw [List.filter_cons_of_neg hpart]
            rw [step_of_not_isPart hpart] at h
            exact ih h
      · cases h
      · cases h

/-- A text and the path it is read as lead to the same. -/
theorem entryOf_of_entryOfText {s : String} {e : Entry} (h : t.entryOfText s = .ok e) :
    t.entryOf (ofString s) = .ok e := by
  unfold entryOfText at h
  split at h
  · cases h
  · next hsome =>
    split at h
    · cases h
    · next hshort =>
      have hsize := FilePath.utf8ByteSize_ofString_le fun hs => hsome (beq_iff_eq.2 hs)
      have hshort' : ¬isTooLong (ofString s).text = true := by
        simp only [isTooLong, decide_eq_true_eq] at hshort ⊢
        omega
      cases hwalk : t.walk (startOf (ofString s))
          ((List.splitOn '/' s.toList).map String.ofList) with
      | error f =>
          change (t.walk (startOf (ofString s)) _ >>= t.entryAtPlace) = .ok e at h
          rw [hwalk] at h
          cases h
      | ok q =>
          change (t.walk (startOf (ofString s)) _ >>= t.entryAtPlace) = .ok e at h
          rw [hwalk] at h
          unfold entryOf
          rw [placeOf_eq, if_neg hshort']
          show (t.walk (startOf (ofString s))
            (((List.splitOn '/' s.toList).filter isPart).map String.ofList) >>= _) = _
          rw [walk_filter_isPart hwalk]
          exact h

end FileTree

end ApiAuthz
