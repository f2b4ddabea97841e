/-
Parts of a text between separators, which are those of `List.splitOn`. A separator starts a new
part (`splitOn_cons_self`), and any other character goes on with the part behind it
(`splitOn_cons_of_ne`). An induction over the text needs no more than these two, and by one it
follows that the parts hold what stands in the text and that the separator is in none of them
(`exists_mem_splitOn_iff`). Paths are cut at slashes: what is read of a URL in
`Proofs/SanitizedPath`, and what leads to a file in `Proofs/PathText`, rests on this.

The end of a text without a class of characters is Mathlib's `rdropWhile` (`stripRight_eq`).
-/
import ApiAuthz.Text.Classes
import Mathlib.Data.List.DropRight

namespace ApiAuthz.Text

variable {separator c : Char} {cs part : List Char}

-- ==================================================== parts

theorem splitOn_cons_self (separator : Char) (cs : List Char) :
    List.splitOn separator (separator :: cs) = [] :: List.splitOn separator cs := by
  rw [List.splitOn_cons_eq_if_modifyHead, if_pos BEq.rfl]

/-- A character that separates nothing goes on with the part behind it. -/
theorem splitOn_cons_of_ne (h : c ≠ separator) (cs : List Char) :
    ∃ part parts, List.splitOn separator cs = part :: parts ∧
      List.splitOn separator (c :: cs) = (c :: part) :: parts := by
  obtain ⟨part, parts, hparts⟩ := List.exists_cons_of_ne_nil (List.splitOn_ne_nil separator cs)
  refine ⟨part, parts, hparts, ?_⟩
  rw [List.splitOn_cons_eq_if_modifyHead, if_neg (by simpa using h), hparts]
  rfl

/-- What stands in the parts is what stands in the text, but for the separator. -/
theorem exists_mem_splitOn_iff :
    (∃ part ∈ List.splitOn separator cs, c ∈ part) ↔ c ∈ cs ∧ c ≠ separator := by
  induction cs with
  | nil => simp
  | cons d cs ih =>
      by_cases hd : d = separator
      · subst hd
        rw [splitOn_cons_self, List.exists_mem_cons_iff, ih, List.mem_cons]
        constructor
        · rintro (hnone | ⟨hc, hne⟩)
          · cases hnone
          · exact ⟨Or.inr hc, hne⟩
        · rintro ⟨rfl | hc, hne⟩
          · exact absurd rfl hne
          · exact Or.inr ⟨hc, hne⟩
      · obtain ⟨part, parts, hparts, hsplit⟩ := splitOn_cons_of_ne hd cs
        rw [hparts, List.exists_mem_cons_iff] at ih
        rw [hsplit, List.exists_mem_cons_iff, List.mem_cons, or_assoc, ih, List.mem_cons]
        constructor
        · rintro (rfl | ⟨hc, hne⟩)
          · exact ⟨Or.inl rfl, hd⟩
          · exact ⟨Or.inr hc, hne⟩
        · rintro ⟨rfl | hc, hne⟩
          · exact Or.inl rfl
          · exact Or.inr ⟨hc, hne⟩

/-- No part has the separator in it. -/
theorem notMem_of_mem_splitOn (h : part ∈ List.splitOn separator cs) : separator ∉ part :=
  fun hc => (exists_mem_splitOn_iff.1 ⟨part, h, hc⟩).2 rfl

-- ==================================================== ends

/-- Stripping at the right is dropping from the right. -/
theorem stripRight_eq (p : Char → Bool) (cs : List Char) : stripRight p cs = cs.rdropWhile p :=
  rfl

end ApiAuthz.Text
