/-
How a place moves through a text. Whatever moves it moves it by a number of characters, so all
of it comes down to `advanceBy`: what remains, how many characters came before, and the line,
which is the same exactly if no line ended on the way. Runs of blanks and breaks are passed as
a whole.

A place is described by what stands in front of it: `c.rest = cs ++ rest` says that `cs` comes next,
and the lemmas tell the place behind `cs` (`rest_advanceBy_length`, `index_advanceBy`,
`line_advanceBy_iff`). Moves add up (`advanceBy_add`), so a place that was reached in several steps
is the same as one reached at once. Carriage returns are kept out, since a line feed behind one
belongs to the same line end; texts of files have none left.
-/
import ApiAuthz.Yaml.Cursor

namespace ApiAuthz.Yaml

/-- What a line break counts as: the two separators as themselves, all others as a line feed. -/
def fed (b : Char) : Char := if b = '\u2028' ∨ b = '\u2029' then b else '\n'

namespace Cursor

variable {c : Cursor} {ch : Char} {cs rest : List Char}

-- ==================================================== one character

/-- One character is passed. -/
theorem rest_advance (c : Cursor) : c.advance.rest = c.rest.tail := by
  unfold advance
  split
  · next h => rw [h]; rfl
  · next h =>
    rw [h]
    dsimp only
    split
    · rfl
    · split <;> rfl

theorem size_advance (c : Cursor) : c.advance.size = c.size := by
  unfold advance
  split
  · rfl
  · dsimp only
    split
    · rfl
    · split <;> rfl

/-- And counted. -/
theorem index_advance (h : c.rest = ch :: cs) : c.advance.index = c.index + 1 := by
  unfold advance
  rw [h]
  dsimp only
  split
  · rfl
  · split <;> rfl

/-- A break ends the line; a carriage return would do so only if no line feed followed. -/
theorem line_advance (h : c.rest = ch :: cs) (hr : ch ≠ '\r') :
    c.advance.line = if isBreak ch then c.line + 1 else c.line := by
  unfold advance
  rw [h]
  dsimp only
  have hreturn : (ch == '\r') = false := beq_eq_false_iff_ne.2 hr
  rw [hreturn, Bool.false_and, Bool.not_false, Bool.and_true]
  split
  · rfl
  · split <;> rfl

-- ==================================================== many characters

theorem advance_eq (c : Cursor) : c.advance = c.advanceBy 1 := rfl

/-- Steps are counted together. -/
theorem advanceBy_add (m n : Nat) (c : Cursor) :
    c.advanceBy (m + n) = (c.advanceBy m).advanceBy n := by
  induction m generalizing c with
  | zero => rw [Nat.zero_add]; rfl
  | succ m ih => rw [Nat.succ_add]; exact ih c.advance

/-- So many characters are passed. -/
theorem rest_advanceBy (n : Nat) (c : Cursor) : (c.advanceBy n).rest = c.rest.drop n := by
  induction n generalizing c with
  | zero => rfl
  | succ n ih =>
      show (c.advance.advanceBy n).rest = _
      rw [ih, rest_advance, List.drop_tail]

/-- What was in front of the rest is passed. -/
theorem rest_advanceBy_length (h : c.rest = cs ++ rest) : (c.advanceBy cs.length).rest = rest := by
  rw [rest_advanceBy, h, List.drop_left]

theorem rest_advanceBy_succ (h : c.rest = cs ++ ch :: rest) :
    (c.advanceBy (cs.length + 1)).rest = rest := by
  rw [advanceBy_add, ← advance_eq, rest_advance, rest_advanceBy_length h]
  rfl

theorem size_advanceBy (n : Nat) (c : Cursor) : (c.advanceBy n).size = c.size := by
  induction n generalizing c with
  | zero => rfl
  | succ n ih => exact (ih c.advance).trans (size_advance c)

/-- No more is left than the whole text. -/
theorem rest_le_size_advanceBy (n : Nat) (h : c.rest.length ≤ c.size) :
    (c.advanceBy n).rest.length ≤ (c.advanceBy n).size := by
  rw [rest_advanceBy, size_advanceBy, List.length_drop]
  omega

/-- Characters are counted as they are passed. -/
theorem index_advanceBy (h : c.rest = cs ++ rest) :
    (c.advanceBy cs.length).index = c.index + cs.length := by
  induction cs generalizing c with
  | nil => rfl
  | cons ch cs ih =>
      have hrest : c.advance.rest = cs ++ rest := by rw [rest_advance, h]; rfl
      show (c.advance.advanceBy cs.length).index = _
      rw [ih hrest, index_advance h, List.length_cons]
      omega

/-- Lines are never counted back. -/
theorem line_le_advanceBy (h : c.rest = cs ++ rest) (hr : '\r' ∉ cs) :
    c.line ≤ (c.advanceBy cs.length).line := by
  induction cs generalizing c with
  | nil => exact Nat.le_refl _
  | cons ch cs ih =>
      rw [List.mem_cons, not_or] at hr
      have hrest : c.advance.rest = cs ++ rest := by rw [rest_advance, h]; rfl
      have hnext := ih hrest hr.2
      rw [line_advance h (Ne.symm hr.1)] at hnext
      show c.line ≤ (c.advance.advanceBy cs.length).line
      split at hnext <;> omega

/-- The line is the same if no line ends on the way. -/
theorem line_advanceBy_iff (h : c.rest = cs ++ rest) (hr : '\r' ∉ cs) :
    (c.advanceBy cs.length).line = c.line ↔ ∀ ch ∈ cs, isBreak ch = false := by
  induction cs generalizing c with
  | nil => simp [advanceBy]
  | cons ch cs ih =>
      rw [List.mem_cons, not_or] at hr
      have hrest : c.advance.rest = cs ++ rest := by rw [rest_advance, h]; rfl
      have hline := line_advance h (Ne.symm hr.1)
      have hle := line_le_advanceBy hrest hr.2
      rw [List.forall_mem_cons, ← ih hrest hr.2]
      show (c.advance.advanceBy cs.length).line = _ ↔ _
      rw [hline] at hle ⊢
      cases hb : isBreak ch with
      | false => simp
      | true =>
          rw [hb, if_pos rfl] at hle
          rw [if_pos rfl]
          simp only [Bool.true_eq_false, false_and, iff_false]
          omega

-- ==================================================== runs

/-- A run of a class is taken up to what is not of it. -/
theorem takeWhile_eq {p : Char → Bool} (h : c.rest = cs ++ rest) (hcs : ∀ ch ∈ cs, p ch = true)
    (hrest : ∀ ch ∈ rest.head?, p ch = false) :
    c.takeWhile p = (cs, c.advanceBy cs.length) := by
  have htaken : c.rest.takeWhile p = cs := by
    rw [h, List.takeWhile_append_of_pos hcs]
    cases rest with
    | nil => simp
    | cons ch rest => simp [hrest ch rfl]
  unfold takeWhile
  rw [htaken]

/-- A break is taken as a line feed, or as itself. -/
theorem lineBreak?_of_break (h : c.rest = ch :: rest) (hb : isBreak ch = true) (hr : ch ≠ '\r') :
    c.lineBreak? = some (fed ch, c.advance) := by
  unfold lineBreak?
  rw [h]
  split
  · next heq => exact absurd (List.cons.inj heq).1 hr
  · next heq =>
    cases heq
    unfold fed
    by_cases hsep : ch = '\u2028' ∨ ch = '\u2029'
    · rcases hsep with rfl | rfl <;> rfl
    · have hne := not_or.1 hsep
      simp [hne.1, hne.2, hb]
  · next heq => cases heq

/-- The break behind some characters, and the place behind it. -/
theorem lineBreak?_advanceBy (h : c.rest = cs ++ ch :: rest) (hb : isBreak ch = true)
    (hr : ch ≠ '\r') :
    (c.advanceBy cs.length).lineBreak? = some (fed ch, c.advanceBy (cs.length + 1)) := by
  rw [lineBreak?_of_break (rest_advanceBy_length h) hb hr, advance_eq, ← advanceBy_add]

/-- Where no break stands none is taken. -/
theorem lineBreak?_of_head (h : ∀ ch ∈ c.rest.head?, isBreak ch = false) :
    c.lineBreak? = none := by
  unfold lineBreak?
  split
  · next heq =>
    rw [heq] at h
    cases h _ rfl
  · next hnone heq =>
    rw [heq] at h
    have hb := h _ rfl
    simp only [isBreak, Bool.or_eq_false_iff] at hb
    simp [hb, isBreak]
  · rfl

end Cursor

-- ==================================================== spaces and line feeds

/-- Spaces and line feeds. -/
def IsSpacing (run : List Char) : Prop := ∀ ch ∈ run, ch = ' ' ∨ ch = '\n'

theorem IsSpacing.tail {ch : Char} {run : List Char} (h : IsSpacing (ch :: run)) :
    IsSpacing run := fun d hd => h d (List.mem_cons_of_mem _ hd)

/-- Spacing is spaces, or spaces and a line feed and more spacing. -/
theorem IsSpacing.cases {run : List Char} (h : IsSpacing run) :
    ∃ spaces, (∀ ch ∈ spaces, ch = ' ') ∧
      (run = spaces ∨ ∃ more, run = spaces ++ '\n' :: more ∧ IsSpacing more) := by
  induction run with
  | nil => exact ⟨[], List.forall_mem_nil _, Or.inl rfl⟩
  | cons ch run ih =>
      rcases h ch (List.mem_cons_self ..) with rfl | rfl
      · obtain ⟨spaces, hspaces, hcases⟩ := ih h.tail
        refine ⟨' ' :: spaces, List.forall_mem_cons.2 ⟨rfl, hspaces⟩, ?_⟩
        rcases hcases with rfl | ⟨more, rfl, hmore⟩
        · exact Or.inl rfl
        · exact Or.inr ⟨more, rfl, hmore⟩
      · exact ⟨[], List.forall_mem_nil _, Or.inr ⟨run, rfl, h.tail⟩⟩

namespace Cursor

variable {c : Cursor} {run rest : List Char}

/-- What skipping spaces comes to in spacing: its end, or a line feed. -/
theorem takeWhile_spacing (hc : c.rest = run ++ rest) (hrun : IsSpacing run)
    (hrest : ∀ ch ∈ rest.head?, ch ≠ ' ' ∧ isBreak ch = false) :
    ∃ spaces, c.takeWhile (· == ' ') = (spaces, c.advanceBy spaces.length) ∧
      ((run = spaces ∧ (c.advanceBy spaces.length).lineBreak? = none) ∨
        ∃ more, run = spaces ++ '\n' :: more ∧ IsSpacing more ∧
          (c.advanceBy (spaces.length + 1)).rest = more ++ rest ∧
          (c.advanceBy spaces.length).lineBreak? =
            some ('\n', c.advanceBy (spaces.length + 1))) := by
  obtain ⟨spaces, hspaces, hcases⟩ := hrun.cases
  have htaken : ∀ ch ∈ spaces, (ch == ' ') = true := fun ch hch => beq_iff_eq.2 (hspaces ch hch)
  refine ⟨spaces, ?_⟩
  rcases hcases with rfl | ⟨more, rfl, hmore⟩
  · refine ⟨takeWhile_eq hc htaken fun ch hch => beq_eq_false_iff_ne.2 (hrest ch hch).1, ?_⟩
    refine Or.inl ⟨rfl, lineBreak?_of_head ?_⟩
    rw [rest_advanceBy_length hc]
    exact fun ch hch => (hrest ch hch).2
  · rw [List.append_assoc, List.cons_append] at hc
    refine ⟨takeWhile_eq hc htaken (by rintro _ ⟨⟩; rfl), Or.inr ⟨more, rfl, hmore, ?_⟩⟩
    exact ⟨rest_advanceBy_succ hc, lineBreak?_advanceBy hc rfl (by decide)⟩

end Cursor

end ApiAuthz.Yaml
