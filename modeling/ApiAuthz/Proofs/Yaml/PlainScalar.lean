/-
How a word in brackets is read as a plain scalar. The scalar is the word: the blanks and line
ends behind it are passed over, since what follows them ends the scalar (`scan_word`).

A plain scalar may go on behind blanks, and even on another line, so its end is only known when the
next word turns out to be empty. Behind a word of JSON stand a tab, a comma or a bracket, with or
without spacing before it (`EndsPlain`), and no word starts with one of these (`word_of_end`). No
document mark does either (`not_atMark`), so the breaks are passed as they are
(`breaks_spacing`, `gap_spacing`).

The place behind the scalar is behind the spacing, which is why a scan that has read a word has lost
the blanks up to the next tab.
-/
import ApiAuthz.Proofs.Yaml.QuotedScalar
import ApiAuthz.Yaml.PlainScalar

namespace ApiAuthz.Yaml.PlainScalar

open QuotedScalar (atMark atMark_iff atDocumentMark_eq)

variable {c : Cursor} {w run rest : List Char}

/-- Characters that plain scalars may have anywhere. -/
def isPlain (ch : Char) : Bool :=
  !(isSpaceOrTab ch || isBreak ch || ch == ':' || ch == '?' || ch == '#' || isFlowSign ch)

/-- A plain scalar in brackets ends here. -/
def EndsPlain (rest : List Char) : Prop := ∀ ch ∈ rest.head?, ch = '\t' ∨ isFlowSign ch = true

/-- What ends a word is no blank and no break. -/
theorem EndsPlain.not_break (h : EndsPlain rest) :
    ∀ ch ∈ rest.head?, ch ≠ ' ' ∧ isBreak ch = false := by
  intro ch hch
  rcases h ch hch with rfl | hsign
  · decide
  · simp only [isFlowSign, Bool.or_eq_true, beq_iff_eq] at hsign
    rcases hsign with (((rfl | rfl) | rfl) | rfl) | rfl <;> decide

/-- Nor is it a document mark. -/
theorem not_atMark (hrun : IsSpacing run) (hrest : EndsPlain rest) :
    atMark (run ++ rest) = false := by
  rw [Bool.eq_false_iff]
  intro hmark
  obtain ⟨m, hm, more, heq, _⟩ := atMark_iff.1 hmark
  cases run with
  | nil =>
      rw [List.nil_append] at heq
      rcases hrest m (by rw [heq]; rfl) with rfl | hsign
      · rcases hm with hm | hm <;> cases hm
      · rcases hm with rfl | rfl <;> cases hsign
  | cons ch run =>
      rw [List.cons_append] at heq
      obtain ⟨rfl, _⟩ := List.cons.inj heq
      rcases hrun ch (List.mem_cons_self ..) with rfl | rfl <;> rcases hm with hm | hm <;> cases hm

-- ==================================================== words

/-- No word is left in front of such an end. -/
theorem word_of_end (hrun : IsSpacing run) (hrest : EndsPlain rest) :
    word true (run ++ rest) = [] := by
  cases run with
  | nil =>
      cases rest with
      | nil => rfl
      | cons ch rest =>
          rcases hrest ch rfl with rfl | hsign
          · rfl
          · simp only [isFlowSign, Bool.or_eq_true, beq_iff_eq] at hsign
            rcases hsign with (((rfl | rfl) | rfl) | rfl) | rfl <;> rfl
  | cons ch run => rcases hrun ch (List.mem_cons_self ..) with rfl | rfl <;> rfl

/-- A word is taken up to the blanks behind it. -/
theorem word_append (hrun : IsSpacing run) (hrest : EndsPlain rest)
    (hw : ∀ ch ∈ w, isPlain ch = true) : word true (w ++ (run ++ rest)) = w := by
  induction w with
  | nil =>
      have hend := word_of_end hrun hrest
      exact hend
  | cons ch w ih =>
      rw [List.forall_mem_cons] at hw
      have hch := hw.1
      simp only [isPlain, Bool.not_eq_true', Bool.or_eq_false_iff] at hch
      obtain ⟨⟨⟨⟨⟨hblank, hbreak⟩, hcolon⟩, hmark⟩, _⟩, hsign⟩ := hch
      rw [List.cons_append, word, hblank, hbreak, hcolon, hmark, hsign]
      simp [ih hw.2]

-- ==================================================== gaps

theorem lineBreak?_end (hc : c.rest = rest) (hrest : EndsPlain rest) :
    c.sees ' ' = false ∧ c.lineBreak? = none := by
  constructor
  · unfold Cursor.sees
    rw [hc, beq_eq_false_iff_ne]
    intro heq
    exact (hrest.not_break ' ' heq).1 rfl
  · refine Cursor.lineBreak?_of_head ?_
    rw [hc]
    exact fun ch hch => (hrest.not_break ch hch).2

theorem breaks_spacing {fuel : Nat} (hfuel : run.length < fuel) (acc : List Char)
    (hc : c.rest = run ++ rest) (hrun : IsSpacing run) (hrest : EndsPlain rest) :
    ∃ text, breaks fuel acc c = (some text, c.advanceBy run.length) := by
  induction run generalizing fuel acc c with
  | nil =>
      obtain ⟨fuel, rfl⟩ : ∃ fuel', fuel = fuel' + 1 := ⟨fuel - 1, by omega⟩
      obtain ⟨hspace, hnone⟩ := lineBreak?_end hc hrest
      unfold breaks
      rw [hspace, hnone]
      exact ⟨acc.reverse, rfl⟩
  | cons ch run ih =>
      obtain ⟨fuel, rfl⟩ : ∃ fuel', fuel = fuel' + 1 := ⟨fuel - 1, by omega⟩
      have hnext : c.advance.rest = run ++ rest := by rw [Cursor.rest_advance, hc]; rfl
      have hfuel' : run.length < fuel := by
        rw [List.length_cons] at hfuel
        omega
      have hrun' := hrun.tail
      unfold breaks
      rcases hrun ch (List.mem_cons_self ..) with rfl | rfl
      · have hspace : c.sees ' ' = true := by
          unfold Cursor.sees
          rw [hc]
          rfl
        rw [if_pos hspace]
        exact ih hfuel' acc hnext hrun'
      · have hspace : c.sees ' ' = false := by
          unfold Cursor.sees
          rw [hc]
          rfl
        have hmark : c.advance.atDocumentMark = false := by
          rw [atDocumentMark_eq, hnext]
          exact not_atMark hrun' hrest
        rw [hspace, Cursor.lineBreak?_of_break hc rfl (by decide)]
        dsimp only
        rw [hmark]
        exact ih hfuel' _ hnext hrun'

/-- Those are skipped as a whole. -/
theorem gap_spacing (hsize : c.rest.length ≤ c.size) (hc : c.rest = run ++ rest)
    (hrun : IsSpacing run) (hrest : EndsPlain rest) :
    (gap c).after = c.advanceBy run.length := by
  obtain ⟨spaces, htake, ⟨rfl, hnone⟩ | ⟨more, rfl, hmore, hnext, hbreak⟩⟩ :=
    Cursor.takeWhile_spacing hc hrun hrest.not_break
  · unfold gap
    rw [htake]
    dsimp only
    rw [hnone]
  · have hmark : (c.advanceBy (spaces.length + 1)).atDocumentMark = false := by
      rw [atDocumentMark_eq, hnext]
      exact not_atMark hmore hrest
    have hfuel : more.length < (c.advanceBy (spaces.length + 1)).fuel := by
      rw [hc] at hsize
      simp only [List.length_append, List.length_cons] at hsize
      unfold Cursor.fuel
      rw [Cursor.size_advanceBy]
      omega
    obtain ⟨text, htext⟩ := breaks_spacing hfuel [] hnext hmore hrest
    have hlength : (spaces ++ '\n' :: more).length = spaces.length + 1 + more.length := by
      rw [List.length_append, List.length_cons]
      omega
    unfold gap
    rw [htake]
    dsimp only
    rw [hbreak]
    dsimp only
    rw [hmark, htext, hlength, Cursor.advanceBy_add _ more.length]
    rfl

-- ==================================================== scalars

/-- Where a plain scalar ends, no further part of it is found. -/
theorem parts_end (fuel : Nat) (indent : Int) (acc : List (List Char)) (before : List Char)
    (broke : Bool) (hc : c.rest = rest) (hrest : EndsPlain rest) :
    parts true indent fuel acc before broke c = (acc, c, broke) := by
  cases fuel with
  | zero => rfl
  | succ fuel =>
      have hword : (if c.sees '#' then [] else word true c.rest) = [] := by
        split
        · rfl
        · rw [hc]
          have hspacing : IsSpacing [] := List.forall_mem_nil _
          exact word_of_end hspacing hrest
      unfold parts
      rw [hword]
      rfl

theorem scan_word (indent : Int) (hsize : c.rest.length ≤ c.size)
    (hc : c.rest = w ++ (run ++ rest)) (hne : w ≠ []) (hw : ∀ ch ∈ w, isPlain ch = true)
    (hrun : IsSpacing run) (hrest : EndsPlain rest) :
    ∃ broke, scan true indent c = (w, c.advanceBy (w.length + run.length), broke) := by
  have hmark : c.sees '#' = false := by
    unfold Cursor.sees
    rw [hc, beq_eq_false_iff_ne]
    cases w with
    | nil => exact absurd rfl hne
    | cons ch w =>
        rintro ⟨⟩
        exact absurd (hw '#' (List.mem_cons_self ..)) (by decide)
  have hword : (if c.sees '#' then [] else word true c.rest) = w := by
    rw [hmark, if_neg Bool.false_ne_true, hc]
    exact word_append hrun hrest hw
  have hafter : (gap (c.advanceBy w.length)).after = c.advanceBy (w.length + run.length) := by
    rw [gap_spacing (Cursor.rest_le_size_advanceBy _ hsize) (Cursor.rest_advanceBy_length hc)
      hrun hrest, Cursor.advanceBy_add]
  have hempty : w.isEmpty = false := List.isEmpty_eq_false_iff.2 hne
  have hend : (c.advanceBy (w.length + run.length)).rest = rest := by
    rw [← List.append_assoc] at hc
    rw [← List.length_append]
    exact Cursor.rest_advanceBy_length hc
  have hparts : ∃ broke, parts true indent c.fuel [] [] false c =
      ([w, []], c.advanceBy (w.length + run.length), broke) := by
    unfold Cursor.fuel parts
    rw [hword]
    dsimp only
    rw [hempty, if_neg Bool.false_ne_true, hafter]
    split
    · exact ⟨_, rfl⟩
    · exact ⟨_, parts_end _ _ _ _ _ hend hrest⟩
  obtain ⟨broke, hparts⟩ := hparts
  refine ⟨broke, ?_⟩
  unfold scan
  rw [hparts]
  simp

end ApiAuthz.Yaml.PlainScalar
