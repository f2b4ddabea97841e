/-
JSON texts with line feeds for line ends. Line ends occur in blanks alone: no phrase holds a
carriage return elsewhere, and none starts with a line feed, so what is in front of it can be
unified on its own. `ObjectText.unifyLineEnds_text` says that the text is still that of the
phrase, only with its blanks spelled in another way.

Unifying does not go character by character: a carriage return takes the line feed behind it
along. A text can be cut where no such pair is cut, that is behind something without a carriage
return (`unifyLineEnds_append_left`) or in front of something that starts with no line feed
(`unifyLineEnds_append_of_head`). For that each part of the grammar has its two facts here, and
the induction over phrases puts the cuts together.
-/
import ApiAuthz.Proofs.Json.Grammar
import ApiAuthz.Text.Classes

namespace ApiAuthz.Json

open Text (unifyLineEnds)

-- ==================================================== texts

theorem unifyLineEnds_cons {c : Char} (h : c ≠ '\r') (cs : List Char) :
    unifyLineEnds (c :: cs) = c :: unifyLineEnds cs := by
  rw [Text.unifyLineEnds.eq_def]
  split
  · next heq => exact absurd (List.cons.inj heq).1 h
  · next heq => exact absurd (List.cons.inj heq).1 h
  · next heq =>
    cases heq
    rfl
  · next heq => cases heq

/-- Without carriage returns there is nothing to unify. -/
theorem unifyLineEnds_append_left {cs : List Char} (h : '\r' ∉ cs) (rest : List Char) :
    unifyLineEnds (cs ++ rest) = cs ++ unifyLineEnds rest := by
  induction cs with
  | nil => rfl
  | cons c cs ih =>
      rw [List.mem_cons, not_or] at h
      rw [List.cons_append, unifyLineEnds_cons (Ne.symm h.1), ih h.2]
      rfl

/-- What is in front of anything but a line feed is unified on its own. -/
theorem unifyLineEnds_append_of_head (ws : List Char) {rest : List Char}
    (h : rest.head? ≠ some '\n') :
    unifyLineEnds (ws ++ rest) = unifyLineEnds ws ++ unifyLineEnds rest := by
  fun_induction unifyLineEnds ws with
  | case1 cs ih =>
      rw [List.cons_append, List.cons_append, unifyLineEnds, ih]
      rfl
  | case2 cs hcs ih =>
      rw [List.cons_append, unifyLineEnds, ih]
      · rfl
      · rintro more heq
        cases cs with
        | nil => exact h (by rw [List.nil_append] at heq; rw [heq]; rfl)
        | cons d ds => exact hcs ds (by rw [(List.cons.inj heq).1])
  | case3 d cs _ hd ih =>
      rw [List.cons_append, unifyLineEnds_cons (fun heq => hd heq), ih]
      rfl
  | case4 => rfl

/-- Blanks are unified on their own in front of what is no part of a line end. -/
theorem unifyLineEnds_append_cons (ws : List Char) {c : Char} (h : c ≠ '\n') (h' : c ≠ '\r')
    (rest : List Char) :
    unifyLineEnds (ws ++ c :: rest) = unifyLineEnds ws ++ c :: unifyLineEnds rest := by
  have hhead : (c :: rest).head? ≠ some '\n' := fun heq => h (Option.some.inj heq)
  rw [unifyLineEnds_append_of_head ws hhead, unifyLineEnds_cons h']

-- ==================================================== parts of a phrase

/-- No carriage return is in an escape. -/
theorem CodeUnit.return_not_mem (u : CodeUnit) : '\r' ∉ u.text := by
  intro h
  rcases List.mem_cons.1 h with h | h
  · cases h
  · rcases List.mem_cons.1 h with h | h
    · cases h
    · cases u.areDigits _ h

/-- Nor is one in any letter, for it is a control character. -/
theorem Letter.return_not_mem : (l : Letter) → '\r' ∉ l.text
  | .raw c hraw => by
    rintro h
    cases List.mem_singleton.1 h
    exact absurd hraw.1 (by decide)
  | .short letter c hshort => by
    rintro h
    rcases List.mem_cons.1 h with h | h
    · cases h
    · cases List.mem_singleton.1 h
      cases hshort
  | .unit u _ => u.return_not_mem
  | .pair high low _ _ => fun h =>
    (List.mem_append.1 h).elim high.return_not_mem low.return_not_mem

/-- Nor in a string. -/
theorem return_not_mem_quoted (s : List Letter) : '\r' ∉ quoted s := by
  intro h
  rcases List.mem_cons.1 h with h | h
  · cases h
  · rcases List.mem_append.1 h with h | h
    · obtain ⟨l, _, hl⟩ := List.mem_flatMap.1 h
      exact l.return_not_mem hl
    · cases List.mem_singleton.1 h

/-- The characters that numbers are written with. -/
def numberChars : List Char := digitChars ++ ['-', '+', '.', 'e', 'E']

theorem mem_numberChars_of_isDigit {c : Char} (h : isDigit c = true) : c ∈ numberChars :=
  List.mem_append_left _ (mem_of_isDigit h)

theorem Exponent.mem_text {e : Exponent} {c : Char} (h : c ∈ e.text) : c ∈ numberChars := by
  rcases List.mem_cons.1 h with rfl | h
  · rcases e.isMark with hm | hm <;> rw [hm] <;> decide
  · rcases List.mem_append.1 h with h | h
    · rcases e.isSign c (Option.mem_toList.1 h) with rfl | rfl <;> decide
    · exact mem_numberChars_of_isDigit (e.areDigits.2 c h)

/-- The characters of a number. -/
theorem Number.mem_text {n : Number} {c : Char} (h : c ∈ n.text) : c ∈ numberChars := by
  unfold Number.text at h
  rw [List.mem_append, List.mem_append, List.mem_append] at h
  rcases h with h | h | h | h
  · split at h
    · rw [List.mem_singleton.1 h]
      decide
    · cases h
  · exact mem_numberChars_of_isDigit (n.isWhole.1.2 c h)
  · cases hf : n.fraction with
    | none =>
        rw [hf] at h
        cases h
    | some f =>
        rw [hf] at h
        rcases List.mem_cons.1 h with rfl | h
        · decide
        · exact mem_numberChars_of_isDigit ((n.isFraction f hf).2 c h)
  · cases he : n.exponent with
    | none =>
        rw [he] at h
        cases h
    | some e =>
        rw [he] at h
        exact e.mem_text h

/-- Nor in a number. -/
theorem Number.return_not_mem (n : Number) : '\r' ∉ n.text :=
  fun h => absurd (n.mem_text h) (by decide)

theorem Digits.eq_cons {cs : List Char} (h : Digits cs) :
    ∃ d ds, cs = d :: ds ∧ isDigit d = true := by
  cases cs with
  | nil => exact absurd rfl h.1
  | cons d ds => exact ⟨d, ds, rfl, h.2 d (List.mem_cons_self ..)⟩

/-- A number starts with a digit, or with a minus that a digit follows. -/
theorem Number.text_eq_cons (n : Number) :
    (∃ c cs, n.text = c :: cs ∧ isDigit c = true) ∨
      ∃ d ds, n.text = '-' :: d :: ds ∧ isDigit d = true := by
  obtain ⟨d, ds, heq, hd⟩ := n.isWhole.1.eq_cons
  unfold Number.text
  rw [heq]
  cases n.negative with
  | false => exact Or.inl ⟨d, _, rfl, hd⟩
  | true => exact Or.inr ⟨d, _, rfl, hd⟩

/-- A phrase is not nothing, and does not start with a blank. -/
theorem Phrase.spelled_eq_cons (blank : List Char → List Char) :
    (p : Phrase) → ∃ c cs, p.spelled blank = c :: cs ∧ isSpace c = false
  | .null | .bool true | .bool false | .string _ | .emptyList _ | .list _ | .emptyObject _
  | .object _ => ⟨_, _, rfl, rfl⟩
  | .number n => by
    rcases n.text_eq_cons with ⟨c, cs, heq, hc⟩ | ⟨d, ds, heq, _⟩
    · have hall : ∀ c ∈ digitChars, isSpace c = false := forall_mem_of_all (by decide)
      exact ⟨c, cs, heq, hall c (mem_of_isDigit hc)⟩
    · exact ⟨'-', _, heq, rfl⟩

/-- No value starts with a line feed, so a line end in front of it is whole. -/
theorem Phrase.head?_spelled_append (blank : List Char → List Char) (p : Phrase)
    (rest : List Char) : (p.spelled blank ++ rest).head? ≠ some '\n' := by
  obtain ⟨c, cs, heq, hc⟩ := p.spelled_eq_cons blank
  rw [heq]
  rintro ⟨⟩
  cases hc

/-- Only the blanks of a name are changed. -/
theorem Name.unifyLineEnds_append (n : Name) (rest : List Char) :
    unifyLineEnds (n.spelled id ++ rest) = n.spelled unifyLineEnds ++ unifyLineEnds rest := by
  have hquoted (cs : List Char) : (quoted n.letters ++ cs).head? ≠ some '\n' := nofun
  unfold Name.spelled
  simp only [List.append_assoc, List.cons_append, List.nil_append, id]
  rw [unifyLineEnds_append_of_head _ (hquoted _),
    unifyLineEnds_append_left (return_not_mem_quoted _),
    unifyLineEnds_append_cons _ (by decide) (by decide)]

mutual

/-- With line feeds for line ends, a text is still that of the phrase; only its blanks are
spelled in another way. -/
theorem Phrase.unifyLineEnds_append :
    (p : Phrase) → (rest : List Char) →
      unifyLineEnds (p.spelled id ++ rest) = p.spelled unifyLineEnds ++ unifyLineEnds rest
  | .null, rest => unifyLineEnds_append_left (by decide) rest
  | .bool true, rest => unifyLineEnds_append_left (by decide) rest
  | .bool false, rest => unifyLineEnds_append_left (by decide) rest
  | .number n, rest => unifyLineEnds_append_left n.return_not_mem rest
  | .string s, rest => unifyLineEnds_append_left (return_not_mem_quoted s) rest
  | .emptyList inside, rest => by
    unfold Phrase.spelled
    simp only [List.cons_append, List.append_assoc, List.nil_append, id]
    rw [unifyLineEnds_cons (by decide), unifyLineEnds_append_cons _ (by decide) (by decide)]
  | .list items, rest => by
    unfold Phrase.spelled
    simp only [List.cons_append, List.append_assoc, List.nil_append]
    rw [unifyLineEnds_cons (by decide), items.unifyLineEnds_append (by exact nofun),
      unifyLineEnds_cons (by decide)]
  | .emptyObject inside, rest => by
    unfold Phrase.spelled
    simp only [List.cons_append, List.append_assoc, List.nil_append, id]
    rw [unifyLineEnds_cons (by decide), unifyLineEnds_append_cons _ (by decide) (by decide)]
  | .object fields, rest => by
    unfold Phrase.spelled
    simp only [List.cons_append, List.append_assoc, List.nil_append]
    rw [unifyLineEnds_cons (by decide), fields.unifyLineEnds_append (by exact nofun),
      unifyLineEnds_cons (by decide)]

/-- Only the blanks of items are changed. -/
theorem Items.unifyLineEnds_append {rest : List Char} :
    (items : Items) → rest.head? ≠ some '\n' →
      unifyLineEnds (items.spelled id ++ rest) = items.spelled unifyLineEnds ++ unifyLineEnds rest
  | .last before item after, h => by
    unfold Items.spelled
    simp only [List.append_assoc, id]
    rw [unifyLineEnds_append_of_head _ (item.head?_spelled_append _ _), item.unifyLineEnds_append,
      unifyLineEnds_append_of_head _ h]
  | .more before item after more, h => by
    unfold Items.spelled
    simp only [List.append_assoc, List.cons_append, id]
    rw [unifyLineEnds_append_of_head _ (item.head?_spelled_append _ _), item.unifyLineEnds_append,
      unifyLineEnds_append_cons _ (by decide) (by decide), more.unifyLineEnds_append h]

/-- Only the blanks of members are changed. -/
theorem Fields.unifyLineEnds_append {rest : List Char} :
    (fields : Fields) → rest.head? ≠ some '\n' →
      unifyLineEnds (fields.spelled id ++ rest) =
        fields.spelled unifyLineEnds ++ unifyLineEnds rest
  | .last name before item after, h => by
    unfold Fields.spelled
    simp only [List.append_assoc, id]
    rw [name.unifyLineEnds_append, unifyLineEnds_append_of_head _ (item.head?_spelled_append _ _),
      item.unifyLineEnds_append, unifyLineEnds_append_of_head _ h]
  | .more name before item after more, h => by
    unfold Fields.spelled
    simp only [List.append_assoc, List.cons_append, id]
    rw [name.unifyLineEnds_append, unifyLineEnds_append_of_head _ (item.head?_spelled_append _ _),
      item.unifyLineEnds_append, unifyLineEnds_append_cons _ (by decide) (by decide),
      more.unifyLineEnds_append h]

end

/-- Only the blanks of a text are changed. -/
theorem ObjectText.unifyLineEnds_text (d : ObjectText) :
    unifyLineEnds d.text = d.spelled unifyLineEnds := by
  unfold ObjectText.text ObjectText.spelled
  simp only [id]
  rw [unifyLineEnds_append_of_head _ (d.object.head?_spelled_append _ _),
    d.object.unifyLineEnds_append]

/-- Tabs stay where they are. -/
theorem tab_mem_unifyLineEnds {ws : List Char} : '\t' ∈ unifyLineEnds ws ↔ '\t' ∈ ws := by
  fun_induction unifyLineEnds ws with
  | case1 cs ih => simp [ih]
  | case2 cs _ ih => simp [ih]
  | case3 c cs _ _ ih => simp [ih]
  | case4 => rfl

/-- What is left of a blank are spaces, tabs and line feeds. -/
theorem Blank.mem_unifyLineEnds (b : Blank) :
    ∀ w ∈ unifyLineEnds b.chars, w = ' ' ∨ w = '\t' ∨ w = '\n' := by
  have h := b.isBlank
  generalize b.chars = ws at h
  fun_induction unifyLineEnds ws with
  | case1 cs ih =>
      intro w hw
      rcases List.mem_cons.1 hw with rfl | hw
      · exact Or.inr (Or.inr rfl)
      · exact ih (fun c hc => h c (List.mem_cons_of_mem _ (List.mem_cons_of_mem _ hc))) w hw
  | case2 cs _ ih =>
      intro w hw
      rcases List.mem_cons.1 hw with rfl | hw
      · exact Or.inr (Or.inr rfl)
      · exact ih (fun c hc => h c (List.mem_cons_of_mem _ hc)) w hw
  | case3 c cs _ hc ih =>
      intro w hw
      rcases List.mem_cons.1 hw with rfl | hw
      · have hspace := h w (List.mem_cons_self ..)
        simp only [isSpace, Bool.or_eq_true, beq_iff_eq] at hspace
        exact hspace.elim (fun hl => hl.elim (fun hl => hl.imp_right Or.inl) (Or.inr ∘ Or.inr))
          fun hr => absurd hr hc
      · exact ih (fun c hc => h c (List.mem_cons_of_mem _ hc)) w hw
  | case4 => exact List.forall_mem_nil _

end ApiAuthz.Json
