/-
The forms of JSON numbers as plain scalars. What comes behind the digits in front of the point
decides the form: nothing makes an integer, and a fraction makes a floating number, if a sign
is in the exponent or there is no exponent. All other numbers, those with a bare exponent, are
text (`tagOf_text`).

# The chain

A plain scalar is tried against one form after the other: a truth value, a floating number, an
integer, a merge, nothing at all, a time. A number starts with a digit or a minus
(`Number.exists_head`), which leaves three of these. All three take the digits of the whole part
alike (`Number.dropWhile_whole`), so they are decided by the rest of the number, its `tail`:

- a floating number needs a point, and a sign in an exponent (`Number.isFloat_text`);
- an integer needs the tail to be empty (`Number.isInt_text`), since JSON has no leading zeros
  that would make it octal, and no colons that would make it sixties (`Number.sixtiesOf_tail`);
- a time needs a hyphen or a colon where a number has none (`Number.isMoment_text`).

A form may allow one line feed at its end; there is none in a number (`Number.feed_not_mem`), so
that exception of the patterns does not come into play.
-/
import ApiAuthz.Proofs.Json.LineEnds
import ApiAuthz.Yaml.ScalarValue

namespace ApiAuthz.Json

open Yaml.PlainForm

-- ==================================================== digits

/-- A digit is one in every class of digits. -/
theorem charIsDigit_of_isDigit {c : Char} (h : isDigit c = true) : c.isDigit = true := by
  have hall : ∀ c ∈ digitChars, c.isDigit = true := forall_mem_of_all (by decide)
  exact hall c (mem_of_isDigit h)

theorem isDecimalDigit_of_isDigit {c : Char} (h : isDigit c = true) :
    isDecimalDigit c = true := by
  have hall : ∀ c ∈ digitChars, isDecimalDigit c = true := forall_mem_of_all (by decide)
  exact hall c (mem_of_isDigit h)

theorem Digits.allOf {cs : List Char} (h : Digits cs) : allOf Char.isDigit cs = true := by
  unfold Yaml.PlainForm.allOf
  rw [Bool.and_eq_true, Bool.not_eq_true', List.isEmpty_eq_false_iff, List.all_eq_true]
  exact ⟨h.1, fun c hc => charIsDigit_of_isDigit (h.2 c hc)⟩

-- ==================================================== what comes behind the digits

/-- A fraction is written, and a sign in the exponent, if there is one. -/
def Number.IsPointed (n : Number) : Prop :=
  n.fraction.isSome = true ∧ ∀ e ∈ n.exponent, e.sign.isSome = true

instance (n : Number) : Decidable n.IsPointed := by
  unfold Number.IsPointed
  infer_instance

/-- The text behind the digits in front of the point. -/
def Number.tail (n : Number) : List Char :=
  n.fraction.elim [] ('.' :: ·) ++ n.exponent.elim [] Exponent.text

/-- The text of an exponent that need not be there. -/
def exponentText (e : Option Exponent) : List Char := e.elim [] Exponent.text

/-- A number is its sign, its whole part and the rest. -/
theorem Number.text_eq (n : Number) :
    n.text = (if n.negative then ['-'] else []) ++ (n.whole ++ n.tail) := rfl

theorem head_exponentText {e : Option Exponent} {c : Char} (h : c ∈ (exponentText e).head?) :
    c = 'e' ∨ c = 'E' := by
  cases e with
  | none => cases h
  | some e =>
      cases h
      exact e.isMark

/-- The rest of a number starts with a point or the mark of an exponent. -/
theorem Number.head_tail {n : Number} {c : Char} (h : c ∈ n.tail.head?) :
    c = '.' ∨ c = 'e' ∨ c = 'E' := by
  unfold tail at h
  cases hf : n.fraction with
  | none =>
      rw [hf] at h
      exact Or.inr (head_exponentText h)
  | some f =>
      rw [hf] at h
      cases h
      exact Or.inl rfl

/-- No exponent, or one with a sign. -/
theorem isExponent_exponentText (e : Option Exponent) :
    isExponent (exponentText e) = true ↔ ∀ x ∈ e, x.sign.isSome = true := by
  cases e with
  | none => exact iff_of_true rfl nofun
  | some e =>
      have hmark : (e.mark == 'e' || e.mark == 'E') = true := by
        rcases e.isMark with h | h <;> rw [h] <;> rfl
      show isExponent (e.mark :: (e.sign.toList ++ e.digits)) = true ↔ _
      cases hs : e.sign with
      | none =>
          obtain ⟨d, ds, heq, hd⟩ := e.areDigits.eq_cons
          have hall : ∀ c ∈ digitChars, (c == '-' || c == '+') = false :=
            forall_mem_of_all (by decide)
          have hnone : ¬∀ x ∈ some e, x.sign.isSome = true := by
            intro h
            have hsome := h e rfl
            rw [hs] at hsome
            cases hsome
          refine iff_of_false ?_ hnone
          rw [heq]
          show ((e.mark == 'e' || e.mark == 'E') && (d == '-' || d == '+') &&
            Yaml.PlainForm.allOf Char.isDigit ds) ≠ true
          rw [hall d (mem_of_isDigit hd), Bool.and_false, Bool.false_and]
          nofun
      | some s =>
          have hsign : (s == '-' || s == '+') = true := by
            rcases e.isSign s hs with h | h <;> rw [h] <;> rfl
          refine iff_of_true ?_ ?_
          · show ((e.mark == 'e' || e.mark == 'E') && (s == '-' || s == '+') &&
              Yaml.PlainForm.allOf Char.isDigit e.digits) = true
            rw [hmark, hsign, e.areDigits.allOf]
            rfl
          · rintro _ ⟨⟩
            rw [hs]
            rfl

theorem dropWhile_append {p : Char → Bool} {cs rest : List Char} (hcs : ∀ c ∈ cs, p c = true)
    (hrest : ∀ c ∈ rest.head?, p c = false) : (cs ++ rest).dropWhile p = rest := by
  rw [List.dropWhile_append_of_pos hcs]
  cases rest with
  | nil => rfl
  | cons c rest => rw [List.dropWhile_cons_of_neg (by rw [hrest c rfl]; nofun)]

theorem takeWhile_append {p : Char → Bool} {cs rest : List Char} (hcs : ∀ c ∈ cs, p c = true)
    (hrest : ∀ c ∈ rest.head?, p c = false) : (cs ++ rest).takeWhile p = cs := by
  rw [List.takeWhile_append_of_pos hcs]
  cases rest with
  | nil => exact List.append_nil cs
  | cons c rest =>
      rw [List.takeWhile_cons_of_neg (by rw [hrest c rfl]; nofun), List.append_nil]

/-- No exponent starts with what continues an integer. -/
theorem not_isDecimalDigit_of_exponent {e : Option Exponent} :
    ∀ c ∈ (exponentText e).head?, isDecimalDigit c = false := by
  intro c hc
  rcases head_exponentText hc with rfl | rfl <;> rfl

/-- A fraction with a sign in the exponent, or without one. -/
theorem Number.isPointed_tail (n : Number) : isPointed n.tail = true ↔ n.IsPointed := by
  unfold IsPointed
  rw [← isExponent_exponentText]
  cases hf : n.fraction with
  | none =>
      refine iff_of_false ?_ fun h => by cases h.1
      have htail : n.tail = exponentText n.exponent := by
        unfold tail
        rw [hf]
        rfl
      rw [htail]
      cases he : n.exponent with
      | none => nofun
      | some e =>
          show isPointed (e.mark :: (e.sign.toList ++ e.digits)) ≠ true
          rcases e.isMark with h | h <;> rw [h] <;> nofun
  | some f =>
      have htail : n.tail = '.' :: (f ++ exponentText n.exponent) := by
        unfold tail
        rw [hf]
        rfl
      have hdigits : ∀ c ∈ f, isDecimalDigit c = true := fun c hc =>
        isDecimalDigit_of_isDigit ((n.isFraction f hf).2 c hc)
      rw [htail]
      show isExponent ((f ++ exponentText n.exponent).dropWhile isDecimalDigit) = true ↔ _
      rw [dropWhile_append hdigits not_isDecimalDigit_of_exponent]
      exact (and_iff_right rfl).symm

/-- There is no rest in an integer alone. -/
theorem Number.tail_eq_nil_iff (n : Number) : n.tail = [] ↔ n.IsInteger := by
  unfold tail IsInteger
  cases n.fraction <;> cases n.exponent <;> simp [Exponent.text]

/-- A number is not written in sixties. -/
theorem Number.sixtiesOf_tail (n : Number) : sixtiesOf n.tail = none := by
  cases h : n.tail with
  | nil => rfl
  | cons c cs =>
      have hc := n.head_tail (c := c) (by rw [h]; rfl)
      unfold sixtiesOf
      rcases hc with rfl | rfl | rfl <;> rfl

-- ==================================================== the forms

/-- Without its sign a number is its whole part and the rest. -/
theorem Number.unsigned_text (n : Number) : unsigned n.text = n.whole ++ n.tail := by
  rw [n.text_eq]
  cases n.negative with
  | true => rfl
  | false =>
      obtain ⟨d, ds, heq, hd⟩ := n.isWhole.1.eq_cons
      have hall : ∀ c ∈ digitChars, c ≠ '+' ∧ c ≠ '-' := forall_mem_of_all (by decide)
      obtain ⟨hplus, hminus⟩ := hall d (mem_of_isDigit hd)
      rw [heq]
      show unsigned (d :: (ds ++ n.tail)) = _
      unfold unsigned
      split
      · next h => exact absurd (List.cons.inj h).1 hplus
      · next h => exact absurd (List.cons.inj h).1 hminus
      · rfl

/-- A number starts with a digit or with a minus. -/
theorem Number.exists_head (n : Number) :
    ∃ c cs, n.text = c :: cs ∧ c ∈ '-' :: digitChars := by
  rcases n.text_eq_cons with ⟨c, cs, heq, hc⟩ | ⟨d, ds, heq, _⟩
  · exact ⟨c, cs, heq, List.mem_cons_of_mem _ (mem_of_isDigit hc)⟩
  · exact ⟨'-', d :: ds, heq, List.mem_cons_self ..⟩

/-- No word that starts in another way is a number. -/
theorem not_contains_of_head {texts : List String} {c : Char} {cs : List Char}
    (h : ∀ t ∈ texts, t.toList.head? ≠ some c) :
    texts.contains (String.ofList (c :: cs)) = false := by
  rw [Bool.eq_false_iff]
  intro hmem
  refine h _ (List.contains_iff_mem.1 hmem) ?_
  rw [String.toList_ofList]
  rfl

/-- Behind the digits of the whole part stands the rest. -/
theorem Number.dropWhile_whole (n : Number) {d : Char} {ds : List Char} (h : n.whole = d :: ds) :
    (ds ++ n.tail).dropWhile isDecimalDigit = n.tail := by
  refine dropWhile_append (fun c hc => isDecimalDigit_of_isDigit (n.isWhole.1.2 c ?_))
    fun c hc => ?_
  · rw [h]
    exact List.mem_cons_of_mem _ hc
  · rcases n.head_tail hc with rfl | rfl | rfl <;> rfl

/-- Among the numbers those with a fraction look like floats, if an exponent on them has a sign. -/
theorem Number.isFloat_text (n : Number) : isFloat n.text = true ↔ n.IsPointed := by
  obtain ⟨d, ds, hwhole, hd⟩ := n.isWhole.1.eq_cons
  obtain ⟨c, cs, htext, hc⟩ := n.exists_head
  have hall : ∀ c ∈ '-' :: digitChars, c ≠ '.' ∧
      (∀ t ∈ infinityTexts, t.toList.head? ≠ some c) ∧
      ∀ t ∈ nanTexts, t.toList.head? ≠ some c := forall_mem_of_all (by decide)
  have hdmem : d ∈ '-' :: digitChars := List.mem_cons_of_mem _ (mem_of_isDigit hd)
  have hinfinity : infinityTexts.contains (String.ofList (d :: (ds ++ n.tail))) = false :=
    not_contains_of_head (hall d hdmem).2.1
  have hnan : nanTexts.contains (String.ofList n.text) = false := by
    rw [htext]
    exact not_contains_of_head (hall c hc).2.2
  have hunsigned : unsigned n.text = d :: (ds ++ n.tail) := by
    rw [n.unsigned_text, hwhole]
    rfl
  unfold isFloat
  dsimp only
  rw [hunsigned]
  dsimp only
  rw [n.dropWhile_whole hwhole, n.sixtiesOf_tail, hinfinity, hnan, charIsDigit_of_isDigit hd,
    htext]
  split
  · next heq => exact absurd (List.cons.inj heq).1 (hall c hc).1
  · simpa using n.isPointed_tail

/-- Those without fraction and exponent look like integers. -/
theorem Number.isInt_text (n : Number) : isInt n.text = true ↔ n.IsInteger := by
  obtain ⟨d, ds, hwhole, hd⟩ := n.isWhole.1.eq_cons
  have hunsigned : unsigned n.text = d :: (ds ++ n.tail) := by
    rw [n.unsigned_text, hwhole]
    rfl
  rw [← n.tail_eq_nil_iff]
  unfold isInt
  by_cases hzero : d = '0'
  · subst hzero
    have hds : ds = [] := by
      have hwhole' := n.isWhole.2 (by rw [hwhole]; rfl)
      rw [hwhole] at hwhole'
      exact (List.cons.inj hwhole').2
    rw [hunsigned, hds, List.nil_append]
    cases ht : n.tail with
    | nil => exact iff_of_true rfl rfl
    | cons c cs =>
        refine iff_of_false ?_ nofun
        have hc := n.head_tail (c := c) (by rw [ht]; rfl)
        rcases hc with rfl | rfl | rfl <;> simp [Yaml.PlainForm.allOf, isOctalDigit]
  · rw [hunsigned]
    split
    · next heq => exact absurd (List.cons.inj heq).1 hzero
    · next heq => exact absurd (List.cons.inj heq).1 hzero
    · next heq => exact absurd (List.cons.inj heq).1 hzero
    · next heq => exact absurd (List.cons.inj heq).1 hzero
    · next heq =>
      obtain ⟨rfl, rfl⟩ := List.cons.inj heq
      dsimp only
      rw [n.dropWhile_whole hwhole, n.sixtiesOf_tail, charIsDigit_of_isDigit hd]
      simp
    · next heq => cases heq

-- ==================================================== no other form

/-- There is no line feed in a number. -/
theorem Number.feed_not_mem (n : Number) : '\n' ∉ n.text :=
  fun h => absurd (n.mem_text h) (by decide)

theorem Number.withoutBreak_text (n : Number) : withoutBreak n.text = n.text := by
  unfold withoutBreak
  rw [if_neg]
  intro h
  rw [Bool.and_eq_true, beq_iff_eq] at h
  exact n.feed_not_mem (List.mem_of_getLast? h.2)

/-- A year starts with a digit and has digits in front of what follows it. -/
theorem digits_of_yearNumber {cs rest : List Char} {year : Nat}
    (h : yearNumber cs = some (year, rest)) :
    ∃ c ds, cs = c :: (ds ++ rest) ∧ ∀ x ∈ c :: ds, x.isDigit = true := by
  unfold yearNumber at h
  split at h
  · next a b c d more =>
    split at h
    · next hall =>
      obtain ⟨_, rfl⟩ := Prod.mk.inj (Option.some.inj h)
      exact ⟨a, [b, c, d], rfl, List.all_eq_true.1 hall⟩
    · cases h
  · cases h

/-- A number is no date, as no hyphen is behind its first digits. -/
theorem Number.date_text (n : Number) : date n.text = none := by
  unfold date
  cases hy : yearNumber n.text with
  | none => rfl
  | some p =>
      obtain ⟨year, rest⟩ := p
      obtain ⟨c, ds, heq, hdigits⟩ := digits_of_yearNumber hy
      have hliteral : literal '-' rest = none := by
        cases rest with
        | nil => rfl
        | cons x more =>
            refine if_neg fun hx => ?_
            rw [beq_iff_eq] at hx
            subst hx
            cases hn : n.negative with
            | true =>
                rw [n.text_eq, hn] at heq
                obtain ⟨rfl, _⟩ := List.cons.inj heq
                exact absurd (hdigits _ (List.mem_cons_self ..)) (by decide)
            | false =>
                have hwhole : ∀ c ∈ n.whole, c.isDigit = true := fun c hc =>
                  charIsDigit_of_isDigit (n.isWhole.1.2 c hc)
                have htail : ∀ c ∈ n.tail.head?, c.isDigit = false := by
                  intro c hc
                  rcases n.head_tail hc with rfl | rfl | rfl <;> rfl
                have hdrop := dropWhile_append hwhole htail
                rw [n.text_eq, hn] at heq
                change n.whole ++ n.tail = (c :: ds) ++ '-' :: more at heq
                rw [heq, dropWhile_append hdigits (by rintro _ ⟨⟩; rfl)] at hdrop
                have hhead := n.head_tail (c := '-') (by rw [← hdrop]; rfl)
                revert hhead
                decide
      show (literal '-' rest >>= _) = none
      rw [hliteral]
      rfl

/-- No number looks like a date: a date goes on with a hyphen behind its year. -/
theorem Number.isMoment_text (n : Number) : isMoment n.text = false := by
  unfold isMoment moment?
  rw [n.date_text]
  rfl

/-- What a number is as a plain scalar. -/
theorem Number.tagOf_text (n : Number) :
    tagOf (String.ofList n.text) =
      if n.IsPointed then .float else if n.IsInteger then .int else .str := by
  obtain ⟨c, cs, htext, hc⟩ := n.exists_head
  have hall : ∀ c ∈ '-' :: digitChars,
      (∀ t ∈ boolTexts, t.toList.head? ≠ some c) ∧ (∀ t ∈ ["<<"], t.toList.head? ≠ some c) ∧
      (∀ t ∈ nullTexts, t.toList.head? ≠ some c) ∧ (∀ t ∈ ["="], t.toList.head? ≠ some c) ∧
      ∀ t ∈ signTexts, t.toList.head? ≠ some c := forall_mem_of_all (by decide)
  obtain ⟨hbool, hmerge, hnull, hvalue, hsign⟩ := hall c hc
  have hword {word : String} (h : ∀ t ∈ [word], t.toList.head? ≠ some c) :
      (String.ofList n.text == word) = false := by
    rw [beq_eq_false_iff_ne]
    rintro rfl
    refine h _ (List.mem_singleton_self _) ?_
    rw [String.toList_ofList, htext]
    rfl
  unfold tagOf
  dsimp only
  rw [String.toList_ofList, n.withoutBreak_text, hword hmerge, hword hvalue, n.isMoment_text]
  have hbools : boolTexts.contains (String.ofList n.text) = false := by
    rw [htext]
    exact not_contains_of_head hbool
  have hnulls : nullTexts.contains (String.ofList n.text) = false := by
    rw [htext]
    exact not_contains_of_head hnull
  have hsigns : signTexts.contains (String.ofList n.text) = false := by
    rw [htext]
    exact not_contains_of_head hsign
  rw [hbools, hnulls, hsigns]
  simp only [n.isFloat_text, n.isInt_text, Bool.false_eq_true, if_false]

end ApiAuthz.Json
