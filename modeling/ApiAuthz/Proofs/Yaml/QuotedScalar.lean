/-
How a string of JSON is read as a scalar in quotes. Escapes give the same characters, but a run
of raw blanks and breaks is folded (`foldedGap`), and where a document mark stands behind a raw
break there is no scalar at all (`Marked`). `scan_quoted` is the reading.

# Code points

A scalar in quotes is read into code points. A raw character and a short escape are one each, and so
is an escape by number (`escape_short`, `escape_unit`); nothing looks at two escapes at once. So the
two escapes that JSON takes for one character are two code points here, both of them halves
(`points`), and a string that is written in that way is not read as the character it denotes.

# Runs

The reader takes the longest run of blanks and breaks at a time and folds it: blanks without a
break stay, otherwise the first break counts as a space, or not at all if others follow, unless it
is a separator, and the others count as line feeds or as themselves (`firstFed`,
`foldedGap_append`). Only raw letters can be part of a run. An escape ends it even if it stands
for a blank, so the runs of a string are found on its letters and not on its characters
(`gapChar?`, `foldedFrom`).

# The induction

`Parted` is what the reader comes to at a run with letters behind it: the code points of both, or
malformed text. A letter that goes on with the run moves into it (`Parted.gap`). Any other letter
ends the run, which is read as a whole (`Parted.flush`), and then is read itself (`Parted.letter`).
The induction is on the letters, with the run, the fuel and the accumulator general, and the fuel is
enough if it is more than the characters of the run and the code points of the letters (`parted`). A
pair takes two steps of the reader where every other letter takes one (`parts_letter`).

Whether the string is marked can be seen where a run ends: a mark is made of raw letters and stands
right behind the last break of a run (`marked_run`, `atMark_textOf`).
-/
import ApiAuthz.Proofs.Json.Grammar
import ApiAuthz.Proofs.Yaml.Cursor
import ApiAuthz.Yaml.QuotedScalar

namespace ApiAuthz.Yaml.QuotedScalar

open Json (CodeUnit Letter quoted raws)

-- ==================================================== runs of blanks and breaks

/-- A character that a quoted scalar may fold: a blank or a break. -/
def isGap (c : Char) : Bool := isSpaceOrTab c || isBreak c

/-- The breaks among some characters, as they count. -/
def fedBreaks (cs : List Char) : List Char := (cs.filter isBreak).map fed

/-- What a run of blanks and breaks comes to. -/
def foldedGap (run : List Char) : List Char :=
  match run.dropWhile isSpaceOrTab with
  | [] => run
  | b :: more =>
    (if fed b ≠ '\n' then [fed b] else if (fedBreaks more).isEmpty then [' '] else []) ++
      fedBreaks more

/-- A document mark is at the start of a text. -/
def atMark (cs : List Char) : Bool := (Cursor.start cs).atDocumentMark

/-- The last character, if there is one, is a break. -/
def endsInBreak (run : List Char) : Bool := run.getLast?.all isBreak

theorem atDocumentMark_eq (c : Cursor) : c.atDocumentMark = atMark c.rest := rfl

theorem not_break_of_blank {ch : Char} (h : isSpaceOrTab ch = true) : isBreak ch = false := by
  rw [isSpaceOrTab, Bool.or_eq_true, beq_iff_eq, beq_iff_eq] at h
  rcases h with rfl | rfl <;> rfl

theorem break_of_gap {ch : Char} (h : isGap ch = true) (hb : isSpaceOrTab ch = false) :
    isBreak ch = true := by
  rwa [isGap, hb, Bool.false_or] at h

/-- Three of a sign stand alone if a blank, a break or the end follows. -/
theorem atTriple_iff {m : Char} {c : Cursor} :
    c.atTriple m = true ↔ ∃ more, c.rest = m :: m :: m :: more ∧ endsWord more.head? = true := by
  unfold Cursor.atTriple
  split
  · next a b d more heq =>
    rw [heq]
    simp only [Bool.and_eq_true, beq_iff_eq, List.cons.injEq]
    constructor
    · rintro ⟨⟨⟨rfl, rfl⟩, rfl⟩, hends⟩
      exact ⟨more, ⟨rfl, rfl, rfl, rfl⟩, hends⟩
    · rintro ⟨_, ⟨rfl, rfl, rfl, rfl⟩, hends⟩
      exact ⟨⟨⟨rfl, rfl⟩, rfl⟩, hends⟩
  · next hshort =>
    constructor
    · nofun
    · rintro ⟨more, heq, _⟩
      exact absurd heq (hshort m m m more)

/-- A document mark is three hyphens or three points that stand alone. -/
theorem atMark_iff {cs : List Char} :
    atMark cs = true ↔ ∃ m, (m = '-' ∨ m = '.') ∧
      ∃ more, cs = m :: m :: m :: more ∧ endsWord more.head? = true := by
  unfold atMark Cursor.atDocumentMark
  rw [Bool.or_eq_true, atTriple_iff, atTriple_iff]
  simp only [or_and_right, exists_or, exists_eq_left]
  rfl

/-- No mark starts with a gap. -/
theorem atMark_of_gap {ch : Char} (h : isGap ch = true) (cs : List Char) :
    atMark (ch :: cs) = false := by
  rw [Bool.eq_false_iff]
  intro hmark
  obtain ⟨m, hm, more, heq, _⟩ := atMark_iff.1 hmark
  cases heq
  rcases hm with rfl | rfl <;> cases h

variable {c : Cursor} {run blanks more rest : List Char} {b : Char}

/-- A run is blanks, or blanks and a break and another run. -/
theorem run_cases (h : ∀ ch ∈ run, isGap ch = true) :
    ∃ blanks, (∀ ch ∈ blanks, isSpaceOrTab ch = true) ∧
      (run = blanks ∨ ∃ b more, run = blanks ++ b :: more ∧ isBreak b = true) := by
  induction run with
  | nil => exact ⟨[], List.forall_mem_nil _, Or.inl rfl⟩
  | cons ch run ih =>
      rw [List.forall_mem_cons] at h
      cases hb : isSpaceOrTab ch with
      | false => exact ⟨[], List.forall_mem_nil _, Or.inr ⟨ch, run, rfl, break_of_gap h.1 hb⟩⟩
      | true =>
          obtain ⟨blanks, hblanks, hcases⟩ := ih h.2
          refine ⟨ch :: blanks, List.forall_mem_cons.2 ⟨hb, hblanks⟩, ?_⟩
          rcases hcases with rfl | ⟨b, more, rfl, hbreak⟩
          · exact Or.inl rfl
          · exact Or.inr ⟨b, more, rfl, hbreak⟩

/-- Blanks alone feed nothing. -/
theorem fedBreaks_blanks (h : ∀ ch ∈ blanks, isSpaceOrTab ch = true) : fedBreaks blanks = [] := by
  have hnone : blanks.filter isBreak = [] :=
    List.filter_eq_nil_iff.2 fun ch hch => by simp [not_break_of_blank (h ch hch)]
  rw [fedBreaks, hnone]
  rfl

/-- A break feeds its own character, and the blanks before it nothing. -/
theorem fedBreaks_append (h : ∀ ch ∈ blanks, isSpaceOrTab ch = true) (hb : isBreak b = true) :
    fedBreaks (blanks ++ b :: more) = fed b :: fedBreaks more := by
  have hblanks := fedBreaks_blanks h
  unfold fedBreaks at *
  rw [List.filter_append, List.map_append, hblanks, List.filter_cons_of_pos hb]
  rfl

theorem endsInBreak_blanks (h : ∀ ch ∈ blanks, isSpaceOrTab ch = true) (hne : blanks ≠ []) :
    endsInBreak blanks = false := by
  unfold endsInBreak
  rw [List.getLast?_eq_some_getLast hne]
  exact not_break_of_blank (h _ (List.getLast_mem hne))

/-- A run ends in a break if what is behind its first break does, or is empty. -/
theorem endsInBreak_append (hb : isBreak b = true) :
    endsInBreak (blanks ++ b :: more) = endsInBreak more := by
  unfold endsInBreak
  rw [List.getLast?_append, List.getLast?_cons]
  cases more.getLast? with
  | none => exact hb
  | some d => rfl

/-- Blanks without a break stay. -/
theorem foldedGap_blanks (h : ∀ ch ∈ blanks, isSpaceOrTab ch = true) :
    foldedGap blanks = blanks := by
  have hdrop : blanks.dropWhile isSpaceOrTab = [] := by
    rw [← List.append_nil blanks, List.dropWhile_append_of_pos h, List.dropWhile_nil]
  unfold foldedGap
  rw [hdrop]

/-- What the first break of a run comes to, if these are the breaks behind it. -/
def firstFed (b : Char) (later : List Char) : List Char :=
  if fed b ≠ '\n' then [fed b] else if later.isEmpty then [' '] else []

/-- With a break they go, and what is fed is folded. -/
theorem foldedGap_append (h : ∀ ch ∈ blanks, isSpaceOrTab ch = true) (hb : isBreak b = true) :
    foldedGap (blanks ++ b :: more) = firstFed b (fedBreaks more) ++ fedBreaks more := by
  have hdrop : (blanks ++ b :: more).dropWhile isSpaceOrTab = b :: more := by
    rw [List.dropWhile_append_of_pos h, List.dropWhile_cons_of_neg]
    intro hblank
    rw [not_break_of_blank hblank] at hb
    cases hb
  unfold foldedGap
  rw [hdrop]
  rfl

-- ==================================================== reading a run

variable (hrest : ∀ ch ∈ rest.head?, isGap ch = false)

include hrest

theorem skipWhile_blanks (hc : c.rest = blanks ++ rest)
    (hblanks : ∀ ch ∈ blanks, isSpaceOrTab ch = true) :
    c.takeWhile isSpaceOrTab = (blanks, c.advanceBy blanks.length) ∧
      (c.advanceBy blanks.length).lineBreak? = none := by
  have hhead (ch : Char) (hch : ch ∈ rest.head?) : isSpaceOrTab ch = false ∧ isBreak ch = false :=
    Bool.or_eq_false_iff.1 (hrest ch hch)
  refine ⟨Cursor.takeWhile_eq hc hblanks fun ch hch => (hhead ch hch).1, ?_⟩
  refine Cursor.lineBreak?_of_head ?_
  rw [Cursor.rest_advanceBy_length hc]
  exact fun ch hch => (hhead ch hch).2

omit hrest in
theorem takeWhile_blanks (hc : c.rest = blanks ++ b :: more)
    (hblanks : ∀ ch ∈ blanks, isSpaceOrTab ch = true) (hb : isBreak b = true) (hr : b ≠ '\r') :
    c.takeWhile isSpaceOrTab = (blanks, c.advanceBy blanks.length) ∧
      (c.advanceBy blanks.length).lineBreak? =
        some (fed b, c.advanceBy (blanks.length + 1)) := by
  refine ⟨Cursor.takeWhile_eq hc hblanks ?_, Cursor.lineBreak?_advanceBy hc hb hr⟩
  rintro _ ⟨⟩
  rw [Bool.eq_false_iff]
  intro hblank
  rw [not_break_of_blank hblank] at hb
  cases hb

/-- A run of blanks and breaks is taken as a whole, and feeds its breaks, unless a document mark
stands behind the last of them. -/
theorem breaks_eq {fuel : Nat} (hfuel : run.length < fuel) (acc : List Char)
    (hc : c.rest = run ++ rest) (hrun : ∀ ch ∈ run, isGap ch = true ∧ ch ≠ '\r') :
    breaks fuel acc c =
      if endsInBreak run && atMark rest then malformed
      else .ok (acc.reverse ++ fedBreaks run, c.advanceBy run.length) := by
  induction fuel generalizing run acc c with
  | zero => omega
  | succ fuel ih =>
    have hmark : c.atDocumentMark = (run.isEmpty && atMark rest) := by
      rw [atDocumentMark_eq, hc]
      cases run with
      | nil => rfl
      | cons ch run => exact atMark_of_gap (hrun ch (List.mem_cons_self ..)).1 _
    unfold breaks
    rw [hmark]
    obtain ⟨blanks, hblanks, rfl | ⟨b, more, rfl, hb⟩⟩ := run_cases fun ch hch => (hrun ch hch).1
    · obtain ⟨htake, hnone⟩ := skipWhile_blanks hrest hc hblanks
      have hends : (endsInBreak run && atMark rest) = (run.isEmpty && atMark rest) := by
        cases run with
        | nil => rfl
        | cons ch run => rw [endsInBreak_blanks hblanks (by simp)]; rfl
      rw [hends, fedBreaks_blanks hblanks, List.append_nil]
      unfold Cursor.skipWhile
      rw [htake]
      dsimp only
      rw [hnone]
    · rw [List.append_assoc, List.cons_append] at hc
      obtain ⟨htake, hbreak⟩ :=
        takeWhile_blanks hc hblanks hb (hrun b (by simp)).2
      have hlength : (blanks ++ b :: more).length = blanks.length + 1 + more.length := by
        rw [List.length_append, List.length_cons]
        omega
      have hempty : (blanks ++ b :: more).isEmpty = false := by simp
      rw [hempty, Bool.false_and, if_neg Bool.false_ne_true, endsInBreak_append hb,
        fedBreaks_append hblanks hb, hlength, Cursor.advanceBy_add _ more.length]
      unfold Cursor.skipWhile
      rw [htake]
      dsimp only
      rw [hbreak]
      dsimp only
      rw [ih (by omega) (fed b :: acc) (Cursor.rest_advanceBy_succ hc)
        fun ch hch => hrun ch (by simp [hch]), List.reverse_cons, List.append_assoc,
        List.singleton_append]

/-- Blanks and breaks in front of something else come to `foldedGap`, unless a document mark
stands right behind a break. -/
theorem gap_eq (hne : rest ≠ []) (hsize : c.rest.length ≤ c.size) (hc : c.rest = run ++ rest)
    (hrun : ∀ ch ∈ run, isGap ch = true ∧ ch ≠ '\r') (hrun' : run ≠ []) :
    gap c =
      if endsInBreak run && atMark rest then malformed
      else .ok (foldedGap run, c.advanceBy run.length) := by
  unfold gap
  obtain ⟨blanks, hblanks, rfl | ⟨b, more, rfl, hb⟩⟩ := run_cases fun ch hch => (hrun ch hch).1
  · obtain ⟨htake, hnone⟩ := skipWhile_blanks hrest hc hblanks
    have hend : (c.advanceBy run.length).atEnd = false := by
      unfold Cursor.atEnd
      rw [Cursor.rest_advanceBy_length hc]
      exact List.isEmpty_eq_false_iff.2 hne
    rw [endsInBreak_blanks hblanks hrun', Bool.false_and, if_neg Bool.false_ne_true,
      foldedGap_blanks hblanks, htake]
    dsimp only
    rw [hend, hnone]
    rfl
  · rw [List.append_assoc, List.cons_append] at hc
    obtain ⟨htake, hbreak⟩ := takeWhile_blanks hc hblanks hb (hrun b (by simp)).2
    have hlength : (blanks ++ b :: more).length = blanks.length + 1 + more.length := by
      rw [List.length_append, List.length_cons]
      omega
    have hend : (c.advanceBy blanks.length).atEnd = false := by
      unfold Cursor.atEnd
      rw [Cursor.rest_advanceBy_length hc]
      rfl
    have hbreaks : breaksFrom (c.advanceBy (blanks.length + 1)) =
        if endsInBreak more && atMark rest then malformed
        else .ok (fedBreaks more, c.advanceBy (blanks.length + 1 + more.length)) := by
      rw [hc] at hsize
      unfold breaksFrom Cursor.fuel
      rw [Cursor.size_advanceBy, breaks_eq hrest (by simp at hsize; omega) []
        (Cursor.rest_advanceBy_succ hc) fun ch hch => hrun ch (by simp [hch]),
        ← Cursor.advanceBy_add]
      rfl
    rw [endsInBreak_append hb, foldedGap_append hblanks hb, hlength, htake]
    dsimp only
    rw [hend, hbreak]
    dsimp only
    rw [hbreaks, if_neg Bool.false_ne_true]
    by_cases hstop : (endsInBreak more && atMark rest) = true
    · rw [if_pos hstop, if_pos hstop]
      rfl
    · rw [if_neg hstop, if_neg hstop]
      simp [firstFed]

omit hrest

-- ==================================================== escapes

/-- YAML has all short escapes of JSON. -/
theorem simpleEscape?_of_json {letter ch : Char} (h : Json.simpleEscape? letter = some ch) :
    simpleEscape? letter = some ch := by
  unfold Json.simpleEscape? at h
  split at h <;> first | exact h | cases h

theorem hexDigit?_lt {ch : Char} {n : Nat} (h : Json.hexDigit? ch = some n) : n < 16 := by
  unfold Json.hexDigit? at h
  simp only [Char.le_def, UInt32.le_iff_toNat_le] at h
  have hnine : '9'.val.toNat = 57 := rfl
  have hzero : '0'.toNat = 48 := rfl
  have hf : 'f'.val.toNat = 102 ∧ 'a'.toNat = 97 := ⟨rfl, rfl⟩
  have hF : 'F'.val.toNat = 70 ∧ 'A'.toNat = 65 := ⟨rfl, rfl⟩
  have hch : ch.val.toNat = ch.toNat := rfl
  split at h
  · cases h
    omega
  · split at h
    · cases h
      omega
    · split at h
      · cases h
        omega
      · cases h

/-- A code unit has sixteen bits. -/
theorem code_lt (u : CodeUnit) : u.code < 0x10000 := by
  obtain ⟨digits, hfour, hdigits⟩ := u
  match digits, hfour with
  | [d₁, d₂, d₃, d₄], _ =>
    simp only [List.forall_mem_cons, Option.isSome_iff_exists] at hdigits
    obtain ⟨⟨n₁, h₁⟩, ⟨n₂, h₂⟩, ⟨n₃, h₃⟩, ⟨n₄, h₄⟩, -⟩ := hdigits
    have hn₁ := hexDigit?_lt h₁
    have hn₂ := hexDigit?_lt h₂
    have hn₃ := hexDigit?_lt h₃
    have hn₄ := hexDigit?_lt h₄
    simp only [CodeUnit.code, List.foldl_cons, List.foldl_nil, h₁, h₂, h₃, h₄, Option.getD_some]
    omega

/-- Its digits are read as its code. -/
theorem code?_digits (u : CodeUnit) (rest : List Char) :
    code? 4 (u.digits ++ rest) = some u.code := by
  obtain ⟨digits, hfour, hdigits⟩ := u
  match digits, hfour with
  | [d₁, d₂, d₃, d₄], _ =>
    simp only [List.forall_mem_cons, Option.isSome_iff_exists] at hdigits
    obtain ⟨⟨n₁, h₁⟩, ⟨n₂, h₂⟩, ⟨n₃, h₃⟩, ⟨n₄, h₄⟩, -⟩ := hdigits
    simp [code?, CodeUnit.code, h₁, h₂, h₃, h₄]
    omega

/-- An escape by number is one code point, that of a half where the number is one. -/
theorem escape_unit (u : CodeUnit) (hc : c.rest = u.text ++ rest) :
    escape c.advance = .ok ([.ofCode u.code], c.advanceBy u.text.length) := by
  have hnext : c.advance.rest = 'u' :: (u.digits ++ rest) := by
    rw [Cursor.rest_advance, hc]
    rfl
  have hdigits : c.advance.advance.rest = u.digits ++ rest := by
    rw [Cursor.rest_advance, hnext]
    rfl
  have hlength : u.text.length = 1 + 5 := by simp [CodeUnit.text, u.isFour]
  have hcode : code? 4 c.advance.advance.rest = some u.code := by rw [hdigits, code?_digits]
  have hpoint : pointOf u.code = .ok (.ofCode u.code) :=
    if_pos (Nat.lt_trans (code_lt u) (by decide))
  have hsimple : simpleEscape? 'u' = none := rfl
  have hcodeLength : codeLength? 'u' = some 4 := rfl
  unfold escape Cursor.peek?
  rw [hnext, hlength, Cursor.advanceBy_add]
  simp only [List.head?_cons, hsimple, hcodeLength, hcode, hpoint]
  rfl

/-- A short escape is one character. -/
theorem escape_short {letter ch : Char} (h : Json.simpleEscape? letter = some ch)
    (hc : c.rest = '\\' :: letter :: rest) :
    escape c.advance = .ok ([.char ch], c.advanceBy 2) := by
  have hnext : c.advance.rest = letter :: rest := by rw [Cursor.rest_advance, hc]; rfl
  unfold escape Cursor.peek?
  rw [hnext]
  dsimp only [List.head?_cons]
  rw [simpleEscape?_of_json h]
  rfl

-- ==================================================== document marks

/-- A document mark comes next, all of it raw. -/
def MarkAhead (os : List (Option Char)) : Prop :=
  ∃ m e more, os = some m :: some m :: some m :: some e :: more ∧ (m = '-' ∨ m = '.') ∧
    endsWord (some e) = true

/-- A document mark stands right behind a raw break. -/
def Marked (os : List (Option Char)) : Prop :=
  ∃ b tail, some b :: tail <:+ os ∧ isBreak b = true ∧ MarkAhead tail

variable {o : Option Char} {os : List (Option Char)} {s : List Letter}

/-- A mark stands behind the first letter if that is a break, or behind a later one. -/
theorem marked_cons :
    Marked (o :: os) ↔ (∃ b, o = some b ∧ isBreak b = true ∧ MarkAhead os) ∨ Marked os := by
  unfold Marked
  simp only [List.suffix_cons_iff, List.cons.injEq]
  constructor
  · rintro ⟨b, tail, ⟨rfl, rfl⟩ | htail, hb, hmark⟩
    · exact Or.inl ⟨b, rfl, hb, hmark⟩
    · exact Or.inr ⟨b, tail, htail, hb, hmark⟩
  · rintro (⟨b, rfl, hb, hmark⟩ | ⟨b, tail, htail, hb, hmark⟩)
    · exact ⟨b, os, Or.inl ⟨rfl, rfl⟩, hb, hmark⟩
    · exact ⟨b, tail, Or.inr htail, hb, hmark⟩

/-- No mark starts with a gap. -/
theorem not_markAhead_of_gap {ch : Char} (h : isGap ch = true) : ¬MarkAhead (some ch :: os) := by
  rintro ⟨m, e, more, heq, hm, _⟩
  cases heq
  rcases hm with rfl | rfl <;> cases h

/-- In a run, only its end can be in front of a document mark. -/
theorem marked_run (hrun : ∀ ch ∈ run, isGap ch = true) (hne : run ≠ []) :
    Marked (run.map some ++ os) ↔ (endsInBreak run = true ∧ MarkAhead os) ∨ Marked os := by
  induction run with
  | nil => exact absurd rfl hne
  | cons ch run ih =>
      rw [List.map_cons, List.cons_append, marked_cons]
      simp only [Option.some.injEq, exists_eq_left']
      rw [List.forall_mem_cons] at hrun
      cases run with
      | nil => rfl
      | cons d run =>
          have hnone : ¬MarkAhead ((d :: run).map some ++ os) :=
            not_markAhead_of_gap (hrun.2 d (List.mem_cons_self ..))
          have hends : endsInBreak (ch :: d :: run) = endsInBreak (d :: run) := rfl
          rw [ih hrun.2 (by simp), hends]
          simp only [hnone, and_false, false_or]

/-- The text of some letters and what comes behind their string. -/
def textOf (s : List Letter) (rest : List Char) : List Char := s.flatMap Letter.text ++ '"' :: rest

/-- The text of letters is that of the first one and the rest. -/
theorem textOf_cons (l : Letter) (s : List Letter) (rest : List Char) :
    textOf (l :: s) rest = l.text ++ textOf s rest := by
  unfold textOf
  rw [List.flatMap_cons, List.append_assoc]

/-- A letter is a raw character, or its text starts with a backslash. -/
theorem raw_or_escaped (l : Letter) :
    (∃ ch, l.raw? = some ch ∧ l.char = ch ∧ l.text = [ch] ∧ 0x20 ≤ ch.toNat ∧ ch ≠ '"' ∧
      ch ≠ '\\') ∨ (l.raw? = none ∧ ∃ tail, l.text = '\\' :: tail) := by
  cases l with
  | raw ch hraw => exact Or.inl ⟨ch, rfl, rfl, rfl, hraw⟩
  | short letter ch _ => exact Or.inr ⟨rfl, _, rfl⟩
  | unit u _ => exact Or.inr ⟨rfl, _, rfl⟩
  | pair high low _ _ => exact Or.inr ⟨rfl, _, rfl⟩

/-- What starts with a character of no other use starts with a raw letter. -/
theorem raw_of_textOf {ch : Char} {more : List Char} (hquote : ch ≠ '"') (hslash : ch ≠ '\\') :
    textOf s rest = ch :: more ↔
      ∃ l s', s = l :: s' ∧ l.raw? = some ch ∧ more = textOf s' rest := by
  cases s with
  | nil =>
      constructor
      · intro heq
        exact absurd (List.cons.inj heq).1.symm hquote
      · nofun
  | cons l s =>
      rw [textOf_cons]
      rcases raw_or_escaped l with ⟨d, hraw, _, htext, _⟩ | ⟨hraw, tail, htext⟩
      · rw [htext]
        constructor
        · rintro heq
          cases heq
          exact ⟨l, s, rfl, hraw, rfl⟩
        · rintro ⟨_, _, ⟨rfl, rfl⟩, hraw', rfl⟩
          rw [hraw] at hraw'
          cases hraw'
          rfl
      · rw [htext]
        constructor
        · intro heq
          exact absurd (List.cons.inj heq).1.symm hslash
        · rintro ⟨_, _, ⟨rfl, rfl⟩, hraw', _⟩
          rw [hraw] at hraw'
          cases hraw'

/-- A word ends at a letter that stands for itself, or at the closing quote. -/
theorem endsWord_textOf :
    endsWord (textOf s rest).head? = true ↔
      ∃ e os, raws s = some e :: os ∧ endsWord (some e) = true := by
  cases s with
  | nil =>
      constructor
      · intro h
        cases h
      · nofun
  | cons l s =>
      rw [textOf_cons]
      rcases raw_or_escaped l with ⟨d, hraw, _, htext, _⟩ | ⟨hraw, tail, htext⟩
      · rw [htext]
        have hraws : raws (l :: s) = some d :: raws s := congrArg (· :: raws s) hraw
        rw [hraws]
        constructor
        · exact fun h => ⟨d, _, rfl, h⟩
        · rintro ⟨_, _, ⟨rfl, rfl⟩, h⟩
          exact h
      · rw [htext]
        have hraws : raws (l :: s) = none :: raws s := congrArg (· :: raws s) hraw
        rw [hraws]
        constructor
        · intro h
          cases h
        · nofun

/-- A document mark is made of letters that stand for themselves. -/
theorem atMark_textOf : atMark (textOf s rest) = true ↔ MarkAhead (raws s) := by
  rw [atMark_iff]
  constructor
  · rintro ⟨m, hm, more, heq, hends⟩
    have hquote : m ≠ '"' := by rcases hm with rfl | rfl <;> decide
    have hslash : m ≠ '\\' := by rcases hm with rfl | rfl <;> decide
    obtain ⟨l₁, s₁, rfl, h₁, heq⟩ := (raw_of_textOf hquote hslash).1 heq
    obtain ⟨l₂, s₂, rfl, h₂, heq⟩ := (raw_of_textOf hquote hslash).1 heq.symm
    obtain ⟨l₃, s₃, rfl, h₃, rfl⟩ := (raw_of_textOf hquote hslash).1 heq.symm
    obtain ⟨e, os, hraws, he⟩ := endsWord_textOf.1 hends
    refine ⟨m, e, os, ?_, hm, he⟩
    show l₁.raw? :: l₂.raw? :: l₃.raw? :: raws s₃ = _
    rw [h₁, h₂, h₃, hraws]
  · rintro ⟨m, e, os, hraws, hm, he⟩
    have hquote : m ≠ '"' := by rcases hm with rfl | rfl <;> decide
    have hslash : m ≠ '\\' := by rcases hm with rfl | rfl <;> decide
    obtain ⟨l₁, s₁, rfl, h₁, hraws⟩ := List.map_eq_cons_iff.1 hraws
    obtain ⟨l₂, s₂, rfl, h₂, hraws⟩ := List.map_eq_cons_iff.1 hraws
    obtain ⟨l₃, s₃, rfl, h₃, hraws⟩ := List.map_eq_cons_iff.1 hraws
    refine ⟨m, hm, textOf s₃ rest, ?_, endsWord_textOf.2 ⟨e, os, hraws, he⟩⟩
    refine (raw_of_textOf hquote hslash).2 ⟨l₁, _, rfl, h₁, ?_⟩
    refine ((raw_of_textOf hquote hslash).2 ⟨l₂, _, rfl, h₂, ?_⟩).symm
    exact ((raw_of_textOf hquote hslash).2 ⟨l₃, _, rfl, h₃, rfl⟩).symm

-- ==================================================== reading a string

/-- The raw blank or break that a letter is. -/
def gapChar? (l : Letter) : Option Char := l.raw?.filter isGap

/-- The code points that a letter gives in a scalar: its character, but the escapes of the two
halves of a character stay two halves. -/
def points : Letter → List CodePoint
  | .pair high low _ _ => [.ofCode high.code, .ofCode low.code]
  | l => [.char l.char]

theorem length_points_le (l : Letter) : (points l).length ≤ l.text.length := by
  cases l with
  | pair high low _ _ => exact Nat.succ_le_succ (Nat.succ_le_succ (Nat.zero_le _))
  | raw | short | unit => exact Nat.succ_le_succ (Nat.zero_le _)

/-- A string has no more code points than characters in its text. -/
theorem length_flatMap_points_le (s : List Letter) :
    (s.flatMap points).length ≤ (s.flatMap Letter.text).length := by
  induction s with
  | nil => exact Nat.le_refl _
  | cons l s ih =>
      rw [List.flatMap_cons, List.flatMap_cons, List.length_append, List.length_append]
      exact Nat.add_le_add (length_points_le l) ih

/-- What a scalar holds behind a run of raw blanks and breaks. -/
def foldedFrom (run : List Char) : List Letter → List CodePoint
  | [] => (foldedGap run).map .char
  | l :: s =>
    match gapChar? l with
    | some ch => foldedFrom (run ++ [ch]) s
    | none => (foldedGap run).map .char ++ (points l ++ foldedFrom [] s)

/-- What a string of JSON holds as a scalar in quotes. -/
def folded (s : List Letter) : List CodePoint := foldedFrom [] s

/-- What reading a string from behind a run comes to. -/
structure Parted (s : List Letter) (run : List Char) (fuel : Nat) (acc : List (List CodePoint))
    (c : Cursor) : Prop where
  whole : ¬Marked (run.map some ++ raws s) → ∃ ps, parts true fuel acc c =
      .ok (ps ++ acc, c.advanceBy (run.length + (s.flatMap Letter.text).length + 1)) ∧
    ps.reverse.flatten = foldedFrom run s
  stopped : Marked (run.map some ++ raws s) → parts true fuel acc c = malformed

/-- What reading goes on with, by the character that comes next. -/
theorem parts_succ {ch : Char} (fuel : Nat) (acc : List (List CodePoint))
    (hc : c.rest = ch :: rest) :
    parts true (fuel + 1) acc c =
      if isGap ch then
        match gap c with
        | .error f => .error f
        | .ok (text, c) => parts true fuel (text.map .char :: acc) c
      else if ch = '"' then .ok (acc, c.advance)
      else if ch = '\\' then
        match escape c.advance with
        | .error f => .error f
        | .ok (text, c) => parts true fuel (text :: acc) c
      else parts true fuel ([.char ch] :: acc) c.advance := by
  rw [parts, hc]
  simp only [Bool.true_and, Bool.not_true, Bool.false_and, Bool.false_eq_true, if_false,
    beq_iff_eq]
  rfl

/-- One step of reading takes one escape. -/
theorem parts_escape {text : List CodePoint} {c' : Cursor} (fuel : Nat)
    (acc : List (List CodePoint)) (hc : c.rest = '\\' :: rest)
    (h : escape c.advance = .ok (text, c')) :
    parts true (fuel + 1) acc c = parts true fuel (text :: acc) c' := by
  rw [parts_succ fuel acc hc, if_neg (by decide), if_neg (by decide), if_pos rfl, h]

/-- An escape by number is one part. -/
theorem parts_unit (u : CodeUnit) (fuel : Nat) (acc : List (List CodePoint))
    (hc : c.rest = u.text ++ rest) :
    parts true (fuel + 1) acc c =
      parts true fuel ([.ofCode u.code] :: acc) (c.advanceBy u.text.length) :=
  parts_escape fuel acc hc (escape_unit u hc)

/-- A letter that is not blank gives its code points, each in a step of its own. -/
theorem parts_letter {l : Letter} (hl : gapChar? l = none) (fuel : Nat)
    (acc : List (List CodePoint)) (hc : c.rest = l.text ++ rest) :
    parts true (fuel + (points l).length) acc c =
      parts true fuel (((points l).map ([·])).reverse ++ acc) (c.advanceBy l.text.length) := by
  cases l with
  | raw ch hraw =>
      have hgap : ¬isGap ch = true := by
        unfold gapChar? Letter.raw? at hl
        rw [Option.filter_some] at hl
        simpa using hl
      have hc' : c.rest = ch :: rest := hc
      exact (parts_succ fuel acc hc').trans
        (by rw [if_neg hgap, if_neg hraw.2.1, if_neg hraw.2.2]; rfl)
  | short letter ch hshort => exact parts_escape fuel acc hc (escape_short hshort hc)
  | unit u hwhole =>
      have hpoints : points (.unit u hwhole) = [.ofCode u.code] :=
        congrArg ([·]) (CodePoint.ofCode_of_not_half hwhole).symm
      rw [hpoints]
      exact parts_unit u fuel acc hc
  | pair high low hhigh hlow =>
      have hc' : c.rest = high.text ++ (low.text ++ rest) := hc.trans (List.append_assoc ..)
      have hlength : (Letter.pair high low hhigh hlow).text.length =
          high.text.length + low.text.length := List.length_append
      rw [hlength, Cursor.advanceBy_add]
      exact (parts_unit high (fuel + 1) acc hc').trans
        (parts_unit low fuel _ (Cursor.rest_advanceBy_length hc'))

/-- A run of blanks and breaks is one part. -/
theorem parts_run (hrest : ∀ ch ∈ rest.head?, isGap ch = false) (hne : rest ≠ [])
    (hsize : c.rest.length ≤ c.size) (hc : c.rest = run ++ rest)
    (hrun : ∀ ch ∈ run, isGap ch = true ∧ ch ≠ '\r') (hrun' : run ≠ []) (fuel : Nat)
    (acc : List (List CodePoint)) :
    parts true (fuel + 1) acc c =
      if endsInBreak run && atMark rest then malformed
      else parts true fuel ((foldedGap run).map .char :: acc) (c.advanceBy run.length) := by
  have hgap := gap_eq hrest hne hsize hc hrun hrun'
  cases run with
  | nil => exact absurd rfl hrun'
  | cons ch run =>
    rw [parts_succ fuel acc hc, if_pos (hrun ch (List.mem_cons_self ..)).1, hgap]
    by_cases hstop : (endsInBreak (ch :: run) && atMark rest) = true
    · rw [if_pos hstop, if_pos hstop]
      rfl
    · rw [if_neg hstop, if_neg hstop]

/-- Letters that are not blank at their start may be read apart from the run before them. -/
theorem Parted.flush (hstart : ∀ ch ∈ (textOf s rest).head?, isGap ch = false)
    (hfold : foldedFrom run s = (foldedGap run).map .char ++ foldedFrom [] s)
    (h : ∀ {fuel acc c}, (s.flatMap points).length < fuel → c.rest = textOf s rest →
      c.rest.length ≤ c.size → Parted s [] fuel acc c)
    {fuel : Nat} (acc : List (List CodePoint))
    (hfuel : run.length + (s.flatMap points).length < fuel)
    (hc : c.rest = run ++ textOf s rest) (hsize : c.rest.length ≤ c.size)
    (hrun : ∀ ch ∈ run, isGap ch = true ∧ ch ≠ '\r') : Parted s run fuel acc c := by
  by_cases hempty : run = []
  · subst hempty
    exact h (by omega) hc hsize
  · have hne : textOf s rest ≠ [] := by
      unfold textOf
      simp
    have hlength : 0 < run.length := List.length_pos_iff.2 hempty
    have hmarked : Marked (run.map some ++ raws s) ↔
        (endsInBreak run = true ∧ MarkAhead (raws s)) ∨ Marked (raws s) :=
      marked_run (fun ch hch => (hrun ch hch).1) hempty
    have hstop : (endsInBreak run && atMark (textOf s rest)) = true ↔
        endsInBreak run = true ∧ MarkAhead (raws s) := by
      rw [Bool.and_eq_true, atMark_textOf]
    have hrest := Cursor.rest_advanceBy_length hc
    have hsize' := Cursor.rest_le_size_advanceBy run.length hsize
    obtain ⟨fuel, rfl⟩ : ∃ fuel', fuel = fuel' + 1 := ⟨fuel - 1, by omega⟩
    have hparts := parts_run hstart hne hsize hc hrun hempty fuel acc
    have hread : Parted s [] fuel ((foldedGap run).map .char :: acc) (c.advanceBy run.length) :=
      h (by omega) hrest hsize'
    constructor
    · intro hnone
      rw [hmarked, not_or] at hnone
      obtain ⟨ps, hps, hflat⟩ := hread.whole hnone.2
      refine ⟨ps ++ [(foldedGap run).map .char], ?_, ?_⟩
      · rw [hparts, if_neg (mt hstop.1 hnone.1), hps, ← Cursor.advanceBy_add]
        simp [Nat.add_assoc]
      · rw [List.reverse_append, List.flatten_append, hflat, hfold]
        simp
    · intro hmark
      rw [hparts]
      split
      · rfl
      · next hgo => exact hread.stopped ((hmarked.1 hmark).resolve_left (mt hstop.2 hgo))

/-- In front of a letter that is no gap the run is folded. -/
theorem foldedFrom_of_start {l : Letter} (hl : gapChar? l = none) :
    foldedFrom run (l :: s) = (foldedGap run).map .char ++ foldedFrom [] (l :: s) := by
  rw [foldedFrom, foldedFrom, hl]
  rfl

/-- A letter that may be folded stands for itself. -/
theorem gapChar?_eq_some {l : Letter} {ch : Char} (h : gapChar? l = some ch) :
    l.raw? = some ch ∧ isGap ch = true ∧ l.text = [ch] ∧ l.char = ch ∧ 0x20 ≤ ch.toNat := by
  obtain ⟨hraw, hgap⟩ := Option.filter_eq_some_iff.1 h
  rcases raw_or_escaped l with ⟨d, hraw', hchar, htext, hprints, _⟩ | ⟨hraw', _⟩
  · rw [hraw] at hraw'
    cases hraw'
    exact ⟨hraw, hgap, htext, hchar, hprints⟩
  · rw [hraw] at hraw'
    cases hraw'

theorem head?_textOf_of_start {l : Letter} (hl : gapChar? l = none) :
    ∀ ch ∈ (textOf (l :: s) rest).head?, isGap ch = false := by
  rw [textOf_cons]
  rcases raw_or_escaped l with ⟨d, hraw, _, htext, _⟩ | ⟨_, tail, htext⟩
  · rw [htext]
    rintro _ ⟨⟩
    unfold gapChar? at hl
    rw [hraw, Option.filter_some] at hl
    simpa using hl
  · rw [htext]
    rintro _ ⟨⟩
    rfl

/-- A letter that is no gap is marked by what is behind it. -/
theorem marked_start {l : Letter} (hl : gapChar? l = none) :
    Marked (raws (l :: s)) ↔ Marked (raws s) := by
  show Marked (l.raw? :: raws s) ↔ _
  rw [marked_cons]
  refine or_iff_right ?_
  rintro ⟨b, hb, hbreak, _⟩
  unfold gapChar? at hl
  rw [hb, Option.filter_some, isGap, hbreak, Bool.or_true] at hl
  cases hl

/-- What a blank or break comes to is left to the run that it goes on. -/
theorem Parted.gap {l : Letter} {ch : Char} {fuel : Nat} {acc : List (List CodePoint)}
    (hl : gapChar? l = some ch) (h : Parted s (run ++ [ch]) fuel acc c) :
    Parted (l :: s) run fuel acc c := by
  obtain ⟨hraw, _, htext, _, _⟩ := gapChar?_eq_some hl
  have hraws : run.map some ++ raws (l :: s) = (run ++ [ch]).map some ++ raws s := by
    show run.map some ++ (l.raw? :: raws s) = _
    rw [hraw]
    simp
  have hfold : foldedFrom run (l :: s) = foldedFrom (run ++ [ch]) s := by
    rw [foldedFrom, hl]
  constructor
  · intro hnone
    rw [hraws] at hnone
    obtain ⟨ps, hps, hflat⟩ := h.whole hnone
    refine ⟨ps, ?_, hflat.trans hfold.symm⟩
    have hlength : (run ++ [ch]).length + (s.flatMap Letter.text).length =
        run.length + ((l :: s).flatMap Letter.text).length := by
      rw [List.flatMap_cons, htext, List.length_append, List.length_append,
        List.length_singleton]
      omega
    rw [hps, hlength]
  · intro hmark
    rw [hraws] at hmark
    exact h.stopped hmark

/-- Any other letter is parts of its own. -/
theorem Parted.letter {l : Letter} {fuel : Nat} {acc : List (List CodePoint)}
    (hl : gapChar? l = none) (hc : c.rest = l.text ++ textOf s rest)
    (h : Parted s [] fuel (((points l).map ([·])).reverse ++ acc) (c.advanceBy l.text.length)) :
    Parted (l :: s) [] (fuel + (points l).length) acc c := by
  have hparts := parts_letter hl fuel acc hc
  have hmarked : Marked (raws (l :: s)) ↔ Marked (raws s) := marked_start hl
  have hpoints : ((points l).map ([·])).flatten = points l := by
    rw [← List.flatMap_def, List.flatMap_singleton']
  constructor
  · intro hnone
    obtain ⟨ps, hps, hflat⟩ := h.whole (mt hmarked.2 hnone)
    refine ⟨ps ++ ((points l).map ([·])).reverse, ?_, ?_⟩
    · rw [hparts, hps, ← Cursor.advanceBy_add, List.flatMap_cons]
      simp [Nat.add_assoc]
    · rw [List.reverse_append, List.reverse_reverse, List.flatten_append, hpoints, hflat,
        foldedFrom, hl]
      rfl
  · intro hmark
    rw [hparts]
    exact h.stopped (hmarked.1 hmark)

/-- The end of the letters is the end of the parts. -/
theorem parted_nil (fuel : Nat) (acc : List (List CodePoint)) (hc : c.rest = textOf [] rest) :
    Parted [] [] (fuel + 1) acc c := by
  constructor
  · intro _
    refine ⟨[], ?_, rfl⟩
    rw [parts_succ fuel acc hc, if_neg (by decide), if_pos rfl]
    rfl
  · rintro ⟨b, tail, hsuffix, _⟩
    cases List.suffix_nil.1 hsuffix

/-- A string is read from behind any run of blanks and breaks. -/
theorem parted {fuel : Nat} (acc : List (List CodePoint))
    (hfuel : run.length + (s.flatMap points).length < fuel)
    (hc : c.rest = run ++ textOf s rest) (hsize : c.rest.length ≤ c.size)
    (hrun : ∀ ch ∈ run, isGap ch = true ∧ ch ≠ '\r') : Parted s run fuel acc c := by
  induction s generalizing run fuel acc c with
  | nil =>
      have hfold : foldedFrom run [] = (foldedGap run).map .char ++ foldedFrom [] [] :=
        (List.append_nil _).symm
      refine Parted.flush (by rintro _ ⟨⟩; rfl) hfold ?_ acc hfuel hc hsize hrun
      intro fuel acc c hfuel hc hsize
      obtain ⟨fuel, rfl⟩ : ∃ fuel', fuel = fuel' + 1 := ⟨fuel - 1, by omega⟩
      exact parted_nil fuel acc hc
  | cons l s ih =>
      cases hl : gapChar? l with
      | some ch =>
          obtain ⟨_, hgap, htext, _, hch⟩ := gapChar?_eq_some hl
          have hne : ch ≠ '\r' := by
            rintro rfl
            exact absurd hch (by decide)
          have hrun' : ∀ d ∈ run ++ [ch], isGap d = true ∧ d ≠ '\r' :=
            List.forall_mem_append.2 ⟨hrun, List.forall_mem_singleton.2 ⟨hgap, hne⟩⟩
          have hc' : c.rest = (run ++ [ch]) ++ textOf s rest := by
            rw [hc, textOf_cons, htext, List.append_assoc]
          have hfuel' : (run ++ [ch]).length + (s.flatMap points).length < fuel := by
            rw [List.flatMap_cons, List.length_append] at hfuel
            rw [List.length_append, List.length_singleton]
            have hpoints : 0 < (points l).length := by cases l <;> exact Nat.succ_pos _
            omega
          exact .gap hl (ih acc hfuel' hc' hsize hrun')
      | none =>
          refine Parted.flush ?_ (foldedFrom_of_start hl) ?_ acc hfuel hc hsize hrun
          · exact head?_textOf_of_start hl
          · intro fuel acc c hfuel hc hsize
            rw [List.flatMap_cons, List.length_append] at hfuel
            obtain ⟨fuel, rfl⟩ : ∃ fuel', fuel = fuel' + (points l).length :=
              ⟨fuel - (points l).length, by omega⟩
            rw [textOf_cons] at hc
            have hrest := Cursor.rest_advanceBy_length hc
            have hsize' := Cursor.rest_le_size_advanceBy l.text.length hsize
            exact .letter hl hc
              (ih _ (by rw [List.length_nil]; omega) hrest hsize' (List.forall_mem_nil _))

/-- A string without marks is read as what its letters fold to. -/
theorem scan_quoted (hc : c.rest = quoted s ++ rest) (hsize : c.rest.length ≤ c.size) :
    (¬Marked (raws s) → scan true c = .ok (folded s, c.advanceBy (quoted s).length)) ∧
      (Marked (raws s) → scan true c = malformed) := by
  have hquoted : quoted s ++ rest = '"' :: textOf s rest := by
    show '"' :: ((s.flatMap Letter.text ++ ['"']) ++ rest) = _
    rw [List.append_assoc]
    rfl
  have hc' : c.advance.rest = textOf s rest := by
    rw [Cursor.rest_advance, hc, hquoted]
    rfl
  have hfuel : (s.flatMap points).length < c.fuel := by
    have hle := length_flatMap_points_le s
    rw [hc, hquoted] at hsize
    unfold textOf at hsize
    rw [List.length_cons, List.length_append] at hsize
    unfold Cursor.fuel
    omega
  have hread : Parted s [] c.fuel [] c.advance :=
    parted [] (by simpa using hfuel) hc' (Cursor.rest_le_size_advanceBy 1 hsize)
      (List.forall_mem_nil _)
  have hlength : (quoted s).length = 1 + (0 + (s.flatMap Letter.text).length + 1) := by
    show ('"' :: (s.flatMap Letter.text ++ ['"'])).length = _
    rw [List.length_cons, List.length_append, List.length_singleton]
    omega
  unfold scan
  constructor
  · intro hnone
    obtain ⟨ps, hps, hflat⟩ := hread.whole hnone
    rw [hps, List.append_nil]
    dsimp only
    rw [hflat, hlength, Cursor.advanceBy_add _ _ c]
    rfl
  · intro hmark
    rw [hread.stopped hmark]
    rfl

end ApiAuthz.Yaml.QuotedScalar
