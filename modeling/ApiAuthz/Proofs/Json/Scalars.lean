/-
The values of JSON words as plain scalars. Null and the truth values are read as what they are.
A number is read as what it denotes if its form is that of an integer or a floating number, and
as its text otherwise (`Number.reading`); integers with too many digits have no value
(`Number.ofTag_eq_ok`, `Number.ofTag_eq_error`).

# Three forms

Which tag a number has was settled by its form alone (`Number.tagOf_text`). Without a point and
without an exponent it is an integer; with a point it is a floating number, unless it has an
exponent without a sign; every other one is a text. The two readers of numerals take far more
than JSON has to offer, so each is followed here along the one way that a JSON number goes:

  * `intOf` drops underscores, of which there are none, takes the sign off, looks for the mark
    of a base or for colons, finds neither, and reads decimal digits (`Number.intOf_text`). A
    leading zero would make a number octal, but the whole part of a number has none
    (`unsignedInt_whole`).
  * `floatOf` lowers the letters, of which there is the mark of the exponent at most, takes the
    sign off, finds no word for infinity and no colon, and splits at the point and at the mark
    (`Number.floatOf_text`).

# What they agree on

These readers take the sign off and put it on the nearest float in the end, that of JSON takes
the nearest float with its sign, which is the same (`neg_ofDecimal`); the payload of a scalar is
of no matter to what is a number (`withPayload_ofDecimal`). Integers and fractions are read as
the numbers their digits spell (`natIn_digits`, `decimal?_eq`), which is how numbers denote. So
where a number is read as a number at all it is the one JSON has for it.
-/
import ApiAuthz.Proofs.Json.Numbers
import ApiAuthz.Proofs.NamespaceGrammar

namespace ApiAuthz.Json

open Yaml.ScalarValue

-- ==================================================== null and truth values

/-- The word for nothing is read as nothing. -/
theorem ofTag_null (payload : Nat) :
    ofTag payload (Yaml.PlainForm.tagOf "null") (Text.points "null") = .ok .null := by
  have htag : Yaml.PlainForm.tagOf "null" = .null := by decide
  rw [htag]
  rfl

/-- The words for truth values are read as these. -/
theorem ofTag_bool (payload : Nat) (b : Bool) :
    ofTag payload (Yaml.PlainForm.tagOf (if b then "true" else "false"))
      (Text.points (if b then "true" else "false")) = .ok (.bool b) := by
  have htag : Yaml.PlainForm.tagOf (if b then "true" else "false") = .bool := by
    revert b
    decide
  have hword : boolOf (if b then "true" else "false") = .ok b := by
    cases b <;> rfl
  unfold ofTag
  rw [htag, Text.whole_points]
  dsimp only
  rw [hword]
  rfl

-- ==================================================== characters of numbers

theorem dropWhile_of_none {p : Char → Bool} {cs : List Char} (h : ∀ c ∈ cs, p c = false) :
    cs.dropWhile p = cs := by
  cases cs with
  | nil => rfl
  | cons c cs => exact List.dropWhile_cons_of_neg (by rw [h c (List.mem_cons_self ..)]; nofun)

/-- The characters of numbers in lower case. -/
def numeralChars : List Char := "0123456789-+.e".toList

/-- ASCII digits and signs are what a numeral is made of already. -/
theorem numeral_eq {cs : List Char} (h : ∀ c ∈ cs, c ∈ numeralChars) : Text.numeral cs = cs := by
  have hall : ∀ c ∈ numeralChars, Text.asciiOf c = c ∧ Text.isAsciiBlank c = false :=
    forall_mem_of_all (by decide)
  have hmap : cs.map Text.asciiOf = cs := by
    conv => rhs; rw [← List.map_id cs]
    exact List.map_congr_left fun c hc => (hall c (h c hc)).1
  unfold Text.numeral Text.stripRight
  rw [hmap, dropWhile_of_none fun c hc => (hall c (h c hc)).2, dropWhile_of_none,
    List.reverse_reverse]
  exact fun c hc => (hall c (h c (List.mem_reverse.1 hc))).2

theorem signed_digits {cs rest : List Char} (h : Digits cs) :
    signed (cs ++ rest) = (false, cs ++ rest) := by
  obtain ⟨d, ds, rfl, hd⟩ := h.eq_cons
  have hall : ∀ c ∈ digitChars, c ≠ '-' ∧ c ≠ '+' := forall_mem_of_all (by decide)
  obtain ⟨hminus, hplus⟩ := hall d (mem_of_isDigit hd)
  unfold signed
  split
  · next heq => exact absurd (List.cons.inj heq).1 hminus
  · next heq => exact absurd (List.cons.inj heq).1 hplus
  · rfl

-- ==================================================== integers

/-- Digits are read as the number they spell. -/
theorem natIn_digits {cs : List Char} (h : Digits cs) : natIn 10 cs = some (natOf cs) := by
  have hstep (n : Nat) {c : Char} (hc : isDigit c = true) : (do
      let d ← hexDigit? c
      if d < 10 then return n * 10 + d else none) = some (n * 10 + (c.toNat - '0'.toNat)) := by
    have hall : ∀ c ∈ digitChars,
        hexDigit? c = some (c.toNat - '0'.toNat) ∧ c.toNat - '0'.toNat < 10 :=
      forall_mem_of_all (by decide)
    obtain ⟨hvalue, hlt⟩ := hall c (mem_of_isDigit hc)
    rw [hvalue]
    show (if c.toNat - '0'.toNat < 10 then some (n * 10 + (c.toNat - '0'.toNat)) else none) = _
    rw [if_pos hlt]
  have hfold (ds : List Char) (hds : ∀ c ∈ ds, isDigit c = true) (n : Nat) :
      ds.foldlM (fun n c => do
        let d ← hexDigit? c
        if d < 10 then return n * 10 + d else none) n =
      some (ds.foldl (fun n c => n * 10 + (c.toNat - '0'.toNat)) n) := by
    induction ds generalizing n with
    | nil => rfl
    | cons c ds ih =>
        rw [List.forall_mem_cons] at hds
        rw [List.foldlM_cons, hstep n hds.1]
        exact ih hds.2 _
  unfold natIn
  rw [List.isEmpty_eq_false_iff.2 h.1, if_neg Bool.false_ne_true, hfold cs h.2]
  rfl

theorem Digits.mem_numeralChars {cs : List Char} (h : Digits cs) : ∀ c ∈ cs, c ∈ numeralChars := by
  have hall : ∀ c ∈ digitChars, c ∈ numeralChars := forall_mem_of_all (by decide)
  exact fun c hc => hall c (mem_of_isDigit (h.2 c hc))

/-- Digits are taken up to what is none. -/
theorem takeWhile_digits {cs rest : List Char} (h : Digits cs)
    (hrest : ∀ c ∈ rest.head?, c.isDigit = false) :
    (cs ++ rest).takeWhile Char.isDigit = cs ∧ (cs ++ rest).dropWhile Char.isDigit = rest := by
  have hdigits : ∀ c ∈ cs, c.isDigit = true := fun c hc => charIsDigit_of_isDigit (h.2 c hc)
  exact ⟨takeWhile_append hdigits hrest, dropWhile_append hdigits hrest⟩

/-- As an integer they are read within the limit and refused beyond it. -/
theorem intIn_digits {cs : List Char} (h : Digits cs) :
    intIn 10 cs = if DigitLimit.digits < cs.length
      then .error (.unreadable (DigitLimit.unreadWords cs.length))
      else .ok (natOf cs) := by
  have hmark : baseMark 10 cs = cs := by
    unfold baseMark
    split
    · next c ds => rfl
    · rfl
  have hsigned : signed (Text.numeral cs) = (false, cs) := by
    have hsign : signed (cs ++ []) = (false, cs ++ []) := signed_digits h
    rw [List.append_nil] at hsign
    rw [numeral_eq h.mem_numeralChars, hsign]
  have htake : cs.takeWhile Char.isDigit = cs := by
    have htake : (cs ++ []).takeWhile Char.isDigit = cs :=
      (takeWhile_digits h (by exact nofun)).1
    rwa [List.append_nil] at htake
  unfold intIn
  rw [hsigned]
  dsimp only
  rw [hmark, htake, natIn_digits h]
  simp only [true_and]
  rfl

/-- So is the whole part: it has no leading zero that would make it octal. -/
theorem unsignedInt_whole (n : Number) :
    unsignedInt n.whole = if DigitLimit.digits < n.whole.length
      then .error (.unreadable (DigitLimit.unreadWords n.whole.length))
      else .ok (natOf n.whole) := by
  obtain ⟨d, ds, heq, hd⟩ := n.isWhole.1.eq_cons
  by_cases hzero : d = '0'
  · subst hzero
    have hwhole := n.isWhole.2 (by rw [heq]; rfl)
    rw [hwhole]
    rfl
  · have hcolon : n.whole.contains ':' = false := by
      rw [Bool.eq_false_iff]
      intro hmem
      exact absurd (n.isWhole.1.2 _ (List.contains_iff_mem.1 hmem)) (by decide)
    rw [← intIn_digits n.isWhole.1]
    unfold unsignedInt
    split
    · next h => exact absurd h n.isWhole.1.1
    · next h =>
      rw [heq] at h
      exact absurd (List.cons.inj h).1 hzero
    · next h =>
      rw [heq] at h
      exact absurd (List.cons.inj h).1 hzero
    · next h =>
      rw [heq] at h
      exact absurd (List.cons.inj h).1 hzero
    · next h =>
      rw [heq] at h
      exact absurd (List.cons.inj h).1 hzero
    · rw [hcolon, if_neg Bool.false_ne_true]

/-- There are no underscores in a number. -/
theorem Number.withoutUnderscores_text (n : Number) :
    withoutUnderscores (String.ofList n.text) = n.text := by
  unfold withoutUnderscores
  rw [String.toList_ofList]
  refine List.filter_eq_self.2 fun c hc => ?_
  have hall : ∀ c ∈ numberChars, (c != '_') = true := forall_mem_of_all (by decide)
  exact hall c (n.mem_text hc)

/-- The sign of a number is read off its front. -/
theorem signed_whole (n : Number) (rest : List Char) :
    signed ((if n.negative then ['-'] else []) ++ (n.whole ++ rest)) =
      (n.negative, n.whole ++ rest) := by
  cases n.negative with
  | true => rfl
  | false =>
      have hsigned : signed (n.whole ++ rest) = (false, n.whole ++ rest) :=
        signed_digits n.isWhole.1
      exact hsigned

/-- A number that looks like an integer is read as the one it denotes. -/
theorem Number.intOf_text {n : Number} (h : n.IsInteger) :
    intOf (String.ofList n.text) = if DigitLimit.digits < n.whole.length
      then .error (.unreadable (DigitLimit.unreadWords n.whole.length))
      else .ok (Binary64.withSign n.negative (natOf n.whole)) := by
  unfold intOf
  rw [n.withoutUnderscores_text, n.text_eq, signed_whole, n.tail_eq_nil_iff.2 h, List.append_nil]
  dsimp only
  rw [unsignedInt_whole]
  by_cases hlimit : DigitLimit.digits < n.whole.length
  · rw [if_pos hlimit, if_pos hlimit]
    rfl
  · rw [if_neg hlimit, if_neg hlimit]
    rfl

-- ==================================================== floating numbers

/-- The nearest float of a decimal changes its sign with it. -/
theorem neg_ofDecimal (digits : Nat) (exponent : Int) :
    (Binary64.ofDecimal false digits exponent).neg = .ofDecimal true digits exponent := by
  unfold Binary64.ofDecimal
  split
  · rfl
  · split
    · rfl
    · split
      · rfl
      · unfold Binary64.ofRatio
        split
        · rfl
        · dsimp only
          split <;> split <;> rfl

/-- The nearest float of a decimal is a number, so no payload is put into it. -/
theorem withPayload_ofDecimal (payload : Nat) (negative : Bool) (digits : Nat) (exponent : Int) :
    (Binary64.ofDecimal negative digits exponent).withPayload payload =
      .ofDecimal negative digits exponent := by
  unfold Binary64.ofDecimal
  split
  · rfl
  · split
    · rfl
    · split
      · rfl
      · unfold Binary64.ofRatio
        split
        · rfl
        · dsimp only
          split <;> split <;> rfl

/-- An exponent in lower case. -/
def loweredExponent (e : Option Exponent) : List Char :=
  e.elim [] fun x => 'e' :: (x.sign.toList ++ x.digits)

/-- A point with digits on both sides, and an exponent with a sign if there is one, is read as the
nearest float. -/
theorem decimal?_eq {whole fraction : List Char} {e : Option Exponent} (hwhole : Digits whole)
    (hfraction : Digits fraction) (he : ∀ x ∈ e, x.sign.isSome = true) :
    decimal? false (whole ++ '.' :: (fraction ++ loweredExponent e)) =
      some (.ofDecimal false (natOf (whole ++ fraction))
        (e.elim 0 Exponent.value - fraction.length)) := by
  have hexponent : ∀ c ∈ (loweredExponent e).head?, c.isDigit = false := by
    cases e with
    | none => nofun
    | some x =>
        rintro _ ⟨⟩
        rfl
  have hpoint : ∀ c ∈ ('.' :: (fraction ++ loweredExponent e)).head?, c.isDigit = false := by
    rintro _ ⟨⟩
    rfl
  obtain ⟨htake, hdrop⟩ := takeWhile_digits hwhole hpoint
  obtain ⟨htake', hdrop'⟩ := takeWhile_digits hfraction hexponent
  have hempty : whole.isEmpty = false := List.isEmpty_eq_false_iff.2 hwhole.1
  unfold decimal?
  simp only [htake, hdrop, htake', hdrop', hempty, Bool.false_and, Bool.false_eq_true, if_false]
  cases e with
  | none => rfl
  | some x =>
      obtain ⟨s, hs⟩ := Option.isSome_iff_exists.1 (he x rfl)
      have hlowered : loweredExponent (some x) = 'e' :: s :: x.digits := by
        show 'e' :: (x.sign.toList ++ x.digits) = _
        rw [hs]
        rfl
      have hsigned : signed (s :: x.digits) = (decide (s = '-'), x.digits) := by
        rcases x.isSign s hs with rfl | rfl <;> rfl
      have hvalue : (if decide (s = '-') = true then -(natOf x.digits : Int) else natOf x.digits) =
          x.value := by
        unfold Exponent.value
        simp [hs]
      rw [hlowered]
      simp only [hsigned, x.areDigits.allOf, hvalue, beq_self_eq_true, Bool.and_self, if_true]
      rfl

theorem mem_numeralChars_loweredExponent {e : Option Exponent} :
    ∀ c ∈ loweredExponent e, c ∈ numeralChars := by
  cases e with
  | none => nofun
  | some x =>
      intro c hc
      rcases List.mem_cons.1 hc with rfl | hc
      · decide
      · rcases List.mem_append.1 hc with hc | hc
        · rcases x.isSign c (Option.mem_toList.1 hc) with rfl | rfl <;> decide
        · exact x.areDigits.mem_numeralChars c hc

/-- The body of a floating number: digits, a point, digits and an exponent. -/
theorem unsignedFloat_eq {whole fraction : List Char} {e : Option Exponent} (hwhole : Digits whole)
    (hfraction : Digits fraction) (he : ∀ x ∈ e, x.sign.isSome = true) :
    unsignedFloat (whole ++ '.' :: (fraction ++ loweredExponent e)) =
      .ok (.ofDecimal false (natOf (whole ++ fraction))
        (e.elim 0 Exponent.value - fraction.length)) := by
  obtain ⟨body, hbody⟩ : ∃ body, body = whole ++ '.' :: (fraction ++ loweredExponent e) := ⟨_, rfl⟩
  have hchars : ∀ c ∈ body, c ∈ numeralChars := by
    rw [hbody]
    intro c hc
    rcases List.mem_append.1 hc with hc | hc
    · exact hwhole.mem_numeralChars c hc
    · rcases List.mem_cons.1 hc with rfl | hc
      · decide
      · rcases List.mem_append.1 hc with hc | hc
        · exact hfraction.mem_numeralChars c hc
        · exact mem_numeralChars_loweredExponent c hc
  obtain ⟨d, ds, hcons, hd⟩ : ∃ d ds, body = d :: ds ∧ isDigit d = true := by
    obtain ⟨d, ds, heq, hd⟩ := hwhole.eq_cons
    exact ⟨d, ds ++ '.' :: (fraction ++ loweredExponent e), by rw [hbody, heq]; rfl, hd⟩
  have hcolon : body.contains ':' = false := by
    rw [Bool.eq_false_iff]
    exact fun hmem => absurd (hchars _ (List.contains_iff_mem.1 hmem)) (by decide)
  have hpoint : (body == ['.', 'i', 'n', 'f']) = false := by
    rw [beq_eq_false_iff_ne, hcons]
    rintro ⟨⟩
    cases hd
  have hsigned : signed (Text.numeral body) = (false, body) := by
    rw [numeral_eq hchars, hbody]
    exact signed_digits hwhole
  have hname (name : String) (h : name.toList.head?.any isDigit = false) :
      (String.ofList body == name) = false := by
    rw [beq_eq_false_iff_ne]
    rintro rfl
    rw [String.toList_ofList, hcons, List.head?_cons, Option.any_some, hd] at h
    cases h
  rw [← hbody]
  have hinf := hname "inf" (by decide)
  have hinfinity := hname "infinity" (by decide)
  have hnan := hname "nan" (by decide)
  have hdecimal := decimal?_eq hwhole hfraction he
  rw [← hbody] at hdecimal
  unfold unsignedFloat floatIn
  simp only [hpoint, hcolon, hsigned, hinf, hinfinity, hnan, hdecimal, Bool.or_self,
    Bool.false_eq_true, if_false]

/-- Digits have no other case. -/
theorem map_toLower_digits {cs : List Char} (h : Digits cs) : cs.map Char.toLower = cs := by
  have hall : ∀ c ∈ digitChars, c.toLower = c := forall_mem_of_all (by decide)
  conv => rhs; rw [← List.map_id cs]
  exact List.map_congr_left fun c hc => hall c (mem_of_isDigit (h.2 c hc))

/-- Only the mark of an exponent has one. -/
theorem map_toLower_exponentText (e : Option Exponent) :
    (exponentText e).map Char.toLower = loweredExponent e := by
  cases e with
  | none => rfl
  | some x =>
      show (x.mark :: (x.sign.toList ++ x.digits)).map Char.toLower =
        'e' :: (x.sign.toList ++ x.digits)
      have hmark : x.mark.toLower = 'e' := by
        rcases x.isMark with h | h <;> rw [h] <;> rfl
      have hsign : x.sign.toList.map Char.toLower = x.sign.toList := by
        cases hs : x.sign with
        | none => rfl
        | some s => rcases x.isSign s hs with rfl | rfl <;> rfl
      rw [List.map_cons, List.map_append, hmark, hsign, map_toLower_digits x.areDigits]

/-- A number in small letters has its mark in small. -/
theorem Number.lower_text {n : Number} {f : List Char} (hf : n.fraction = some f) :
    Text.lower n.text = (if n.negative then ['-'] else []) ++
      (n.whole ++ '.' :: (f ++ loweredExponent n.exponent)) := by
  have hascii : ∀ c ∈ n.text, c.toNat < 128 := by
    intro c hc
    have hall : ∀ c ∈ numberChars, c.toNat < 128 := forall_mem_of_all (by decide)
    exact hall c (n.mem_text hc)
  have htail : n.tail = '.' :: (f ++ exponentText n.exponent) := by
    unfold tail
    rw [hf]
    rfl
  have hsign : (if n.negative then ['-'] else [] : List Char).map Char.toLower =
      if n.negative then ['-'] else [] := by
    split <;> rfl
  have hpoint : Char.toLower '.' = '.' := rfl
  rw [Text.lower_eq_map_toLower hascii, n.text_eq, htail, List.map_append, List.map_append,
    List.map_cons, List.map_append, hsign, map_toLower_digits n.isWhole.1,
    map_toLower_digits (n.isFraction f hf), map_toLower_exponentText, hpoint]

/-- A number that looks like a float is read as the nearest one. -/
theorem Number.floatOf_text (payload : Nat) {n : Number} (h : n.IsPointed) :
    floatOf payload (String.ofList n.text) =
      .ok (.ofDecimal n.negative (natOf (n.whole ++ n.decimals))
        (n.exponent.elim 0 Exponent.value - n.decimals.length)) := by
  obtain ⟨f, hf⟩ := Option.isSome_iff_exists.1 h.1
  have hdecimals : n.decimals = f := by
    unfold decimals
    rw [hf]
    rfl
  obtain ⟨d, ds, hwhole, hd⟩ := n.isWhole.1.eq_cons
  have hempty : (n.whole ++ '.' :: (f ++ loweredExponent n.exponent)).isEmpty = false := by
    rw [hwhole]
    rfl
  have hnan : (n.whole ++ '.' :: (f ++ loweredExponent n.exponent) == ['.', 'n', 'a', 'n']) =
      false := by
    rw [beq_eq_false_iff_ne, hwhole]
    rintro heq
    rw [(List.cons.inj heq).1] at hd
    cases hd
  unfold floatOf
  rw [n.withoutUnderscores_text, Number.lower_text hf, signed_whole]
  simp only [hempty, hnan, Bool.false_and, Bool.false_eq_true, if_false,
    unsignedFloat_eq n.isWhole.1 (n.isFraction f hf) h.2, hdecimals]
  refine congrArg Except.ok ?_
  dsimp only
  cases n.negative with
  | true => rw [if_pos rfl, neg_ofDecimal, withPayload_ofDecimal]
  | false => rw [if_neg (by decide), withPayload_ofDecimal]

-- ==================================================== numbers

/-- What a number is read as. -/
def Number.reading (n : Number) : Scalar Broken :=
  if n.IsPointed ∨ n.IsInteger then n.value else .text (String.ofList n.text)

/-- The limit of digits, which is for integers. -/
def Number.WithinLimit (n : Number) : Prop := n.IsInteger → n.whole.length ≤ DigitLimit.digits

/-- No number looks like both. -/
theorem Number.IsPointed.not_isInteger {n : Number} (h : n.IsPointed) : ¬n.IsInteger := by
  intro hint
  have hsome := h.1
  rw [hint.1] at hsome
  cases hsome

/-- A number is read as it is written, up to the limit for integers. -/
theorem Number.ofTag_eq_ok (payload : Nat) {n : Number} (h : n.WithinLimit) :
    ofTag payload (Yaml.PlainForm.tagOf (String.ofList n.text))
      (Text.points (String.ofList n.text)) = .ok n.reading := by
  unfold ofTag reading value
  rw [n.tagOf_text, Text.whole_points, Scalar.ofPoints_points]
  by_cases hpointed : n.IsPointed
  · rw [if_pos hpointed, if_pos (Or.inl hpointed), if_neg hpointed.not_isInteger]
    dsimp only
    rw [Number.floatOf_text payload hpointed]
    rfl
  · rw [if_neg hpointed]
    by_cases hint : n.IsInteger
    · rw [if_pos hint, if_pos (Or.inr hint), if_pos hint]
      dsimp only
      rw [Number.intOf_text hint, if_neg (Nat.not_lt.2 (h hint))]
      rfl
    · rw [if_neg hint, if_neg (fun hor => hor.elim hpointed hint)]

/-- An integer beyond the limit is refused. -/
theorem Number.ofTag_eq_error (payload : Nat) {n : Number} (h : ¬n.WithinLimit) :
    ∃ f, ofTag payload (Yaml.PlainForm.tagOf (String.ofList n.text))
      (Text.points (String.ofList n.text)) = .error f := by
  unfold WithinLimit at h
  rw [Classical.not_imp, Nat.not_le] at h
  obtain ⟨hint, hlimit⟩ := h
  refine ⟨.unreadable (DigitLimit.unreadWords n.whole.length), ?_⟩
  unfold ofTag
  rw [n.tagOf_text, Text.whole_points, if_neg (fun hpointed => hpointed.not_isInteger hint),
    if_pos hint]
  dsimp only
  rw [Number.intOf_text hint, if_pos hlimit]
  rfl

end ApiAuthz.Json
