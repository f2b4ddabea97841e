/-
JSON strings read back as written. Every character survives the way through its
escaped form: the two short ones, a unit of four hexadecimal digits, or, beyond
the first 65536 characters, the two units of a pair. `stringRest_string` is the
law for a whole string with anything behind it.

# Units

The writer puts a character in units of sixteen bits, and the reader takes units.
A unit that is no half of a pair is a character by itself; a first half is held
back until it is known whether a second one follows. No character is a half
(`not_surrogate`), so what the writer puts in one unit is never taken for the
beginning of a pair, and what it puts in two is joined to the character it was
made of (`unicodeEscape_of_small`, `unicodeEscape_of_large`). Halves that stand
alone are read as points of their own, but the writer of characters leaves none.

# Fuel

One step of the reader takes a character in whatever form, so the induction is on
the characters with as much fuel as there are of them (`stringBody_escaped`). A
form is never empty (`escapedChar_ne_nil`), so the length of the text, which is
the fuel of the reader, is enough (`length_le_escaped`).
-/
import ApiAuthz.Json.Reader
import ApiAuthz.Json.Writer
import Mathlib.Data.List.Basic

namespace ApiAuthz.Json

-- ==================================================== hexadecimal digits

/-- Four digits are enough for a unit, and they are its digits in base 16. -/
theorem hex_four {n : Nat} (h : n < 0x10000) :
    Text.hex 4 n = [Nat.digitChar (n / 0x1000), Nat.digitChar (n / 0x100 % 0x10),
      Nat.digitChar (n / 0x10 % 0x10), Nat.digitChar (n % 0x10)] := by
  have hzero : Nat.digitChar 0 = '0' := rfl
  unfold Text.hex
  by_cases h1 : n < 0x10
  · rw [Nat.toDigits_of_lt_base h1]
    rw [show n / 0x1000 = 0 by omega, show n / 0x100 % 0x10 = 0 by omega,
      show n / 0x10 % 0x10 = 0 by omega, show n % 0x10 = n by omega]
    rfl
  · rw [Nat.toDigits_of_base_le (by omega) (by omega)]
    by_cases h2 : n < 0x100
    · rw [Nat.toDigits_of_lt_base (by omega : n / 0x10 < 0x10)]
      rw [show n / 0x1000 = 0 by omega, show n / 0x100 % 0x10 = 0 by omega,
        show n / 0x10 % 0x10 = n / 0x10 by omega]
      rfl
    · rw [Nat.toDigits_of_base_le (by omega) (by omega : 0x10 ≤ n / 0x10)]
      by_cases h3 : n < 0x1000
      · rw [Nat.toDigits_of_lt_base (by omega : n / 0x10 / 0x10 < 0x10)]
        rw [show n / 0x1000 = 0 by omega, show n / 0x100 % 0x10 = n / 0x10 / 0x10 by omega]
        rfl
      · rw [Nat.toDigits_of_base_le (by omega) (by omega : 0x10 ≤ n / 0x10 / 0x10),
          Nat.toDigits_of_lt_base (by omega : n / 0x10 / 0x10 / 0x10 < 0x10)]
        rw [show n / 0x1000 = n / 0x10 / 0x10 / 0x10 by omega,
          show n / 0x100 % 0x10 = n / 0x10 / 0x10 % 0x10 by omega]
        rfl

/-- A hexadecimal digit has the value it was written for. -/
theorem hexDigit?_digitChar : ∀ d, d < 0x10 → hexDigit? (Nat.digitChar d) = some d := by
  decide

/-- The digits of a unit are read as the unit, if anything follows them. -/
theorem unit?_hex {n : Nat} (h : n < 0x10000) {rest : List Char} (hr : rest ≠ []) :
    unit? (Text.hex 4 n ++ rest) = some (n, rest) := by
  have hne : rest.isEmpty = false := by simpa using hr
  rw [hex_four h]
  simp only [List.cons_append, List.nil_append, unit?,
    hexDigit?_digitChar _ (by omega : n / 0x1000 < 0x10),
    hexDigit?_digitChar _ (by omega : n / 0x100 % 0x10 < 0x10),
    hexDigit?_digitChar _ (by omega : n / 0x10 % 0x10 < 0x10),
    hexDigit?_digitChar _ (by omega : n % 0x10 < 0x10), Option.bind_eq_bind, Option.bind_some,
    hne, Bool.false_eq_true, if_false]
  congr 2
  omega

-- ==================================================== escaped characters

/-- The number of a character is not that of half of a pair. -/
theorem not_surrogate (c : Char) : c.toNat < 0xd800 ∨ 0xdfff < c.toNat ∧ c.toNat < 0x110000 :=
  c.valid

/-- A unit that opens no pair is its code point. -/
theorem unicodeEscape_unit {cs rest : List Char} {n : Nat} (hcs : unit? cs = some (n, rest))
    (hn : CodePoint.opens n = false) : unicodeEscape cs = .ok (.ofCode n, rest) := by
  unfold unicodeEscape
  simp only [hcs, hn, Bool.false_eq_true, if_false]

/-- A character of one unit is read back. -/
theorem unicodeEscape_of_small {c : Char} (h : c.toNat < 0x10000) {rest : List Char}
    (hr : rest ≠ []) : unicodeEscape (Text.hex 4 c.toNat ++ rest) = .ok (.char c, rest) := by
  have hc := not_surrogate c
  have hopens : CodePoint.opens c.toNat = false := by
    simp only [CodePoint.opens, Bool.and_eq_false_iff, decide_eq_false_iff_not]
    omega
  rw [unicodeEscape_unit (unit?_hex h hr) hopens, CodePoint.ofCode_toNat]

/-- The two units of a pair make one character. -/
theorem unicodeEscape_pair {cs more rest : List Char} {high low : Nat}
    (hcs : unit? cs = some (high, '\\' :: 'u' :: more)) (hmore : unit? more = some (low, rest))
    (hhigh : CodePoint.opens high = true) (hlow : CodePoint.closes low = true) :
    unicodeEscape cs = .ok (.char (CodePoint.paired high low), rest) := by
  unfold unicodeEscape
  simp only [hcs, hhigh, hmore, hlow, if_true]

/-- A character of two units is read back from both of them. -/
theorem unicodeEscape_of_large {c : Char} (h : 0x10000 ≤ c.toNat) {rest : List Char}
    (hr : rest ≠ []) :
    unicodeEscape (Text.hex 4 (0xd800 + (c.toNat - 0x10000) / 0x400) ++
      '\\' :: 'u' :: (Text.hex 4 (0xdc00 + (c.toNat - 0x10000) % 0x400) ++ rest)) =
      .ok (.char c, rest) := by
  have hc := not_surrogate c
  have hhigh : CodePoint.opens (0xd800 + (c.toNat - 0x10000) / 0x400) = true := by
    simp only [CodePoint.opens, Bool.and_eq_true, decide_eq_true_eq]
    omega
  have hlow : CodePoint.closes (0xdc00 + (c.toNat - 0x10000) % 0x400) = true := by
    simp only [CodePoint.closes, Bool.and_eq_true, decide_eq_true_eq]
    omega
  have hpair : CodePoint.paired (0xd800 + (c.toNat - 0x10000) / 0x400)
      (0xdc00 + (c.toNat - 0x10000) % 0x400) = c := by
    unfold CodePoint.paired
    rw [show 0x10000 + (0xd800 + (c.toNat - 0x10000) / 0x400 - 0xd800) * 0x400 +
        (0xdc00 + (c.toNat - 0x10000) % 0x400 - 0xdc00) = c.toNat by omega]
    exact Char.ofNat_toNat c
  rw [unicodeEscape_pair (unit?_hex (by omega) (List.cons_ne_nil _ _))
    (unit?_hex (by omega) hr) hhigh hlow, hpair]

-- ==================================================== string bodies

variable {start : List Char}

/-- A character that stands for itself. -/
theorem stringBody_plain {c : Char} (hq : c ≠ '"') (hb : c ≠ '\\') (hc : 0x20 ≤ c.toNat)
    (fuel : Nat) (acc : List CodePoint) (rest : List Char) :
    stringBody start (fuel + 1) acc (c :: rest) =
      stringBody start fuel (.char c :: acc) rest := by
  rw [stringBody.eq_def]
  split
  · contradiction
  · next heq =>
    obtain ⟨rfl, rfl⟩ := heq
    split
    · next h => cases h
    · next h => exact absurd (List.cons.inj h).1 hq
    · next h => exact absurd (List.cons.inj h).1 hb
    · next h => exact absurd (List.cons.inj h).1 hb
    · next h => exact absurd (List.cons.inj h).1 hb
    · next h =>
      obtain ⟨rfl, rfl⟩ := List.cons.inj h
      rw [if_neg (by omega)]

/-- An escape of one letter. -/
theorem stringBody_simple {e c : Char} (h : simpleEscape? e = some c) (fuel : Nat)
    (acc : List CodePoint) (rest : List Char) :
    stringBody start (fuel + 1) acc ('\\' :: e :: rest) =
      stringBody start fuel (.char c :: acc) rest := by
  have hu : e ≠ 'u' := by
    rintro rfl
    cases h
  rw [stringBody.eq_def]
  simp only [h]

/-- An escape by number, and that of a second unit with it. -/
theorem stringBody_unicode {p : CodePoint} {cs rest : List Char}
    (h : unicodeEscape cs = .ok (p, rest)) (fuel : Nat) (acc : List CodePoint) :
    stringBody start (fuel + 1) acc ('\\' :: 'u' :: cs) =
      stringBody start fuel (p :: acc) rest := by
  rw [stringBody.eq_def]
  simp only [h]

theorem stringBody_units_of_small {c : Char} (hc : c.toNat < 0x10000) {rest : List Char}
    (hr : rest ≠ []) (fuel : Nat) (acc : List CodePoint) :
    stringBody start (fuel + 1) acc ((units c).flatMap escapedUnit ++ rest) =
      stringBody start fuel (.char c :: acc) rest := by
  unfold units
  rw [if_pos hc, List.flatMap_cons, List.flatMap_nil, List.append_nil, escapedUnit,
    List.cons_append, List.cons_append]
  exact stringBody_unicode (unicodeEscape_of_small hc hr) fuel acc

theorem stringBody_units_of_large {c : Char} (hc : ¬c.toNat < 0x10000) {rest : List Char}
    (hr : rest ≠ []) (fuel : Nat) (acc : List CodePoint) :
    stringBody start (fuel + 1) acc ((units c).flatMap escapedUnit ++ rest) =
      stringBody start fuel (.char c :: acc) rest := by
  unfold units
  rw [if_neg hc, List.flatMap_cons, List.flatMap_cons, List.flatMap_nil, List.append_nil,
    List.append_assoc, escapedUnit, escapedUnit, List.cons_append, List.cons_append,
    List.cons_append, List.cons_append]
  exact stringBody_unicode (unicodeEscape_of_large (Nat.le_of_not_lt hc) hr) fuel acc

/-- One step of the reader takes one escaped character. -/
theorem stringBody_escapedChar (c : Char) {rest : List Char} (hr : rest ≠ []) (fuel : Nat)
    (acc : List CodePoint) :
    stringBody start (fuel + 1) acc (escapedChar c ++ rest) =
      stringBody start fuel (.char c :: acc) rest := by
  unfold escapedChar
  split
  · next h =>
    -- a quote or a backslash
    rcases h with rfl | rfl
    · exact stringBody_simple rfl fuel acc rest
    · exact stringBody_simple rfl fuel acc rest
  next h =>
  obtain ⟨hq, hb⟩ := not_or.1 h
  split
  · next h =>
    -- printable as it is
    exact stringBody_plain hq hb h.1 fuel acc rest
  split
  · next h => subst h; exact stringBody_simple rfl fuel acc rest
  split
  · next h => subst h; exact stringBody_simple rfl fuel acc rest
  split
  · next h => subst h; exact stringBody_simple rfl fuel acc rest
  split
  · next h =>
    obtain rfl : Char.ofNat 8 = c := by rw [← h, Char.ofNat_toNat]
    exact stringBody_simple rfl fuel acc rest
  split
  · next h =>
    obtain rfl : Char.ofNat 12 = c := by rw [← h, Char.ofNat_toNat]
    exact stringBody_simple rfl fuel acc rest
  -- everything else by its units
  by_cases hc : c.toNat < 0x10000
  · exact stringBody_units_of_small hc hr fuel acc
  · exact stringBody_units_of_large hc hr fuel acc

/-- The reader takes a run of escaped characters up to the closing quote. -/
theorem stringBody_escaped (cs rest : List Char) :
    ∀ (fuel : Nat) (acc : List CodePoint), cs.length < fuel →
      stringBody start fuel acc (cs.flatMap escapedChar ++ '"' :: rest) =
        .ok (acc.reverse ++ cs.map .char, rest) := by
  induction cs with
  | nil =>
      intro fuel acc h
      match fuel with
      | fuel + 1 =>
        rw [List.map_nil, List.append_nil]
        rfl
  | cons c cs ih =>
      intro fuel acc h
      match fuel with
      | fuel + 1 =>
        rw [List.flatMap_cons, List.append_assoc,
          stringBody_escapedChar c (by simp), ih fuel (.char c :: acc) (Nat.lt_of_succ_lt_succ h)]
        simp

theorem escapedChar_ne_nil (c : Char) : escapedChar c ≠ [] := by
  intro h
  have := @stringBody_escapedChar [] c _ (List.cons_ne_nil '"' []) 0 []
  rw [h] at this
  cases this

theorem length_le_escaped (cs : List Char) : cs.length ≤ (cs.flatMap escapedChar).length := by
  induction cs with
  | nil => exact Nat.le_refl _
  | cons c cs ih =>
      have hc := List.length_pos_iff.2 (escapedChar_ne_nil c)
      rw [List.flatMap_cons, List.length_append, List.length_cons]
      omega

/-- A written string is read as itself, with what follows it left. -/
theorem stringRest_string (start : List Char) (s : String) (rest : List Char) :
    stringRest start (s.toList.flatMap escapedChar ++ '"' :: rest) =
      .ok (Text.points s, rest) := by
  have hfuel : s.toList.length < (s.toList.flatMap escapedChar ++ '"' :: rest).length + 1 := by
    have := length_le_escaped s.toList
    rw [List.length_append]
    omega
  unfold stringRest
  rw [stringBody_escaped _ _ _ _ hfuel, List.reverse_nil, List.nil_append, Text.points]

end ApiAuthz.Json
