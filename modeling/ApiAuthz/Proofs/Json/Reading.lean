/-
The JSON reader takes the grammar. Each part of a text is read with what comes behind it in
place: a string up to its closing quote, a number as far as it goes, a value as far as a blank,
a comma or a bracket. So the text of an object is read as the object that it denotes, whatever
blanks, escapes and forms of numbers it is written with (`ObjectText.read_text`). All that the
reader asks beside the grammar is that integers are within the limit of digits.

# What may follow

The reader never asks for the end of a part, it stops where the part cannot go on. So each
lemma is about a part with a rest behind it. A string closes itself and takes any rest
(`stringRest_letters`); a number would take a further digit, point or exponent, so the rest has
to be one that a value may end in front of (`Ends`, `Number.plain_text`). In the grammar blanks,
commas and brackets stand behind a value, all of which are such ends (`ends_cons`,
`Ends.blank`).

# Fuel

Inside strings a letter takes one unit of fuel, and the longest way to write it has more
characters than that (`stringBody_letters`). For values the induction is on the phrase, along
with its items and members, and the measure is the length of the text: a phrase is read with
fuel no less than its length (`Phrase.value_spelled`), items and members with fuel above it,
since the bracket that closes them takes one more (`Items.items_spelled`,
`Fields.members_spelled`). What is read gathers in the accumulator: items in front of those to
come, members put one by one, so that the last of one name counts here as it does in what the
text denotes.
-/
import ApiAuthz.Proofs.Json.RoundTrip
import ApiAuthz.Proofs.Json.Values

namespace ApiAuthz.Json

-- ==================================================== strings

/-- The digits of a code are read as the code, if anything follows them. -/
theorem CodeUnit.unit?_digits (u : CodeUnit) {rest : List Char} (hr : rest ≠ []) :
    unit? (u.digits ++ rest) = some (u.code, rest) := by
  have hne : rest.isEmpty = false := List.isEmpty_eq_false_iff.2 hr
  obtain ⟨digits, hfour, hdigits⟩ := u
  match digits, hfour with
  | [d₁, d₂, d₃, d₄], _ =>
    simp only [List.forall_mem_cons, Option.isSome_iff_exists] at hdigits
    obtain ⟨⟨n₁, h₁⟩, ⟨n₂, h₂⟩, ⟨n₃, h₃⟩, ⟨n₄, h₄⟩, -⟩ := hdigits
    simp [unit?, code, h₁, h₂, h₃, h₄, hne]

variable {start : List Char}

/-- One step of the reader takes one letter. -/
theorem Letter.stringBody_text (l : Letter) {rest : List Char} (hr : rest ≠ []) (fuel : Nat)
    (acc : List CodePoint) :
    stringBody start (fuel + 1) acc (l.text ++ rest) =
      stringBody start fuel (.char l.char :: acc) rest := by
  cases l with
  | raw c hraw => exact stringBody_plain hraw.2.1 hraw.2.2 hraw.1 fuel acc rest
  | short letter c hshort => exact stringBody_simple hshort fuel acc rest
  | unit u hwhole =>
      have hescape : unicodeEscape (u.digits ++ rest) = .ok (.char (Char.ofNat u.code), rest) := by
        rw [unicodeEscape_unit (u.unit?_digits hr) hwhole.1, CodePoint.ofCode_of_not_half hwhole]
      exact stringBody_unicode hescape fuel acc
  | pair high low hhigh hlow =>
      have hescape : unicodeEscape (high.digits ++ (low.text ++ rest)) =
          .ok (.char (CodePoint.paired high.code low.code), rest) :=
        unicodeEscape_pair (high.unit?_digits (List.cons_ne_nil _ _)) (low.unit?_digits hr)
          hhigh hlow
      show stringBody start (fuel + 1) acc
        ('\\' :: 'u' :: (high.digits ++ low.text) ++ rest) = _
      rw [List.cons_append, List.cons_append, List.append_assoc]
      exact stringBody_unicode hescape fuel acc

/-- The letters of a string are read one by one, each as its character. -/
theorem stringBody_letters (s : List Letter) (rest : List Char) :
    ∀ (fuel : Nat) (acc : List CodePoint), s.length < fuel →
      stringBody start fuel acc (s.flatMap Letter.text ++ '"' :: rest) =
        .ok (acc.reverse ++ s.map fun l => .char l.char, rest) := by
  induction s with
  | nil =>
      intro fuel acc h
      match fuel with
      | fuel + 1 =>
        rw [List.map_nil, List.append_nil]
        rfl
  | cons l s ih =>
      intro fuel acc h
      match fuel with
      | fuel + 1 =>
        rw [List.flatMap_cons, List.append_assoc, l.stringBody_text (by simp),
          ih fuel (.char l.char :: acc) (Nat.lt_of_succ_lt_succ h)]
        simp

/-- A string is read as its contents. -/
theorem stringRest_letters (s : List Letter) (rest : List Char) :
    stringRest start (s.flatMap Letter.text ++ '"' :: rest) =
      .ok (Text.points (contents s), rest) := by
  have hlength := length_le_text s
  unfold stringRest contents Text.points
  rw [stringBody_letters s rest _ _ (by rw [List.length_append]; omega), String.toList_ofList,
    List.map_map]
  rfl

-- ==================================================== numbers

/-- A value may end in front of it. -/
def Ends (rest : List Char) : Prop :=
  ∀ c ∈ rest.head?, c ∈ [' ', '\t', '\n', '\r', ',', ']', '\x7d']

variable {rest : List Char}

/-- No number goes on behind its end. -/
theorem Ends.head (h : Ends rest) {c : Char} (hc : c ∈ rest.head?) :
    isDigit c = false ∧ c ≠ '.' ∧ c ≠ 'e' ∧ c ≠ 'E' := by
  have hall : ∀ c ∈ [' ', '\t', '\n', '\r', ',', ']', '\x7d'],
      isDigit c = false ∧ c ≠ '.' ∧ c ≠ 'e' ∧ c ≠ 'E' := forall_mem_of_all (by decide)
  exact hall c (h c hc)

/-- The whole part is read up to what is no digit. -/
theorem wholeDigits_eq (n : Number) (hrest : ∀ c ∈ rest.head?, isDigit c = false) :
    wholeDigits (n.whole ++ rest) = (n.whole, rest) := by
  have htake := takeWhile_append n.isWhole.1.2 hrest
  have hdrop := dropWhile_append n.isWhole.1.2 hrest
  obtain ⟨d, ds, hwhole, -⟩ := n.isWhole.1.eq_cons
  unfold wholeDigits
  by_cases hzero : d = '0'
  · rw [n.isWhole.2 (by rw [hwhole, hzero]; rfl)]
    rfl
  · split
    · next heq =>
      rw [hwhole] at heq
      exact absurd (List.cons.inj heq).1 hzero
    · rw [htake, hdrop]

/-- The sign of an exponent is read, or none. -/
theorem exponentSign_eq (x : Exponent) :
    exponentSign (x.sign.toList ++ (x.digits ++ rest)) =
      (decide (x.sign = some '-'), x.digits ++ rest) := by
  cases hs : x.sign with
  | none =>
      obtain ⟨d, ds, hdigits, hd⟩ := x.areDigits.eq_cons
      have hall : ∀ c ∈ digitChars, c ≠ '-' ∧ c ≠ '+' := forall_mem_of_all (by decide)
      obtain ⟨hminus, hplus⟩ := hall d (mem_of_isDigit hd)
      rw [hdigits]
      show exponentSign (d :: (ds ++ rest)) = (false, d :: (ds ++ rest))
      unfold exponentSign
      split
      · next heq => exact absurd (List.cons.inj heq).1 hminus
      · next heq => exact absurd (List.cons.inj heq).1 hplus
      · rfl
  | some c => rcases x.isSign c hs with rfl | rfl <;> rfl

/-- An exponent is read if one is there. -/
theorem exponent?_eq (e : Option Exponent) (hrest : Ends rest) :
    exponent? (exponentText e ++ rest) = (e.map Exponent.value, rest) := by
  cases e with
  | none =>
      show exponent? rest = (none, rest)
      cases rest with
      | nil => rfl
      | cons c rest =>
          obtain ⟨-, -, hlower, hupper⟩ := hrest.head rfl
          unfold exponent?
          dsimp only
          rw [if_neg (not_or.2 ⟨hlower, hupper⟩)]
  | some x =>
      have hends : ∀ c ∈ rest.head?, isDigit c = false := fun c hc => (hrest.head hc).1
      have htake := takeWhile_append x.areDigits.2 hends
      have hdrop := dropWhile_append x.areDigits.2 hends
      have hempty : x.digits.isEmpty = false := List.isEmpty_eq_false_iff.2 x.areDigits.1
      have htext : exponentText (some x) ++ rest =
          x.mark :: (x.sign.toList ++ (x.digits ++ rest)) := by
        rw [← List.append_assoc]
        rfl
      rw [htext]
      unfold exponent?
      simp only [if_pos x.isMark, exponentSign_eq, htake, hdrop, hempty, decide_eq_true_eq,
        Bool.false_eq_true, if_false]
      rfl

/-- The digits behind the point are read, or none. -/
theorem fraction_eq (n : Number) (hrest : Ends rest) :
    fraction (n.tail ++ rest) = (n.decimals, exponentText n.exponent ++ rest) := by
  have hhead : ∀ c ∈ (exponentText n.exponent ++ rest).head?, isDigit c = false ∧ c ≠ '.' := by
    intro c hc
    cases he : n.exponent with
    | none =>
        rw [he] at hc
        obtain ⟨hdigit, hpoint, -⟩ := hrest.head hc
        exact ⟨hdigit, hpoint⟩
    | some x =>
        rw [he] at hc
        cases hc
        rcases x.isMark with hm | hm <;> rw [hm] <;> decide
  unfold Number.decimals
  cases hf : n.fraction with
  | none =>
      have htail : n.tail ++ rest = exponentText n.exponent ++ rest := by
        unfold Number.tail
        rw [hf]
        rfl
      rw [htail]
      unfold fraction
      split
      · next heq =>
        rw [heq] at hhead
        exact absurd rfl (hhead _ rfl).2
      · rfl
  | some f =>
      obtain ⟨d, ds, rfl, hd⟩ := (n.isFraction f hf).eq_cons
      have htail : n.tail ++ rest = '.' :: d :: (ds ++ (exponentText n.exponent ++ rest)) := by
        unfold Number.tail
        rw [hf, ← List.append_assoc]
        rfl
      have hends : ∀ c ∈ (exponentText n.exponent ++ rest).head?, isDigit c = false :=
        fun c hc => (hhead c hc).1
      have htake := takeWhile_append (n.isFraction _ hf).2 hends
      have hdrop := dropWhile_append (n.isFraction _ hf).2 hends
      rw [List.cons_append, List.takeWhile_cons_of_pos hd] at htake
      rw [List.cons_append, List.dropWhile_cons_of_pos hd] at hdrop
      rw [htail]
      unfold fraction
      simp only [hd, if_true, htake, hdrop, Option.getD_some]

/-- A number is read as far as it goes. -/
theorem number_eq {n : Number} (h : n.WithinLimit) (hrest : Ends rest) :
    number start n.negative (n.whole ++ (n.tail ++ rest)) = .ok (.scalar n.value, rest) := by
  have hhead : ∀ c ∈ (n.tail ++ rest).head?, isDigit c = false := by
    intro c hc
    cases htail : n.tail with
    | nil =>
        rw [htail] at hc
        exact (hrest.head hc).1
    | cons d ds =>
        have hd : d ∈ n.tail.head? := by
          rw [htail]
          rfl
        rw [htail] at hc
        cases hc
        rcases n.head_tail hd with rfl | rfl | rfl <;> rfl
  have hempty : n.whole.isEmpty = false := List.isEmpty_eq_false_iff.2 n.isWhole.1.1
  have hinteger : n.decimals.isEmpty = true ∧ (n.exponent.map Exponent.value).isNone = true ↔
      n.IsInteger := by
    unfold Number.decimals Number.IsInteger
    cases hf : n.fraction with
    | none => simp
    | some f => simp [(n.isFraction f hf).1]
  have hpower : (n.exponent.map Exponent.value).getD 0 = n.exponent.elim 0 Exponent.value := by
    cases n.exponent <;> rfl
  unfold number Number.value
  simp only [wholeDigits_eq n hhead, fraction_eq n hrest, exponent?_eq n.exponent hrest, hempty,
    hinteger, hpower, Bool.false_eq_true, if_false]
  by_cases hint : n.IsInteger
  · rw [if_pos hint, if_pos hint, if_neg (Nat.not_lt.2 (h hint))]
    rfl
  · rw [if_neg hint, if_neg hint]

theorem plain_digit {d : Char} (hd : isDigit d = true) (cs : List Char) :
    plain (d :: cs) = number (d :: cs) false (d :: cs) := by
  unfold plain
  split <;> first | rfl | (next heq => cases heq; cases hd)

theorem plain_minus {d : Char} (hd : isDigit d = true) (cs : List Char) :
    plain ('-' :: d :: cs) = number ('-' :: d :: cs) true (d :: cs) := by
  unfold plain
  split
  · next heq => cases heq
  · next heq => cases heq
  · next heq => cases heq
  · next heq => cases heq
  · next heq => cases heq
  · next heq =>
    cases heq
    cases hd
  · next heq =>
    cases heq
    rfl
  · next hother => exact absurd rfl (hother _)

/-- A number within the limit is read as the number it denotes. -/
theorem Number.plain_text {n : Number} (h : n.WithinLimit) (hrest : Ends rest) :
    plain (n.text ++ rest) = .ok (.scalar n.value, rest) := by
  obtain ⟨d, ds, hwhole, hd⟩ := n.isWhole.1.eq_cons
  have hread : plain (n.text ++ rest) =
      number (n.text ++ rest) n.negative (n.whole ++ (n.tail ++ rest)) := by
    rw [n.text_eq, List.append_assoc, List.append_assoc, hwhole, List.cons_append]
    cases n.negative with
    | false => exact plain_digit hd _
    | true => exact plain_minus hd _
  rw [hread, number_eq h hrest]

-- ==================================================== values

/-- A blank is skipped as a whole. -/
theorem skipSpace_blank (b : Blank) {c : Char} (hc : isSpace c = false) (rest : List Char) :
    skipSpace (b.chars ++ c :: rest) = c :: rest := by
  rw [skipSpace_append b.isBlank, skipSpace_cons hc]

/-- Blanks in front of a value are skipped. -/
theorem Phrase.skipSpace_spelled (p : Phrase) (b : Blank) (rest : List Char) :
    skipSpace (b.chars ++ (p.spelled id ++ rest)) = p.spelled id ++ rest := by
  obtain ⟨c, cs, heq, hc⟩ := p.spelled_eq_cons id
  rw [heq, List.cons_append]
  exact skipSpace_blank b hc _

/-- Nothing that stands behind a value goes on with a number. -/
theorem ends_cons {c : Char} (hc : c ∈ [',', ']', '\x7d']) (rest : List Char) :
    Ends (c :: rest) := by
  rintro _ ⟨⟩
  exact List.mem_append_right [' ', '\t', '\n', '\r'] hc

/-- A value ends in front of blanks with an end behind them. -/
theorem Ends.blank (h : Ends rest) (b : Blank) : Ends (b.chars ++ rest) := by
  intro c hc
  cases hb : b.chars with
  | nil =>
      rw [hb] at hc
      exact h c hc
  | cons w ws =>
      rw [hb] at hc
      cases hc
      have hspace := b.isBlank c (by rw [hb]; exact List.mem_cons_self ..)
      simp only [isSpace, Bool.or_eq_true, beq_iff_eq, or_assoc] at hspace
      have hmem : c ∈ [' ', '\t', '\n', '\r'] := by simpa using hspace
      exact List.mem_append_left [',', ']', '\x7d'] hmem

/-- So it is where a value is asked for. -/
theorem value_number {n : Number} (h : n.WithinLimit) (hrest : Ends rest) (fuel : Nat) :
    value (fuel + 1) (n.text ++ rest) = .ok (.scalar n.value, rest) := by
  rw [← Number.plain_text h hrest]
  obtain ⟨c, cs, heq, hc⟩ := n.exists_head
  have hall : ∀ c ∈ '-' :: digitChars, c ≠ '"' ∧ c ≠ '[' ∧ c ≠ '\x7b' :=
    forall_mem_of_all (by decide)
  obtain ⟨hquote, hlist, hobject⟩ := hall c hc
  rw [heq, List.cons_append, value]
  · exact fun _ h => hquote (List.cons.inj h).1
  · exact fun _ h => hlist (List.cons.inj h).1
  · exact fun _ h => hobject (List.cons.inj h).1

/-- A string is read where a value is asked for. -/
theorem value_quoted (s : List Letter) (rest : List Char) (fuel : Nat) :
    value (fuel + 1) (quoted s ++ rest) = .ok (.text (contents s), rest) := by
  have hquoted : quoted s ++ rest = '"' :: (s.flatMap Letter.text ++ '"' :: rest) := by
    simp [quoted]
  rw [hquoted, value, stringRest_letters]
  dsimp only
  rw [Scalar.ofPoints_points]

/-- No value starts with the end of a list or a byte order mark. -/
theorem Phrase.head_spelled (p : Phrase) (rest : List Char) {c : Char} {cs : List Char}
    (h : p.spelled id ++ rest = c :: cs) : c ≠ ']' ∧ c ≠ '\ufeff' := by
  cases p with
  | null | string s | emptyList inside | list items | emptyObject inside | object fields =>
      cases h
      decide
  | bool b => cases b <;> (cases h; decide)
  | number n =>
      obtain ⟨d, ds, heq, hd⟩ := n.exists_head
      have hall : ∀ c ∈ '-' :: digitChars, c ≠ ']' ∧ c ≠ '\ufeff' :=
        forall_mem_of_all (by decide)
      change n.text ++ rest = _ at h
      rw [heq] at h
      cases h
      exact hall c hd

/-- Behind an opening bracket stand items, unless it is closed at once. -/
theorem value_items {cs : List Char} (h : ∀ ds, skipSpace cs ≠ ']' :: ds) (fuel : Nat) :
    value (fuel + 1) ('[' :: cs) = items fuel [] (skipSpace cs) := by
  rw [value]
  split
  · next heq => exact absurd heq (h _)
  · rfl

/-- Behind an opening brace stand members, unless it is closed at once. -/
theorem value_members {cs : List Char} (h : ∀ ds, skipSpace cs ≠ '\x7d' :: ds) (fuel : Nat) :
    value (fuel + 1) ('\x7b' :: cs) = members fuel [] (skipSpace cs) := by
  rw [value]
  split
  · next heq => exact absurd heq (h _)
  · rfl

section Items

variable {p : Phrase} {more : List Char} {fuel : Nat}

/-- The last item, in front of the bracket. -/
theorem items_last (hp : value fuel (p.spelled id ++ more) = .ok (p.value, more))
    (hmore : skipSpace more = ']' :: rest) (acc : List (Value Broken)) :
    items (fuel + 1) acc (p.spelled id ++ more) = .ok (.list (acc.reverse ++ [p.value]), rest) := by
  rw [items, hp]
  dsimp only
  rw [hmore, ← List.reverse_cons]
  rfl

/-- An item in front of a comma. -/
theorem items_more (hp : value fuel (p.spelled id ++ more) = .ok (p.value, more))
    (hmore : skipSpace more = ',' :: rest) (acc : List (Value Broken)) :
    items (fuel + 1) acc (p.spelled id ++ more) = items fuel (p.value :: acc) (skipSpace rest) := by
  rw [items, hp]
  dsimp only
  rw [hmore]
  rfl

/-- The name of a member is skipped to and read, and so is the value behind its colon. -/
theorem members_named (name : Name) (before : Blank)
    (hp : value fuel (p.spelled id ++ more) = .ok (p.value, more))
    (acc : Members (Value Broken) Broken) :
    (skipSpace more = '\x7d' :: rest →
      members (fuel + 1) acc
          (skipSpace (name.spelled id ++ (before.chars ++ (p.spelled id ++ more)))) =
        .ok (.map (Members.put (.text (contents name.letters)) p.value acc), rest)) ∧
    (skipSpace more = ',' :: rest →
      members (fuel + 1) acc
          (skipSpace (name.spelled id ++ (before.chars ++ (p.spelled id ++ more)))) =
        members fuel (Members.put (.text (contents name.letters)) p.value acc)
          (skipSpace rest)) := by
  have hname : name.spelled id ++ (before.chars ++ (p.spelled id ++ more)) =
      name.before.chars ++ '"' :: (name.letters.flatMap Letter.text ++ '"' ::
        (name.after.chars ++ ':' :: (before.chars ++ (p.spelled id ++ more)))) := by
    simp [Name.spelled, quoted]
  rw [hname, skipSpace_blank _ rfl, members, stringRest_letters]
  constructor <;>
  · intro hmore
    simp only
    rw [skipSpace_blank _ rfl]
    simp only
    rw [p.skipSpace_spelled, hp]
    simp only
    rw [hmore, Scalar.ofPoints_points]
    rfl

end Items

/-- Items do not start with a closing bracket. -/
theorem Items.skipSpace_spelled_ne (items : Items) (rest ds : List Char) :
    skipSpace (items.spelled id ++ rest) ≠ ']' :: ds := by
  cases items with
  | last before item after =>
      intro h
      simp only [Items.spelled, List.append_assoc, id] at h
      rw [item.skipSpace_spelled] at h
      exact (item.head_spelled _ h).1 rfl
  | more before item after more =>
      intro h
      simp only [Items.spelled, List.append_assoc, List.cons_append, id] at h
      rw [item.skipSpace_spelled] at h
      exact (item.head_spelled _ h).1 rfl

theorem Name.skipSpace_spelled_ne (name : Name) (rest ds : List Char) :
    skipSpace (name.spelled id ++ rest) ≠ '\x7d' :: ds := by
  unfold Name.spelled quoted
  simp only [List.append_assoc, List.cons_append, id]
  rw [skipSpace_blank _ rfl]
  nofun

/-- Members do not start with a closing brace. -/
theorem Fields.skipSpace_spelled_ne (fields : Fields) (rest ds : List Char) :
    skipSpace (fields.spelled id ++ rest) ≠ '\x7d' :: ds := by
  cases fields <;>
  · simp only [Fields.spelled, List.append_assoc]
    exact Name.skipSpace_spelled_ne _ _ _

mutual

/-- The text of a phrase is read as what it denotes, with what follows it left. -/
theorem Phrase.value_spelled {fuel : Nat} {rest : List Char} :
    (p : Phrase) → p.Obeys limited → (p.spelled id).length ≤ fuel → Ends rest →
      Json.value fuel (p.spelled id ++ rest) = .ok (p.value, rest)
  | .null, _, hfuel, _ => by
    match fuel, hfuel with
    | fuel + 1, _ => rfl
  | .bool true, _, hfuel, _ => by
    match fuel, hfuel with
    | fuel + 1, _ => rfl
  | .bool false, _, hfuel, _ => by
    match fuel, hfuel with
    | fuel + 1, _ => rfl
  | .number n, h, hfuel, hrest => by
    obtain ⟨c, cs, heq, -⟩ := n.exists_head
    change n.text.length ≤ fuel at hfuel
    rw [heq, List.length_cons] at hfuel
    match fuel, hfuel with
    | fuel + 1, _ => exact value_number h hrest fuel
  | .string s, _, hfuel, _ => by
    match fuel, hfuel with
    | fuel + 1, _ => exact value_quoted s rest fuel
  | .emptyList inside, _, hfuel, _ => by
    match fuel, hfuel with
    | fuel + 1, _ =>
      simp only [Phrase.spelled, List.cons_append, List.append_assoc, List.nil_append, id]
      rw [Json.value, skipSpace_blank inside rfl]
      rfl
  | .list items, h, hfuel, _ => by
    simp only [Phrase.spelled, List.length_cons, List.length_append, List.length_nil] at hfuel
    match fuel, hfuel with
    | fuel + 1, hfuel =>
      simp only [Phrase.spelled, List.cons_append, List.append_assoc, List.nil_append]
      rw [value_items (items.skipSpace_spelled_ne _), items.items_spelled h (by omega)]
      rfl
  | .emptyObject inside, _, hfuel, _ => by
    match fuel, hfuel with
    | fuel + 1, _ =>
      simp only [Phrase.spelled, List.cons_append, List.append_assoc, List.nil_append, id]
      rw [Json.value, skipSpace_blank inside rfl]
      rfl
  | .object fields, h, hfuel, _ => by
    simp only [Phrase.spelled, List.length_cons, List.length_append, List.length_nil] at hfuel
    match fuel, hfuel with
    | fuel + 1, hfuel =>
      simp only [Phrase.spelled, List.cons_append, List.append_assoc, List.nil_append]
      rw [value_members (fields.skipSpace_spelled_ne _), fields.members_spelled h (by omega)]
      rfl

/-- Items are read behind those that have been read. -/
theorem Items.items_spelled {fuel : Nat} {acc : List (Value Broken)} {rest : List Char} :
    (items : Items) → items.Obeys limited → (items.spelled id).length < fuel →
      Json.items fuel acc (skipSpace (items.spelled id ++ ']' :: rest)) =
        .ok (.list (acc.reverse ++ items.denoted .exact), rest)
  | .last before item after, ⟨_, h, _⟩, hfuel => by
    simp only [Items.spelled, List.length_append, id] at hfuel
    match fuel, hfuel with
    | fuel + 1, hfuel =>
      have hends : Ends (after.chars ++ ']' :: rest) := (ends_cons (by decide) rest).blank after
      simp only [Items.spelled, List.append_assoc, id]
      rw [item.skipSpace_spelled]
      exact items_last (item.value_spelled h (by omega) hends) (skipSpace_blank after rfl rest) acc
  | .more before item after more, ⟨_, h, _, hmore⟩, hfuel => by
    simp only [Items.spelled, List.length_append, List.length_cons, id] at hfuel
    match fuel, hfuel with
    | fuel + 1, hfuel =>
      have hends : Ends (after.chars ++ ',' :: (more.spelled id ++ ']' :: rest)) :=
        (ends_cons (by decide) _).blank after
      simp only [Items.spelled, List.append_assoc, List.cons_append, id]
      rw [item.skipSpace_spelled,
        items_more (item.value_spelled h (by omega) hends) (skipSpace_blank after rfl _) acc,
        more.items_spelled hmore (by omega), List.reverse_cons, List.append_assoc]
      rfl

/-- Members are put one by one into those that have been read. -/
theorem Fields.members_spelled {fuel : Nat} {acc : Members (Value Broken) Broken}
    {rest : List Char} :
    (fields : Fields) → fields.Obeys limited → (fields.spelled id).length < fuel →
      Json.members fuel acc (skipSpace (fields.spelled id ++ '\x7d' :: rest)) =
        .ok (.map ((fields.denoted .exact).foldl (fun ms e => Members.put e.1 e.2 ms) acc), rest)
  | .last name before item after, ⟨_, _, h, _⟩, hfuel => by
    simp only [Fields.spelled, List.length_append, id] at hfuel
    match fuel, hfuel with
    | fuel + 1, hfuel =>
      have hends : Ends (after.chars ++ '\x7d' :: rest) := (ends_cons (by decide) rest).blank after
      simp only [Fields.spelled, List.append_assoc, id]
      exact (members_named name before (item.value_spelled h (by omega) hends) acc).1
        (skipSpace_blank after rfl rest)
  | .more name before item after more, ⟨_, _, h, _, hmore⟩, hfuel => by
    simp only [Fields.spelled, List.length_append, List.length_cons, id] at hfuel
    match fuel, hfuel with
    | fuel + 1, hfuel =>
      have hends : Ends (after.chars ++ ',' :: (more.spelled id ++ '\x7d' :: rest)) :=
        (ends_cons (by decide) _).blank after
      simp only [Fields.spelled, List.append_assoc, List.cons_append, id]
      rw [(members_named name before (item.value_spelled h (by omega) hends) acc).2
        (skipSpace_blank after rfl _), more.members_spelled hmore (by omega)]
      rfl

end

-- ==================================================== texts

/-- A text of an object does not start with a byte order mark. -/
theorem ObjectText.head_text (d : ObjectText) {c : Char} {cs : List Char}
    (h : d.text = c :: cs) : c ≠ '\ufeff' := by
  change d.before.chars ++ (d.object.spelled id ++ d.after.chars) = c :: cs at h
  cases hbefore : d.before.chars with
  | nil =>
      rw [hbefore] at h
      exact (d.object.head_spelled _ h).2
  | cons w ws =>
      rw [hbefore] at h
      cases h
      rintro rfl
      have hspace := d.before.isBlank '\ufeff' (by rw [hbefore]; exact List.mem_cons_self ..)
      cases hspace

/-- The text of an object is read as the object that it denotes. -/
theorem ObjectText.read_text {d : ObjectText} (h : d.object.Obeys limited) :
    read d.text = .ok d.value := by
  have hvalue : Json.value (2 * d.text.length + 2) (d.object.spelled id ++ d.after.chars) =
      .ok (d.value, d.after.chars) := by
    refine d.object.value_spelled h ?_ ?_
    · unfold ObjectText.text ObjectText.spelled
      simp only [List.length_append]
      omega
    · rw [← List.append_nil d.after.chars]
      exact Ends.blank (by exact nofun) d.after
  have hafter : skipSpace d.after.chars = [] := by
    rw [← List.append_nil d.after.chars, skipSpace_append d.after.isBlank]
    rfl
  have hskip : skipSpace d.text = d.object.spelled id ++ d.after.chars :=
    d.object.skipSpace_spelled d.before d.after.chars
  unfold Json.read
  split
  · next rest heq => exact absurd rfl (d.head_text heq)
  · rw [hskip, hvalue]
    simp only [hafter]

end ApiAuthz.Json
