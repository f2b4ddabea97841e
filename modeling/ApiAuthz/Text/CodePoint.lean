/-
Code points. A text is made of characters, and no character has one of the 2048 numbers that
UTF-16 keeps for the halves of its pairs. Escapes in JSON and YAML texts can name such a half
all the same, alone or beside another one. So what a reader finds in a string is a list of
code points; it is a text if none of them is a half, and `Broken` otherwise. A broken string
can be compared and taken apart, but it has no octets in UTF-8.

The halves are numbered by their place: the first 1024 open a pair, the others close one.
`nearest` gives the text that comes closest: two halves in order are the character of their
pair, and any other half is replaced.
-/

namespace ApiAuthz

-- ==================================================== code points

/-- A character, or half of a pair by its place among the halves. -/
inductive CodePoint where
  | char (c : Char)
  | half (place : Fin 2048)
  deriving DecidableEq

namespace CodePoint

/-- The number of the first half. -/
def firstHalf : Nat := 0xd800

/-- The number of a half opens a pair. -/
def opens (n : Nat) : Bool := 0xd800 ≤ n && n < 0xdc00

/-- The number of a half closes a pair. -/
def closes (n : Nat) : Bool := 0xdc00 ≤ n && n < 0xe000

/-- The character of a pair. -/
def paired (opening closing : Nat) : Char :=
  Char.ofNat (0x10000 + (opening - 0xd800) * 0x400 + (closing - 0xdc00))

/-- The number of a code point. -/
def code : CodePoint → Nat
  | .char c => c.toNat
  | .half place => firstHalf + place

/-- The code point of a number. -/
def ofCode (n : Nat) : CodePoint :=
  if h : firstHalf ≤ n ∧ n - firstHalf < 2048 then .half ⟨n - firstHalf, h.2⟩
  else .char (Char.ofNat n)

/-- No character but half of one. -/
def isHalf : CodePoint → Bool
  | .char _ => false
  | .half _ => true

/-- The character; a half has none and is replaced. -/
def character : CodePoint → Char
  | .char c => c
  | .half _ => '\ufffd'

/-- The number of a character gives back the character: no half has it. -/
@[simp] theorem ofCode_toNat (c : Char) : ofCode c.toNat = .char c := by
  have hc : c.toNat < 0xd800 ∨ 0xdfff < c.toNat ∧ c.toNat < 0x110000 := c.valid
  unfold ofCode firstHalf
  rw [dif_neg (by omega), Char.ofNat_toNat]

/-- A number that no half has is that of a character. -/
theorem ofCode_of_not_half {n : Nat} (h : opens n = false ∧ closes n = false) :
    ofCode n = .char (Char.ofNat n) := by
  simp only [opens, closes, Bool.and_eq_false_iff, decide_eq_false_iff_not] at h
  unfold ofCode firstHalf
  rw [dif_neg (by omega)]

end CodePoint

-- ==================================================== strings of code points

namespace Text

/-- The code points of a text. -/
def points (s : String) : List CodePoint := s.toList.map .char

theorem points_append (s t : String) : points (s ++ t) = points s ++ points t := by
  simp [points]

/-- A text has no half in it. -/
@[simp] theorem any_isHalf_points (s : String) : (points s).any CodePoint.isHalf = false := by
  simp [points, CodePoint.isHalf]

@[simp] theorem map_character_points (s : String) :
    (points s).map CodePoint.character = s.toList := by
  simp [points, Function.comp_def, CodePoint.character]

/-- The text of a string, every half in it replaced. -/
def whole (ps : List CodePoint) : String := String.ofList (ps.map CodePoint.character)

@[simp] theorem whole_points (s : String) : whole (points s) = s := by
  rw [whole, map_character_points, String.ofList_toList]

/-- A string without halves is a text. -/
theorem points_whole {ps : List CodePoint} (h : ps.any CodePoint.isHalf = false) :
    points (whole ps) = ps := by
  have hchars : ∀ p ∈ ps, CodePoint.char p.character = p := by
    intro p hp
    cases p with
    | char c => rfl
    | half place => exact absurd rfl (List.any_eq_false.1 h _ hp)
  simp only [points, whole, String.toList_ofList, List.map_map]
  exact (List.map_congr_left hchars).trans (List.map_id _)

/-- Different texts are different strings. -/
theorem points_inj {s t : String} : points s = points t ↔ s = t := by
  constructor
  · intro h
    have hwhole := congrArg whole h
    rwa [whole_points, whole_points] at hwhole
  · rintro rfl
    rfl

/-- The nearest characters: halves in order are paired, other halves replaced. -/
def nearestChars : List CodePoint → List Char
  | .half opening :: .half closing :: ps =>
    if opening < 1024 ∧ 1024 ≤ closing then
      CodePoint.paired (CodePoint.half opening).code (CodePoint.half closing).code ::
        nearestChars ps
    else '\ufffd' :: nearestChars (.half closing :: ps)
  | p :: ps => p.character :: nearestChars ps
  | [] => []

/-- The nearest text. -/
def nearest (ps : List CodePoint) : String := String.ofList (nearestChars ps)

/-- A character is nearest to itself, whatever is behind it. -/
theorem nearestChars_char_cons (c : Char) (ps : List CodePoint) :
    nearestChars (.char c :: ps) = c :: nearestChars ps := by
  rw [nearestChars]
  · rfl
  · nofun

/-- Characters are nearest to themselves. -/
@[simp] theorem nearestChars_chars (cs : List Char) : nearestChars (cs.map .char) = cs := by
  induction cs with
  | nil => rfl
  | cons c cs ih => rw [List.map_cons, nearestChars_char_cons, ih]

@[simp] theorem nearest_points (s : String) : nearest (points s) = s := by
  rw [nearest, points, nearestChars_chars, String.ofList_toList]

end Text

/-- A string of code points that is no text, for the half in it. -/
structure Broken where
  points : List CodePoint
  isBroken : points.any CodePoint.isHalf = true
  deriving DecidableEq

/-- What may stand beside texts: nothing at all, or broken strings. Either way it has code
points. -/
class HasPoints (ε : Type) where
  points : ε → List CodePoint

instance : HasPoints Empty := ⟨Empty.elim⟩

instance : HasPoints Broken := ⟨Broken.points⟩

end ApiAuthz
