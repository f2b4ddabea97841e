/-
The text of a value in messages. `Value.literal` shows every value so that its
kind can be told: text between quotes, lists in square and mappings in curly
brackets, dates by their parts. A collection within itself is shown once, and
as three dots inside. `Value.display` differs from `literal` only at the top:
text stands there as it is, and a date in its ISO form.

Integers beyond the limit on digits have no text; `isShown` tells whether a
value holds none of them.
-/
import ApiAuthz.Number.Decimal
import ApiAuthz.Text.Quoted
import ApiAuthz.Value

namespace ApiAuthz

/-- Texts with a separator between them. -/
def joined (separator : String) : List String → String
  | [] => ""
  | [s] => s
  | s :: ss => s ++ separator ++ joined separator ss

namespace Scalar

variable {ε : Type}

/-- A span of so many minutes, not none: whole days may be negative, the rest not. -/
def spanLiteral (minutes : Int) : String :=
  let days := Int.fdiv minutes (24 * 60)
  let seconds := (minutes - days * (24 * 60)) * 60
  let parts :=
    (if days = 0 then [] else ["days=" ++ toString days]) ++
      (if seconds = 0 then [] else ["seconds=" ++ toString seconds])
  "datetime.timedelta(" ++ joined ", " parts ++ ")"

/-- An offset from universal time. -/
def offsetLiteral (minutes : Int) : String :=
  if minutes = 0 then "datetime.timezone.utc"
  else "datetime.timezone(" ++ spanLiteral minutes ++ ")"

/-- A date and time by its parts; zero microseconds are left out, and zero
seconds with them. -/
def timestampLiteral (t : Timestamp) : String :=
  let parts := [t.date.year, t.date.month, t.date.day, t.hour, t.minute] ++
    (if t.microsecond = 0 then (if t.second = 0 then [] else [t.second])
     else [t.second, t.microsecond])
  let zone := match t.offset with
    | some m => ", tzinfo=" ++ offsetLiteral m
    | none => ""
  "datetime.datetime(" ++ joined ", " (parts.map toString) ++ zone ++ ")"

/-- The text of a scalar that tells its kind. -/
def literal [HasPoints ε] : Scalar ε → String
  | .null => "None"
  | .bool b => if b then "True" else "False"
  | .int n => toString n
  | .float x => x.text
  | .text s => Text.quoted s
  | .broken b => Text.quotedPoints (HasPoints.points b)
  | .octets b => Text.quotedOctets b
  | .date d =>
    "datetime.date(" ++ joined ", " ([d.year, d.month, d.day].map toString) ++ ")"
  | .timestamp t => timestampLiteral t

/-- The scalar has a text. -/
def isShown : Scalar ε → Bool
  | .int n => DigitLimit.isShown n
  | _ => true

/-- The text of a scalar on its own: text as it is, dates in ISO form. -/
def display [HasPoints ε] : Scalar ε → String
  | .text s => s
  | .broken b => Text.shown (HasPoints.points b)
  | .date d => d.isoText
  | .timestamp t => t.isoText " "
  | s => s.literal

/-- The string of a scalar on its own. -/
def points : Scalar Broken → List CodePoint
  | .broken b => b.points
  | s => Text.points s.display

end Scalar

namespace Value

variable {ε : Type}

/-- What a collection is shown as inside itself. -/
def ellipsis : Value ε → String
  | .list _ => "[...]"
  | .pair _ _ => "(...)"
  | _ => "\x7b...\x7d"

mutual

/-- The text of a value inside the collections of some numbers. -/
def literalWithin [HasPoints ε] (around : List Nat) : Value ε → String
  | .scalar s => s.literal
  | .list items => "[" ++ joined ", " (literalsWithin around items) ++ "]"
  | .pair a b => "(" ++ literalWithin around a ++ ", " ++ literalWithin around b ++ ")"
  | .set items =>
    if items.isEmpty then "set()"
    else "\x7b" ++ joined ", " (items.map Scalar.literal) ++ "\x7d"
  | .map ms => "\x7b" ++ joined ", " (memberLiteralsWithin around ms) ++ "\x7d"
  | .looped n v =>
    if around.contains n then v.body.ellipsis else literalWithin (n :: around) v

/-- The literals of items. -/
def literalsWithin [HasPoints ε] (around : List Nat) : List (Value ε) → List String
  | [] => []
  | v :: vs => literalWithin around v :: literalsWithin around vs

/-- The literals of members with their keys. -/
def memberLiteralsWithin [HasPoints ε] (around : List Nat) : List (Scalar ε × Value ε) → List String
  | [] => []
  | (k, v) :: ms =>
    (k.literal ++ ": " ++ literalWithin around v) :: memberLiteralsWithin around ms

end

/-- The text of a value that tells its kind. -/
def literal [HasPoints ε] (v : Value ε) : String := v.literalWithin []

/-- The text of a value on its own. -/
def display [HasPoints ε] : Value ε → String
  | .scalar s => s.display
  | v => v.literal

-- ==================================================== values that can be shown

mutual

/-- The literal of a value inside the collections of some numbers shows no
integer beyond the limit. -/
def isShownWithin (around : List Nat) : Value ε → Bool
  | .scalar s => s.isShown
  | .list items => areShownWithin around items
  | .pair a b => isShownWithin around a && isShownWithin around b
  | .set items => items.all Scalar.isShown
  | .map ms => membersAreShownWithin around ms
  | .looped n v => around.contains n || isShownWithin (n :: around) v

/-- All items can be shown. -/
def areShownWithin (around : List Nat) : List (Value ε) → Bool
  | [] => true
  | v :: vs => isShownWithin around v && areShownWithin around vs

/-- All members can be shown, keys included. -/
def membersAreShownWithin (around : List Nat) : List (Scalar ε × Value ε) → Bool
  | [] => true
  | (k, v) :: ms => k.isShown && isShownWithin around v && membersAreShownWithin around ms

end

theorem areShownWithin_eq_all (around : List Nat) (vs : List (Value ε)) :
    areShownWithin around vs = vs.all (isShownWithin around) := by
  induction vs with
  | nil => rfl
  | cons v vs ih => rw [areShownWithin, ih, List.all_cons]

theorem membersAreShownWithin_eq_all (around : List Nat) (ms : Members (Value ε) ε) :
    membersAreShownWithin around ms =
      ms.all fun m => m.1.isShown && isShownWithin around m.2 := by
  induction ms with
  | nil => rfl
  | cons m ms ih => rw [membersAreShownWithin, ih, List.all_cons]

/-- The value has a text. -/
def isShown (v : Value ε) : Bool := v.isShownWithin []

end Value

end ApiAuthz
