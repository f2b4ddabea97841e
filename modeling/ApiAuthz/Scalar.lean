/-
The leaves of a document: null, booleans, numbers, text, octets, dates. A
scalar is also what a mapping may have as a key, and keys are compared by
`Scalar.Identity`: truth values and doubles that equal an integer are that
integer, so `1`, `1.0` and `true` are one key, and timestamps with an offset
are compared by the instant they denote.

What a reader finds between quotes need not be text. A `Scalar Broken` may be a
broken string beside the rest; a `Scalar`, without more, has texts alone, and is
what the mapping works on. `ofPoints` makes a scalar of a string of code
points, `nearest` goes from the wider kind to the narrower, `lift` back.
-/
import ApiAuthz.Calendar
import ApiAuthz.Number.Binary64
import ApiAuthz.Text.CodePoint

namespace ApiAuthz

/-- A value without parts. What is read from a file may hold strings that are no texts, which are of
the kind `ε`; by default there are none. -/
inductive Scalar (ε : Type := Empty) where
  | null
  | bool (b : Bool)
  | int (n : Int)
  | float (x : Binary64)
  | text (s : String)
  /-- A string that is no text. -/
  | broken (b : ε)
  | octets (bytes : List UInt8)
  | date (d : Date)
  | timestamp (t : Timestamp)
  deriving DecidableEq

namespace Scalar

variable {ε : Type}

/-- What a key is, up to sameness of keys. -/
inductive Identity (ε : Type := Empty) where
  | null
  | whole (n : Int)
  | float (x : Binary64)
  | text (s : String)
  | broken (b : ε)
  | octets (bytes : List UInt8)
  | date (d : Date)
  | moment (zoned : Bool) (instant : Int)
  deriving DecidableEq

/-- What a scalar is as a key. -/
def identity : Scalar ε → Identity ε
  | .null => .null
  | .bool b => .whole (if b then 1 else 0)
  | .int n => .whole n
  | .float x => match x.toInt? with
    | some n => .whole n
    | none => .float x
  | .text s => .text s
  | .broken b => .broken b
  | .octets b => .octets b
  | .date d => .date d
  | .timestamp t => .moment t.offset.isSome t.instant

@[simp] theorem identity_text (s : String) : (Scalar.text s : Scalar ε).identity = .text s := rfl

-- ==================================================== strings

/-- The scalar of a string: a text, unless half of a pair stands in it. -/
def ofPoints (ps : List CodePoint) : Scalar Broken :=
  if h : ps.any CodePoint.isHalf then .broken ⟨ps, h⟩
  else .text (Text.whole ps)

/-- The text nearest to a string. -/
def nearest : Scalar Broken → Scalar
  | .null => .null
  | .bool b => .bool b
  | .int n => .int n
  | .float x => .float x
  | .text s => .text s
  | .broken b => .text (Text.nearest b.points)
  | .octets b => .octets b
  | .date d => .date d
  | .timestamp t => .timestamp t

/-- The key nearest to a key. -/
def Identity.nearest : Identity Broken → Identity
  | .null => .null
  | .whole n => .whole n
  | .float x => .float x
  | .text s => .text s
  | .broken b => .text (Text.nearest b.points)
  | .octets b => .octets b
  | .date d => .date d
  | .moment zoned instant => .moment zoned instant

/-- A scalar where more may stand. -/
def lift : Scalar → Scalar ε
  | .null => .null
  | .bool b => .bool b
  | .int n => .int n
  | .float x => .float x
  | .text s => .text s
  | .octets b => .octets b
  | .date d => .date d
  | .timestamp t => .timestamp t

/-- What the nearest scalar is as a key depends on what the scalar is as a key. -/
theorem identity_nearest (a : Scalar Broken) : a.nearest.identity = a.identity.nearest := by
  cases a with
  | float x =>
      simp only [nearest, identity]
      cases x.toInt? <;> rfl
  | null | bool b | int n | text s | broken b | octets b | date d | timestamp t => rfl

/-- A text's string of code points is that text. -/
@[simp] theorem ofPoints_points (s : String) : ofPoints (Text.points s) = .text s := by
  simp [ofPoints]

/-- No other string is a text. -/
theorem ofPoints_eq_text {ps : List CodePoint} {s : String} :
    ofPoints ps = .text s ↔ ps = Text.points s := by
  constructor
  · intro h
    unfold ofPoints at h
    split at h
    · cases h
    · next hwhole =>
      rw [← Scalar.text.inj h]
      exact (Text.points_whole (Bool.not_eq_true _ ▸ hwhole)).symm
  · rintro rfl
    exact ofPoints_points s

@[simp] theorem nearest_ofPoints (ps : List CodePoint) :
    (ofPoints ps).nearest = .text (Text.nearest ps) := by
  unfold ofPoints
  split
  · rfl
  · next hwhole =>
    -- without halves the string is that of a text, which is nearest to itself
    have hps := Text.points_whole (Bool.not_eq_true _ ▸ hwhole)
    rw [← hps, Text.whole_points, Text.nearest_points]
    rfl

-- ==================================================== sameness

variable [DecidableEq ε]

/-- Two scalars are the same key. -/
def same (a b : Scalar ε) : Bool := a.identity == b.identity

theorem same_iff {a b : Scalar ε} : a.same b = true ↔ a.identity = b.identity := by
  simp [same]

@[simp] theorem same_refl (a : Scalar ε) : a.same a = true := by simp [same]

theorem same_comm (a b : Scalar ε) : a.same b = b.same a := by
  rw [Bool.eq_iff_iff, same_iff, same_iff, eq_comm]

theorem same_trans {a b c : Scalar ε} (hab : a.same b = true) (hbc : b.same c = true) :
    a.same c = true := by
  rw [same_iff] at *
  exact hab.trans hbc

/-- Keys that are the same have the same nearest keys. -/
theorem same_nearest {a b : Scalar Broken} (h : a.same b = true) :
    a.nearest.same b.nearest = true := by
  rw [same_iff] at *
  rw [identity_nearest, identity_nearest, h]

/-- On text, sameness of keys is equality. -/
@[simp] theorem same_text (s t : String) :
    (Scalar.text s : Scalar ε).same (.text t) = decide (s = t) := by
  rw [Bool.eq_iff_iff, same_iff]
  simp

end Scalar

end ApiAuthz
