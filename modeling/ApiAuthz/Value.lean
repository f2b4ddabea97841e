/-
Documents as trees: a scalar, a list, or a mapping with ordered members; and
the two shapes that only tagged documents have, pairs and sets. A `Value` is
what readers produce and what schema conversion consumes.

A collection may stand within itself. It is then written out to some depth, and
every copy of it is marked by one number, so that who walks over the value can
tell that it is back where it was. Marks do not count otherwise: `body` takes
them off, and the accessors look through them.

The accessors say what may be asked of any value: `field?` looks a text key up
in a mapping, `elements?` lists what a value iterates over, `truthy` tells the
empty and zero values from the rest.

Like a scalar, a value has texts alone unless it says more: readers produce a
`Value Broken`, and the mapping works on a `Value`. `nearest` goes from the one
to the other, `lift` back.
-/
import ApiAuthz.Members

namespace ApiAuthz

/-- A document as it is read: scalars, and collections in their order. Members have scalars for
keys, as the reader makes sure of. -/
inductive Value (ε : Type := Empty) where
  | scalar (s : Scalar ε)
  | list (items : List (Value ε))
  | pair (first second : Value ε)
  | set (items : List (Scalar ε))
  | map (members : List (Scalar ε × Value ε))
  /-- A collection that holds itself, or another such one, and its number. -/
  | looped (number : Nat) (unfolded : Value ε)

namespace Value

variable {ε : Type}

/-- Nothing. -/
@[match_pattern] abbrev null : Value ε := .scalar .null

/-- A truth value. -/
@[match_pattern] abbrev bool (b : Bool) : Value ε := .scalar (.bool b)

/-- An integer. -/
@[match_pattern] abbrev int (n : Int) : Value ε := .scalar (.int n)

/-- A text. -/
@[match_pattern] abbrev text (s : String) : Value ε := .scalar (.text s)

instance : Inhabited (Value ε) := ⟨null⟩

/-- A mapping with text keys. -/
def object (members : List (String × Value ε)) : Value ε :=
  .map (members.map fun m => (.text m.1, m.2))

/-- A list of texts. -/
def texts (ss : List String) : Value ε := .list (ss.map text)

-- ==================================================== accessors

/-- The value without marks. -/
def body : Value ε → Value ε
  | .looped _ v => body v
  | v => v

/-- What a mapping holds. -/
def members? (v : Value ε) : Option (Members (Value ε) ε) :=
  match v.body with
  | .map ms => some ms
  | _ => none

/-- A mapping, whether it holds itself or not. -/
def isMap (v : Value ε) : Bool := v.members?.isSome

/-- Nothing at all. -/
def isNull : Value → Bool
  | .scalar .null => true
  | _ => false

/-- The text, if the value is one. -/
def text? : Value → Option String
  | .scalar (.text s) => some s
  | _ => none

/-- The key that the value can serve as. -/
def key? : Value → Option Scalar
  | .scalar s => some s
  | _ => none

/-- What a mapping holds under a text key. -/
def field? [DecidableEq ε] (name : String) (v : Value ε) : Option (Value ε) :=
  v.members?.bind (Members.find? (.text name))

/-- What a mapping holds under a text key, null if it has no such key. -/
def field [DecidableEq ε] (name : String) (v : Value ε) : Value ε := (v.field? name).getD null

/-- Everything but null, false, zero and what is empty. -/
def truthy : Value → Bool
  | .scalar .null => false
  | .scalar (.bool b) => b
  | .scalar (.int n) => n != 0
  | .scalar (.float x) => !x.isZero
  | .scalar (.text s) => s != ""
  | .scalar (.octets b) => !b.isEmpty
  | .scalar (.date _) => true
  | .scalar (.timestamp _) => true
  | .list items => !items.isEmpty
  | .pair _ _ => true
  | .set items => !items.isEmpty
  | .map ms => !ms.isEmpty
  | .looped _ v => truthy v

/-- Null and the empty text count as absent. -/
def isBlank : Value → Bool
  | .scalar .null => true
  | .scalar (.text s) => s == ""
  | _ => false

/-- What a value iterates over, if it is a collection: the items of a list, the
keys of a mapping, the characters of a text. -/
def elements? : Value → Option (List Value)
  | .list items => some items
  | .pair a b => some [a, b]
  | .set items => some (items.map .scalar)
  | .map ms => some (Members.keys ms |>.map .scalar)
  | .looped _ v => elements? v
  | .scalar (.text s) => some (s.toList.map fun c => text (String.singleton c))
  | .scalar (.octets b) => some (b.map fun o => int o.toNat)
  | .scalar _ => none

-- ==================================================== texts and broken strings

mutual

/-- The value with the nearest texts. Keys that come to the same text are one. -/
def nearest : Value Broken → Value
  | .scalar s => .scalar s.nearest
  | .list items => .list (nearestItems items)
  | .pair a b => .pair (nearest a) (nearest b)
  | .set items =>
    .set (Members.keys (Members.ofEntries (items.map fun s => (s.nearest, ()))))
  | .map ms => .map (Members.ofEntries (nearestMembers ms))
  | .looped n v => .looped n (nearest v)

/-- The nearest values of items. -/
def nearestItems : List (Value Broken) → List Value
  | [] => []
  | v :: vs => nearest v :: nearestItems vs

/-- The nearest members, key by key. -/
def nearestMembers : List (Scalar Broken × Value Broken) → List (Scalar × Value)
  | [] => []
  | (k, v) :: ms => (k.nearest, nearest v) :: nearestMembers ms

end

mutual

/-- A value where more may stand. -/
def lift : Value → Value ε
  | .scalar s => .scalar s.lift
  | .list items => .list (liftItems items)
  | .pair a b => .pair (lift a) (lift b)
  | .set items => .set (items.map Scalar.lift)
  | .map ms => .map (liftMembers ms)
  | .looped n v => .looped n (lift v)

/-- Items among which broken strings are allowed. -/
def liftItems : List Value → List (Value ε)
  | [] => []
  | v :: vs => lift v :: liftItems vs

/-- Members among which broken strings are allowed. -/
def liftMembers : List (Scalar × Value) → List (Scalar ε × Value ε)
  | [] => []
  | (k, v) :: ms => (k.lift, lift v) :: liftMembers ms

end

-- ==================================================== laws

@[simp] theorem members?_map (ms : Members (Value ε) ε) : members? (.map ms) = some ms := rfl

@[simp] theorem members?_looped (n : Nat) (v : Value ε) :
    members? (.looped n v) = members? v := rfl

@[simp] theorem field?_map [DecidableEq ε] (name : String) (ms : Members (Value ε) ε) :
    field? name (.map ms) = Members.find? (.text name) ms := rfl

theorem eq_text_of_text? {v : Value} {s : String} (h : v.text? = some s) : v = .text s := by
  unfold text? at h
  split at h
  · cases h
    rfl
  · cases h

theorem eq_scalar_of_key? {v : Value} {k : Scalar} (h : v.key? = some k) : v = .scalar k := by
  unfold key? at h
  split at h
  · cases h
    rfl
  · cases h

/-- What is found in a mapping is smaller than the mapping. -/
theorem sizeOf_lt_of_find? [DecidableEq ε] {key : Scalar ε} {ms : Members (Value ε) ε}
    {v : Value ε} (h : Members.find? key ms = some v) : sizeOf v < sizeOf ms := by
  induction ms with
  | nil => simp at h
  | cons m ms ih =>
    rw [Members.find?_cons] at h
    obtain ⟨k, w⟩ := m
    split at h
    · cases h
      simp only [List.cons.sizeOf_spec, Prod.mk.sizeOf_spec]
      omega
    · have := ih h
      simp only [List.cons.sizeOf_spec]
      omega

/-- The members of a value are smaller than the value. -/
theorem sizeOf_lt_of_members? {ms : Members (Value ε) ε} :
    {v : Value ε} → v.members? = some ms → sizeOf ms < sizeOf v
  | .looped _ v, h => by
    have := sizeOf_lt_of_members? (v := v) h
    simp only [looped.sizeOf_spec]
    omega
  | .map _, h => by
    cases h
    simp only [map.sizeOf_spec]
    omega
  | .scalar _, h => nomatch h
  | .list _, h => nomatch h
  | .pair _ _, h => nomatch h
  | .set _, h => nomatch h

/-- Induction over values: what is within a collection is smaller than the collection. -/
@[elab_as_elim, induction_eliminator]
theorem induction {motive : Value ε → Prop} (scalar : ∀ s, motive (.scalar s))
    (list : ∀ items, (∀ v ∈ items, motive v) → motive (.list items))
    (pair : ∀ a b, motive a → motive b → motive (.pair a b))
    (set : ∀ items, motive (.set items))
    (map : ∀ ms, (∀ m ∈ ms, motive m.2) → motive (.map ms))
    (looped : ∀ n v, motive v → motive (.looped n v)) (v : Value ε) : motive v := by
  induction hsize : sizeOf v using Nat.strongRecOn generalizing v with
  | ind size ih =>
    subst hsize
    cases v with
    | scalar s => exact scalar s
    | list items =>
      refine list items fun v hv => ih _ ?_ v rfl
      have := List.sizeOf_lt_of_mem hv
      simp only [Value.list.sizeOf_spec]
      omega
    | pair a b =>
      refine pair a b (ih _ ?_ a rfl) (ih _ ?_ b rfl)
      · simp only [Value.pair.sizeOf_spec]
        omega
      · simp only [Value.pair.sizeOf_spec]
        omega
    | set items => exact set items
    | map ms =>
      refine map ms fun m hm => ih _ ?_ m.2 rfl
      have := List.sizeOf_lt_of_mem hm
      obtain ⟨k, v⟩ := m
      simp only [Prod.mk.sizeOf_spec] at this
      simp only [Value.map.sizeOf_spec]
      omega
    | looped n v =>
      refine looped n v (ih _ ?_ v rfl)
      simp only [Value.looped.sizeOf_spec]
      omega

end Value

end ApiAuthz
