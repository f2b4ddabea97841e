/-
Which values have a JSON form. Whether one has is told by its scalars and keys alone
(`exists_write_iff`): it is no matter of the layout or of the depth at which it stands,
and texts always have one, as keys and as values.

`Writable` has a constructor for each kind of value that can be written, and none for
sets and for values that stand within themselves. The induction goes along the value, with
the lists of items and members as its own steps (`exists_writeItems_iff`,
`exists_writeMembers_iff`): they have texts if each of them has one. What is put around
them by the layout never fails (`exists_enclosed_iff`).
-/
import ApiAuthz.Json.Writer
import ApiAuthz.Proofs.Attempt

namespace ApiAuthz

namespace Value

/-- Values that can be written: the scalars and the keys of mappings have a text, and
nothing else in the way is a set or stands within itself. -/
inductive Writable : Value → Prop
  | scalar {s : Scalar} {text : List Char} (h : Json.scalar s = .ok text) : Writable (.scalar s)
  | list {vs : List Value} (h : ∀ v ∈ vs, Writable v) : Writable (.list vs)
  | pair {a b : Value} (ha : Writable a) (hb : Writable b) : Writable (.pair a b)
  | map {ms : List (Scalar × Value)} (hkeys : ∀ m ∈ ms, ∃ text, Json.keyText m.1 = .ok text)
      (h : ∀ m ∈ ms, Writable m.2) : Writable (.map ms)

theorem writable_text (s : String) : (text s).Writable := .scalar rfl

/-- A mapping can be written if its keys and its values can. -/
theorem writable_map {ms : Members Value} : (map ms).Writable ↔
    (∀ m ∈ ms, ∃ text, Json.keyText m.1 = .ok text) ∧ ∀ m ∈ ms, m.2.Writable := by
  constructor
  · intro h
    cases h with
    | map hkeys h => exact ⟨hkeys, h⟩
  · rintro ⟨hkeys, h⟩
    exact .map hkeys h

/-- Text keys never stand in the way. -/
theorem writable_object {ms : List (String × Value)} :
    (object ms).Writable ↔ ∀ m ∈ ms, m.2.Writable := by
  unfold object
  rw [writable_map, List.forall_mem_map, List.forall_mem_map]
  exact and_iff_right fun m _ => ⟨m.1, rfl⟩

theorem writable_object_singleton {name : String} {v : Value} :
    (object [(name, v)]).Writable ↔ v.Writable := by
  rw [writable_object, List.forall_mem_singleton]

end Value

namespace Json

variable {l : Layout} {d : Nat}

/-- Items can be written if each can. -/
theorem exists_writeItems_iff (vs : List Value) :
    (∃ ts, writeItems l d vs = .ok ts) ↔ ∀ v ∈ vs, ∃ t, write l d v = .ok t := by
  induction vs with
  | nil => exact ⟨fun _ => List.forall_mem_nil _, fun _ => ⟨[], rfl⟩⟩
  | cons v vs ih =>
      rw [List.forall_mem_cons, ← ih]
      constructor
      · rintro ⟨ts, h⟩
        obtain ⟨t, ht, h⟩ := Attempt.bind_eq_ok.1 h
        obtain ⟨us, hus, -⟩ := Attempt.bind_eq_ok.1 h
        exact ⟨⟨t, ht⟩, us, hus⟩
      · rintro ⟨⟨t, ht⟩, us, hus⟩
        exact ⟨t :: us, Attempt.bind_eq_ok.2 ⟨t, ht, Attempt.bind_eq_ok.2 ⟨us, hus, rfl⟩⟩⟩

/-- Members can be written if each has a key that can, and a value that can. -/
theorem exists_writeMembers_iff (ms : Members Value) :
    (∃ ts, writeMembers l d ms = .ok ts) ↔
      ∀ m ∈ ms, (∃ text, keyText m.1 = .ok text) ∧ ∃ t, write l d m.2 = .ok t := by
  induction ms with
  | nil => exact ⟨fun _ => List.forall_mem_nil _, fun _ => ⟨[], rfl⟩⟩
  | cons m ms ih =>
      rw [List.forall_mem_cons, ← ih]
      constructor
      · rintro ⟨ts, h⟩
        obtain ⟨key, hkey, h⟩ := Attempt.bind_eq_ok.1 h
        obtain ⟨t, ht, h⟩ := Attempt.bind_eq_ok.1 h
        obtain ⟨us, hus, -⟩ := Attempt.bind_eq_ok.1 h
        exact ⟨⟨⟨key, hkey⟩, t, ht⟩, us, hus⟩
      · rintro ⟨⟨⟨key, hkey⟩, t, ht⟩, us, hus⟩
        refine ⟨(string key ++ ':' :: ' ' :: t) :: us, Attempt.bind_eq_ok.2 ⟨key, hkey, ?_⟩⟩
        exact Attempt.bind_eq_ok.2 ⟨t, ht, Attempt.bind_eq_ok.2 ⟨us, hus, rfl⟩⟩

/-- What is put together of a text has one exactly if that has. -/
theorem exists_enclosed_iff {α β : Type} {x : Attempt α} (enclose : α → β) :
    (∃ t, (x >>= fun a => pure (enclose a)) = .ok t) ↔ ∃ a, x = .ok a := by
  cases x with
  | error f => simp [bind, Except.bind]
  | ok a => exact ⟨fun _ => ⟨a, rfl⟩, fun _ => ⟨enclose a, rfl⟩⟩

/-- A value has a text exactly if it can be written, in whatever layout and at whatever
depth. -/
theorem exists_write_iff (l : Layout) (d : Nat) (v : Value) :
    (∃ t, write l d v = .ok t) ↔ v.Writable := by
  induction v generalizing d with
  | scalar s =>
      constructor
      · rintro ⟨t, h⟩
        exact .scalar h
      · intro h
        cases h with
        | scalar h => exact ⟨_, h⟩
  | list items ih =>
      have hitems : ∀ v ∈ items, (∃ t, write l (d + 1) v = .ok t) ↔ v.Writable :=
        fun v hv => ih v hv (d + 1)
      rw [write, exists_enclosed_iff, exists_writeItems_iff]
      constructor
      · exact fun h => .list fun v hv => (hitems v hv).1 (h v hv)
      · intro h
        cases h with
        | list h => exact fun v hv => (hitems v hv).2 (h v hv)
  | pair a b iha ihb =>
      constructor
      · rintro ⟨t, h⟩
        obtain ⟨s, hs, h⟩ := Attempt.bind_eq_ok.1 h
        obtain ⟨u, hu, -⟩ := Attempt.bind_eq_ok.1 h
        exact .pair ((iha (d + 1)).1 ⟨s, hs⟩) ((ihb (d + 1)).1 ⟨u, hu⟩)
      · intro h
        cases h with
        | pair ha hb =>
            obtain ⟨s, hs⟩ := (iha (d + 1)).2 ha
            obtain ⟨u, hu⟩ := (ihb (d + 1)).2 hb
            exact ⟨_, Attempt.bind_eq_ok.2 ⟨s, hs, Attempt.bind_eq_ok.2 ⟨u, hu, rfl⟩⟩⟩
  | set items =>
      constructor
      · rintro ⟨t, h⟩
        cases h
      · intro h
        cases h
  | map ms ih =>
      have hmembers : ∀ m ∈ ms, (∃ t, write l (d + 1) m.2 = .ok t) ↔ m.2.Writable :=
        fun m hm => ih m hm (d + 1)
      rw [write, exists_enclosed_iff, exists_writeMembers_iff, Value.writable_map]
      constructor
      · exact fun h => ⟨fun m hm => (h m hm).1, fun m hm => (hmembers m hm).1 (h m hm).2⟩
      · exact fun h m hm => ⟨h.1 m hm, (hmembers m hm).2 (h.2 m hm)⟩
  | looped n v _ =>
      constructor
      · rintro ⟨t, h⟩
        cases h
      · intro h
        cases h

/-- Whether a value can be written does not depend on the layout. -/
theorem exists_indented_iff {width : Nat} {v : Value} :
    (∃ text, indented width v = .ok text) ↔ v.Writable := by
  unfold indented
  rw [exists_enclosed_iff, exists_write_iff]

end Json

end ApiAuthz
