/-
Splitting at double colons. The parts of a text are found from the left: what stands in front
of the first double colon is a part, and what stands behind it is split again. `Splits` says
this without going through the text, and `components` finds just these parts (`splits_iff`).

Three colons in a row show why the direction matters: the first two are taken, and the part
behind them starts with the third. So a part may start with a colon, but none may hold two in a
row or end in one that another follows, which is the condition of `Splits.behind`. It makes the
parts unique, and going through the text character by character finds them
(`components_cons`, `components_behind`, `splits_components`).

A path is a text whose parts can all name something (`IsPath`). No such part has a colon in it
(`colon_notMem_of_isComponent`), so two paths with a double colon between them are a path
(`IsPath.append`) and have the parts of both (`components_append`).
-/
import ApiAuthz.Namespace
import Mathlib.Data.List.Infix

namespace ApiAuthz.Namespace

-- ==================================================== parts

/-- There is a component at least, if only an empty one. -/
theorem components_ne_nil (cs : List Char) : components cs ≠ [] := by
  fun_induction components cs with
  | case1 => simp
  | case2 cs ih => simp
  | case3 c cs _ part parts hparts ih => simp
  | case4 c cs _ hparts ih => simp

/-- Every character of a text stands in one of its components, or is a colon. -/
theorem mem_components {c : Char} {cs : List Char} (h : c ∈ cs) :
    c = ':' ∨ ∃ part ∈ components cs, c ∈ part := by
  fun_induction components cs with
  | case1 => cases h
  | case2 cs ih =>
      rcases List.mem_cons.1 h with rfl | h
      · exact Or.inl rfl
      · rcases List.mem_cons.1 h with rfl | h
        · exact Or.inl rfl
        · rcases ih h with hcolon | ⟨part, hpart, hc⟩
          · exact Or.inl hcolon
          · exact Or.inr ⟨part, List.mem_cons_of_mem _ hpart, hc⟩
  | case3 d cs _ part parts hparts ih =>
      rcases List.mem_cons.1 h with rfl | h
      · exact Or.inr ⟨_, List.mem_cons_self, List.mem_cons_self⟩
      · rcases ih h with hcolon | ⟨other, hother, hc⟩
        · exact Or.inl hcolon
        · rw [hparts] at hother
          rcases List.mem_cons.1 hother with rfl | hother
          · exact Or.inr ⟨_, List.mem_cons_self, List.mem_cons_of_mem _ hc⟩
          · exact Or.inr ⟨other, List.mem_cons_of_mem _ hother, hc⟩
  | case4 d cs _ hparts ih => exact absurd hparts (components_ne_nil cs)

/-- Where no component holds a colon, two colons behind a text end its last component. -/
theorem components_append {cs rest : List Char} (h : ∀ part ∈ components cs, ':' ∉ part) :
    components (cs ++ ':' :: ':' :: rest) = components cs ++ components rest := by
  fun_induction components cs with
  | case1 => rw [List.nil_append, components, List.singleton_append]
  | case2 cs ih =>
      rw [List.forall_mem_cons] at h
      rw [List.cons_append, List.cons_append, components, ih h.2, List.cons_append]
  | case3 d cs hd part parts hparts ih =>
      rw [List.forall_mem_cons] at h
      rw [hparts] at ih
      have hrest := ih (List.forall_mem_cons.2
        ⟨fun hc => h.1 (List.mem_cons_of_mem _ hc), h.2⟩)
      have hcolon : d ≠ ':' := fun hd => h.1 (hd ▸ List.mem_cons_self)
      rw [List.cons_append, components, hrest]
      · rfl
      · intro _ hsame _
        exact hcolon hsame
  | case4 d cs _ hparts ih => exact absurd hparts (components_ne_nil cs)

-- ==================================================== splitting

/-- The parts of a text between its double colons, from the left: no double colon starts in a
part that another one follows. -/
inductive Splits : List Char → List (List Char) → Prop where
  | whole {cs : List Char} (last : ¬[':', ':'] <:+: cs) : Splits cs [cs]
  | behind {part rest : List Char} {parts : List (List Char)}
      (first : ¬[':', ':'] <:+: part ++ [':']) (h : Splits rest parts) :
      Splits (part ++ ':' :: ':' :: rest) (part :: parts)

theorem colons_prefix_iff {c : Char} {cs : List Char} :
    [':', ':'] <+: c :: cs ↔ c = ':' ∧ [':'] <+: cs := by
  rw [List.cons_prefix_cons, eq_comm]

/-- A character goes on with the part behind it, unless a double colon starts with it. -/
theorem components_cons {c : Char} {cs part : List Char} {parts : List (List Char)}
    (h : ¬[':', ':'] <+: c :: cs) (hparts : components cs = part :: parts) :
    components (c :: cs) = (c :: part) :: parts := by
  rw [components, hparts]
  rintro rest rfl rfl
  exact h ⟨rest, rfl⟩

/-- Without two colons in it a text is one component. -/
theorem components_of_not_infix {cs : List Char} (h : ¬[':', ':'] <:+: cs) :
    components cs = [cs] := by
  induction cs with
  | nil => rfl
  | cons c cs ih =>
      rw [List.infix_cons_iff, not_or] at h
      exact components_cons h.1 (ih h.2)

/-- The first two colons end the first component. -/
theorem components_behind {part rest : List Char} (h : ¬[':', ':'] <:+: part ++ [':']) :
    components (part ++ ':' :: ':' :: rest) = part :: components rest := by
  induction part with
  | nil => rw [List.nil_append, components]
  | cons c part ih =>
      rw [List.cons_append, List.infix_cons_iff, not_or] at h
      refine components_cons ?_ (ih h.2)
      -- the first of the two colons is all that a double colon could reach
      rw [colons_prefix_iff] at h ⊢
      cases part <;> simpa using h.1

/-- The components are what the colons split a text into. -/
theorem splits_components (cs : List Char) : Splits cs (components cs) := by
  fun_induction components cs with
  | case1 => exact .whole (by decide)
  | case2 cs ih => exact @Splits.behind [] _ _ (by decide) ih
  | case3 c cs hcolons part parts hparts ih =>
      have hstart : ¬[':', ':'] <+: c :: cs := by
        rw [colons_prefix_iff]
        rintro ⟨rfl, rest, rfl⟩
        exact hcolons rest rfl rfl
      rw [hparts] at ih
      cases ih with
      | whole last => exact .whole fun h => (List.infix_cons_iff.1 h).elim hstart last
      | @behind part rest parts first h =>
          refine @Splits.behind (c :: part) _ _ (fun hin => ?_) h
          rcases List.infix_cons_iff.1 hin with hin | hin
          · refine hstart (hin.trans ?_)
            simp
          · exact first hin
  | case4 c cs _ hparts ih => exact absurd hparts (components_ne_nil cs)

/-- The components of a text are what it splits into. -/
theorem splits_iff {cs : List Char} {parts : List (List Char)} :
    Splits cs parts ↔ components cs = parts := by
  constructor
  · intro h
    induction h with
    | whole last => exact components_of_not_infix last
    | behind first _ ih => rw [components_behind first, ih]
  · rintro rfl
    exact splits_components cs

-- ==================================================== paths

/-- A path: components that can name something, with two colons between them. -/
def IsPath (s : String) : Prop := ∀ part ∈ components s.toList, isComponent part = true

instance (s : String) : Decidable (IsPath s) :=
  inferInstanceAs (Decidable (∀ part ∈ components s.toList, isComponent part = true))

/-- A namespace that is accepted is a path. -/
theorem isPath_of_ofValue {s : String} (h : ofValue (.text s) = .ok s) : IsPath s := by
  unfold ofValue at h
  split at h
  · cases h
  · simp only [Value.text?] at h
    split at h
    · next hvalid =>
      rw [isValid, Bool.and_eq_true, List.all_eq_true] at hvalid
      exact hvalid.1
    · cases h

theorem isNameRest_of_isNameStart {c : Char} (h : isNameStart c = true) : isNameRest c = true := by
  unfold isNameStart at h
  unfold isNameRest Char.isAlphanum
  rw [Bool.or_eq_true] at h ⊢
  rw [Bool.or_eq_true]
  exact h.imp_left Or.inl

/-- A component is made of the characters of names. -/
theorem isNameRest_of_mem_component {part : List Char} {c : Char} (h : isComponent part = true)
    (hc : c ∈ part) : isNameRest c = true := by
  cases part with
  | nil => cases hc
  | cons d part =>
      rw [isComponent, Bool.and_eq_true, List.all_eq_true] at h
      rcases List.mem_cons.1 hc with rfl | hc
      · exact isNameRest_of_isNameStart h.1
      · exact h.2 c hc

/-- There is no colon in one. -/
theorem colon_notMem_of_isComponent {part : List Char} (h : isComponent part = true) :
    ':' ∉ part := by
  intro hc
  have hrest := isNameRest_of_mem_component h hc
  revert hrest
  decide

/-- A path goes on with another one behind two colons. -/
theorem IsPath.append {s t : String} (hs : IsPath s) (ht : IsPath t) :
    IsPath (s ++ "::" ++ t) := by
  intro part hpart
  have htext : (s ++ "::" ++ t).toList = s.toList ++ ':' :: ':' :: t.toList := by
    rw [String.toList_append, String.toList_append, List.append_assoc]
    rfl
  rw [htext, components_append fun part hpart => colon_notMem_of_isComponent (hs part hpart),
    List.mem_append] at hpart
  exact hpart.elim (hs part) (ht part)

end ApiAuthz.Namespace
