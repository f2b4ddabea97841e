/-
Sanitized paths, and templates below them. A sanitized path is a slash alone, or
segments behind a slash each, none of them empty and none with a slash in it. So it
has no two slashes in a row, and none at its end unless it is nothing else
(`clean_lead_sanitize`).

What a base path puts in front of a template is therefore all of it or nothing
(`join_eq`), and what stands there brings no two slashes in a row into the template
(`doubled_of_append`). Templates that come out alike differ at most by the slash that
was put in front of one of them (`eq_or_slashed_of_rooted_eq`).

# Clean texts

`Clean` is nothing, or a text from its slash on, with no two in a row and none at the
end. Clean texts may be put behind one another (`Clean.append`): two slashes in a row
would have to stand in one of them, or where they meet, and the first does not end in
one. So segments with a slash before each are clean by induction on the segments
(`clean_segments`).

# The root

A base path of one slash leads nothing into a template, like the empty one, so `lead`
is what counts and not the base path itself. Taking slashes off the end, which is how
templates are joined, comes to the same (`stripRight_eq_lead`).

The choice of a base path among the servers is stated here a second time, by the choice
and not by the number of servers (`BasePath.choose_eq_among`): what is chosen is one of
the sanitized paths, which makes it clean (`clean_lead_of_resolve`).
-/
import ApiAuthz.BasePath
import ApiAuthz.Proofs.Attempt
import ApiAuthz.Proofs.Text.Parts
import Mathlib.Data.List.Infix

namespace ApiAuthz

-- ==================================================== blanks

namespace Text

theorem mem_of_mem_strip {cs : List Char} {c : Char} (h : c ∈ strip cs) : c ∈ cs :=
  (List.dropWhile_sublist _).subset ((List.rdropWhile_prefix _ _).subset h)

end Text

namespace UrlPath

-- ==================================================== slashes in a row

/-- Two slashes in a row. -/
def Doubled (cs : List Char) : Prop := ['/', '/'] <:+: cs

/-- Nothing, or a path from its slash on, without two slashes in a row or one at the
end. -/
structure Clean (cs : List Char) : Prop where
  starts : cs = [] ∨ cs.head? = some '/'
  not_doubled : ¬Doubled cs
  getLast?_ne : cs.getLast? ≠ some '/'

theorem not_doubled_nil : ¬Doubled [] := by
  unfold Doubled
  rw [List.infix_nil]
  exact List.cons_ne_nil _ _

/-- Two slashes stand at the front or behind it. -/
theorem doubled_cons {c : Char} {cs : List Char} :
    Doubled (c :: cs) ↔ (c = '/' ∧ cs.head? = some '/') ∨ Doubled cs := by
  unfold Doubled
  rw [List.infix_cons_iff, List.cons_prefix_cons]
  refine or_congr_left (and_congr eq_comm ?_)
  cases cs with
  | nil => simp
  | cons d ds => simp [List.cons_prefix_cons, eq_comm]

/-- Slashes in a row stand in one part or where two parts meet. -/
theorem doubled_append {xs ys : List Char} : Doubled (xs ++ ys) ↔
    Doubled xs ∨ Doubled ys ∨ xs.getLast? = some '/' ∧ ys.head? = some '/' := by
  induction xs with
  | nil => simp [not_doubled_nil]
  | cons c xs ih =>
      rw [List.cons_append, doubled_cons, doubled_cons, ih]
      cases xs with
      | nil => simp [not_doubled_nil, or_comm]
      | cons d ds => simp [or_assoc]

/-- A slash in front of something clean brings none in a row. -/
theorem doubled_of_append {xs ys : List Char} (h : Clean xs) (hd : Doubled (xs ++ ys)) :
    Doubled ys := by
  rcases doubled_append.1 hd with hxs | hys | ⟨hlast, -⟩
  · exact absurd hxs h.not_doubled
  · exact hys
  · exact absurd hlast h.getLast?_ne

-- ==================================================== sanitized paths

/-- A segment of a sanitized path. -/
def IsSegment (s : List Char) : Prop := s ≠ [] ∧ '/' ∉ s

/-- The segments of a path hold no slash and are not empty. -/
theorem isSegment_of_mem_segments {path s : List Char} (h : s ∈ segments path) : IsSegment s := by
  obtain ⟨hmem, hne⟩ := List.mem_filter.1 h
  obtain ⟨part, hpart, rfl⟩ := List.mem_map.1 hmem
  refine ⟨by simpa using hne, fun hslash => ?_⟩
  exact Text.notMem_of_mem_splitOn hpart (Text.mem_of_mem_strip hslash)

/-- Every segment stands behind a slash of its own. -/
theorem cons_intercalate {ss : List (List Char)} (h : ss ≠ []) :
    '/' :: ['/'].intercalate ss = ss.flatMap ('/' :: ·) := by
  induction ss with
  | nil => exact absurd rfl h
  | cons s ss ih =>
      cases ss with
      | nil => simp
      | cons s' ss =>
          rw [List.flatMap_cons, ← ih (List.cons_ne_nil _ _), List.intercalate_cons_cons]
          simp

/-- A slash and a segment are clean. -/
theorem clean_cons_segment {s : List Char} (h : IsSegment s) : Clean ('/' :: s) where
  starts := Or.inr rfl
  not_doubled := by
    have hnone : ∀ {cs : List Char}, '/' ∉ cs → ¬Doubled cs := fun hcs hd =>
      hcs (hd.subset (List.mem_cons_self ..))
    rw [doubled_cons, not_or]
    refine ⟨fun hhead => h.2 ?_, hnone h.2⟩
    exact List.mem_of_head? hhead.2
  getLast?_ne := by
    rw [List.getLast?_cons_of_ne_nil h.1]
    exact fun hlast => h.2 (List.mem_of_getLast? hlast)

theorem clean_nil : Clean [] := ⟨Or.inl rfl, not_doubled_nil, by simp⟩

/-- Clean paths may be put behind one another. -/
theorem Clean.append {xs ys : List Char} (hx : Clean xs) (hy : Clean ys) : Clean (xs ++ ys) where
  starts := by
    rcases hx.starts with rfl | hhead
    · exact hy.starts
    · exact Or.inr (by rw [List.head?_append, hhead, Option.some_or])
  not_doubled := fun hd => hy.not_doubled (doubled_of_append hx hd)
  getLast?_ne := by
    rw [List.getLast?_append]
    cases hl : ys.getLast? with
    | none => exact hx.getLast?_ne
    | some c =>
        rw [Option.some_or, ← hl]
        exact hy.getLast?_ne

/-- So segments are clean with a slash before each. -/
theorem clean_segments {ss : List (List Char)} (h : ∀ s ∈ ss, IsSegment s) :
    Clean (ss.flatMap ('/' :: ·)) := by
  induction ss with
  | nil => exact clean_nil
  | cons s ss ih =>
      rw [List.forall_mem_cons] at h
      rw [List.flatMap_cons]
      exact (clean_cons_segment h.1).append (ih h.2)

-- ==================================================== below a base path

/-- What a base path puts in front of templates: nothing, if it is a slash alone. -/
def lead (base : String) : List Char := if base = "" ∨ base = "/" then [] else base.toList

/-- A sanitized path leads without slashes in a row or at its end. -/
theorem clean_lead_sanitize (path : String) : Clean (lead (sanitize path)) := by
  unfold lead
  split
  · exact clean_nil
  · next hbase =>
    unfold sanitize at hbase ⊢
    rw [String.toList_ofList]
    have hne : segments path.toList ≠ [] := by
      intro hnil
      rw [hnil] at hbase
      exact hbase (Or.inr rfl)
    rw [cons_intercalate hne]
    exact clean_segments fun s hs => isSegment_of_mem_segments hs

/-- What a base path puts in front of templates is all of it but a slash at its end. -/
theorem stripRight_eq_lead {base : String} (h : Clean (lead base)) :
    Text.stripRight (· == '/') base.toList = lead base := by
  unfold lead at h ⊢
  split
  · next hbase =>
    rcases hbase with rfl | rfl
    · rfl
    · rfl
  · next hbase =>
    rw [if_neg hbase] at h
    rw [Text.stripRight_eq, List.rdropWhile_eq_self_iff]
    intro hne hlast
    apply h.getLast?_ne
    rw [List.getLast?_eq_some_getLast hne, beq_iff_eq.1 hlast]

/-- A template is joined to what its base path puts in front of it. -/
theorem join_eq {base : String} (h : Clean (lead base)) (template : String) :
    join base template = String.ofList (lead base ++ rooted template.toList) := by
  unfold join
  rw [stripRight_eq_lead h]

-- ==================================================== rooted templates

/-- A rooted template starts with a slash. -/
theorem head?_rooted (template : List Char) : (rooted template).head? = some '/' := by
  unfold rooted
  split
  · rfl
  · rfl

/-- One that does is left alone. -/
theorem rooted_eq_self {template : List Char} (h : template.head? = some '/') :
    rooted template = template := by
  cases template with
  | nil => cases h
  | cons c cs =>
      cases h
      rfl

theorem rooted_eq_cons {template : List Char} (h : template.head? ≠ some '/') :
    rooted template = '/' :: template := by
  unfold rooted
  split
  · exact absurd rfl h
  · rfl

/-- The first is the second without the slash that it starts with, and starts with none. -/
def IsUnslashed (x y : List Char) : Prop := x.head? ≠ some '/' ∧ y = '/' :: x

/-- Templates that come out alike differ at most by the slash put in front of one. -/
theorem eq_or_slashed_of_rooted_eq {x y : List Char} (h : rooted x = rooted y) :
    x = y ∨ IsUnslashed x y ∨ IsUnslashed y x := by
  by_cases hx : x.head? = some '/'
  · rw [rooted_eq_self hx] at h
    by_cases hy : y.head? = some '/'
    · rw [rooted_eq_self hy] at h
      exact Or.inl h
    · rw [rooted_eq_cons hy] at h
      exact Or.inr (Or.inr ⟨hy, h⟩)
  · rw [rooted_eq_cons hx] at h
    by_cases hy : y.head? = some '/'
    · rw [rooted_eq_self hy] at h
      exact Or.inr (Or.inl ⟨hx, h.symm⟩)
    · rw [rooted_eq_cons hy] at h
      exact Or.inl (List.cons.inj h).2

end UrlPath

-- ==================================================== resolved base paths

namespace BasePath

variable {servers : List String}

/-- What a choice comes to among the servers' paths, by the choice: one that is made has to be
among them, and without one there has to be a single path. -/
def among (servers paths : List String) : Option String → Attempt String
  | some base =>
    if paths.contains (UrlPath.sanitize base) then .ok (UrlPath.sanitize base)
    else Fault.report (.basePathMismatch base servers)
  | none =>
    match paths with
    | [path] => .ok path
    | _ => Fault.report (.ambiguousServers servers)

/-- Where a choice is the one path there is, it does not matter that the path is given and not
the choice. -/
theorem choose_eq_among (servers paths : List String) (base? : Option String) :
    choose servers paths base? = among servers paths base? := by
  unfold choose among
  cases base? with
  | none =>
      match paths with
      | [] => rfl
      | [path] => rfl
      | path :: other :: rest => rfl
  | some base =>
      unfold checkChoice
      by_cases hmem : paths.contains (UrlPath.sanitize base) = true
      · simp only [if_pos hmem]
        match paths, hmem with
        | [path], hmem =>
            rw [List.contains_iff_mem, List.mem_singleton] at hmem
            rw [hmem]
            rfl
        | path :: other :: rest, _ => rfl
      · simp only [if_neg hmem]
        rfl

/-- A base path is empty or sanitized, so it leads without slashes in a row or at
its end. -/
theorem clean_lead_of_resolve {base : Value} {b : String}
    (h : resolve servers base = .ok b) : UrlPath.Clean (UrlPath.lead b) := by
  unfold resolve at h
  split at h
  · cases h
    exact UrlPath.clean_nil
  · obtain ⟨paths, hpaths, h⟩ := Attempt.bind_eq_ok.1 h
    obtain ⟨base?, -, h⟩ := Attempt.bind_eq_ok.1 h
    rw [choose_eq_among] at h
    unfold among at h
    split at h
    · split at h
      · cases h
        exact UrlPath.clean_lead_sanitize _
      · cases h
    · split at h
      · cases h
        obtain ⟨server, -, hserver⟩ :=
          Attempt.exists_of_mem_right (Attempt.mapM_eq_ok.1 hpaths) (List.mem_singleton_self b)
        obtain ⟨path, -, hpath⟩ := Attempt.bind_eq_ok.1 hserver
        rw [← Attempt.pure_eq_ok.1 hpath]
        exact UrlPath.clean_lead_sanitize _
      · cases h

end BasePath

end ApiAuthz
