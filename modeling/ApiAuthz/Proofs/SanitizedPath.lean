/-
Sanitized paths are a normal form. A normal path starts with a slash, has none at its end
unless it is nothing else, no two in a row, and no blank at an end of what stands between two
of them (`IsNormal`); none of this speaks of how a path is sanitized.

The chain goes through the segments. Trimming what stands between slashes and joining it again
brings forth no other segments (`segments_intercalate`), so a path has the segments of its
sanitized form (`segments_sanitize`), and two paths are sanitized alike exactly if they have
the same segments (`sanitize_eq_iff`). In the other direction, the parts of a normal path are
its segments as they stand, and joining undoes splitting, so a normal path is left as it is
(`sanitize_eq_self`).

# What a segment is

A segment is what is left of a part when it is trimmed, if anything is left. Trimming twice is
trimming once (`strip_eq_self`), and blanks do not include the slash, so trimming neither makes
nor removes one. That is all `segments_of_splitOn` needs: parts that are trimmed and not empty
are segments already.

The path with no segments at all is a single slash, which is the one normal path that ends in
one. Splitting it gives two empty parts and not none, so it is a case of its own in
`isNormal_sanitize` and `sanitize_eq_self`.
-/
import ApiAuthz.Proofs.UrlPath
import Mathlib.Data.List.DropRight

namespace ApiAuthz

-- ==================================================== trimmed texts

namespace Text

/-- A text with no blank at either end. -/
structure Trimmed (cs : List Char) : Prop where
  head : ∀ c, cs.head? = some c → isBlank c = false
  last : ∀ c, cs.getLast? = some c → isBlank c = false

theorem trimmed_nil : Trimmed [] := by
  constructor
  · intro c hc
    cases hc
  · intro c hc
    cases hc

/-- What has been stripped has no blanks at its ends. -/
theorem trimmed_strip (cs : List Char) : Trimmed (strip cs) := by
  constructor
  · intro c hc
    -- what is taken off the right leaves the start as it is
    obtain ⟨rest, hrest⟩ := List.rdropWhile_prefix isBlank (cs.dropWhile isBlank)
    have hhead : (cs.dropWhile isBlank).head? = some c := by
      rw [← hrest, List.head?_append]
      show (strip cs).head?.or _ = _
      rw [hc, Option.some_or]
    have hnot := List.head?_dropWhile_not isBlank cs
    rw [hhead] at hnot
    exact hnot
  · intro c hc
    have hne : strip cs ≠ [] := by
      intro hnil
      rw [hnil] at hc
      cases hc
    rw [List.getLast?_eq_some_getLast hne] at hc
    rw [← Option.some.inj hc]
    exact Bool.eq_false_iff.2 (List.rdropWhile_last_not isBlank (cs.dropWhile isBlank) hne)

/-- Nothing is taken off a trimmed text. -/
theorem strip_eq_self {cs : List Char} (h : Trimmed cs) : strip cs = cs := by
  have hleft : cs.dropWhile isBlank = cs := by
    cases cs with
    | nil => rfl
    | cons c cs =>
        apply List.dropWhile_cons_of_neg
        rw [h.head c rfl]
        exact Bool.false_ne_true
  show stripRight isBlank (cs.dropWhile isBlank) = cs
  rw [hleft]
  rw [stripRight_eq, List.rdropWhile_eq_self_iff]
  intro hne
  rw [h.last _ (List.getLast?_eq_some_getLast hne)]
  exact Bool.false_ne_true

end Text

namespace UrlPath

open List (splitOn)
open Text (Trimmed)

-- ==================================================== segments

/-- A slash parts the segments before it from those behind it. -/
theorem segments_append (cs rest : List Char) :
    segments (cs ++ '/' :: rest) = segments cs ++ segments rest := by
  unfold segments
  rw [List.splitOn_append_cons_self, List.map_append, List.filter_append]

/-- A slash in front makes no segment. -/
@[simp] theorem segments_slash (cs : List Char) : segments ('/' :: cs) = segments cs :=
  segments_append [] cs

/-- Segments have no blanks at their ends. -/
theorem trimmed_of_mem_segments {path s : List Char} (h : s ∈ segments path) : Trimmed s := by
  obtain ⟨part, -, rfl⟩ := List.mem_map.1 (List.mem_filter.1 h).1
  exact Text.trimmed_strip part

/-- Parts that are segments already are kept as they are. -/
theorem segments_of_splitOn {cs : List Char} (hne : ∀ s ∈ splitOn '/' cs, s ≠ [])
    (htrimmed : ∀ s ∈ splitOn '/' cs, Trimmed s) : segments cs = splitOn '/' cs := by
  have hstrip : (splitOn '/' cs).map Text.strip = splitOn '/' cs := by
    rw [List.map_congr_left fun s hs => Text.strip_eq_self (htrimmed s hs), List.map_id']
  unfold segments
  rw [hstrip, List.filter_eq_self]
  intro s hs
  simpa using hne s hs

/-- Joined segments have just these segments. -/
theorem segments_intercalate {ss : List (List Char)} (h : ∀ s ∈ ss, IsSegment s)
    (htrimmed : ∀ s ∈ ss, Trimmed s) : segments (['/'].intercalate ss) = ss := by
  by_cases hnil : ss = []
  · subst hnil
    rfl
  · have hsplit := List.splitOn_intercalate '/' (fun s hs => (h s hs).2) hnil
    rw [segments_of_splitOn, hsplit]
    · intro s hs
      rw [hsplit] at hs
      exact (h s hs).1
    · intro s hs
      rw [hsplit] at hs
      exact htrimmed s hs

-- ==================================================== sanitized paths

/-- A sanitized path is a slash and the segments with slashes between them. -/
theorem toList_sanitize (path : String) :
    (sanitize path).toList = '/' :: ['/'].intercalate (segments path.toList) :=
  String.toList_ofList

/-- A path has the segments of its sanitized form. -/
theorem segments_sanitize (path : String) :
    segments (sanitize path).toList = segments path.toList := by
  rw [toList_sanitize, segments_slash]
  apply segments_intercalate
  · intro s hs
    exact isSegment_of_mem_segments hs
  · intro s hs
    exact trimmed_of_mem_segments hs

theorem sanitize_congr {path other : String} (h : segments path.toList = segments other.toList) :
    sanitize path = sanitize other := by
  unfold sanitize
  rw [h]

/-- Paths are sanitized alike exactly if they have the same segments. -/
theorem sanitize_eq_iff {path other : String} :
    sanitize path = sanitize other ↔ segments path.toList = segments other.toList := by
  constructor
  · intro h
    rw [← segments_sanitize path, h, segments_sanitize]
  · exact sanitize_congr

/-- Sanitizing twice is sanitizing once. -/
theorem sanitize_sanitize (path : String) : sanitize (sanitize path) = sanitize path :=
  sanitize_congr (segments_sanitize path)

-- ==================================================== normal paths

/-- One slash at the start, none at the end unless there is nothing else, no two in a row, and
no blank at an end of what stands between them. -/
structure IsNormal (path : String) : Prop where
  starts : path.toList.head? = some '/'
  ends : path.toList.getLast? = some '/' → path = "/"
  not_doubled : ¬Doubled path.toList
  trimmed : ∀ part ∈ splitOn '/' path.toList, Trimmed part

/-- What stands between the slashes of joined segments is trimmed if they are. -/
theorem trimmed_splitOn {ss : List (List Char)} (h : ∀ s ∈ ss, IsSegment s)
    (htrimmed : ∀ s ∈ ss, Trimmed s) : ∀ part ∈ splitOn '/' (['/'].intercalate ss), Trimmed part := by
  by_cases hnil : ss = []
  · subst hnil
    intro part hpart
    rw [List.mem_singleton.1 hpart]
    exact Text.trimmed_nil
  · rw [List.splitOn_intercalate '/' (fun s hs => (h s hs).2) hnil]
    exact htrimmed

/-- A sanitized path is in normal form. -/
theorem isNormal_sanitize (path : String) : IsNormal (sanitize path) := by
  have hsegments : ∀ s ∈ segments path.toList, IsSegment s := by
    intro s hs
    exact isSegment_of_mem_segments hs
  -- with a segment, the sanitized path is one that may lead templates
  have hclean : sanitize path = "/" ∨ Clean (sanitize path).toList := by
    by_cases hnil : segments path.toList = []
    · left
      unfold sanitize
      rw [hnil]
      rfl
    · right
      rw [toList_sanitize, cons_intercalate hnil]
      exact clean_segments hsegments
  constructor
  · rw [toList_sanitize]
    rfl
  · intro hlast
    rcases hclean with hroot | hclean
    · exact hroot
    · exact absurd hlast hclean.getLast?_ne
  · rcases hclean with hroot | hclean
    · rw [hroot]
      show ¬Doubled ['/']
      simp [doubled_cons, not_doubled_nil]
    · exact hclean.not_doubled
  · rw [toList_sanitize, Text.splitOn_cons_self, List.forall_mem_cons]
    refine ⟨Text.trimmed_nil, trimmed_splitOn hsegments ?_⟩
    intro s hs
    exact trimmed_of_mem_segments hs

/-- An empty segment leaves two slashes in a row, or one at the end. -/
theorem doubled_or_ends_of_nil_mem {ss : List (List Char)} (h : [] ∈ ss) :
    Doubled (ss.flatMap ('/' :: ·)) ∨ (ss.flatMap ('/' :: ·)).getLast? = some '/' := by
  obtain ⟨before, behind, rfl⟩ := List.append_of_mem h
  rw [List.flatMap_append, List.flatMap_cons]
  cases behind with
  | nil =>
      right
      simp
  | cons s behind =>
      left
      rw [doubled_append]
      right
      left
      simp [doubled_cons]

/-- A normal path is left as it is. -/
theorem sanitize_eq_self {path : String} (h : IsNormal path) : sanitize path = path := by
  apply String.toList_injective
  rw [toList_sanitize]
  obtain ⟨rest, hpath⟩ := List.head?_eq_some_iff.1 h.starts
  have htrimmed := h.trimmed
  rw [hpath, Text.splitOn_cons_self, List.forall_mem_cons] at htrimmed
  by_cases hnil : rest = []
  · rw [hpath, hnil]
    rfl
  · have hjoined : path.toList = (splitOn '/' rest).flatMap ('/' :: ·) := by
      rw [← cons_intercalate (List.splitOn_ne_nil '/' rest), List.intercalate_splitOn, hpath]
    have hne : ∀ s ∈ splitOn '/' rest, s ≠ [] := by
      rintro s hs rfl
      rcases doubled_or_ends_of_nil_mem hs with hdoubled | hlast
      · rw [← hjoined] at hdoubled
        exact h.not_doubled hdoubled
      · rw [← hjoined] at hlast
        rw [h.ends hlast] at hpath
        cases hpath
        exact hnil rfl
    rw [hpath, segments_slash, segments_of_splitOn hne htrimmed.2, List.intercalate_splitOn]

-- ==================================================== the retraction

/-- Sanitizing is a retraction onto the normal paths: its results are normal, it leaves normal
paths and no others as they are, and it tells paths apart exactly by their segments. A slash
between two paths puts the segments of the one in front of those of the other; so it is the
same whether paths are sanitized before they are put together or not, with the slash between
them or with the one that the second starts with once it is sanitized. -/
theorem sanitize_retraction (path other : String) :
    IsNormal (sanitize path) ∧
      sanitize (sanitize path) = sanitize path ∧
      (sanitize path = path ↔ IsNormal path) ∧
      (sanitize path = sanitize other ↔ segments path.toList = segments other.toList) ∧
      segments (path ++ "/" ++ other).toList =
        segments path.toList ++ segments other.toList ∧
      sanitize (path ++ "/" ++ other) = sanitize (sanitize path ++ "/" ++ sanitize other) ∧
      sanitize (path ++ "/" ++ other) = sanitize (sanitize path ++ sanitize other) := by
  have happend : ∀ p q : String,
      segments (p ++ "/" ++ q).toList = segments p.toList ++ segments q.toList := by
    intro p q
    rw [String.toList_append, String.toList_append, List.append_assoc]
    exact segments_append p.toList q.toList
  refine ⟨isNormal_sanitize path, sanitize_sanitize path, ⟨?_, sanitize_eq_self⟩,
    sanitize_eq_iff, happend path other, ?_, ?_⟩
  · intro h
    rw [← h]
    exact isNormal_sanitize path
  · apply sanitize_congr
    rw [happend, happend, segments_sanitize, segments_sanitize]
  · apply sanitize_congr
    rw [happend, String.toList_append, toList_sanitize other, segments_append,
      segments_sanitize, ← segments_slash (['/'].intercalate _), ← toList_sanitize,
      segments_sanitize]

end UrlPath

end ApiAuthz
