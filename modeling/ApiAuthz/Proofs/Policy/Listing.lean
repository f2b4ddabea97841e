/-
Action names in policies. `readListing` reads the policy for a group the way Cedar does: its
head, the group, and the entities between the brackets. In a literal a backslash takes the
next character as it is, and the first quote without one ends the literal. Names are escaped so
that a literal is read back as the name it was written for, whatever the name holds, halves of
UTF-16 pairs among it (`readLiteral_escaped`); so an entity is read back
(`readEntity_written`), then a list of them (`readItems_actionLines`), and what is behind the
list is the text that is behind every list.

For that the namespace has to be a path: then it is a text, its characters are those of paths,
and what follows it in the policy does not run into it. The name of an action may be any
string.

The reader ends because every entity leaves less of the policy (`length_readEntity`), which is
the measure of `readItems`. Its lemmas follow its functions: a literal by induction over the
name, an entity by the path in front of its last two colons, the lines of a list by induction
over the actions, and the whole policy by its parts (`groupPolicy_eq`). From the policy read
back it follows that no two namespaces and lists have the same one (`groupPolicy_inj`).
-/
import ApiAuthz.Proofs.Namespace
import ApiAuthz.Proofs.Policy.Reading

namespace ApiAuthz

namespace Policy

open Namespace (IsPath isNameRest)
open Text (points points_append)

-- ==================================================== reading a policy

/-- An entity by the path of its type and its own name. -/
structure Entity where
  typeName : String
  id : List CodePoint
  deriving DecidableEq

/-- A literal from behind its opening quote, and what is behind its closing one. -/
def readLiteral : List CodePoint → Option (List CodePoint × List CodePoint)
  | [] => none
  | .char '"' :: rest => some ([], rest)
  | .char '\\' :: [] => none
  | .char '\\' :: p :: rest => (readLiteral rest).map fun r => (p :: r.1, r.2)
  | p :: rest => (readLiteral rest).map fun r => (p :: r.1, r.2)

/-- What a path is made of. -/
def isPathChar (c : Char) : Bool := isNameRest c || c == ':'

/-- What a path is made of; no half of a pair is. -/
def isPathPoint : CodePoint → Bool
  | .char c => isPathChar c
  | .half _ => false

/-- The path in front of the last two colons. -/
def typeName? (path : List Char) : Option String :=
  match path.reverse with
  | ':' :: ':' :: name =>
    if (Namespace.components name.reverse).all Namespace.isComponent then
      some (String.ofList name.reverse)
    else none
  | _ => none

/-- An entity, and what is behind it. -/
def readEntity (ps : List CodePoint) : Option (Entity × List CodePoint) :=
  match ps.dropWhile isPathPoint with
  | .char '"' :: rest => do
    let typeName ← typeName? ((ps.takeWhile isPathPoint).map CodePoint.character)
    let (id, rest) ← readLiteral rest
    return (⟨typeName, id⟩, rest)
  | _ => none

/-- What may stand between words. -/
def isBlankPoint : CodePoint → Bool
  | .char c => c.isWhitespace
  | .half _ => false

/-- The text from its next word on. -/
def skipBlanks (ps : List CodePoint) : List CodePoint := ps.dropWhile isBlankPoint

/-- A literal takes its closing quote at least. -/
theorem length_readLiteral {cs id rest : List CodePoint} (h : readLiteral cs = some (id, rest)) :
    rest.length < cs.length := by
  fun_induction readLiteral cs generalizing id with
  | case1 => cases h
  | case2 more =>
      cases h
      simp
  | case3 => cases h
  | case4 c more ih =>
      obtain ⟨⟨id', rest'⟩, hread, heq⟩ := Option.map_eq_some_iff.1 h
      cases heq
      have hshorter : rest'.length < more.length := ih hread
      simp only [List.length_cons]
      omega
  | case5 c more _ _ _ ih =>
      obtain ⟨⟨id', rest'⟩, hread, heq⟩ := Option.map_eq_some_iff.1 h
      cases heq
      have hshorter : rest'.length < more.length := ih hread
      simp only [List.length_cons]
      omega

/-- An entity takes a literal. -/
theorem length_readEntity {cs rest : List CodePoint} {e : Entity}
    (h : readEntity cs = some (e, rest)) : rest.length < cs.length := by
  unfold readEntity at h
  split at h
  · next more hmore =>
    have hdropped := (List.dropWhile_suffix isPathPoint (l := cs)).length_le
    rw [hmore, List.length_cons] at hdropped
    simp only [Option.bind_eq_bind, Option.bind_eq_some_iff] at h
    obtain ⟨typeName, -, ⟨id, rest'⟩, hread, heq⟩ := h
    cases heq
    exact Nat.lt_trans (length_readLiteral hread) hdropped
  · cases h

theorem length_skipBlanks (cs : List CodePoint) : (skipBlanks cs).length ≤ cs.length :=
  (List.dropWhile_suffix _).length_le

/-- Entities with commas between them up to a closing bracket, and what is behind that. -/
def readItems (cs : List CodePoint) : Option (List Entity × List CodePoint) :=
  match _ : readEntity (skipBlanks cs) with
  | none => none
  | some (e, rest) =>
    match _ : skipBlanks rest with
    | .char ',' :: more => (readItems more).map fun r => (e :: r.1, r.2)
    | .char ']' :: more => some ([e], more)
    | _ => none
termination_by cs.length
decreasing_by
  have hshorter := length_readEntity ‹_›
  have hskipped := length_skipBlanks cs
  have hbehind := length_skipBlanks rest
  rw [‹skipBlanks rest = _›, List.length_cons] at hbehind
  omega

/-- The entities of a list from behind its opening bracket, and what is behind the closing one. -/
def readList (cs : List CodePoint) : Option (List Entity × List CodePoint) :=
  match skipBlanks cs with
  | .char ']' :: rest => some ([], rest)
  | _ => readItems cs

/-- What is behind words with blanks before them. -/
def behindWords (words : List String) (cs : List CodePoint) : Option (List CodePoint) :=
  words.foldlM (fun cs word =>
    let cs := skipBlanks cs
    if (points word).isPrefixOf cs then some (cs.drop (points word).length) else none) cs

/-- What a policy with a list of actions says, and the text behind the list. -/
structure Listing where
  principal : Entity
  actions : List Entity
  behind : List CodePoint

/-- A policy with a line of comment before it. -/
def readListing (cs : List CodePoint) : Option Listing := do
  let cs ← behindWords ["permit", "(", "principal", "in"] (cs.dropWhile (· != .char '\n'))
  let (principal, cs) ← readEntity (skipBlanks cs)
  let cs ← behindWords [",", "action", "in", "["] cs
  let (actions, behind) ← readList cs
  return ⟨principal, actions, behind⟩

-- ==================================================== literals and entities

/-- A string with a backslash before each of one character. -/
def marked (c : Char) (ps : List CodePoint) : List CodePoint :=
  ps.flatMap fun p => if p = .char c then [.char '\\', p] else [p]

/-- One pass escapes a name as two do, if the backslashes are done before the quotes. -/
theorem flatMap_escapedPoint_eq (ps : List CodePoint) :
    ps.flatMap escapedPoint = marked '"' (marked '\\' ps) := by
  unfold marked
  rw [List.flatMap_assoc]
  refine List.flatMap_congr fun p _ => ?_
  by_cases hbackslash : p = .char '\\'
  · subst hbackslash
    rfl
  · rw [if_neg hbackslash, List.flatMap_singleton]
    simp [escapedPoint, hbackslash]

/-- What needs no escape stands for itself. -/
theorem readLiteral_plain {p : CodePoint} (h : ¬(p = .char '\\' ∨ p = .char '"'))
    (cs : List CodePoint) :
    readLiteral (p :: cs) = (readLiteral cs).map fun r => (p :: r.1, r.2) := by
  rw [not_or] at h
  rw [readLiteral]
  · exact h.2
  · intro hp
    exact absurd hp h.1
  · intro _ _ hp
    exact absurd hp h.1

/-- An escaped name is read back, whatever it holds. -/
theorem readLiteral_escaped (name rest : List CodePoint) :
    readLiteral (name.flatMap escapedPoint ++ .char '"' :: rest) = some (name, rest) := by
  induction name with
  | nil => rfl
  | cons p name ih =>
      rw [List.flatMap_cons, List.append_assoc]
      by_cases hp : p = .char '\\' ∨ p = .char '"'
      · have hescaped : escapedPoint p = [.char '\\', p] := if_pos hp
        rw [hescaped, List.cons_append, List.singleton_append, readLiteral, ih]
        rfl
      · have hescaped : escapedPoint p = [p] := if_neg hp
        rw [hescaped, List.singleton_append, readLiteral_plain hp, ih]
        rfl

/-- A path is made of characters of paths. -/
theorem isPathPoint_of_mem {s : String} (h : IsPath s) {p : CodePoint} (hp : p ∈ points s) :
    isPathPoint p = true := by
  obtain ⟨c, hc, rfl⟩ := List.mem_map.1 hp
  show (isNameRest c || c == ':') = true
  rcases Namespace.mem_components hc with rfl | ⟨part, hpart, hc⟩
  · rfl
  · rw [Namespace.isNameRest_of_mem_component (h part hpart) hc, Bool.true_or]

/-- A path does not start with a blank. -/
theorem not_isBlankPoint {p : CodePoint} (h : isPathPoint p = true) : isBlankPoint p = false := by
  cases p with
  | half place => rfl
  | char c =>
      rw [Bool.eq_false_iff]
      intro hblank
      simp only [isBlankPoint, Char.isWhitespace, Bool.or_eq_true, decide_eq_true_eq] at hblank
      rcases hblank with ((rfl | rfl) | rfl) | rfl
      all_goals cases h

/-- A path is left alone where blanks are skipped. -/
theorem skipBlanks_path {s : String} (h : IsPath s) (rest : List CodePoint) :
    skipBlanks (points s ++ rest) = points s ++ rest := by
  cases hs : points s with
  | nil =>
      have hempty : s = "" := Text.points_inj.1 hs
      rw [hempty] at h
      exact absurd (h [] List.mem_cons_self) (by decide)
  | cons p ps =>
      have hp := isPathPoint_of_mem h (hs ▸ List.mem_cons_self)
      rw [List.cons_append, skipBlanks,
        List.dropWhile_cons_of_neg (by rw [not_isBlankPoint hp]; decide)]

/-- The path of a type is read back from in front of its colons. -/
theorem typeName?_path {typeName : String} (h : IsPath typeName) :
    typeName? (typeName ++ "::").toList = some typeName := by
  have hreverse : (typeName ++ "::").toList.reverse = ':' :: ':' :: typeName.toList.reverse := by
    rw [String.toList_append, List.reverse_append]
    rfl
  unfold typeName?
  rw [hreverse]
  simp only [List.reverse_reverse, String.ofList_toList]
  exact if_pos (List.all_eq_true.2 h)

/-- An entity as it is written. -/
def Entity.written (e : Entity) : List CodePoint :=
  points (e.typeName ++ "::\"") ++ (e.id.flatMap escapedPoint ++ [.char '"'])

/-- An entity is read back if its type is a path, whatever its own name holds. -/
theorem readEntity_written {e : Entity} (h : IsPath e.typeName) (rest : List CodePoint) :
    readEntity (e.written ++ rest) = some (e, rest) := by
  have hpath : ∀ p ∈ points (e.typeName ++ "::"), isPathPoint p = true := by
    intro p hp
    rw [points_append] at hp
    rcases List.mem_append.1 hp with hp | hp
    · exact isPathPoint_of_mem h hp
    · have hcolons : points "::" = [.char ':', .char ':'] := rfl
      rw [hcolons, List.mem_cons, List.mem_singleton, or_self] at hp
      rw [hp]
      rfl
  have hsplit : e.written ++ rest =
      points (e.typeName ++ "::") ++
        .char '"' :: (e.id.flatMap escapedPoint ++ .char '"' :: rest) := by
    unfold Entity.written
    simp only [points_append, List.append_assoc]
    rfl
  have hquote : ¬isPathPoint (.char '"') = true := by decide
  unfold readEntity
  rw [hsplit, List.takeWhile_append_of_pos hpath, List.dropWhile_append_of_pos hpath,
    List.takeWhile_cons_of_neg hquote, List.dropWhile_cons_of_neg hquote, List.append_nil]
  simp only [Text.map_character_points, typeName?_path h, readLiteral_escaped,
    Option.bind_eq_bind, Option.bind_some]
  rfl

theorem skipBlanks_written {e : Entity} (h : IsPath e.typeName) (rest : List CodePoint) :
    skipBlanks (e.written ++ rest) = e.written ++ rest := by
  unfold Entity.written
  rw [points_append, List.append_assoc, List.append_assoc]
  exact skipBlanks_path h _

-- ==================================================== lists of entities

/-- A list may go on in the next line. -/
theorem readItems_newline (cs : List CodePoint) : readItems (.char '\n' :: cs) = readItems cs := by
  rw [readItems, readItems]
  rfl

/-- What is read as a list of some entities does not start with the closing bracket. -/
theorem readList_of_readItems {cs : List CodePoint} {r : List Entity × List CodePoint}
    (h : readItems cs = some r) : readList cs = some r := by
  unfold readList
  split
  · next hbracket =>
    rw [readItems, hbracket] at h
    cases h
  · exact h

/-- An entity before a comma is read, and the rest from behind the comma. -/
theorem readItems_more {e : Entity} (h : IsPath e.typeName) (cs : List CodePoint) :
    readItems (points "        " ++ e.written ++ points ",\n" ++ cs) =
      (readItems cs).map fun r => (e :: r.1, r.2) := by
  have hskipped : skipBlanks (points "        " ++ e.written ++ points ",\n" ++ cs) =
      e.written ++ (points ",\n" ++ cs) := by
    rw [List.append_assoc, List.append_assoc]
    exact skipBlanks_written h _
  rw [readItems, hskipped, readEntity_written h]
  show Option.map _ (readItems (.char '\n' :: cs)) = _
  rw [readItems_newline]

/-- The last entity of a list. -/
theorem readItems_last {e : Entity} (h : IsPath e.typeName) (cs : List CodePoint) :
    readItems (points "        " ++ e.written ++ points "\n    ]" ++ cs) = some ([e], cs) := by
  have hskipped : skipBlanks (points "        " ++ e.written ++ points "\n    ]" ++ cs) =
      e.written ++ (points "\n    ]" ++ cs) := by
    rw [List.append_assoc, List.append_assoc]
    exact skipBlanks_written h _
  rw [readItems, hskipped, readEntity_written h]
  rfl

/-- The entities of actions, a line for each. -/
def actionLines (namespaceName : String) (actions : List (List CodePoint)) : List CodePoint :=
  (points ",\n").intercalate
    (actions.map fun a => points "        " ++ actionEntity (points namespaceName) a)

/-- The entity an action is written as. -/
def actionOf (namespaceName : String) (action : List CodePoint) : Entity :=
  ⟨namespaceName ++ "::Action", action⟩

/-- The entity of an action is written as such. -/
theorem actionEntity_eq (namespaceName : String) (action : List CodePoint) :
    actionEntity (points namespaceName) action = (actionOf namespaceName action).written := by
  unfold actionEntity Entity.written actionOf
  simp only [points_append, List.append_assoc]
  rfl

/-- The type of actions is a path below the namespace. -/
theorem isPath_action {namespaceName : String} (h : IsPath namespaceName)
    (action : List CodePoint) : IsPath (actionOf namespaceName action).typeName := by
  have hpath := h.append (by decide : IsPath "Action")
  rw [String.append_assoc] at hpath
  exact hpath

/-- The lines of one action or more are read back as their entities. -/
theorem readItems_actionLines {namespaceName : String} (h : IsPath namespaceName)
    (action : List CodePoint) (actions : List (List CodePoint)) (cs : List CodePoint) :
    readItems (actionLines namespaceName (action :: actions) ++ points "\n    ]" ++ cs) =
      some ((action :: actions).map (actionOf namespaceName), cs) := by
  induction actions generalizing action with
  | nil =>
      have hlines : actionLines namespaceName [action] =
          points "        " ++ (actionOf namespaceName action).written := by
        rw [← actionEntity_eq]
        exact List.intercalate_singleton
      rw [hlines, readItems_last (isPath_action h action)]
      rfl
  | cons other actions ih =>
      have hlines : actionLines namespaceName (action :: other :: actions) =
          points "        " ++ (actionOf namespaceName action).written ++ points ",\n" ++
            actionLines namespaceName (other :: actions) := by
        rw [← actionEntity_eq]
        exact List.intercalate_cons_cons
      rw [hlines, List.append_assoc, List.append_assoc, readItems_more (isPath_action h action),
        ← List.append_assoc, ih other]
      rfl

/-- A list of entities is read back, also with nothing in it. -/
theorem readList_actionLines {namespaceName : String} (h : IsPath namespaceName)
    (actions : List (List CodePoint)) (cs : List CodePoint) :
    readList (.char '\n' :: (actionLines namespaceName actions ++ (points "\n    ]" ++ cs))) =
      some (actions.map (actionOf namespaceName), cs) := by
  cases actions with
  | nil => rfl
  | cons action actions =>
      refine readList_of_readItems ?_
      rw [readItems_newline, ← List.append_assoc, readItems_actionLines h]

-- ==================================================== policies

/-- The group of users a policy is for. -/
def groupOf (namespaceName : String) : Entity :=
  ⟨namespaceName ++ "::UserGroup", points placeholderGroup⟩

/-- So is the type of groups. -/
theorem isPath_group {namespaceName : String} (h : IsPath namespaceName) :
    IsPath (groupOf namespaceName).typeName := by
  have hpath := h.append (by decide : IsPath "UserGroup")
  rw [String.append_assoc] at hpath
  exact hpath

/-- What is behind the list in the policy of a group. -/
def groupPolicyEnd : String := ",\n    resource\n);\n"

/-- The line of comment over the policy of a group. -/
def groupPolicyComment : String :=
  "// Allows more granular user group control, change actions as needed\n"

/-- The policy of a group by its parts. -/
theorem groupPolicy_eq (namespaceName : String) (actions : List (List CodePoint)) :
    groupPolicy (points namespaceName) actions =
      points groupPolicyComment ++ (points "permit (\n    principal in " ++
        ((groupOf namespaceName).written ++ (points ",\n    action in [\n" ++
          (actionLines namespaceName actions ++
            (points "\n    ]" ++ points groupPolicyEnd))))) := by
  have hhead : ∀ cs, points "permit (\n    principal in " ++ cs =
      points "permit (\n" ++ (points "    principal in " ++ cs) := fun _ => rfl
  have hgroup : ∀ cs, points "::UserGroup" ++ (points "::\"" ++
      ((points placeholderGroup).flatMap escapedPoint ++ (.char '"' ::
        (points ",\n    action in [\n" ++ cs)))) =
      points ("::UserGroup::\"" ++ placeholderGroup ++ "\",\n") ++
        (points "    action in [\n" ++ cs) := fun _ => rfl
  have hend : points "\n    ]" ++ points groupPolicyEnd =
      points "\n" ++ (points "    ],\n" ++ (points "    resource\n" ++ points ");\n")) := rfl
  unfold groupPolicy groupOf Entity.written actionLines
  rw [points_append (namespaceName ++ "::UserGroup") "::\"", points_append namespaceName]
  simp only [List.append_assoc, List.cons_append, List.nil_append, hhead, hgroup, hend]
  rfl

/-- The policy of a group is read back. -/
theorem readListing_groupPolicy {namespaceName : String} (h : IsPath namespaceName)
    (actions : List (List CodePoint)) :
    readListing (groupPolicy (points namespaceName) actions) =
      some ⟨groupOf namespaceName, actions.map (actionOf namespaceName),
        points groupPolicyEnd⟩ := by
  have hcomment : ∀ cs : List CodePoint,
      (points groupPolicyComment ++ cs).dropWhile (· != .char '\n') = .char '\n' :: cs :=
    fun _ => rfl
  have hhead : ∀ cs, behindWords ["permit", "(", "principal", "in"]
      (.char '\n' :: (points "permit (\n    principal in " ++ cs)) = some (.char ' ' :: cs) :=
    fun _ => rfl
  have hmiddle : ∀ cs, behindWords [",", "action", "in", "["]
      (points ",\n    action in [\n" ++ cs) = some (.char '\n' :: cs) := fun _ => rfl
  unfold readListing
  rw [groupPolicy_eq, hcomment]
  have hgroup : ∀ cs,
      readEntity (skipBlanks (.char ' ' :: ((groupOf namespaceName).written ++ cs))) =
        some (groupOf namespaceName, cs) := by
    intro cs
    have hskipped : skipBlanks (.char ' ' :: ((groupOf namespaceName).written ++ cs)) =
        (groupOf namespaceName).written ++ cs := skipBlanks_written (isPath_group h) cs
    rw [hskipped, readEntity_written (isPath_group h)]
  simp only [hhead, hgroup, hmiddle, readList_actionLines h, Option.bind_eq_bind, Option.bind_some]
  rfl

variable {name name' : String} {actions actions' : List (List CodePoint)}

/-- Policies with the same text are for the same namespace and the same actions. -/
theorem groupPolicy_inj (h : IsPath name) (h' : IsPath name')
    (heq : groupPolicy (points name) actions = groupPolicy (points name') actions') :
    name = name' ∧ actions = actions' := by
  have hread := readListing_groupPolicy h actions
  rw [heq, readListing_groupPolicy h', Option.some_inj, Listing.mk.injEq] at hread
  obtain ⟨hgroup, hactions, -⟩ := hread
  have htypes : name' ++ "::UserGroup" = name ++ "::UserGroup" := congrArg Entity.typeName hgroup
  obtain rfl := (String.append_left_inj _).1 htypes
  have hinjective : Function.Injective (actionOf name') := fun _ _ hab => congrArg Entity.id hab
  exact ⟨rfl, List.map_injective_iff.2 hinjective hactions.symm⟩

/-- In the policy of a group the list holds the action of each name and nothing else, in order
and with the name code point for code point, and behind the list is what is behind every list;
so the namespace and the names are known from the policy. -/
theorem listing_of_readActions {text : String}
    (hread : readActions text = .ok (points name, actions))
    (hname : Namespace.ofValue (.text name) = .ok name) :
    ∃ admin group, forSchema text = .ok [admin, group] ∧
      readListing group =
        some ⟨groupOf name, actions.map (actionOf name), points groupPolicyEnd⟩ ∧
      ∀ text' name' actions' admin', readActions text' = .ok (points name', actions') →
        Namespace.ofValue (.text name') = .ok name' → forSchema text' = .ok [admin', group] →
        name' = name ∧ actions' = actions := by
  have hpath := Namespace.isPath_of_ofValue hname
  refine ⟨adminPolicy (points name), groupPolicy (points name) actions,
    forSchema_of_readActions hread, readListing_groupPolicy hpath actions, ?_⟩
  intro text' name' actions' admin' hread' hname' hpolicies
  rw [forSchema_of_readActions hread'] at hpolicies
  injection hpolicies with hpolicies
  injection hpolicies with _ hpolicies
  injection hpolicies with hgroup _
  exact groupPolicy_inj (Namespace.isPath_of_ofValue hname') hpath hgroup

/-- A schema with a name that looks like the end of the list and another policy, with one of a
backslash and a quote, and with one that is half of a pair. -/
def breakingOut : String :=
  "\x7b\"App::v2\": \x7b\"actions\": \x7b" ++
  "\"\\\"\\n], resource); permit (principal, action, resource); //\": 1, \"\\\\\\\"\": 2, " ++
  "\"\\ud800\": 3\x7d\x7d\x7d"

/-- All three names are read back. -/
theorem listing_breakingOut :
    ∃ admin group, forSchema breakingOut = .ok [admin, group] ∧
      readListing group =
        some ⟨⟨"App::v2::UserGroup", points "ENTER_THE_USER_GROUP_HERE"⟩,
          [⟨"App::v2::Action",
              points "\"\n], resource); permit (principal, action, resource); //"⟩,
            ⟨"App::v2::Action", points "\\\""⟩, ⟨"App::v2::Action", [.half 0]⟩],
          points ",\n    resource\n);\n"⟩ := by
  have hread : readActions breakingOut =
      .ok (points "App::v2",
        [points "\"\n], resource); permit (principal, action, resource); //", points "\\\"",
          [.half 0]]) := by
    refine Attempt.eq_ok_of_toOption ?_
    decide +kernel
  have hname : Namespace.ofValue (.text "App::v2") = .ok "App::v2" := by
    refine Attempt.eq_ok_of_toOption ?_
    decide +kernel
  obtain ⟨admin, group, hpolicies, hlisting, -⟩ := listing_of_readActions hread hname
  exact ⟨admin, group, hpolicies, hlisting⟩

end Policy

end ApiAuthz
