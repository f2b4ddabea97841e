/-
What a run of `generate-policies` does to the files. It reads a schema and comes to a list of
policies before it writes anything; then it makes a directory and writes the policies into it
one after another.

A policy with half of a UTF-16 pair in it has no octets: its file is emptied, and the run ends
there. So what policies leave is known from the policies alone (`left`): the files in front of
the first such policy with their texts, an empty file for that one, and what has been shown up
to it. Where the directory can be made and takes the files, the run comes to exactly that
(`writePolicies_eq`). The induction is over the policies, with the files as they are after one
more: the directory is still there and still takes the names that follow, for these are other
names.

Everything that ends the run before it writes leaves the files alone, but not everything is
reported. Octets that are not UTF-8, and integers with more digits than are read, are faults
of their own that the run does not look for (`Unreadable`), and end it as they are. So do
names with a half in them, which are read but not written (`Unwritable`); they are the one
case in which a run that fails has changed something, and what it leaves depends on where the
first half is: in the namespace, which is in both policies, or in an action, which is in the
second alone (`any_isHalf_adminPolicy`, `any_isHalf_groupPolicy`).

So a run ends in one of five ways, and there is a lemma for each: both policies are written
(`written_of_whole`), the first file is emptied (`emptied_of_broken_name`) or the second
(`emptied_of_broken_action`), nothing is written and no report given (`ended_of_unreadable`), or
nothing is written and a report says why (`reported_of_fault`). Which way it is, the octets of
the schema say alone (`namesFor_cases`).
-/
import ApiAuthz.Proofs.CommandLine.Succeeding
import ApiAuthz.Proofs.PathText
import ApiAuthz.Proofs.Policy.Faults

namespace ApiAuthz.CommandLine

open FilePath (IsName holdsNull)
open Text (points whole)
open Text.Utf8 (encode unencodable)

variable {t t' : FileTree} {environment : Option String} {arguments : List String}
  {schema output : String} {content : List UInt8}

-- ==================================================== writing one string

/-- A text is written as such. -/
theorem writePoints_whole {p : FilePath} {ps : List CodePoint}
    (h : ps.any CodePoint.isHalf = false) (hwrite : t.writeText p (whole ps) = .ok t') :
    t.writePoints p ps = (t', none) := by
  have hencoded : Text.Utf8.encodePoints ps = .ok (encode (whole ps)) := by
    rw [Text.Utf8.encodePoints, h]
    rfl
  unfold FileTree.writeText at hwrite
  unfold FileTree.writePoints
  rw [hencoded]
  dsimp only
  rw [hwrite]

/-- A string that is no text leaves an empty file behind. -/
theorem writePoints_broken {p : FilePath} {ps : List CodePoint}
    (h : ps.any CodePoint.isHalf = true) (hwrite : t.writeText p "" = .ok t') :
    t.writePoints p ps = (t', some (.unencodable (unencodable ps))) := by
  have hencoded : Text.Utf8.encodePoints ps = .error (unencodable ps) := by
    rw [Text.Utf8.encodePoints, h]
    rfl
  have hempty : encode "" = [] := by simp [encode]
  unfold FileTree.writeText at hwrite
  rw [hempty] at hwrite
  unfold FileTree.writePoints
  rw [hencoded]
  dsimp only
  rw [hwrite]

-- ==================================================== writing policies

/-- What is shown for a file that has been written. -/
def writtenLine (name : String) : String :=
  "Cedar policy successfully generated in " ++ policiesName ++ "/" ++ name ++ "\n"

theorem append_writtenLine (shown name : String) :
    shown ++ "Cedar policy successfully generated in " ++ policiesName ++ "/" ++ name ++ "\n" =
      shown ++ writtenLine name := by
  unfold writtenLine
  simp only [String.append_assoc]

/-- What policies come to when they are written: the files with their texts, what is shown, and
what is wrong with the last one, if it could not be written. -/
structure Left where
  files : List (String × String)
  shown : String
  diagnosis? : Option String

/-- The end of a run that has come to this. -/
def Left.outcome (l : Left) (t : FileTree) (shown : String) : Outcome :=
  match l.diagnosis? with
  | none => .succeeded t (shown ++ l.shown)
  | some diagnosis => .failed t (shown ++ l.shown) (.unencodable diagnosis)

/-- What has been shown before stands in front. -/
theorem Left.outcome_append (files : List (String × String)) (before : String) (l : Left)
    (t : FileTree) (shown : String) :
    (⟨files, before ++ l.shown, l.diagnosis?⟩ : Left).outcome t shown =
      l.outcome t (shown ++ before) := by
  unfold Left.outcome
  cases l.diagnosis? with
  | none => rw [String.append_assoc]
  | some diagnosis => rw [String.append_assoc]

/-- What policies come to that are numbered from `index` on. -/
def left : Nat → List (List CodePoint) → Left
  | _, [] => ⟨[], "", none⟩
  | index, p :: ps =>
    if p.any CodePoint.isHalf then ⟨[(policyName index, "")], "", some (unencodable p)⟩
    else
      let rest := left (index + 1) ps
      ⟨(policyName index, whole p) :: rest.files, writtenLine (policyName index) ++ rest.shown,
        rest.diagnosis?⟩

/-- A broken policy is the last that is met. -/
theorem left_broken {p : List CodePoint} (h : p.any CodePoint.isHalf = true) (index : Nat)
    (ps : List (List CodePoint)) :
    left index (p :: ps) = ⟨[(policyName index, "")], "", some (unencodable p)⟩ := by
  rw [left, if_pos h]

/-- A whole policy is written, and those behind it follow. -/
theorem left_whole {p : List CodePoint} (h : p.any CodePoint.isHalf = false) (index : Nat)
    (ps : List (List CodePoint)) :
    left index (p :: ps) =
      ⟨(policyName index, whole p) :: (left (index + 1) ps).files,
        writtenLine (policyName index) ++ (left (index + 1) ps).shown,
        (left (index + 1) ps).diagnosis?⟩ := by
  rw [left, if_neg (Bool.eq_false_iff.1 h)]

/-- The files are named for the numbers of their policies. -/
theorem names_left (index : Nat) (ps : List (List CodePoint)) :
    ((left index ps).files.map Prod.fst).Sublist
      ((List.range' index ps.length).map policyName) := by
  induction ps generalizing index with
  | nil => exact List.Sublist.refl _
  | cons p ps ih =>
      rw [List.length_cons, List.range'_succ, List.map_cons]
      cases hp : p.any CodePoint.isHalf with
      | true =>
          rw [left_broken hp]
          exact (List.nil_sublist _).cons_cons _
      | false =>
          rw [left_whole hp]
          exact (ih (index + 1)).cons_cons _

/-- Where the directory is there and takes the files, the run comes to what the policies do. -/
theorem writePolicies_eq {d : FilePath} {index : Nat} {ps : List (List CodePoint)}
    (hnull : holdsNull d.text = false) (hd : t.isDirectory d = true)
    (hnames : ∀ f ∈ (left index ps).files, IsName f.1)
    (hdistinct : (left index ps).files.Pairwise fun f g => g.1 ≠ f.1)
    (htakes : ∀ f ∈ (left index ps).files, t.Takes d f.1) (shown : String) :
    ∃ t', writePolicies d index ps t shown = (left index ps).outcome t' shown ∧
      t.Wrote d (left index ps).files t' := by
  induction ps generalizing index t shown with
  | nil =>
      refine ⟨t, ?_, .nil t d⟩
      show Outcome.succeeded t shown = Outcome.succeeded t (shown ++ "")
      rw [String.append_empty]
  | cons p ps ih =>
      cases hp : p.any CodePoint.isHalf with
      | true =>
          rw [left_broken hp] at hnames htakes ⊢
          rw [List.forall_mem_singleton] at hnames htakes
          obtain ⟨t', hwritten⟩ := (FileTree.exists_writeText_iff hnames hnull hd "").2 htakes
          have hwrite := (FileTree.writeText_eq_ok.1 hwritten).2
          refine ⟨t', ?_, .cons (f := (policyName index, "")) hnames (List.forall_mem_nil _)
            (List.forall_mem_nil _) hwrite (.nil t' d)⟩
          rw [writePolicies, writePoints_broken hp hwritten]
          show Outcome.failed t' shown _ = Outcome.failed t' (shown ++ "") _
          rw [String.append_empty]
      | false =>
          rw [left_whole hp] at hnames hdistinct htakes ⊢
          rw [List.forall_mem_cons] at hnames htakes
          rw [List.pairwise_cons] at hdistinct
          obtain ⟨t₁, hwritten⟩ :=
            (FileTree.exists_writeText_iff hnames.1 hnull hd (whole p)).2 htakes.1
          have hwrite := (FileTree.writeText_eq_ok.1 hwritten).2
          have hd₁ := FileTree.isDirectory_of_keeps (FileTree.keeps_of_write hwrite) hd
          have htakes₁ : ∀ f ∈ (left (index + 1) ps).files, t₁.Takes d f.1 := by
            intro f hf
            have hdirectory := FileTree.isDirectory_child_of_write hnames.1 (hnames.2 f hf)
              (hdistinct.1 f hf) hd hwrite
            exact ⟨(htakes.2 f hf).1, hdirectory.trans (htakes.2 f hf).2⟩
          obtain ⟨t', hrest, hwrote⟩ := ih hd₁ hnames.2 hdistinct.2 htakes₁
            (shown ++ writtenLine (policyName index))
          refine ⟨t', ?_, hwrote.cons hnames.1 hnames.2 hdistinct.1 hwrite⟩
          rw [writePolicies, writePoints_whole hp hwritten]
          dsimp only
          rw [append_writtenLine, hrest, Left.outcome_append]

/-- What a run leaves that has written these files: they are read back, and all else is as
before but for new directories, which stand on the way to the files. -/
structure LeavesFiles (t : FileTree) (d : FilePath) (files : List (String × String))
    (t' : FileTree) : Prop where
  read : ∀ f ∈ files, t'.read (d.child f.1) = .ok (encode f.2)
  kept : ∀ place, t'.entryAt? place = t.entryAt? place ∨
    (t.entryAt? place = none ∧ t'.entryAt? place = some .directory ∧ t'.OnWay d place) ∨
    ∃ f ∈ files, t'.placeOf (d.child f.1) = .ok place

/-- The files of both policies are single parts of a path. -/
theorem isName_policies : ∀ name ∈ ["policy_1.cedar", "policy_2.cedar"], IsName name := by
  intro name hname
  rcases List.mem_cons.1 hname with hfirst | hname
  · rw [hfirst]
    exact ⟨by decide, by decide, by decide⟩
  · rw [List.mem_singleton.1 hname]
    exact ⟨by decide, by decide, by decide⟩

/-- Where the directory can be made and takes the files of two policies, the run comes to what
the two policies do. -/
theorem leavesFiles_of_receives {d : FilePath} (admin group : List CodePoint)
    (h : t.Receives d ["policy_1.cedar", "policy_2.cedar"]) :
    ∃ t₁ t', t.makeDirectories d = (t₁, none) ∧
      writePolicies d 1 [admin, group] t₁ "" = (left 1 [admin, group]).outcome t' "" ∧
      LeavesFiles t d (left 1 [admin, group]).files t' := by
  have hsublist := names_left 1 [admin, group]
  have hnames : (List.range' 1 2).map policyName = ["policy_1.cedar", "policy_2.cedar"] := by
    decide
  rw [List.length_cons, List.length_singleton, hnames] at hsublist
  have hmem : ∀ f ∈ (left 1 [admin, group]).files, f.1 ∈ ["policy_1.cedar", "policy_2.cedar"] :=
    fun f hf => hsublist.subset (List.mem_map_of_mem hf)
  have hdistinct : (left 1 [admin, group]).files.Pairwise fun f g => g.1 ≠ f.1 := by
    have hnodup := hsublist.nodup (by decide)
    exact (List.pairwise_map.1 hnodup).imp Ne.symm
  obtain ⟨hnone, htakes⟩ := (FileTree.receives_iff isName_policies).1 h
  have hmade : t.makeDirectories d = ((t.makeDirectories d).1, none) := Prod.ext rfl hnone
  obtain ⟨t', hwritten, hwrote⟩ := writePolicies_eq (FileTree.makeDirectories_eq_ok.1 hmade).1
    (FileTree.isDirectory_of_makeDirectories hmade)
    (fun f hf => isName_policies f.1 (hmem f hf)) hdistinct
    (fun f hf => htakes f.1 (hmem f hf)) ""
  refine ⟨_, t', hmade, hwritten, hwrote.read, fun place => ?_⟩
  rcases hwrote.kept place with hsame | hplace
  · have hmaking : _ = t.entryAt? place ∨ _ := FileTree.entryAt?_makeDirectories hmade
    rcases hmaking with hbefore | ⟨hnone, hnew, hway⟩
    · exact Or.inl (hsame.trans hbefore)
    · exact Or.inr (Or.inl ⟨hnone, hsame.trans hnew, hway.of_keeps hwrote.keeps⟩)
  · exact Or.inr (Or.inr hplace)

-- ==================================================== texts of a schema

/-- The namespace and the actions that are read from a schema of these octets. -/
def namesFor (content : List UInt8) : Attempt (List CodePoint × List (List CodePoint)) := do
  Policy.readActions (String.ofList (← FileTree.textOf content))

/-- The policies for a schema of these octets. -/
def policiesFor (content : List UInt8) : Attempt (List (List CodePoint)) := do
  Policy.forSchema (String.ofList (← FileTree.textOf content))

/-- Octets that end a run without a report before anything is written: they are not UTF-8, or
the JSON text they stand for has an integer with more digits than are read. -/
def Unreadable (content : List UInt8) : Prop :=
  (∃ diagnosis, Text.Utf8.decode content = .error diagnosis) ∨
    ∃ cs n, FileTree.textOf content = .ok cs ∧ Json.read cs = .error (.tooManyDigits n)

/-- Octets that end a run without a report while it writes: there is half of a pair in the name
of the namespace or of an action. -/
def Unwritable (content : List UInt8) : Prop :=
  ∃ name actions, namesFor content = .ok (name, actions) ∧
    ∃ s ∈ name :: actions, s.any CodePoint.isHalf = true

/-- Where names are read there are the policies for them. -/
theorem policiesFor_of_namesFor {name : List CodePoint} {actions : List (List CodePoint)}
    (h : namesFor content = .ok (name, actions)) :
    policiesFor content = .ok [Policy.adminPolicy name, Policy.groupPolicy name actions] := by
  unfold namesFor at h
  unfold policiesFor
  obtain ⟨cs, hcs, hread⟩ := Attempt.bind_eq_ok.1 h
  rw [hcs]
  exact Policy.forSchema_of_readActions hread

/-- Where octets are UTF-8, only the digits of an integer make them unreadable. -/
theorem unreadable_iff {cs : List Char} (h : FileTree.textOf content = .ok cs) :
    Unreadable content ↔ ∃ n, Json.read cs = .error (.tooManyDigits n) := by
  constructor
  · rintro (⟨diagnosis, hdecode⟩ | ⟨cs', n, htext, htoo⟩)
    · unfold FileTree.textOf at h
      rw [hdecode] at h
      cases h
    · rw [h] at htext
      cases htext
      exact ⟨n, htoo⟩
  · rintro ⟨n, htoo⟩
    exact Or.inr ⟨cs, n, h, htoo⟩

/-- Either the octets are unreadable and that is the fault, or names are read from them, or a
report says why not. -/
theorem namesFor_cases (content : List UInt8) :
    (Unreadable content ∧ ∃ diagnosis, policiesFor content = .error (.undecodable diagnosis) ∨
      policiesFor content = .error (.malformed diagnosis)) ∨
    (¬Unreadable content ∧ ((∃ name actions, namesFor content = .ok (name, actions)) ∨
      ∃ f, Policy.IsReport f ∧ policiesFor content = .error f)) := by
  unfold namesFor policiesFor
  cases htext : FileTree.textOf content with
  | error f =>
      obtain ⟨diagnosis, hdecode, rfl⟩ := FileTree.textOf_eq_error htext
      exact Or.inl ⟨Or.inl ⟨diagnosis, hdecode⟩, diagnosis, Or.inl rfl⟩
  | ok cs =>
      rw [unreadable_iff htext]
      have hcases := Policy.forSchema_cases (String.ofList cs)
      rw [String.toList_ofList] at hcases
      rcases hcases with ⟨n, htoo, hfault⟩ | ⟨hread, ⟨name, actions, hok⟩ | ⟨f, hf, hfault⟩⟩
      · exact Or.inl ⟨⟨n, htoo⟩, _, Or.inr hfault⟩
      · exact Or.inr ⟨fun ⟨n, htoo⟩ => hread n htoo, Or.inl ⟨name, actions, hok⟩⟩
      · exact Or.inr ⟨fun ⟨n, htoo⟩ => hread n htoo, Or.inr ⟨f, hf, hfault⟩⟩

/-- Octets that have names are readable. -/
theorem not_unreadable_of_ok {names : List CodePoint × List (List CodePoint)}
    (h : namesFor content = .ok names) : ¬Unreadable content := by
  have hpolicies := policiesFor_of_namesFor h
  rcases namesFor_cases content with ⟨-, diagnosis, hfault⟩ | ⟨hreadable, -⟩
  · rw [hpolicies] at hfault
    rcases hfault with hfault | hfault <;> cases hfault
  · exact hreadable

variable {name : List CodePoint} {actions : List (List CodePoint)}

/-- Names without halves have two texts for policies, and both are written. -/
theorem left_of_whole (hname : name.any CodePoint.isHalf = false)
    (hactions : ∀ a ∈ actions, a.any CodePoint.isHalf = false) :
    left 1 [Policy.adminPolicy name, Policy.groupPolicy name actions] =
      ⟨[("policy_1.cedar", whole (Policy.adminPolicy name)),
          ("policy_2.cedar", whole (Policy.groupPolicy name actions))],
        writtenLine "policy_1.cedar" ++ writtenLine "policy_2.cedar", none⟩ := by
  have hadmin := (Policy.any_isHalf_adminPolicy name).trans hname
  have hgroup := Policy.any_isHalf_groupPolicy_of_whole hname hactions
  have hfirst : policyName 1 = "policy_1.cedar" := by decide
  have hsecond : policyName (1 + 1) = "policy_2.cedar" := by decide
  rw [left_whole hadmin, left_whole hgroup, hfirst, hsecond]
  rfl

/-- With a half in the namespace the first policy cannot be written. -/
theorem left_of_broken_name (hname : name.any CodePoint.isHalf = true) :
    left 1 [Policy.adminPolicy name, Policy.groupPolicy name actions] =
      ⟨[("policy_1.cedar", "")], "", some (unencodable (Policy.adminPolicy name))⟩ := by
  have hfirst : policyName 1 = "policy_1.cedar" := by decide
  rw [left_broken ((Policy.any_isHalf_adminPolicy name).trans hname), hfirst]

/-- With a half in an action alone the second policy cannot be written. -/
theorem left_of_broken_action (hname : name.any CodePoint.isHalf = false)
    (haction : ∃ a ∈ actions, a.any CodePoint.isHalf = true) :
    left 1 [Policy.adminPolicy name, Policy.groupPolicy name actions] =
      ⟨[("policy_1.cedar", whole (Policy.adminPolicy name)), ("policy_2.cedar", "")],
        writtenLine "policy_1.cedar",
        some (unencodable (Policy.groupPolicy name actions))⟩ := by
  have hadmin := (Policy.any_isHalf_adminPolicy name).trans hname
  have hgroup : (Policy.groupPolicy name actions).any CodePoint.isHalf = true := by
    rw [Policy.any_isHalf_groupPolicy, hname, Bool.false_or]
    exact List.any_eq_true.2 haction
  have hfirst : policyName 1 = "policy_1.cedar" := by decide
  have hsecond : policyName (1 + 1) = "policy_2.cedar" := by decide
  rw [left_whole hadmin, left_broken hgroup, hfirst, hsecond]
  rfl

-- ==================================================== options

/-- Arguments that ask for the policies of a schema, to be written below a directory. -/
inductive AsksPolicies (arguments : List String) (schema output : String) : Prop
  | intro {a : Asked} {g : Given} (asked : asked? arguments = some a)
      (command : a.command = .generatePolicies)
      (options : read Similar.similar policyOptions true a.arguments = .ok g)
      (help : g.has .help = false) (rest : g.rest = [])
      (schemaOption : g.value? .schema = some schema)
      (outputOption : (g.value? .output).getD "." = output)

/-- Whatever the schema and the directory are called, policies can be asked for. -/
theorem asksPolicies (schema output : String) :
    AsksPolicies ["generate-policies", "--schema", schema, "-o", output] schema output :=
  .intro (a := ⟨false, .generatePolicies, ["--schema", schema, "-o", output]⟩)
    (g := ⟨[(.schema, schema), (.output, output)], []⟩) rfl rfl rfl rfl rfl rfl rfl

/-- Only options of the command are checked. -/
theorem mem_of_mem_checkOrder {specs : List OptionSpec} {g : Given} {o : OptionSpec}
    (h : o ∈ checkOrder specs g) : o ∈ specs := by
  rcases List.mem_append.1 h with h | h
  · obtain ⟨name, -, hfound⟩ := List.mem_filterMap.1 h
    exact List.mem_of_find?_eq_some hfound
  · exact (List.mem_filter.1 h).1

/-- A path with a directory below it that receives files is in order as that of a directory:
it holds no null character, and no file is in the way. -/
theorem checkDirectory_of_receives {names : List String} {name : String}
    (h : t.Receives ((FilePath.ofString output).child name) names) (o : OptionSpec) :
    checkDirectory t o output = .ok () := by
  obtain ⟨t₁, hmade, -⟩ := h
  have hroot : ((FilePath.ofString output).child name).Rooted := FilePath.rooted_ofString output
  obtain ⟨hnull, -, hclear⟩ :=
    (FileTree.makeDirectories_made_iff hroot).1 (congrArg Prod.snd hmade)
  have hasked : holdsNull output = false := by
    rw [← Bool.not_eq_true]
    intro hholds
    obtain ⟨part, hpart, hc⟩ := FilePath.exists_part_of_holdsNull hholds
    have htext := FilePath.mem_text_of_mem
      (p := (FilePath.ofString output).child name) (List.mem_append_left _ hpart) hc
    simp only [holdsNull, List.contains_eq_mem, decide_eq_false_iff_not] at hnull
    exact hnull htext
  have hfree : ∀ file, t.entryOfText output ≠ .ok (.file file) := by
    intro file hentry
    obtain ⟨q, hplace, hfile⟩ :=
      FileTree.entryOf_eq_ok.1 (FileTree.entryOf_of_entryOfText hentry)
    have hwalk := (FileTree.placeOf_eq_walk (FileTree.isTooLong_of_placeOf hplace) t).symm.trans
      hplace
    exact ((FileTree.clear_iff_of_walk hwalk).2.1 (FileTree.clear_of_concat hclear)) file hfile
  unfold checkDirectory checkPath
  rw [hasked]
  cases hentry : t.entryOfText output with
  | error f => rfl
  | ok e =>
      cases e with
      | directory => rfl
      | file file => exact absurd hentry (hfree file)

/-- The path of a file that is there is in order as that of a file. -/
theorem checkFile_of_entryOfText (hnull : holdsNull schema = false)
    (h : t.entryOfText schema = .ok (.file content)) (o : OptionSpec) :
    checkFile t o schema = .ok () := by
  unfold checkFile checkPath
  rw [hnull, h]
  rfl

/-- The options that ask for policies are in order, if the schema is there and the directory
receives something. -/
theorem checkAll_policyOptions {g : Given} {names : List String} {name : String}
    (hrest : g.rest = []) (hschema : g.value? .schema = some schema)
    (hnull : holdsNull schema = false) (hfile : t.entryOfText schema = .ok (.file content))
    (houtput : (g.value? .output).getD "." = output)
    (hreceives : t.Receives ((FilePath.ofString output).child name) names) :
    checkAll t policyOptions g = .ok () := by
  have hchecks : ∀ o ∈ checkOrder policyOptions g, check t g o = .ok () := by
    intro o ho
    have hmem := mem_of_mem_checkOrder ho
    simp only [policyOptions, List.mem_cons, List.not_mem_nil, or_false] at hmem
    rcases hmem with rfl | rfl | rfl
    · simp only [check, hschema]
      exact checkFile_of_entryOfText hnull hfile _
    · cases hvalue : g.value? .output with
      | none => simp only [check, hvalue]
      | some v =>
          rw [hvalue, Option.getD_some] at houtput
          simp only [check, hvalue]
          rw [houtput]
          exact checkDirectory_of_receives hreceives _
    · rfl
  unfold checkAll
  rw [forM_eq_ok.2 hchecks]
  show (if g.rest.isEmpty then _ else _) = _
  rw [hrest]
  rfl

-- ==================================================== whole runs

/-- A run that is asked for policies goes on to generate them. -/
theorem AsksPolicies.run_eq (h : AsksPolicies arguments schema output)
    (hnull : holdsNull schema = false) (hfile : t.entryOfText schema = .ok (.file content))
    {names : List String}
    (hreceives : t.Receives ((FilePath.ofString output).child policiesName) names) :
    ∃ g, run t environment arguments = generatePolicies t g ∧
      (g.value? .schema).getD "" = schema ∧ (g.value? .output).getD "." = output := by
  obtain ⟨hasked, hcommand, hoptions, hhelp, hrest, hschema, houtput⟩ := h
  have hchecked := checkAll_policyOptions hrest hschema hnull hfile houtput hreceives
  refine ⟨_, ?_, by rw [hschema, Option.getD_some], houtput⟩
  rw [run_of_asked hasked, hcommand, runCommand]
  simp only [Command.options, hoptions, hhelp, Bool.false_eq_true, if_false, hchecked]

/-- The text of a schema that is there is that of its octets. -/
theorem readText_of_entryOfText (hnull : holdsNull schema = false)
    (hfile : t.entryOfText schema = .ok (.file content)) :
    t.readText (FilePath.ofString schema) = FileTree.textOf content := by
  have hasked := FilePath.holdsNull_ofString hnull
  have hcontent : t.read (FilePath.ofString schema) = .ok content :=
    FileTree.read_eq_ok.2 (FileTree.entryOf_eq_ok.1 (FileTree.entryOf_of_entryOfText hfile))
  exact FileTree.readText_of_read hasked hcontent

variable {g : Given}

/-- A fault that is met before anything is written ends the run. -/
theorem generatePolicies_of_error {f : Fault}
    (hread : t.readText (FilePath.ofString ((g.value? .schema).getD "")) =
      FileTree.textOf content)
    (h : policiesFor content = .error f) :
    generatePolicies t g = ended policyMessage t "" f := by
  unfold policiesFor at h
  unfold generatePolicies
  simp only [hread, h]

/-- Policies are written into a directory that is made. -/
theorem generatePolicies_of_ok {ps : List (List CodePoint)} {t₁ : FileTree}
    (hread : t.readText (FilePath.ofString ((g.value? .schema).getD "")) =
      FileTree.textOf content)
    (h : policiesFor content = .ok ps)
    (hmade : t.makeDirectories
      ((FilePath.ofString ((g.value? .output).getD ".")).child policiesName) = (t₁, none)) :
    generatePolicies t g =
      writePolicies ((FilePath.ofString ((g.value? .output).getD ".")).child policiesName) 1 ps
        t₁ "" := by
  unfold policiesFor at h
  unfold generatePolicies
  simp only [hread, h, hmade]

/-- Where names are read from the schema, the run comes to what the policies for them do. -/
theorem run_of_namesFor {o : Outcome} {name : List CodePoint} {actions : List (List CodePoint)}
    (hrun : o = generatePolicies t g) (houtput : (g.value? .output).getD "." = output)
    (hread : t.readText (FilePath.ofString ((g.value? .schema).getD "")) =
      FileTree.textOf content)
    (hreceives : t.Receives ((FilePath.ofString output).child policiesName)
      ["policy_1.cedar", "policy_2.cedar"])
    (hnames : namesFor content = .ok (name, actions)) :
    ∃ t', o = (left 1 [Policy.adminPolicy name, Policy.groupPolicy name actions]).outcome t' "" ∧
      LeavesFiles t ((FilePath.ofString output).child policiesName)
        (left 1 [Policy.adminPolicy name, Policy.groupPolicy name actions]).files t' := by
  obtain ⟨t₁, t', hmade, hwritten, hfiles⟩ := leavesFiles_of_receives
    (Policy.adminPolicy name) (Policy.groupPolicy name actions) hreceives
  rw [← houtput] at hmade hwritten
  have hgenerated := generatePolicies_of_ok hread (policiesFor_of_namesFor hnames) hmade
  exact ⟨t', (hrun.trans hgenerated).trans hwritten, hfiles⟩

variable {o : Outcome} {d : FilePath}

/-- Where no name has a half, the run writes both policies. -/
theorem written_of_whole (hname : name.any CodePoint.isHalf = false)
    (hactions : ∀ a ∈ actions, a.any CodePoint.isHalf = false)
    (ho : o = (left 1 [Policy.adminPolicy name, Policy.groupPolicy name actions]).outcome t' "")
    (hfiles : LeavesFiles t d
      (left 1 [Policy.adminPolicy name, Policy.groupPolicy name actions]).files t') :
    ∃ admin group,
      [Policy.adminPolicy name, Policy.groupPolicy name actions] =
        [points admin, points group] ∧
      o.exitCode = 0 ∧ o.uncaught = none ∧
      LeavesFiles t d [("policy_1.cedar", admin), ("policy_2.cedar", group)] o.files := by
  have hadmin := (Policy.any_isHalf_adminPolicy name).trans hname
  have hgroup := Policy.any_isHalf_groupPolicy_of_whole hname hactions
  rw [left_of_whole hname hactions] at ho hfiles
  rw [ho]
  refine ⟨whole (Policy.adminPolicy name), whole (Policy.groupPolicy name actions), ?_, rfl, rfl,
    hfiles⟩
  rw [Text.points_whole hadmin, Text.points_whole hgroup]

/-- Where the namespace has a half, the run leaves an empty first file. -/
theorem emptied_of_broken_name (hname : name.any CodePoint.isHalf = true)
    (ho : o = (left 1 [Policy.adminPolicy name, Policy.groupPolicy name actions]).outcome t' "")
    (hfiles : LeavesFiles t d
      (left 1 [Policy.adminPolicy name, Policy.groupPolicy name actions]).files t') :
    o.exitCode = 1 ∧ o.output = "" ∧
      (∃ diagnosis, o.uncaught = some (.unencodable diagnosis)) ∧
      LeavesFiles t d [("policy_1.cedar", "")] o.files := by
  rw [left_of_broken_name hname] at ho hfiles
  rw [ho]
  exact ⟨rfl, rfl, ⟨_, rfl⟩, hfiles⟩

/-- Where an action alone has a half, the run leaves the first policy and an empty second
file. -/
theorem emptied_of_broken_action (hname : name.any CodePoint.isHalf = false)
    (haction : ∃ a ∈ actions, a.any CodePoint.isHalf = true)
    (ho : o = (left 1 [Policy.adminPolicy name, Policy.groupPolicy name actions]).outcome t' "")
    (hfiles : LeavesFiles t d
      (left 1 [Policy.adminPolicy name, Policy.groupPolicy name actions]).files t') :
    o.exitCode = 1 ∧ o.output = writtenLine "policy_1.cedar" ∧
      (∃ diagnosis, o.uncaught = some (.unencodable diagnosis)) ∧
      ∃ admin, Policy.adminPolicy name = points admin ∧
        LeavesFiles t d [("policy_1.cedar", admin), ("policy_2.cedar", "")] o.files := by
  have hadmin := (Policy.any_isHalf_adminPolicy name).trans hname
  rw [left_of_broken_action hname haction] at ho hfiles
  rw [ho]
  exact ⟨rfl, String.empty_append, ⟨_, rfl⟩, _, (Text.points_whole hadmin).symm, hfiles⟩

/-- Unreadable octets end the run as they are, and nothing is written. -/
theorem ended_of_unreadable (hrun : o = generatePolicies t g)
    (hread : t.readText (FilePath.ofString ((g.value? .schema).getD "")) =
      FileTree.textOf content)
    (h : Unreadable content) :
    o.exitCode = 1 ∧ o.output = "" ∧ o.uncaught ≠ none ∧ o.files = t := by
  rcases namesFor_cases content with ⟨-, diagnosis, hfault⟩ | ⟨hreadable, -⟩
  · obtain ⟨f, ho⟩ : ∃ f, o = .failed t "" f := by
      rcases hfault with hfault | hfault
      · exact ⟨_, hrun.trans (generatePolicies_of_error hread hfault)⟩
      · exact ⟨_, hrun.trans (generatePolicies_of_error hread hfault)⟩
    rw [ho]
    exact ⟨rfl, rfl, Option.some_ne_none f, rfl⟩
  · exact absurd h hreadable

/-- A fault that has a report is reported, and nothing is written. -/
theorem reported_of_fault {f : Fault} (hrun : o = generatePolicies t g)
    (hread : t.readText (FilePath.ofString ((g.value? .schema).getD "")) =
      FileTree.textOf content)
    (h : Policy.IsReport f) (hfault : policiesFor content = .error f) :
    ∃ cause, policiesFor content = .error (.reported cause) ∧ o.exitCode = 1 ∧
      o.uncaught = none ∧ o.output = line ("Error: " ++ cause.report.text) ∧ o.files = t := by
  obtain ⟨cause, rfl, hshown⟩ := h
  have hreported : o = .reported t "" cause.report.text := by
    rw [hrun, generatePolicies_of_error hread hfault, ended, policyMessage, Report.shownText,
      if_pos hshown]
  rw [hreported]
  exact ⟨cause, hfault, rfl, rfl, String.empty_append, rfl⟩

/-- A run of `generate-policies` on a schema that is there, with a directory that receives the
policies: unless the octets of the schema are unreadable or unwritable, it writes its two
policies and nothing else, or reports why it has none and changes nothing. Unreadable octets
are not reported, and change nothing either. Names with a half of a pair are not reported, and
leave what was written before the half was met: an empty first file where the half is in the
namespace, else the first policy and an empty second file. -/
theorem policies_of_run (hasks : AsksPolicies arguments schema output)
    (hnull : holdsNull schema = false) (hfile : t.entryOfText schema = .ok (.file content))
    (hreceives : t.Receives ((FilePath.ofString output).child policiesName)
      ["policy_1.cedar", "policy_2.cedar"]) :
    let o := run t environment arguments
    let directory := (FilePath.ofString output).child policiesName
    (¬Unreadable content → ¬Unwritable content →
      (∃ admin group, policiesFor content = .ok [points admin, points group] ∧ o.exitCode = 0 ∧
        o.uncaught = none ∧
        LeavesFiles t directory [("policy_1.cedar", admin), ("policy_2.cedar", group)]
          o.files) ∨
      ∃ cause, policiesFor content = .error (.reported cause) ∧ o.exitCode = 1 ∧
        o.uncaught = none ∧ o.output = line ("Error: " ++ cause.report.text) ∧ o.files = t) ∧
    (Unreadable content → o.exitCode = 1 ∧ o.output = "" ∧ o.uncaught ≠ none ∧ o.files = t) ∧
    ∀ name actions, namesFor content = .ok (name, actions) →
      (name.any CodePoint.isHalf = true →
        o.exitCode = 1 ∧ o.output = "" ∧
        (∃ diagnosis, o.uncaught = some (.unencodable diagnosis)) ∧
        LeavesFiles t directory [("policy_1.cedar", "")] o.files) ∧
      (name.any CodePoint.isHalf = false → (∃ a ∈ actions, a.any CodePoint.isHalf = true) →
        o.exitCode = 1 ∧ o.output = writtenLine "policy_1.cedar" ∧
        (∃ diagnosis, o.uncaught = some (.unencodable diagnosis)) ∧
        ∃ admin, Policy.adminPolicy name = points admin ∧
          LeavesFiles t directory [("policy_1.cedar", admin), ("policy_2.cedar", "")]
            o.files) := by
  intro o directory
  obtain ⟨g, hrun, hschema, houtput⟩ : ∃ g, o = generatePolicies t g ∧
      (g.value? .schema).getD "" = schema ∧ (g.value? .output).getD "." = output :=
    hasks.run_eq hnull hfile hreceives
  have hread := readText_of_entryOfText hnull hfile
  rw [← hschema] at hread
  refine ⟨fun hreadable hwritable => ?_, ended_of_unreadable hrun hread,
    fun name actions hnames => ?_⟩
  · rcases namesFor_cases content with ⟨hunreadable, -⟩ |
      ⟨-, ⟨name, actions, hnames⟩ | ⟨f, hreport, hfault⟩⟩
    · exact absurd hunreadable hreadable
    · have hwhole : ∀ s ∈ name :: actions, s.any CodePoint.isHalf = false := fun s hs =>
        Bool.eq_false_iff.2 fun hhalf => hwritable ⟨name, actions, hnames, s, hs, hhalf⟩
      obtain ⟨hname, hactions⟩ := List.forall_mem_cons.1 hwhole
      obtain ⟨t', ho, hfiles⟩ := run_of_namesFor hrun houtput hread hreceives hnames
      rw [policiesFor_of_namesFor hnames]
      obtain ⟨admin, group, hpolicies, hended⟩ := written_of_whole hname hactions ho hfiles
      exact Or.inl ⟨admin, group, congrArg Except.ok hpolicies, hended⟩
    · exact Or.inr (reported_of_fault hrun hread hreport hfault)
  · obtain ⟨t', ho, hfiles⟩ := run_of_namesFor hrun houtput hread hreceives hnames
    exact ⟨fun hname => emptied_of_broken_name hname ho hfiles,
      fun hname haction => emptied_of_broken_action hname haction ho hfiles⟩

/-- A schema with one action, named by JSON text. -/
def schemaNaming (action : String) : List UInt8 :=
  encode ("\x7b\"NS\": \x7b\"actions\": \x7b" ++ action ++ ": 1\x7d\x7d\x7d")

/-- The schema, and a policy file that stands where one is to be written. -/
def schemaTree (action : String) : FileTree :=
  ⟨[(["s.json"], .file (schemaNaming action)), (["out"], .directory),
    (["out", "policies"], .directory), (["out", "policies", "policy_2.cedar"], .file [])]⟩

/-- The schema is found there. -/
theorem entryOfText_schemaTree (action : String) :
    (schemaTree action).entryOfText "./s.json" = .ok (.file (schemaNaming action)) := rfl

/-- Both policies can be written there. -/
theorem receives_schemaTree (action : String) :
    (schemaTree action).Receives ((FilePath.ofString "out/").child policiesName)
      ["policy_1.cedar", "policy_2.cedar"] := by
  refine (FileTree.receives_iff isName_policies).2 ⟨rfl, fun name hname => ?_⟩
  rcases List.mem_cons.1 hname with hfirst | hname
  · rw [hfirst]
    exact ⟨rfl, rfl⟩
  · rw [List.mem_singleton.1 hname]
    exact ⟨rfl, rfl⟩

/-- The arguments that ask for policies, with paths that have parts to be dropped. -/
def policyArguments : List String := ["generate-policies", "--schema", "./s.json", "-o", "out/"]

/-- The policy file is overwritten; it is left empty where the action is named by half of a
pair. -/
theorem policies_of_run_below :
    ((run (schemaTree "\"a\"") none policyArguments).exitCode = 0 ∧
      (run (schemaTree "\"a\"") none policyArguments).uncaught = none ∧
      LeavesFiles (schemaTree "\"a\"") ((FilePath.ofString "out/").child policiesName)
        [("policy_1.cedar", whole (Policy.adminPolicy (points "NS"))),
          ("policy_2.cedar", whole (Policy.groupPolicy (points "NS") [points "a"]))]
        (run (schemaTree "\"a\"") none policyArguments).files) ∧
    (run (schemaTree "\"\\ud800\"") none policyArguments).exitCode = 1 ∧
      (∃ diagnosis, (run (schemaTree "\"\\ud800\"") none policyArguments).uncaught =
        some (.unencodable diagnosis)) ∧
      LeavesFiles (schemaTree "\"\\ud800\"") ((FilePath.ofString "out/").child policiesName)
        [("policy_1.cedar", whole (Policy.adminPolicy (points "NS"))), ("policy_2.cedar", "")]
        (run (schemaTree "\"\\ud800\"") none policyArguments).files := by
  have hasks := asksPolicies "./s.json" "out/"
  constructor
  · have hnames : namesFor (schemaNaming "\"a\"") = .ok (points "NS", [points "a"]) :=
      Attempt.eq_ok_of_toOption (by decide +kernel)
    have hwritable : ¬Unwritable (schemaNaming "\"a\"") := by
      rintro ⟨name, actions, hread, hhalf⟩
      rw [hnames] at hread
      cases hread
      revert hhalf
      decide
    have hrun := @policies_of_run _ none _ _ _ _ hasks (by decide)
      (entryOfText_schemaTree "\"a\"") (receives_schemaTree "\"a\"")
    rcases hrun.1 (not_unreadable_of_ok hnames) hwritable with ⟨admin, group, hok, hended⟩ |
      ⟨cause, hfault, -⟩
    · rw [policiesFor_of_namesFor hnames] at hok
      simp only [Except.ok.injEq, List.cons.injEq, and_true] at hok
      obtain ⟨hadmin, hgroup⟩ := hok
      rw [hadmin, hgroup, Text.whole_points, Text.whole_points]
      exact hended
    · rw [policiesFor_of_namesFor hnames] at hfault
      cases hfault
  · have hnames : namesFor (schemaNaming "\"\\ud800\"") = .ok (points "NS", [[.half 0]]) :=
      Attempt.eq_ok_of_toOption (by decide +kernel)
    have hrun := @policies_of_run _ none _ _ _ _ hasks (by decide)
      (entryOfText_schemaTree "\"\\ud800\"") (receives_schemaTree "\"\\ud800\"")
    obtain ⟨hcode, -, huncaught, admin, hadmin, hfiles⟩ := (hrun.2.2 _ _ hnames).2 (by decide)
      ⟨[.half 0], List.mem_singleton_self _, rfl⟩
    rw [hadmin, Text.whole_points]
    exact ⟨hcode, huncaught, hfiles⟩

/-- A schema that is not UTF-8. -/
def undecodableTree : FileTree := ⟨[(["s.json"], .file [0xff])]⟩

/-- Not every run that could write its policies reports what kept it from that. -/
theorem undecodable_not_reported : ¬∀ (t : FileTree) (environment : Option String)
    (arguments : List String) (schema output : String) (content : List UInt8),
    AsksPolicies arguments schema output → holdsNull schema = false →
    t.entryOfText schema = .ok (.file content) →
    t.Receives ((FilePath.ofString output).child policiesName)
      ["policy_1.cedar", "policy_2.cedar"] →
    (run t environment arguments).uncaught = none := by
  intro hclaim
  have hreceives : undecodableTree.Receives ((FilePath.ofString ".").child policiesName)
      ["policy_1.cedar", "policy_2.cedar"] :=
    (FileTree.receives_iff isName_policies).2 ⟨by decide +kernel, by decide +kernel⟩
  have huncaught := hclaim undecodableTree none _ "s.json" "." [0xff]
    (asksPolicies "s.json" ".") (by decide) (by decide +kernel) hreceives
  revert huncaught
  decide +kernel

end ApiAuthz.CommandLine
