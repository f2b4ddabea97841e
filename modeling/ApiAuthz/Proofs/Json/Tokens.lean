/-
The tokens of a JSON text. A text is scanned part by part, each with what comes behind it in
place, since a word takes the blanks behind it along up to the first tab. `Phrase.outcome` says
what becomes of a scan at a phrase: it goes on behind the phrase with the tokens of the phrase,
or it fails, and it fails where a tab is blank or a document mark is in a string (`scanned`).
`tokens_of_scanned` is the result for a text, and where that does not hold there is no end of
the text among its tokens (`streamEnd_not_mem_of_not_scanned`).

# Before and behind

The blanks between two parts are shared out by the scanner in a way that depends on the parts.
A bracket or a string leaves them all, a word takes those in front of the first tab. So a part
starts with a scan in front of its text, spacing aside (`Before`), and ends with one behind it
where some blanks may be gone but a tab is there if one was (`Behind`). The step from one to
the other is the blank itself: it is skipped, or a tab is in it and the scan fails
(`outcome_blank`, `Behind.outcome`).

# Both directions at once

An `Outcome` of a condition says that the scan goes on as told if the condition holds and fails
otherwise. Outcomes are put behind one another with their conditions joined, so a single
induction over the phrase gives both what is scanned of a good text and that a bad one is not
scanned to its end. The condition of a phrase is the sum of those of its parts, which is how
the rule `scanned` is obeyed (`Phrase.outcome`, `Items.outcome`, `Fields.outcome`).

Names go through `Name.outcome`. A name is a key where the scanner allows one, which is behind a
brace or a comma, and if its colon stands on the same line and not too far behind it. A name
whose colon does not is scanned all the same, only without a key in front of it
(`Name.tokens`), so it is no matter of the scan but of the nodes.
-/
import ApiAuthz.Proofs.Json.LineEnds
import ApiAuthz.Proofs.Yaml.Brackets

namespace ApiAuthz.Json

open Text (unifyLineEnds)
open Yaml (Token IsSpacing Scan)
open Yaml.Scan (Leads Fails Outcome Within nameTokens stringToken)
open Yaml.QuotedScalar (Marked)

-- ==================================================== tokens

/-- The tokens of a name and its colon. -/
def Name.tokens (n : Name) : List Token :=
  nameTokens n.letters (quoted n.letters ++ unifyLineEnds n.after.chars)

mutual

/-- The tokens of a value. -/
def Phrase.tokens : Phrase → List Token
  | .null => [.scalar (Text.points "null") true]
  | .bool b => [.scalar (Text.points (if b then "true" else "false")) true]
  | .number n => [.scalar (n.text.map .char) true]
  | .string s => [stringToken s]
  | .emptyList _ => [.flowSequence, .flowSequenceEnd]
  | .list items => .flowSequence :: (items.tokens ++ [.flowSequenceEnd])
  | .emptyObject _ => [.flowMapping, .flowMappingEnd]
  | .object fields => .flowMapping :: (fields.tokens ++ [.flowMappingEnd])

/-- The tokens of items, with commas. -/
def Items.tokens : Items → List Token
  | .last _ item _ => item.tokens
  | .more _ item _ rest => item.tokens ++ .flowEntry :: rest.tokens

/-- The tokens of members, with commas. -/
def Fields.tokens : Fields → List Token
  | .last name _ item _ => name.tokens ++ item.tokens
  | .more name _ item _ rest => name.tokens ++ (item.tokens ++ .flowEntry :: rest.tokens)

end

/-- What the scan asks of a text: no blank is a tab, and in no string a document mark starts
a line. -/
def scanned : Rule where
  blank := fun b => '\t' ∉ b.chars
  number := fun _ => True
  string := fun s => ¬Marked (raws s)
  name := fun n => '\t' ∉ n.before.chars ∧ ¬Marked (raws n.letters) ∧ '\t' ∉ n.after.chars

-- ==================================================== blanks

/-- Blanks whose line ends are line feeds. -/
def Unified (ws : List Char) : Prop := ∀ w ∈ ws, w = ' ' ∨ w = '\t' ∨ w = '\n'

/-- A blank without tabs is skipped between tokens. -/
theorem Unified.isSpacing {ws : List Char} (h : Unified ws) (htab : '\t' ∉ ws) : IsSpacing ws := by
  intro w hw
  rcases h w hw with rfl | rfl | rfl
  · exact Or.inl rfl
  · exact absurd hw htab
  · exact Or.inr rfl

/-- Blanks are spacing up to their first tab. -/
theorem Unified.split {ws : List Char} (h : Unified ws) :
    IsSpacing ws ∨ ∃ run more, ws = run ++ '\t' :: more ∧ IsSpacing run ∧ Unified more := by
  by_cases htab : '\t' ∈ ws
  · obtain ⟨run, more, rfl, hnone⟩ := List.eq_append_cons_of_mem htab
    refine Or.inr ⟨run, more, rfl, ?_, fun w hw => h w ?_⟩
    · exact Unified.isSpacing (fun w hw => h w (List.mem_append_left _ hw)) hnone
    · exact List.mem_append_right _ (List.mem_cons_of_mem _ hw)
  · exact Or.inl (h.isSpacing htab)

theorem Blank.unified (b : Blank) : Unified (unifyLineEnds b.chars) := b.mem_unifyLineEnds

theorem Unified.tail_of_tab {run more : List Char} (h : Unified (run ++ '\t' :: more)) :
    Unified ('\t' :: more) := fun w hw => h w (List.mem_append_right _ hw)

/-- There is no tab in what is skipped. -/
theorem tab_not_mem_of_isSpacing {run : List Char} (h : IsSpacing run) : '\t' ∉ run := by
  intro htab
  rcases h _ htab with heq | heq <;> cases heq

-- ==================================================== words

section Words

open Yaml.PlainScalar (isPlain)
open Yaml.Scan (StartsWord)

/-- What null, truth values and numbers are written as. -/
structure IsWord (w : List Char) : Prop where
  starts : StartsWord w
  plain : ∀ ch ∈ w, isPlain ch = true

/-- The word for nothing. -/
theorem isWord_null : IsWord "null".toList :=
  ⟨.plain (by decide) (by decide) (by decide), forall_mem_of_all (by decide)⟩

/-- The words for truth values. -/
theorem isWord_bool (b : Bool) : IsWord (if b then "true" else "false").toList := by
  cases b
  · exact ⟨.plain (by decide) (by decide) (by decide), forall_mem_of_all (by decide)⟩
  · exact ⟨.plain (by decide) (by decide) (by decide), forall_mem_of_all (by decide)⟩

/-- A number is a word. -/
theorem Number.isWord (n : Number) : IsWord n.text := by
  constructor
  · rcases n.text_eq_cons with ⟨c, cs, heq, hc⟩ | ⟨d, ds, heq, hd⟩
    · have hdigit : Scan.isIndicator c = false ∧ c ≠ '.' ∧ c ≠ '\ufeff' := by
        have hall : ∀ c ∈ digitChars,
            Scan.isIndicator c = false ∧ c ≠ '.' ∧ c ≠ '\ufeff' := forall_mem_of_all (by decide)
        exact hall c (mem_of_isDigit hc)
      rw [heq]
      exact .plain hdigit.1 hdigit.2.1 hdigit.2.2
    · rw [heq]
      refine .hyphen ?_
      rintro rfl
      cases hd
  · intro ch hch
    have hall : ∀ c ∈ numberChars, isPlain c = true := forall_mem_of_all (by decide)
    exact hall ch (n.mem_text hch)

end Words

-- ==================================================== scanning parts

variable {s : Scan} {d : Nat} {ts : List Token} {pre post rest : List Char}

/-- A blank is skipped if no tab is in it; a tab is a flaw. -/
theorem outcome_blank (h : Within s d ts) (hc : s.place.rest = pre ++ rest) (hpre : Unified pre) :
    Outcome ('\t' ∉ pre) s fun s' => s' = s ∧ IsSpacing pre :=
  ⟨fun hnone => ⟨s, Leads.refl s, rfl, hpre.isSpacing hnone⟩,
    fun htab => Yaml.Scan.fails_tab h hc hpre (not_not.1 htab)⟩

/-- A scan in front of the rest, spacing aside. -/
structure Before (s : Scan) (d : Nat) (ts : List Token) (rest : List Char) : Prop where
  within : Within s d ts
  exists_spacing : ∃ run, s.place.rest = run ++ rest ∧ IsSpacing run

/-- A scan behind an item: of the blanks there, those in front of the first tab may be gone. -/
structure Behind (s : Scan) (d : Nat) (ts : List Token) (post rest : List Char) : Prop where
  within : Within s d ts
  exists_blank : ∃ left, s.place.rest = left ++ rest ∧ Unified left ∧ ('\t' ∈ left ↔ '\t' ∈ post)

theorem Within.behind (h : Within s d ts) (hc : s.place.rest = post ++ rest)
    (hpost : Unified post) :
    Behind s d ts post rest := ⟨h, post, hc, hpost, Iff.rfl⟩

/-- So is the blank behind a value. -/
theorem Behind.outcome (h : Behind s d ts post rest) :
    Outcome ('\t' ∉ post) s fun s' => Before s' d ts rest := by
  obtain ⟨left, hc, hleft, htab⟩ := h.exists_blank
  refine ((outcome_blank h.within hc hleft).imp ?_).congr (not_congr htab.symm)
  rintro _ ⟨rfl, hspacing⟩
  exact ⟨h.within, left, hc, hspacing⟩

/-- A comma is one token, and a name may follow. -/
theorem Before.leads_comma (h : Before s d ts (',' :: rest)) :
    ∃ s', Leads s s' ∧ Within s' d (ts ++ [.flowEntry]) ∧ s'.place.rest = rest ∧
      s'.keyAllowed = true := by
  obtain ⟨run, hc, hspacing⟩ := h.exists_spacing
  exact Yaml.Scan.leads_comma h.within hc hspacing

open Yaml.PlainScalar (EndsPlain)

/-- A word takes the blanks behind it along, up to the first tab. -/
theorem leads_item {w : List Char} (h : Within s d ts) (hd : d ≠ 0)
    (hc : s.place.rest = pre ++ (w ++ (post ++ rest))) (hpre : IsSpacing pre) (hw : IsWord w)
    (hpost : Unified post) (hrest : EndsPlain rest) :
    ∃ s', Leads s s' ∧ Behind s' d (ts ++ [.scalar (w.map .char) true]) post rest := by
  rcases hpost.split with hspacing | ⟨run, more, rfl, hrun, hmore⟩
  · obtain ⟨s', hleads, hs', hrest'⟩ :=
      Yaml.Scan.leads_word h hd hc hpre hw.starts hw.plain hspacing hrest
    refine ⟨s', hleads, hs', [], hrest', List.forall_mem_nil _, ?_⟩
    exact iff_of_false List.not_mem_nil (tab_not_mem_of_isSpacing hspacing)
  · rw [List.append_assoc, List.cons_append] at hc
    have hends : EndsPlain ('\t' :: (more ++ rest)) := by
      rintro _ ⟨⟩
      exact Or.inl rfl
    obtain ⟨s', hleads, hs', hrest'⟩ :=
      Yaml.Scan.leads_word h hd hc hpre hw.starts hw.plain hrun hends
    refine ⟨s', hleads, hs', '\t' :: more, hrest', hpost.tail_of_tab, ?_⟩
    exact iff_of_true (List.mem_cons_self ..) (List.mem_append_right _ (List.mem_cons_self ..))

/-- A word between blanks is one token. -/
theorem outcome_word {w : List Char} (h : Within s d ts) (hd : d ≠ 0)
    (hc : s.place.rest = pre ++ (w ++ (post ++ rest))) (hpre : Unified pre) (hw : IsWord w)
    (hpost : Unified post) (hrest : EndsPlain rest) :
    Outcome ('\t' ∉ pre ∧ True) s fun s' =>
      Behind s' d (ts ++ [.scalar (w.map .char) true]) post rest := by
  refine (outcome_blank h hc hpre).bind ?_
  rintro _ ⟨rfl, hspacing⟩
  exact Outcome.of_leads (leads_item h hd hc hspacing hw hpost hrest)

/-- A blank alone brings no token. -/
theorem Blank.outcome {b : Blank} (h : Within s d ts)
    (hc : s.place.rest = unifyLineEnds b.chars ++ rest) :
    Outcome (scanned.blank b) s fun s' => Before s' d (ts ++ []) rest := by
  rw [List.append_nil]
  exact (Within.behind h hc b.unified).outcome.congr (not_congr tab_mem_unifyLineEnds.symm)

/-- What is in brackets is scanned a level deeper. -/
theorem outcome_brackets {ch ch' : Char} {t t' : Token} {inside : List Char} {inner : List Token}
    {P : Prop} (h : Within s d ts) (ho : Yaml.Scan.Opens ch t) (ho' : Yaml.Scan.Closes ch' t')
    (hc : s.place.rest = pre ++ (ch :: (inside ++ [ch']) ++ (post ++ rest))) (hpre : Unified pre)
    (hpost : Unified post)
    (hinside : ∀ {s' : Scan}, Within s' (d + 1) (ts ++ [t]) → s'.keyAllowed = true →
      s'.place.rest = inside ++ ch' :: (post ++ rest) →
        Outcome P s' fun s'' => Before s'' (d + 1) (ts ++ [t] ++ inner) (ch' :: (post ++ rest))) :
    Outcome ('\t' ∉ pre ∧ P) s fun s' => Behind s' d (ts ++ t :: (inner ++ [t'])) post rest := by
  refine (outcome_blank h hc hpre).bind ?_
  rintro _ ⟨rfl, hspacing⟩
  rw [List.cons_append, List.append_assoc, List.singleton_append] at hc
  refine Outcome.of_bind (Yaml.Scan.leads_open h ho hc hspacing) ?_
  rintro s' ⟨hs', hrest', hkey⟩
  refine ((hinside hs' hkey hrest').bind ?_).congr (and_true _).symm.to_iff
  rintro s'' ⟨hs'', run, hrun, hspacing'⟩
  obtain ⟨e, hleads, he, hend⟩ := Yaml.Scan.leads_close hs'' ho' hrun hspacing'
  have hbehind : Behind e d (ts ++ t :: (inner ++ [t'])) post rest := by
    refine Within.behind ?_ hend hpost
    simpa only [List.append_assoc, List.singleton_append, List.cons_append, List.nil_append]
      using he
  exact Outcome.of_leads ⟨e, hleads, hbehind⟩

/-- A name up to its colon. -/
theorem Name.outcome {n : Name} (h : Within s d ts) (hd : d ≠ 0) (hkey : s.keyAllowed = true)
    (hc : s.place.rest = n.spelled unifyLineEnds ++ rest) :
    Outcome (scanned.name n) s fun s' => Within s' d (ts ++ n.tokens) ∧ s'.place.rest = rest := by
  unfold Name.spelled at hc
  rw [List.append_assoc, List.append_assoc, List.append_assoc, List.singleton_append] at hc
  refine ((outcome_blank h hc n.before.unified).bind ?_).congr
    (and_congr_left' (not_congr tab_mem_unifyLineEnds.symm))
  rintro _ ⟨rfl, hspacing⟩
  refine (Yaml.Scan.outcome_string h hc hspacing).bind ?_
  rintro s' ⟨hs', hrest', hbehind⟩
  refine ((outcome_blank hs' hrest' n.after.unified).bind fun s'' hs'' => ?_).congr
    ((not_congr tab_mem_unifyLineEnds.symm).trans (and_true _).symm.to_iff)
  obtain ⟨rfl, hspacing'⟩ := hs''
  exact Outcome.of_leads (Yaml.Scan.leads_colon hs' hd (hbehind hd hkey) hrest' hspacing'
    (return_not_mem_quoted _))

/-- A word ends at each sign of the grammar. -/
theorem endsPlain_of_sign {ch : Char} (h : Yaml.PlainScalar.isFlowSign ch = true) :
    EndsPlain (ch :: rest) := by
  rintro _ ⟨⟩
  exact Or.inr h

mutual

/-- A phrase in brackets, or an object. -/
theorem Phrase.outcome {s : Scan} {d : Nat} {ts : List Token} {pre post rest : List Char} :
    (p : Phrase) → Within s d ts → d ≠ 0 ∨ p.value.isMap = true →
      s.place.rest = pre ++ (p.spelled unifyLineEnds ++ (post ++ rest)) →
      Unified pre → Unified post → EndsPlain rest →
      Outcome ('\t' ∉ pre ∧ p.Obeys scanned) s fun s' => Behind s' d (ts ++ p.tokens) post rest
  | .null, h, hd, hc, hpre, hpost, hrest =>
    outcome_word h (hd.resolve_right (by nofun)) hc hpre isWord_null hpost hrest
  | .bool b, h, hd, hc, hpre, hpost, hrest =>
    outcome_word h (hd.resolve_right (by nofun)) hc hpre (isWord_bool b) hpost hrest
  | .number n, h, hd, hc, hpre, hpost, hrest =>
    outcome_word h (hd.resolve_right (by nofun)) hc hpre n.isWord hpost hrest
  | .string l, h, _, hc, hpre, hpost, _ => by
    refine (outcome_blank h hc hpre).bind ?_
    rintro _ ⟨rfl, hspacing⟩
    refine (Yaml.Scan.outcome_string h hc hspacing).imp ?_
    rintro s' ⟨hs', hrest', _⟩
    exact Within.behind hs' hrest' hpost
  | .emptyList inside, h, _, hc, hpre, hpost, _ =>
    outcome_brackets h .sequence .sequence hc hpre hpost fun hs' _ hc' =>
      inside.outcome hs' hc'
  | .list items, h, _, hc, hpre, hpost, _ =>
    outcome_brackets h .sequence .sequence hc hpre hpost fun hs' _ hc' =>
      items.outcome hs' (Nat.succ_ne_zero d) hc'
  | .emptyObject inside, h, _, hc, hpre, hpost, _ =>
    outcome_brackets h .mapping .mapping hc hpre hpost fun hs' _ hc' =>
      inside.outcome hs' hc'
  | .object fields, h, _, hc, hpre, hpost, _ =>
    outcome_brackets h .mapping .mapping hc hpre hpost fun hs' hkey hc' =>
      fields.outcome hs' (Nat.succ_ne_zero d) hkey hc'

/-- Items up to their bracket are scanned as their tokens. -/
theorem Items.outcome {s : Scan} {d : Nat} {ts : List Token} {rest : List Char} :
    (items : Items) → Within s d ts → d ≠ 0 →
      s.place.rest = items.spelled unifyLineEnds ++ ']' :: rest →
      Outcome (items.Obeys scanned) s fun s' => Before s' d (ts ++ items.tokens) (']' :: rest)
  | .last before item after, h, hd, hc => by
    unfold Items.spelled at hc
    rw [List.append_assoc, List.append_assoc] at hc
    refine ((item.outcome h (Or.inl hd) hc before.unified after.unified
      (endsPlain_of_sign rfl)).bind fun s' hs' => hs'.outcome).congr ?_
    simp only [Items.Obeys, scanned, tab_mem_unifyLineEnds, and_assoc]
  | .more before item after more, h, hd, hc => by
    unfold Items.spelled at hc
    rw [List.append_assoc, List.append_assoc, List.append_assoc, List.cons_append] at hc
    have hmore (e : Scan) (he : Before e d (ts ++ item.tokens)
        (',' :: (more.spelled unifyLineEnds ++ ']' :: rest))) :
        Outcome (more.Obeys scanned) e fun e' =>
          Before e' d (ts ++ (item.tokens ++ .flowEntry :: more.tokens)) (']' :: rest) := by
      refine Outcome.of_bind he.leads_comma ?_
      rintro e' ⟨he', hend, _⟩
      have hmore := more.outcome he' hd hend
      rwa [List.append_assoc, List.append_assoc, List.singleton_append] at hmore
    refine ((item.outcome h (Or.inl hd) hc before.unified after.unified
      (endsPlain_of_sign rfl)).bind fun s' hs' => hs'.outcome.bind hmore).congr ?_
    simp only [Items.Obeys, scanned, tab_mem_unifyLineEnds, and_assoc]

/-- Members up to their brace are scanned as their tokens. -/
theorem Fields.outcome {s : Scan} {d : Nat} {ts : List Token} {rest : List Char} :
    (fields : Fields) → Within s d ts → d ≠ 0 → s.keyAllowed = true →
      s.place.rest = fields.spelled unifyLineEnds ++ '\x7d' :: rest →
      Outcome (fields.Obeys scanned) s fun s' => Before s' d (ts ++ fields.tokens) ('\x7d' :: rest)
  | .last name before item after, h, hd, hkey, hc => by
    unfold Fields.spelled at hc
    rw [List.append_assoc, List.append_assoc, List.append_assoc] at hc
    refine ((Name.outcome h hd hkey hc).bind fun s' hs' =>
      (item.outcome hs'.1 (Or.inl hd) hs'.2 before.unified after.unified
        (endsPlain_of_sign rfl)).bind fun s'' hs'' => hs''.outcome.imp ?_).congr ?_
    · unfold Fields.tokens
      rw [List.append_assoc]
      exact fun _ => id
    · simp only [Fields.Obeys, scanned, tab_mem_unifyLineEnds, and_assoc]
  | .more name before item after more, h, hd, hkey, hc => by
    unfold Fields.spelled at hc
    rw [List.append_assoc, List.append_assoc, List.append_assoc, List.append_assoc,
      List.cons_append] at hc
    have hmore (e : Scan) (he : Before e d (ts ++ name.tokens ++ item.tokens)
        (',' :: (more.spelled unifyLineEnds ++ '\x7d' :: rest))) :
        Outcome (more.Obeys scanned) e fun e' =>
          Before e' d (ts ++ (name.tokens ++ (item.tokens ++ .flowEntry :: more.tokens)))
            ('\x7d' :: rest) := by
      refine Outcome.of_bind he.leads_comma ?_
      rintro e' ⟨he', hend, hkey'⟩
      have hmore := more.outcome he' hd hkey' hend
      simpa only [List.append_assoc, List.singleton_append] using hmore
    refine ((Name.outcome h hd hkey hc).bind fun s' hs' =>
      (item.outcome hs'.1 (Or.inl hd) hs'.2 before.unified after.unified
        (endsPlain_of_sign rfl)).bind fun s'' hs'' => hs''.outcome.bind hmore).congr ?_
    simp only [Fields.Obeys, scanned, tab_mem_unifyLineEnds, and_assoc]

end

-- ==================================================== texts

theorem within_start (text : List Char) : Within (Scan.start text) 0 [] :=
  ⟨rfl, rfl, rfl, rfl, nofun, nofun, Nat.le_refl _⟩

/-- A whole text is scanned as its tokens if no tab is in its blanks. -/
theorem ObjectText.outcome (d : ObjectText) :
    Outcome (d.Obeys scanned) (Scan.start (d.spelled unifyLineEnds)) fun s =>
      Before s 0 d.object.tokens [] := by
  have hc : (Scan.start (d.spelled unifyLineEnds)).place.rest = unifyLineEnds d.before.chars ++
      (d.object.spelled unifyLineEnds ++ (unifyLineEnds d.after.chars ++ [])) := by
    rw [List.append_nil]
    rfl
  refine ((d.object.outcome (within_start _) (Or.inr d.isObject) hc d.before.unified
    d.after.unified nofun).bind fun s hs => hs.outcome).congr ?_
  simp only [ObjectText.Obeys, scanned, tab_mem_unifyLineEnds, and_assoc]

/-- The tokens of a text that is scanned to its end. -/
theorem ObjectText.tokens_of_scanned {d : ObjectText} (h : d.Obeys scanned) :
    Token.ofText (d.spelled unifyLineEnds) = d.object.tokens ++ [.streamEnd] := by
  obtain ⟨s, ⟨n, hn, hrun⟩, hs, run, hc, hspacing⟩ := d.outcome.leads h
  rw [List.append_nil] at hc
  rw [← hc] at hspacing
  obtain ⟨more, hmore⟩ : ∃ more, (d.spelled unifyLineEnds).length + 2 = more + 1 + n :=
    ⟨(d.spelled unifyLineEnds).length + 1 - n, by
      change n + _ ≤ (d.spelled unifyLineEnds).length at hn
      omega⟩
  unfold Token.ofText
  rw [hmore]
  exact Scan.run_of_complete ((hrun _).trans (Scan.complete_end hs hspacing more))

/-- A text that is not scanned to its end has no last token. -/
theorem ObjectText.streamEnd_not_mem_of_not_scanned {d : ObjectText} (h : ¬d.Obeys scanned) :
    .streamEnd ∉ Token.ofText (d.spelled unifyLineEnds) :=
  Scan.streamEnd_not_mem_run nofun (d.outcome.fails h _)

end ApiAuthz.Json
