/-
Where the flaws of a YAML text come from. Nearly all of them say that the text is malformed.
The others are those of a scalar that has no value (`Unconstructible`): an escape whose code is
no character, a version with too many digits, a scalar that its tag does not read, a time that
is written as a collection, a text that is looked for without end.

The flaws of tokens are met one step of the scan at a time (`explains_step`). A step adds no
flaw to the tokens, and the end of the text only where there is no next step
(`unended_or_ended`), so the only flaw among them is the one that ended the scan. The flaws of
parts come from the scalars (`explains_parts`).

# Explained steps

`Step.Explains` says that a step fails with explained flaws only. It holds of what succeeds and of
what is malformed, and goes through steps that are done one behind the other, choices, and walks
over lists, with the first step's result at hand in the second. So the lemma about a function
follows its definition line by line, and where it calls itself the induction is on its fuel. One
function of the reader has one lemma here.

# Steps of the scan

A scan keeps its tokens, so more has to be known of it: no last token is among them, neither the
end of the text nor a flaw (`Unended`). `Clean` steps keep this and are explained. What a step
does to the keys and to the indentation puts tokens in, but no last one, so the kinds of tokens
are clean one by one (`clean_token`). The end of the text is the exception, and it ends the scan
(`Ended`).

# Building

Building parts is the same again with a state that is of no matter (`Build.Explains`). Merging,
filling and the search for the text of a node go on with fuel, and their flaws are those of the
scalars that they come upon, or malformed. Together: a text has no document only if it is malformed
or has a scalar without a value (`explains_ofText`).
-/
import ApiAuthz.Proofs.Yaml.Reading
import ApiAuthz.Yaml.Document

namespace ApiAuthz.Yaml

variable {α β : Type}

/-- The flaws of scalars that have no value. -/
inductive Unconstructible : Flaw → Prop
  /-- A code that an escape gives is that of no character. -/
  | code {n : Nat} {f : Flaw} (beyond : 0x110000 ≤ n)
      (refused : QuotedScalar.pointOf n = .error f) : Unconstructible f
  /-- A number in the version of a directive has too many digits. -/
  | version {digits : List Char} (beyond : DigitLimit.digits < digits.length) :
      Unconstructible (.unreadable (DigitLimit.unreadWords digits.length))
  /-- The text of a scalar is none that its tag reads. -/
  | value {payload : Nat} {tag : Tag} {ps : List CodePoint} {f : Flaw}
      (refused : ScalarValue.ofTag payload tag ps = .error f) (special : f ≠ .malformed) :
      Unconstructible f
  /-- The text of a scalar is looked for in a mapping that leads back to itself. -/
  | endless : Unconstructible (.misused .endless)
  /-- A date or a time is no scalar in the text. -/
  | unwrittenTime : Unconstructible (.misused .wrongKind)

/-- The text is malformed, or a scalar has no value. -/
def Flaw.Explained (f : Flaw) : Prop := f = .malformed ∨ Unconstructible f

/-- A step that fails with explained flaws only. -/
def Step.Explains (x : Step α) : Prop := ∀ f, x = .error f → f.Explained

/-- Malformed text is a flaw that may be reported without more. -/
theorem explained_malformed : Flaw.Explained .malformed := Or.inl rfl

namespace Step

/-- Where there is no flaw there is nothing to explain. -/
theorem explains_ok (a : α) : Explains (.ok a : Step α) := fun _ h => nomatch h

/-- A step that stops for malformed text is explained. -/
theorem explains_malformed : Explains (malformed : Step α) := by
  rintro f ⟨⟩
  exact explained_malformed

/-- Steps that are explained are so one behind the other; the second one may use what the first one
gave. -/
theorem Explains.bind {x : Step α} {k : α → Step β} (hx : Explains x)
    (hk : ∀ a, x = .ok a → Explains (k a)) : Explains (x >>= k) := by
  intro f h
  cases hr : x with
  | error g =>
      rw [hr] at h
      cases h
      exact hx _ hr
  | ok a =>
      rw [hr] at h
      exact hk a hr f h

/-- A choice between explained steps is explained. -/
theorem explains_ite {p : Prop} [Decidable p] {x y : Step α} (hx : Explains x)
    (hy : Explains y) : Explains (if p then x else y) := by
  split
  · exact hx
  · exact hy

/-- A step that stops for an explained flaw is explained. -/
theorem Explains.error {f : Flaw} (h : f.Explained) : Explains (.error f : Step α) := by
  rintro g ⟨⟩
  exact h

end Step

open Yaml.Step

-- ==================================================== scalars in quotes

namespace QuotedScalar

/-- The only code points that are refused are those beyond the last character, and this is the flaw
for them. -/
theorem explains_pointOf (code : Nat) : Explains (pointOf code) := by
  intro f h
  refine Or.inr (.code ?_ h)
  unfold pointOf at h
  split at h
  · cases h
  · omega

/-- Between quotes a document mark is malformed, and nothing else is. -/
theorem explains_breaks (fuel : Nat) (acc : List Char) (c : Cursor) :
    Explains (breaks fuel acc c) := by
  induction fuel generalizing acc c with
  | zero => exact explains_ok _
  | succ fuel ih =>
      unfold breaks
      split
      · exact explains_malformed
      · dsimp only
        split
        · exact ih _ _
        · exact explains_ok _

/-- A gap has no flaw but that of its breaks. -/
theorem explains_gap (c : Cursor) : Explains (gap c) := by
  unfold gap
  dsimp only
  split
  · exact explains_malformed
  · split
    · exact explains_ok _
    · split
      · next f h => exact .error (explains_breaks _ _ _ f h)
      · exact explains_ok _

/-- An escape may be unknown or name no code point. -/
theorem explains_escape (c : Cursor) : Explains (escape c) := by
  unfold escape
  split
  · exact explains_malformed
  · split
    · exact explains_ok _
    · split
      · exact explains_malformed
      · split
        · next f h => exact .error (explains_pointOf _ f h)
        · exact explains_ok _
    · split
      · split
        · next f h => exact .error (explains_breaks _ _ _ f h)
        · exact explains_ok _
      · exact explains_malformed

/-- The parts of a quoted scalar have the flaws of their gaps and escapes, or end too early. The
induction is on the fuel. -/
theorem explains_parts (double : Bool) (fuel : Nat) (acc : List (List CodePoint)) (c : Cursor) :
    Explains (parts double fuel acc c) := by
  induction fuel generalizing acc c with
  | zero => exact explains_malformed
  | succ fuel ih =>
      unfold parts
      split
      · exact explains_malformed
      · split
        · split
          · next f h => exact .error (explains_gap _ f h)
          · exact ih _ _
        · split
          · exact explains_ok _
          · split
            · split
              · next f h => exact .error (explains_escape _ f h)
              · exact ih _ _
            · split
              · split
                · exact ih _ _
                · exact explains_ok _
              · exact ih _ _

/-- So has the whole scalar. -/
theorem explains_scan (double : Bool) (c : Cursor) : Explains (scan double c) := by
  unfold scan
  split
  · next f h => exact .error (explains_parts _ _ _ _ f h)
  · exact explains_ok _

end QuotedScalar

-- ==================================================== scalars in blocks

theorem explains_endOfLine (c : Cursor) : Explains c.endOfLine :=
  explains_ite (explains_ok _) explains_malformed

namespace BlockScalar

/-- The header of a block scalar is malformed or none. -/
theorem explains_header (c : Cursor) : Explains (header c) := by
  unfold header
  refine explains_ite explains_malformed ?_
  generalize hline : Cursor.endOfLine _ = x
  cases x with
  | error f => exact .error (explains_endOfLine _ f hline)
  | ok c' => exact explains_ok _

/-- The lines of a block scalar have no flaw of their own. -/
theorem explains_scan (folded : Bool) (parent : Int) (c : Cursor) :
    Explains (scan folded parent c) := by
  unfold scan
  split
  · next f h => exact .error (explains_header _ f h)
  · exact explains_ok _

end BlockScalar

-- ==================================================== what stands in front

namespace Property

/-- A name that is empty or runs into a sign is malformed. -/
theorem explains_anchorName (c : Cursor) : Explains (anchorName c) := by
  unfold anchorName
  dsimp only
  split
  · exact explains_malformed
  · exact explains_ok _

/-- The octets of an escaped tag may be no UTF-8, and this is malformed. -/
theorem explains_uriParts (fuel : Nat) (acc : List (List Char)) (c : Cursor) :
    Explains (uriParts fuel acc c) := by
  induction fuel generalizing acc c with
  | zero => exact explains_ok _
  | succ fuel ih =>
      unfold uriParts
      split
      · split
        · exact explains_malformed
        · split
          · exact explains_malformed
          · exact ih _ _
      · dsimp only
        split
        · exact explains_ok _
        · exact ih _ _

theorem explains_uri (c : Cursor) : Explains (uri c) := by
  unfold uri
  split
  · next f h => exact .error (explains_uriParts _ _ _ f h)
  · split
    · exact explains_malformed
    · exact explains_ok _

theorem explains_handle (c : Cursor) : Explains (handle c) := by
  unfold handle
  split
  · exact explains_malformed
  · split
    · exact explains_ok _
    · dsimp only
      split
      · exact explains_ok _
      · exact explains_malformed

theorem explains_shorthand (c : Cursor) : Explains (shorthand c) := by
  unfold shorthand
  dsimp only
  split
  · next f h => exact .error (explains_ite (explains_handle c) (explains_ok _) f h)
  · split
    · next f h => exact .error (explains_uri _ f h)
    · exact explains_ok _

/-- A tag has the flaws of its handle and of its text. -/
theorem explains_tag (c : Cursor) : Explains (tag c) := by
  unfold tag
  dsimp only
  split
  · next f h =>
    refine .error ?_
    split at h
    · split at h
      · next hverbatim =>
        cases h
        exact explains_uri _ _ hverbatim
      · exact explains_ite (explains_ok _) explains_malformed f h
    · exact explains_ite (explains_ok _) (explains_shorthand c) f h
  · exact explains_ite (explains_ok _) explains_malformed

theorem explains_number (c : Cursor) : Explains (number c) := by
  unfold number
  dsimp only
  split
  · exact explains_malformed
  · split
    · next h => exact .error (Or.inr (.version h))
    · exact explains_ok _

/-- A version has those of its numbers. -/
theorem explains_version (c : Cursor) : Explains (version c) := by
  refine (explains_number _).bind fun p _ => explains_ite explains_malformed ?_
  exact (explains_number _).bind fun q _ => explains_ite (explains_ok _) explains_malformed

/-- A directive for tags has those of a handle and of a text. -/
theorem explains_tagDirective (c : Cursor) : Explains (tagDirective c) := by
  refine (explains_handle _).bind fun p _ => explains_ite explains_malformed ?_
  exact (explains_uri _).bind fun q _ => explains_ite (explains_ok _) explains_malformed

/-- A directive is one of the two, or a line of which nothing is asked. -/
theorem explains_directive (c : Cursor) : Explains (directive c) := by
  unfold directive
  dsimp only
  have hend (p : Directive × Cursor) : Explains (do return (p.1, ← p.2.endOfLine)) :=
    (explains_endOfLine _).bind fun _ _ => explains_ok _
  split
  · exact explains_malformed
  · split
    · exact (explains_version _).bind fun p _ => hend p
    · split
      · exact (explains_tagDirective _).bind fun p _ => hend p
      · exact hend _

end Property

-- ==================================================== tokens

/-- The token that a scan comes to last: the end of the text, or its flaw. -/
inductive Token.IsLast : Token → Prop
  | streamEnd : IsLast .streamEnd
  | flaw (f : Flaw) : IsLast (.flaw f)

namespace Scan

variable {s s' : Scan}

/-- No token is the last one. -/
def Unended (s : Scan) : Prop := ∀ t ∈ s.tokens, ¬t.IsLast

/-- The end of the text is the last token, and there is no other last one. -/
def Ended (s : Scan) : Prop := ∃ ts, s.tokens = .streamEnd :: ts ∧ ∀ t ∈ ts, ¬t.IsLast

/-- Whether the end is there depends on the tokens alone. -/
theorem Unended.of_tokens (h : s.Unended) (ht : s'.tokens = s.tokens) : s'.Unended := by
  intro t
  rw [ht]
  exact h t

/-- A token that does not end the text may be put behind the others. -/
theorem Unended.push (h : s.Unended) {t : Token} (ht : ¬t.IsLast) :
    (s.push t).Unended := by
  intro u hu
  rcases List.mem_cons.1 hu with rfl | hu
  · exact ht
  · exact h u hu

/-- Or between them. -/
theorem Unended.insert (h : s.Unended) (before : Nat) {t : Token} (ht : ¬t.IsLast) :
    (s.insert before t).Unended := by
  intro u hu
  rcases List.mem_append.1 hu with hu | hu
  · exact h u (List.mem_of_mem_take hu)
  · rcases List.mem_cons.1 hu with rfl | hu
    · exact ht
    · exact h u (List.mem_of_mem_drop hu)

/-- A step of the scan adds no last token, and fails with explained flaws only. -/
def Clean (x : Step Scan) : Prop := (∀ s', x = .ok s' → s'.Unended) ∧ Explains x

/-- A step that leaves the end open is clean. -/
theorem clean_ok (h : s.Unended) : Clean (.ok s) := by
  refine ⟨?_, explains_ok s⟩
  rintro s' ⟨⟩
  exact h

/-- So is one that stops for malformed text. -/
theorem clean_malformed : Clean malformed := ⟨nofun, explains_malformed⟩

/-- A clean step may follow an explained one. -/
theorem Clean.bind {α : Type} {x : Step α} {k : α → Step Scan} (hx : Explains x)
    (hk : ∀ a, x = .ok a → Clean (k a)) : Clean (x >>= k) := by
  refine ⟨fun s' h => ?_, hx.bind fun a ha => (hk a ha).2⟩
  cases hr : x with
  | error f =>
      rw [hr] at h
      cases h
  | ok a =>
      rw [hr] at h
      exact (hk a hr).1 s' h

/-- A choice between clean steps is clean. -/
theorem clean_ite {p : Prop} [Decidable p] {x y : Step Scan} (hx : Clean x) (hy : Clean y) :
    Clean (if p then x else y) := by
  split
  · exact hx
  · exact hy

-- ==================================================== possible keys and indentation

/-- A key that has to be one and is not is malformed. -/
theorem clean_forgetKey (h : s.Unended) : Clean s.forgetKey := by
  unfold forgetKey
  split
  · exact clean_ok h
  · exact clean_ite clean_malformed (clean_ok h)

theorem clean_rememberKey (h : s.Unended) : Clean s.rememberKey := by
  unfold rememberKey
  refine clean_ite (clean_ok h) ?_
  exact .bind (clean_forgetKey h).2 fun s' hs' => clean_ok ((clean_forgetKey h).1 s' hs')

/-- So is one that is too old. -/
theorem clean_dropStaleKeys (h : s.Unended) : Clean s.dropStaleKeys := by
  have hkept : Unended { s with keys := s.keys.filter fun k => !s.isStale k.2 } := h
  exact clean_ite clean_malformed (clean_ok hkept)

/-- What follows a step keeps its flaws out. -/
theorem Clean.andThen {x : Step Scan} {k : Scan → Step Scan} (hx : Clean x)
    (hk : ∀ s', s'.Unended → Clean (k s')) : Clean (x >>= k) :=
  .bind hx.2 fun s' hs' => hk s' (hx.1 s' hs')

/-- Ending blocks brings tokens, none of which ends the text. -/
theorem unended_closeBlocks (h : s.Unended) (column : Int) (fuel : Nat) :
    (closeBlocks column fuel s).Unended := by
  induction fuel generalizing s with
  | zero => exact h
  | succ fuel ih =>
      have hpush : (s.push .blockEnd).Unended := h.push nofun
      unfold closeBlocks
      split
      · exact h
      · split
        · exact hpush
        · exact ih hpush

theorem unended_unindent (h : s.Unended) (column : Int) : (s.unindent column).Unended := by
  unfold unindent
  split
  · exact h
  · exact unended_closeBlocks h column _

/-- Nor does opening one. -/
theorem unended_openBlock (h : s.Unended) {t : Token} (ht : ¬t.IsLast) :
    (s.openBlock t).Unended := by
  unfold openBlock
  split
  · exact Unended.push (s := s.enterBlock s.place.column) h ht
  · exact h

/-- Blanks and comments bring no tokens. -/
theorem unended_skipToToken (fuel : Nat) (h : s.Unended) : (skipToToken fuel s).Unended := by
  induction fuel generalizing s with
  | zero => exact h
  | succ fuel ih =>
      unfold skipToToken
      dsimp only
      split
      · exact ih h
      · exact h

theorem unended_skipMark (h : s.Unended) : s.skipMark.Unended := by
  unfold skipMark
  split
  · exact h
  · exact h

-- ==================================================== tokens

/-- The end of the text has the flaw of the last key or none. -/
theorem explains_streamEnd (h : s.Unended) : Explains s.streamEnd :=
  (clean_forgetKey (unended_unindent h (-1))).2.bind fun _ _ => explains_ok _

/-- The end of the text is the token for it, and the last one. -/
theorem ended_of_streamEnd (h : s.Unended) (hs' : s.streamEnd = .ok s') : s'.Ended := by
  have hforget := (clean_forgetKey (unended_unindent h (-1))).1
  unfold streamEnd at hs'
  cases hr : (s.unindent (-1)).forgetKey with
  | error f =>
      rw [hr] at hs'
      cases hs'
  | ok t =>
      rw [hr] at hs'
      cases hs'
      exact ⟨t.tokens, rfl, hforget t hr⟩

/-- A mark between documents is one token. -/
theorem clean_documentMark (h : s.Unended) {t : Token} (ht : ¬t.IsLast) :
    Clean (s.documentMark t) :=
  (clean_forgetKey (unended_unindent h (-1))).andThen fun _ hs => clean_ok (hs.push ht)

/-- A directive is one token, with the flaws of its line. -/
theorem clean_directive (h : s.Unended) : Clean s.directive :=
  (clean_forgetKey (unended_unindent h (-1))).andThen fun _ hs =>
    .bind (Property.explains_directive _) fun _ _ => clean_ok (hs.push nofun)

/-- An opening bracket is one token. -/
theorem clean_openBracket (h : s.Unended) {t : Token} (ht : ¬t.IsLast) :
    Clean (s.openBracket t) :=
  (clean_rememberKey h).andThen fun _ hs => clean_ok (hs.push ht)

theorem clean_closeBracket (h : s.Unended) {t : Token} (ht : ¬t.IsLast) :
    Clean (s.closeBracket t) :=
  (clean_forgetKey h).andThen fun _ hs => clean_ok (hs.push ht)

theorem clean_flowEntry (h : s.Unended) : Clean s.flowEntry :=
  (clean_forgetKey h).andThen fun _ hs => clean_ok (hs.push nofun)

/-- A hyphen where no item can stand is malformed. -/
theorem clean_blockEntry (h : s.Unended) : Clean s.blockEntry := by
  have hopened : (if s.inFlow then s else s.openBlock .blockSequence).Unended := by
    split
    · exact h
    · exact unended_openBlock h nofun
  refine clean_ite clean_malformed ?_
  exact (clean_forgetKey hopened).andThen fun _ hs => clean_ok (hs.push nofun)

/-- So is a question mark where no key can. -/
theorem clean_keySign (h : s.Unended) : Clean s.keySign := by
  have hopened : (if s.inFlow then s else s.openBlock .blockMapping).Unended := by
    split
    · exact h
    · exact unended_openBlock h nofun
  refine clean_ite clean_malformed ?_
  exact (clean_forgetKey hopened).andThen fun _ hs => clean_ok (hs.push nofun)

/-- And a colon where no value can. -/
theorem clean_valueSign (h : s.Unended) : Clean s.valueSign := by
  unfold valueSign
  split
  · next k _ =>
    have hkey := Unended.insert
      (s := { s with keys := s.keys.filter fun k => k.1 != s.depth }) h k.before
      (t := .key) nofun
    refine clean_ok (Unended.push ?_ nofun)
    split
    · exact Unended.insert (hkey.of_tokens rfl) _ nofun
    · exact hkey
  · refine clean_ite clean_malformed (clean_ok (Unended.push ?_ nofun))
    split
    · exact h
    · exact unended_openBlock h nofun

/-- What a reader of keyed tokens gives is no last token, and its flaws are explained. -/
structure Readable (read : Cursor → Step (Token × Cursor)) : Prop where
  explains (c : Cursor) : Explains (read c)
  token {c : Cursor} {p : Token × Cursor} (h : read c = .ok p) : ¬p.1.IsLast

/-- A token that may be a key has the flaws of what it is read by. -/
theorem clean_keyed (h : s.Unended) {read : Cursor → Step (Token × Cursor)}
    (hread : Readable read) : Clean (s.keyed read) :=
  (clean_rememberKey h).andThen fun _ hs =>
    .bind (hread.explains _) fun _ hp => clean_ok (hs.push (hread.token hp))

/-- A reader that makes a token of what another one reads. -/
theorem readable_of {γ : Type} {read : Cursor → Step (γ × Cursor)} {token : γ → Token}
    (hread : ∀ c, Explains (read c)) (htoken : ∀ a, ¬(token a).IsLast) :
    Readable fun c => do
      let (a, c) ← read c
      return (token a, c) where
  explains := fun c => (hread c).bind fun _ _ => explains_ok _
  token := by
    intro c p h
    dsimp only at h
    cases hr : read c with
    | error g =>
        rw [hr] at h
        cases h
    | ok q =>
        rw [hr] at h
        cases h
        exact htoken q.1

/-- Quoted scalars are read with explained flaws. -/
theorem readable_quoted (double : Bool) : Readable (readQuoted double) :=
  readable_of (QuotedScalar.explains_scan double) fun text =>
    (nofun : ¬Token.IsLast (.scalar text false))

/-- A block scalar is one token. -/
theorem clean_blockScalar (h : s.Unended) (folded : Bool) : Clean (s.blockScalar folded) :=
  (clean_forgetKey h).andThen fun _ hs =>
    .bind (BlockScalar.explains_scan _ _ _) fun _ _ => clean_ok (hs.push nofun)

/-- So is a plain one, which has no flaws. -/
theorem clean_plainScalar (h : s.Unended) : Clean s.plainScalar :=
  (clean_rememberKey h).andThen fun _ hs => clean_ok (hs.push nofun)

/-- Whichever token the next character starts, its step is clean. -/
theorem clean_token (h : s.Unended) (ch : Char) (next : Option Char) :
    Clean (s.token ch next) := by
  unfold token
  refine clean_ite (clean_directive h) ?_
  refine clean_ite (clean_documentMark h nofun) ?_
  refine clean_ite (clean_documentMark h nofun) ?_
  refine clean_ite (clean_openBracket h nofun) ?_
  refine clean_ite (clean_openBracket h nofun) ?_
  refine clean_ite (clean_closeBracket h nofun) ?_
  refine clean_ite (clean_closeBracket h nofun) ?_
  refine clean_ite (clean_flowEntry h) ?_
  refine clean_ite (clean_blockEntry h) ?_
  refine clean_ite (clean_keySign h) ?_
  refine clean_ite (clean_valueSign h) ?_
  refine clean_ite (clean_keyed h (readable_of Property.explains_anchorName nofun)) ?_
  refine clean_ite (clean_keyed h (readable_of Property.explains_anchorName nofun)) ?_
  refine clean_ite (clean_keyed h (readable_of Property.explains_tag nofun)) ?_
  refine clean_ite (clean_blockScalar h false) ?_
  refine clean_ite (clean_blockScalar h true) ?_
  refine clean_ite (clean_keyed h (readable_quoted false)) ?_
  refine clean_ite (clean_keyed h (readable_quoted true)) ?_
  exact clean_ite (clean_plainScalar h) clean_malformed

/-- A step that starts before the end is explained: the token is clean, or it is the end itself. -/
theorem explains_step (h : s.Unended) : Explains s.step := by
  have hskip := clean_dropStaleKeys (unended_skipToToken s.place.fuel (unended_skipMark h))
  unfold step
  refine hskip.2.bind fun s' hs' => ?_
  have hunindented := unended_unindent (hskip.1 s' hs') s'.place.column
  dsimp only
  split
  · exact explains_streamEnd hunindented
  · exact (clean_token hunindented _ _).2

/-- A step adds no last token but the end of the text. -/
theorem unended_or_ended (h : s.Unended) (hs' : s.step = .ok s') : s'.Unended ∨ s'.Ended := by
  have hskip := clean_dropStaleKeys (unended_skipToToken s.place.fuel (unended_skipMark h))
  unfold step at hs'
  dsimp only at hs'
  cases hr : (skipToToken s.place.fuel s.skipMark).dropStaleKeys with
  | error f =>
      rw [hr] at hs'
      cases hs'
  | ok t =>
      have hunindented := unended_unindent (hskip.1 t hr) t.place.column
      rw [hr] at hs'
      dsimp only [bind, Except.bind] at hs'
      split at hs'
      · exact Or.inr (ended_of_streamEnd hunindented hs')
      · exact Or.inl ((clean_token hunindented _ _).1 s' hs')

/-- A scan that has ended has one token that ends the text. -/
theorem Ended.eq_streamEnd (h : s.Ended) {t : Token} (ht : t ∈ s.tokens) (hlast : t.IsLast) :
    t = .streamEnd := by
  obtain ⟨ts, heq, hts⟩ := h
  rw [heq] at ht
  exact (List.mem_cons.1 ht).resolve_right fun hmem => hts t hmem hlast

/-- The only flaw among the tokens of a run is the one that ended it. -/
theorem explained_of_run {fuel : Nat} (h : s.Unended) {f : Flaw} (hf : .flaw f ∈ run fuel s) :
    f.Explained := by
  induction fuel generalizing s with
  | zero => exact absurd (.flaw f) (h _ (List.mem_reverse.1 hf))
  | succ fuel ih =>
      unfold run at hf
      split at hf
      · next g hg =>
        rcases List.mem_append.1 hf with hf | hf
        · exact absurd (.flaw f) (h _ (List.mem_reverse.1 (List.mem_of_mem_take hf)))
        · cases List.mem_singleton.1 hf
          exact explains_step h f hg
      · next s' hs' =>
        have hnext := unended_or_ended h hs'
        split at hf
        · have hmem := List.mem_reverse.1 hf
          rcases hnext with hnext | hnext
          · exact absurd (.flaw f) (hnext _ hmem)
          · cases hnext.eq_streamEnd hmem (.flaw f)
        · next hgo =>
          exact ih (hnext.resolve_right fun ⟨ts, heq, _⟩ => hgo ts heq) hf

end Scan

/-- Every flaw among the tokens of a text is explained. -/
theorem explained_of_mem_tokens {text : List Char} {f : Flaw}
    (h : .flaw f ∈ Token.ofText text) : f.Explained :=
  Scan.explained_of_run (s := Scan.start text) (fun _ hmem => nomatch hmem) h

-- ==================================================== parts

namespace Build

/-- Building that fails with explained flaws only. -/
def Explains (x : Build α) : Prop := ∀ b, Step.Explains (x b)

theorem explains_pure (a : α) : Explains (pure a) := fun _ => explains_ok _

/-- A construction that stops for malformed nodes is explained. -/
theorem explains_malformed : Explains (throw .malformed : Build α) := fun _ =>
  .error explained_malformed

/-- Constructions that are explained are so one behind the other. -/
theorem Explains.bind {x : Build α} {k : α → Build β} (hx : Explains x)
    (hk : ∀ a, Explains (k a)) : Explains (x >>= k) := fun b =>
  (hx b).bind fun p _ => hk p.1 p.2

theorem explains_get : Explains get := fun _ => explains_ok _

theorem explains_modify (f : Building → Building) : Explains (modify f) := fun _ => explains_ok _

/-- So are those that run through a list. -/
theorem explains_forM {f : α → Build Unit} (h : ∀ a, Explains (f a)) (xs : List α) :
    Explains (xs.forM f) := by
  induction xs with
  | nil => exact explains_pure ()
  | cons x xs ih => exact (h x).bind fun _ => ih

/-- Also where they give something for each item. -/
theorem explains_mapM {f : α → Build β} (h : ∀ a, Explains (f a)) (xs : List α) :
    Explains (xs.mapM f) := by
  induction xs with
  | nil => exact explains_pure []
  | cons x xs ih =>
      rw [List.mapM_cons]
      exact (h x).bind fun _ => ih.bind fun _ => explains_pure _

-- ==================================================== nodes and merging

theorem explains_nodeAt (number : Nat) : Explains (nodeAt number) := fun _ => explains_ok _

theorem explains_tagAt (number : Nat) : Explains (tagAt number) := fun _ => explains_ok _

/-- A node that is asked for members has them or has none. -/
theorem explains_membersAt? (number : Nat) : Explains (membersAt? number) := by
  refine (explains_nodeAt number).bind fun n => ?_
  split <;> exact explains_pure _

theorem explains_membersAt (number : Nat) : Explains (membersAt number) :=
  (explains_membersAt? number).bind fun _ => explains_pure _

/-- One that has no items where they are needed is malformed. -/
theorem explains_itemsAt (number : Nat) : Explains (itemsAt number) := by
  refine (explains_nodeAt number).bind fun n => ?_
  split
  · exact explains_pure _
  · exact explains_malformed

theorem explains_setMembers (number : Nat) (members : List (Nat × Nat)) :
    Explains (setMembers number members) := explains_modify _

/-- What is merged is a mapping or a list of mappings, or malformed. -/
theorem explains_merged {flatten : Nat → Build Unit} (h : ∀ n, Explains (flatten n)) (n : Nat) :
    Explains (do
      match ← membersAt? n with
      | none => throw .malformed
      | some _ => do flatten n; membersAt n) := by
  refine (explains_membersAt? n).bind fun ms => ?_
  split
  · exact explains_malformed
  · exact (h n).bind fun _ => explains_membersAt n

theorem explains_mergedFrom {flatten : Nat → Build Unit} (h : ∀ n, Explains (flatten n))
    (number : Nat) : Explains (mergedFrom flatten number) := by
  refine (explains_nodeAt number).bind fun n => ?_
  split
  · exact (explains_mapM (explains_merged h) _).bind fun _ => explains_pure _
  · exact explains_merged h number

/-- So flattening a mapping is explained, however deep merges go. The induction is on the fuel. -/
theorem explains_flatten (fuel number : Nat) : Explains (flatten fuel number) := by
  induction fuel generalizing number with
  | zero => exact explains_malformed
  | succ fuel ih =>
      unfold flatten
      refine (explains_membersAt number).bind fun members => explains_get.bind fun b => ?_
      split
      · exact explains_forM (fun _ => explains_modify _) _
      · exact (explains_setMembers _ _).bind fun _ => (explains_mergedFrom ih _).bind fun _ =>
          (ih number).bind fun _ => (explains_membersAt number).bind fun _ =>
          explains_setMembers _ _

-- ==================================================== scalars

/-- The text of a node that has none is malformed. -/
theorem explains_textAt (fuel number : Nat) : Explains (textAt fuel number) := by
  induction fuel generalizing number with
  | zero => exact fun _ => .error (Or.inr .endless)
  | succ fuel ih =>
      unfold textAt
      refine (explains_nodeAt number).bind fun n => ?_
      split
      · exact explains_pure _
      · exact explains_malformed
      · refine explains_get.bind fun b => ?_
        dsimp only
        split
        · exact ih _
        · exact explains_malformed

theorem explains_isWrittenScalar (number : Nat) : Explains (isWrittenScalar number) := by
  refine (explains_nodeAt number).bind fun n => ?_
  split <;> exact explains_pure _

/-- A scalar has the flaws of its form: a number beyond the limit, a date outside of the calendar, a
truth value that is none, octets that are malformed. -/
theorem explains_ofTag (payload : Nat) (tag : Tag) (ps : List CodePoint) :
    Step.Explains (ScalarValue.ofTag payload tag ps) := by
  intro f h
  by_cases hf : f = .malformed
  · exact Or.inl hf
  · exact Or.inr (.value h hf)

/-- A step among constructions is explained as it was. -/
theorem explains_lift {x : Step α} (h : Step.Explains x) : Explains (liftM x : Build α) :=
  fun _ => h.bind fun _ _ => explains_ok _

/-- So the scalar of a node is explained. -/
theorem explains_scalarAt (number : Nat) (tag : Tag) : Explains (scalarAt number tag) := by
  refine explains_get.bind fun b => (explains_textAt _ number).bind fun text => ?_
  refine (explains_isWrittenScalar number).bind fun written => ?_
  split
  · exact fun _ => .error (Or.inr .unwrittenTime)
  · exact explains_lift (explains_ofTag _ _ _)

-- ==================================================== parts

theorem explains_partAt? (number : Nat) : Explains (partAt? number) := fun _ => explains_ok _

theorem explains_setPart (number : Nat) (p : Part) : Explains (setPart number p) :=
  explains_modify _

theorem explains_addPair (first second : Nat) : Explains (addPair first second) := fun _ =>
  explains_ok _

/-- Beginning a node has the flaws of a scalar or none. -/
theorem explains_begin (number : Nat) : Explains (begin number) := by
  refine (explains_partAt? number).bind fun p => ?_
  split
  · exact explains_pure ()
  · refine (explains_tagAt number).bind fun tag => ?_
    split
    · exact (explains_setPart _ _).bind fun _ => explains_modify _
    · split
      · exact (explains_scalarAt _ _).bind fun _ => explains_setPart _ _
      · exact explains_malformed

/-- A key that is a collection is malformed, and that of a scalar has its flaws. -/
theorem explains_keyAt (number : Nat) : Explains (keyAt number) := by
  refine (explains_begin number).bind fun _ => (explains_partAt? number).bind fun p => ?_
  split
  · exact explains_pure _
  · exact explains_malformed

/-- So members have the flaws of their keys. -/
theorem explains_entriesAt (number : Nat) : Explains (entriesAt number) := by
  refine (explains_membersAt? number).bind fun ms => ?_
  split
  · exact explains_malformed
  · refine explains_get.bind fun b => (explains_flatten _ _).bind fun _ =>
      (explains_membersAt number).bind fun members =>
      (explains_mapM (fun m => ?_) _).bind fun _ => explains_pure _
    exact (explains_keyAt m.1).bind fun _ => (explains_begin m.2).bind fun _ => explains_pure _

/-- An ordered item that is no pair is malformed. -/
theorem explains_pairAt (number : Nat) : Explains (pairAt number) := by
  refine (explains_membersAt? number).bind fun ms => ?_
  split
  · exact (explains_begin _).bind fun _ => (explains_begin _).bind fun _ => explains_addPair _ _
  · exact explains_malformed

/-- Filling a collection has the flaws of what is in it. -/
theorem explains_fill (number : Nat) : Explains (fill number) := by
  refine (explains_tagAt number).bind fun tag => ?_
  split
  · exact (explains_itemsAt number).bind fun items =>
      (explains_forM explains_begin items).bind fun _ => explains_setPart _ _
  · exact (explains_entriesAt number).bind fun _ => explains_setPart _ _
  · exact (explains_entriesAt number).bind fun _ => explains_setPart _ _
  · exact (explains_itemsAt number).bind fun items =>
      (explains_mapM explains_pairAt items).bind fun _ => explains_setPart _ _

/-- Filling them all has no others. -/
theorem explains_fillAll (fuel : Nat) : Explains (fillAll fuel) := by
  induction fuel with
  | zero => exact explains_pure ()
  | succ fuel ih =>
      unfold fillAll
      refine explains_get.bind fun b => ?_
      split
      · exact explains_pure ()
      · exact (explains_modify _).bind fun _ => (explains_forM explains_fill _).bind fun _ => ih

end Build

-- ==================================================== documents

/-- So the parts of a graph are explained. -/
theorem explains_parts (nodes : Graph) (root : Nat) : Explains (Part.ofGraph nodes root) :=
  ((Build.explains_begin root).bind fun _ => Build.explains_fillAll _)
    ⟨nodes, Array.replicate nodes.size none, [], nodes.mergeCount + 1⟩ |>.bind fun _ _ =>
    explains_ok _

/-- And the value that they stand for. -/
theorem explains_value (nodes : Graph) (root : Nat) : Explains (Document.ofGraph nodes root) := by
  refine (explains_parts nodes root).bind fun parts _ => ?_
  dsimp only
  split <;> exact explains_ok _

/-- The graph of a text has the flaws of its tokens, or is malformed itself. -/
theorem explains_ofTokens (text : List Char) :
    Explains (Graph.ofTokens (Token.ofText text)) := by
  intro f h
  rcases Graph.flaw_of_ofTokens h with rfl | hflaw
  · exact explained_malformed
  · exact explained_of_mem_tokens hflaw

/-- A text has no document only if it is malformed, or if a scalar has no value. -/
theorem explains_ofText (text : List Char) : Explains (Document.ofText text) := by
  refine explains_ite explains_malformed ((explains_ofTokens text).bind fun p _ => ?_)
  split
  · exact explains_ok _
  · exact explains_value _ _

end ApiAuthz.Yaml
