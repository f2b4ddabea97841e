/-
The steps of a scan in brackets. `Within` says what is known of a scan between two tokens: how
many brackets are open, the tokens so far, and that no key is required; `step_eq` is its next
step behind spacing. Brackets, commas, strings and words add their token and lead to such a
scan again. A tab, where a token might start, ends the scan.

# One step

A step skips spacing, forgets the keys that are too old, ends blocks by indentation and then goes
by the next character. Between brackets there are no blocks to end, and no key is one that has to
be (`unindent_eq`, `dropStaleKeys_eq`), so what is left is the scan at a place further on
(`moved`, `MovesTo`) and the token that the character starts (`step_token`). For each sign there
is one lemma that says which token it is (`token_opens`, `token_comma`, `token_quote`) and one
that says where it leads (`leads_open`, `leads_comma`, `outcome_string`).

# Keys

Before a scalar the scanner notes that a key may have started there. It finds out at the colon,
and then puts the token of the key in front of tokens that it has given already. `KeyBehind` is
the note as it stands behind the scalar: after how many tokens it started, and where. It is still
there at the colon if no line has ended since and no more than 1024 characters came between, which
is a property of the text alone (`Fits`, `isStale_eq`). So the tokens of a name have the sign of a
key in front exactly if it fits (`nameTokens`, `leads_colon`). Notes of outer brackets stand for
outer depths, and all steps leave them alone.

# Words

A word is a plain scalar that takes the spacing behind it along. It starts with a character that is
no sign, or with a hyphen and such a character behind it (`StartsWord`), and at the end of it stands
what ends a plain scalar in brackets (`leads_word`). The end of the text is the last token once all
brackets are closed (`complete_end`).
-/
import ApiAuthz.Proofs.Yaml.PlainScalar
import ApiAuthz.Proofs.Yaml.Scanning

namespace ApiAuthz.Yaml.Scan

/-- In so many brackets, after these tokens. -/
structure Within (s : Scan) (d : Nat) (ts : List Token) : Prop where
  tokens : s.tokens = ts.reverse
  count : s.count = ts.length
  depth : s.depth = d
  indent : s.indent = -1
  optional : ∀ k ∈ s.keys, k.2.required = false
  keys : ∀ k ∈ s.keys, k.1 ≤ d
  room : s.place.rest.length ≤ s.place.size

/-- What may stand behind spacing as the start of a token. -/
def Starts (rest : List Char) : Prop :=
  ∀ ch ∈ rest.head?, ch ≠ ' ' ∧ isBreak ch = false ∧ ch ≠ '#' ∧ ch ≠ '\ufeff'

variable {s s' : Scan} {d : Nat} {ts : List Token} {run rest : List Char} {t : Token}

-- ==================================================== spacing

/-- The scan at a place further on, without the keys that are stale there. -/
def moved (n : Nat) (allowed : Bool) (s : Scan) : Scan :=
  let s := { s with place := s.place.advanceBy n, keyAllowed := allowed }
  { s with keys := s.keys.filter fun k => !s.isStale k.2 }

theorem Within.moved (h : Within s d ts) (n : Nat) (allowed : Bool) :
    Within (s.moved n allowed) d ts where
  tokens := h.tokens
  count := h.count
  depth := h.depth
  indent := h.indent
  optional := fun k hk => h.optional k (List.mem_of_mem_filter hk)
  keys := fun k hk => h.keys k (List.mem_of_mem_filter hk)
  room := Cursor.rest_le_size_advanceBy n h.room

/-- Blanks are skipped up to a token; between brackets a line end does not bring a key. -/
theorem skipToToken_eq {fuel : Nat} (hfuel : run.length < fuel) (hc : s.place.rest = run ++ rest)
    (hrun : IsSpacing run) (hrest : Starts rest) :
    ∃ allowed, (s.inFlow = true → allowed = s.keyAllowed) ∧
      skipToToken fuel s =
        { s with place := s.place.advanceBy run.length, keyAllowed := allowed } := by
  induction fuel generalizing s run with
  | zero => omega
  | succ fuel ih =>
      obtain ⟨spaces, htake, hcases⟩ :=
        Cursor.takeWhile_spacing hc hrun fun ch hch => ⟨(hrest ch hch).1, (hrest ch hch).2.1⟩
      have hskip : s.place.skipWhile (· == ' ') = s.place.advanceBy spaces.length := by
        unfold Cursor.skipWhile
        rw [htake]
      rcases hcases with ⟨rfl, hnone⟩ | ⟨more, rfl, hmore, hnext, hbreak⟩
      · have hcomment : (s.place.advanceBy run.length).sees '#' = false := by
          unfold Cursor.sees
          rw [Cursor.rest_advanceBy_length hc, beq_eq_false_iff_ne]
          exact fun heq => (hrest '#' heq).2.2.1 rfl
        refine ⟨s.keyAllowed, fun _ => rfl, ?_⟩
        unfold skipToToken
        dsimp only
        rw [hskip, hcomment, if_neg Bool.false_ne_true, hnone]
      · rw [List.append_assoc, List.cons_append] at hc
        have hcomment : (s.place.advanceBy spaces.length).sees '#' = false := by
          unfold Cursor.sees
          rw [Cursor.rest_advanceBy_length hc]
          rfl
        have hlength : (spaces ++ '\n' :: more).length = spaces.length + 1 + more.length := by
          rw [List.length_append, List.length_cons]
          omega
        obtain ⟨allowed, hsame, hrest⟩ := ih
          (s := { s with
            place := s.place.advanceBy (spaces.length + 1),
            keyAllowed := s.keyAllowed || !s.inFlow })
          (by omega) hnext hmore
        refine ⟨allowed, fun hflow => ?_, ?_⟩
        · rw [hsame hflow]
          show (s.keyAllowed || !s.inFlow) = s.keyAllowed
          rw [hflow]
          exact Bool.or_false _
        · unfold skipToToken
          dsimp only
          rw [hskip, hcomment, if_neg Bool.false_ne_true, hbreak]
          dsimp only
          rw [hrest, hlength, Cursor.advanceBy_add _ more.length]

/-- Only a byte order mark is skipped at the front. -/
theorem skipMark_eq (h : ∀ ch ∈ s.place.rest.head?, ch ≠ '\ufeff') : s.skipMark = s := by
  have hsees : s.place.sees '\ufeff' = false := by
    unfold Cursor.sees
    rw [beq_eq_false_iff_ne]
    exact fun heq => h _ heq rfl
  unfold skipMark
  rw [hsees, Bool.and_false]
  rfl

/-- Keys that are too old are forgotten if none of them has to be one. -/
theorem dropStaleKeys_eq (h : ∀ k ∈ s.keys, k.2.required = false) :
    s.dropStaleKeys = .ok { s with keys := s.keys.filter fun k => !s.isStale k.2 } := by
  unfold dropStaleKeys
  rw [if_neg]
  intro hany
  obtain ⟨k, hk, hstale⟩ := List.any_eq_true.1 hany
  rw [h k hk, Bool.and_false] at hstale
  cases hstale

/-- Outside of blocks nothing is ended by indentation. -/
theorem unindent_eq (h : s.indent = -1) {column : Int} (hcolumn : -1 ≤ column) :
    s.unindent column = s := by
  unfold unindent
  split
  · rfl
  · unfold closeBlocks
    rw [if_pos (by omega)]

/-- One step of the scanner: blanks, then the token that the next character starts. -/
theorem step_eq (h : Within s d ts) (hc : s.place.rest = run ++ rest) (hrun : IsSpacing run)
    (hrest : Starts rest) :
    ∃ allowed, (d ≠ 0 → allowed = s.keyAllowed) ∧
      (s.moved run.length allowed).place.rest = rest ∧
      s.step = match (s.moved run.length allowed).place.rest with
        | [] => (s.moved run.length allowed).streamEnd
        | ch :: rest => (s.moved run.length allowed).token ch rest.head? := by
  have hfuel : run.length < s.place.fuel := by
    have hroom := h.room
    rw [hc, List.length_append] at hroom
    unfold Cursor.fuel
    omega
  have hmark : ∀ ch ∈ s.place.rest.head?, ch ≠ '\ufeff' := by
    intro ch hch
    rw [hc] at hch
    cases run with
    | nil => exact (hrest ch hch).2.2.2
    | cons w run =>
        cases hch
        rcases hrun ch (List.mem_cons_self ..) with rfl | rfl <;> decide
  obtain ⟨allowed, hsame, hskip⟩ := skipToToken_eq hfuel hc hrun hrest
  have hmoved := h.moved run.length allowed
  refine ⟨allowed, fun hd => hsame ?_, Cursor.rest_advanceBy_length hc, ?_⟩
  · unfold inFlow
    rw [h.depth]
    exact bne_iff_ne.2 hd
  · unfold step
    rw [skipMark_eq hmark, hskip]
    dsimp only
    rw [dropStaleKeys_eq (by exact h.optional)]
    show (match ((s.moved run.length allowed).unindent
        (s.moved run.length allowed).place.column).place.rest with
      | [] => ((s.moved run.length allowed).unindent
        (s.moved run.length allowed).place.column).streamEnd
      | ch :: rest => ((s.moved run.length allowed).unindent
        (s.moved run.length allowed).place.column).token ch rest.head?) = _
    rw [unindent_eq hmoved.indent (by omega)]

/-- One scan is the other at a place further on. -/
structure MovesTo (s m : Scan) (n : Nat) : Prop where
  place : m.place = s.place.advanceBy n
  keys : m.keys = s.keys.filter fun k => !m.isStale k.2
  depth : m.depth = s.depth
  allowed : s.depth ≠ 0 → m.keyAllowed = s.keyAllowed

/-- The step to a token behind spacing. -/
theorem step_token {ch : Char} (h : Within s d ts) (hc : s.place.rest = run ++ ch :: rest)
    (hrun : IsSpacing run) (hstart : Starts (ch :: rest)) :
    ∃ m, MovesTo s m run.length ∧ Within m d ts ∧ m.place.rest = ch :: rest ∧
      s.step = m.token ch rest.head? := by
  obtain ⟨allowed, hsame, hplace, hstep⟩ := step_eq h hc hrun hstart
  rw [hplace] at hstep
  have hmoves : MovesTo s (s.moved run.length allowed) run.length :=
    ⟨rfl, rfl, rfl, fun hd => hsame (h.depth ▸ hd)⟩
  exact ⟨_, hmoves, h.moved run.length allowed, hplace, hstep⟩

-- ==================================================== possible keys

/-- The key of the innermost bracket is forgotten if it need not be one. -/
theorem forgetKey_eq (h : ∀ k ∈ s.keys, k.2.required = false) :
    s.forgetKey = .ok { s with keys := s.keys.filter fun k => k.1 != s.depth } := by
  unfold forgetKey
  split
  · next hnone =>
    have hkeep : s.keys.filter (fun k => k.1 != s.depth) = s.keys := by
      refine List.filter_eq_self.2 fun k hk => ?_
      have hne := List.find?_eq_none.1 hnone k hk
      rw [beq_iff_eq] at hne
      exact bne_iff_ne.2 hne
    rw [hkeep]
  · next k hk =>
    rw [h k (List.mem_of_find?_eq_some hk)]
    rfl

/-- Without the keys between the present brackets. -/
def keyless (s : Scan) : Scan := { s with keys := s.keys.filter fun k => k.1 != s.depth }

/-- A scan stays within its brackets without a key. -/
theorem Within.keyless (h : Within s d ts) : Within s.keyless d ts where
  tokens := h.tokens
  count := h.count
  depth := h.depth
  indent := h.indent
  optional := fun k hk => h.optional k (List.mem_of_mem_filter hk)
  keys := fun k hk => h.keys k (List.mem_of_mem_filter hk)
  room := h.room

theorem ne_depth_of_mem_keyless {k : Nat × PossibleKey} (hk : k ∈ s.keyless.keys) :
    k.1 ≠ s.depth :=
  bne_iff_ne.1 (List.mem_filter.1 hk).2

/-- No key has to be one between brackets, so forgetting succeeds. -/
theorem Within.forgetKey (h : Within s d ts) : s.forgetKey = .ok s.keyless :=
  forgetKey_eq h.optional

/-- A key that starts here; outside of blocks none is required. -/
def keyHere (s : Scan) : PossibleKey :=
  { before := s.count, required := false, index := s.place.index, line := s.place.line,
    column := s.place.column }

/-- With a key that starts here, if one may. -/
def remembered (s : Scan) : Scan :=
  if s.keyAllowed then { s.keyless with keys := (s.depth, s.keyHere) :: s.keyless.keys } else s

/-- So does remembering. -/
theorem Within.rememberKey (h : Within s d ts) : s.rememberKey = .ok s.remembered := by
  have hcolumn : (s.indent == (s.place.column : Int)) = false := by
    rw [h.indent, beq_eq_false_iff_ne]
    omega
  unfold Scan.rememberKey remembered
  cases s.keyAllowed with
  | false => rfl
  | true =>
      rw [Bool.not_true, if_neg Bool.false_ne_true, h.forgetKey, hcolumn, Bool.and_false]
      rfl

/-- Within a bracket indentation means nothing. -/
theorem Within.inFlow (h : Within s d ts) (hd : d ≠ 0) : s.inFlow = true := by
  unfold Scan.inFlow
  rw [h.depth]
  exact bne_iff_ne.2 hd

theorem Within.remembered (h : Within s d ts) : Within s.remembered d ts := by
  unfold Scan.remembered
  split
  · have hkeyless := h.keyless
    exact {
      tokens := h.tokens, count := h.count, depth := h.depth, indent := h.indent, room := h.room
      optional := List.forall_mem_cons.2 ⟨rfl, hkeyless.optional⟩
      keys := List.forall_mem_cons.2 ⟨Nat.le_of_eq h.depth, hkeyless.keys⟩ }
  · exact h

@[simp] theorem place_remembered (s : Scan) : s.remembered.place = s.place := by
  unfold remembered
  split <;> rfl

-- ==================================================== adding tokens

theorem Within.isOver (h : Within s d (ts ++ [t])) (ht : t ≠ .streamEnd) : s.isOver = false := by
  unfold Scan.isOver
  rw [h.tokens, List.reverse_append]
  cases t <;> first | rfl | exact absurd rfl ht

/-- A token more, and the scan stays within its brackets. -/
theorem Within.take (h : Within s d ts) (n : Nat) (t : Token) :
    Within (s.take n t) d (ts ++ [t]) where
  tokens := by
    rw [List.reverse_append]
    exact congrArg (t :: ·) h.tokens
  count := by
    rw [List.length_append]
    exact congrArg (· + 1) h.count
  depth := h.depth
  indent := h.indent
  optional := h.optional
  keys := h.keys
  room := Cursor.rest_le_size_advanceBy n h.room

theorem Within.allow (h : Within s d ts) (allowed : Bool) :
    Within { s with keyAllowed := allowed } d ts :=
  ⟨h.tokens, h.count, h.depth, h.indent, h.optional, h.keys, h.room⟩

theorem rest_take {ch : Char} (hc : s.place.rest = ch :: rest) (t : Token) :
    (s.take 1 t).place.rest = rest := by
  show (s.place.advance).rest = rest
  rw [Cursor.rest_advance, hc]
  rfl

-- ==================================================== steps

variable {ch : Char} {Q : Scan → Prop}

/-- One token: blanks before it are skipped, and the step that reads it is left to be shown. -/
theorem leads_token (h : Within s d ts) (hc : s.place.rest = run ++ ch :: rest)
    (hrun : IsSpacing run) (hstart : Starts (ch :: rest))
    (hstep : ∀ m, MovesTo s m run.length → Within m d ts → m.place.rest = ch :: rest →
      ∃ s', m.token ch rest.head? = .ok s' ∧ s'.isOver = false ∧
        s'.place.rest.length ≤ rest.length ∧ Q s') :
    ∃ s', Leads s s' ∧ Q s' := by
  obtain ⟨m, hmoves, hm, hplace, hs⟩ := step_token h hc hrun hstart
  obtain ⟨s', htoken, hover, hless, hQ⟩ := hstep m hmoves hm hplace
  refine ⟨s', leads_of_step (hs.trans htoken) hover ?_, hQ⟩
  rw [hc, List.length_append, List.length_cons]
  omega

/-- The signs of brackets and their tokens. -/
inductive Opens : Char → Token → Prop
  | sequence : Opens '[' .flowSequence
  | mapping : Opens '\x7b' .flowMapping

/-- The signs that close, and their tokens. -/
inductive Closes : Char → Token → Prop
  | sequence : Closes ']' .flowSequenceEnd
  | mapping : Closes '\x7d' .flowMappingEnd

/-- A sign is no mark of a document. -/
theorem token_of_sign (hc : s.place.rest = ch :: rest) (hminus : ch ≠ '-') (hpoint : ch ≠ '.') :
    s.place.atTriple '-' = false ∧ s.place.atTriple '.' = false := by
  constructor <;> rw [Bool.eq_false_iff] <;> intro htriple <;>
    obtain ⟨more, heq, _⟩ := QuotedScalar.atTriple_iff.1 htriple <;> rw [hc] at heq <;>
    cases heq
  · exact hminus rfl
  · exact hpoint rfl

/-- An opening sign is one token. -/
theorem token_opens (hc : s.place.rest = ch :: rest) (ho : Opens ch t) :
    s.token ch rest.head? = s.openBracket t := by
  obtain ⟨hminus, hpoint⟩ := token_of_sign hc (by cases ho <;> decide) (by cases ho <;> decide)
  unfold token
  rw [hminus, hpoint, Bool.and_false]
  cases ho <;> rfl

/-- So is a closing sign. -/
theorem token_closes (hc : s.place.rest = ch :: rest) (ho : Closes ch t) :
    s.token ch rest.head? = s.closeBracket t := by
  obtain ⟨hminus, hpoint⟩ := token_of_sign hc (by cases ho <;> decide) (by cases ho <;> decide)
  unfold token
  rw [hminus, hpoint, Bool.and_false]
  cases ho <;> rfl

/-- So is a comma. -/
theorem token_comma (hc : s.place.rest = ',' :: rest) :
    s.token ',' rest.head? = s.flowEntry := by
  obtain ⟨hminus, hpoint⟩ := token_of_sign hc (by decide) (by decide)
  unfold token
  rw [hminus, hpoint, Bool.and_false]
  rfl

/-- So is a colon between brackets. -/
theorem token_colon (hc : s.place.rest = ':' :: rest) (hflow : s.inFlow = true) :
    s.token ':' rest.head? = s.valueSign := by
  obtain ⟨hminus, hpoint⟩ := token_of_sign hc (by decide) (by decide)
  unfold token
  rw [hminus, hpoint, Bool.and_false, hflow]
  rfl

/-- A quote starts a scalar, which may be a key. -/
theorem token_quote (hc : s.place.rest = '"' :: rest) :
    s.token '"' rest.head? = s.keyed (readQuoted true) := by
  obtain ⟨hminus, hpoint⟩ := token_of_sign hc (by decide) (by decide)
  unfold token
  rw [hminus, hpoint, Bool.and_false]
  simp

/-- A tab starts no token. -/
theorem token_tab (hc : s.place.rest = '\t' :: rest) :
    s.token '\t' rest.head? = malformed := by
  obtain ⟨hminus, hpoint⟩ := token_of_sign hc (by decide) (by decide)
  unfold token
  rw [hminus, hpoint, Bool.and_false]
  simp [startsPlain, isIndicator, isSpaceOrTab]

theorem Opens.starts (ho : Opens ch t) (rest : List Char) : Starts (ch :: rest) := by
  rintro _ ⟨⟩
  cases ho <;> decide

theorem Closes.starts (ho : Closes ch t) (rest : List Char) : Starts (ch :: rest) := by
  rintro _ ⟨⟩
  cases ho <;> decide

/-- Behind an opening bracket a key may start. -/
theorem leads_open (h : Within s d ts) (ho : Opens ch t) (hc : s.place.rest = run ++ ch :: rest)
    (hrun : IsSpacing run) :
    ∃ s', Leads s s' ∧ Within s' (d + 1) (ts ++ [t]) ∧ s'.place.rest = rest ∧
      s'.keyAllowed = true := by
  refine leads_token h hc hrun (ho.starts rest) fun m _ hm hplace => ?_
  have htoken : m.token ch rest.head? = .ok { m.remembered.take 1 t with
      depth := m.remembered.depth + 1, keyAllowed := true } := by
    rw [token_opens hplace ho]
    unfold openBracket
    rw [hm.rememberKey]
    rfl
  have hrest : (m.remembered.take 1 t).place.rest = rest :=
    rest_take (by rw [place_remembered]; exact hplace) t
  have hadded := hm.remembered.take 1 t
  have hwithin : Within { m.remembered.take 1 t with
      depth := m.remembered.depth + 1, keyAllowed := true } (d + 1) (ts ++ [t]) :=
    { tokens := hadded.tokens, count := hadded.count, indent := hadded.indent
      optional := hadded.optional, room := hadded.room
      depth := congrArg (· + 1) hadded.depth
      keys := fun k hk => Nat.le_succ_of_le (hadded.keys k hk) }
  refine ⟨_, htoken, hwithin.isOver (by cases ho <;> nofun), Nat.le_of_eq (congrArg _ hrest),
    hwithin, hrest, rfl⟩

/-- A closing sign leads out of a bracket. -/
theorem leads_close (h : Within s (d + 1) ts) (ho : Closes ch t)
    (hc : s.place.rest = run ++ ch :: rest) (hrun : IsSpacing run) :
    ∃ s', Leads s s' ∧ Within s' d (ts ++ [t]) ∧ s'.place.rest = rest := by
  refine leads_token h hc hrun (ho.starts rest) fun m _ hm hplace => ?_
  have htoken : m.token ch rest.head? = .ok { m.keyless.take 1 t with
      depth := m.keyless.depth - 1, keyAllowed := false } := by
    rw [token_closes hplace ho]
    unfold closeBracket
    rw [hm.forgetKey]
    rfl
  have hrest : (m.keyless.take 1 t).place.rest = rest := rest_take hplace t
  have hadded := hm.keyless.take 1 t
  have hwithin : Within { m.keyless.take 1 t with
      depth := m.keyless.depth - 1, keyAllowed := false } d (ts ++ [t]) :=
    { tokens := hadded.tokens, count := hadded.count, indent := hadded.indent
      optional := hadded.optional, room := hadded.room
      depth := congrArg (· - 1) hadded.depth
      keys := fun k hk => by
        have hle := hadded.keys k hk
        have hne := ne_depth_of_mem_keyless hk
        rw [hm.depth] at hne
        omega }
  exact ⟨_, htoken, hwithin.isOver (by cases ho <;> nofun), Nat.le_of_eq (congrArg _ hrest),
    hwithin, hrest⟩

/-- Behind a comma, too, a key may start. -/
theorem leads_comma (h : Within s d ts) (hc : s.place.rest = run ++ ',' :: rest)
    (hrun : IsSpacing run) :
    ∃ s', Leads s s' ∧ Within s' d (ts ++ [.flowEntry]) ∧ s'.place.rest = rest ∧
      s'.keyAllowed = true := by
  refine leads_token h hc hrun (by rintro _ ⟨⟩; decide) fun m _ hm hplace => ?_
  have htoken : m.token ',' rest.head? =
      .ok { m.keyless.take 1 .flowEntry with keyAllowed := true } := by
    rw [token_comma hplace]
    unfold flowEntry
    rw [hm.forgetKey]
    rfl
  have hrest : (m.keyless.take 1 .flowEntry).place.rest = rest :=
    rest_take hplace .flowEntry
  have hwithin := (hm.keyless.take 1 .flowEntry).allow true
  have hover := hwithin.isOver (by nofun)
  exact ⟨_, htoken, hover, Nat.le_of_eq (congrArg _ hrest), hwithin, hrest, rfl⟩

-- ==================================================== strings

open Json (Letter quoted raws)
open QuotedScalar (Marked folded scan_quoted)

/-- The token of a string. -/
def stringToken (l : List Letter) : Token := .scalar (folded l) false

variable {l : List Letter}

/-- A string is read with its place remembered, unless a document mark is in it. -/
theorem keyed_quoted (h : Within s d ts) (hc : s.place.rest = quoted l ++ rest) :
    (¬Marked (raws l) → s.keyed (readQuoted true) =
      .ok { s.remembered.push (stringToken l) with
        place := s.place.advanceBy (quoted l).length, keyAllowed := false }) ∧
      (Marked (raws l) → s.keyed (readQuoted true) = malformed) := by
  obtain ⟨hread, hmark⟩ := scan_quoted hc h.room
  unfold keyed readQuoted
  rw [h.rememberKey]
  dsimp only [bind, Except.bind]
  rw [place_remembered]
  constructor
  · intro hnone
    rw [hread hnone]
    rfl
  · intro hmarked
    rw [hmark hmarked]
    rfl

theorem starts_quoted (l : List Letter) (rest : List Char) : Starts (quoted l ++ rest) := by
  rintro _ ⟨⟩
  decide

/-- A key may have started, after so many tokens, at the start of these characters. -/
structure KeyBehind (s : Scan) (before : Nat) (cs : List Char) : Prop where
  exists_key : ∃ (c : Cursor) (old : List (Nat × PossibleKey)) (column : Nat),
    s.keys = (s.depth, ⟨before, false, c.index, c.line, column⟩) :: old ∧
    (∀ k ∈ old, k.1 ≠ s.depth) ∧ c.rest = cs ++ s.place.rest ∧ s.place = c.advanceBy cs.length

/-- Behind a string the scan goes on, unless a document mark is in it. -/
theorem outcome_string (h : Within s d ts) (hc : s.place.rest = run ++ (quoted l ++ rest))
    (hrun : IsSpacing run) :
    Outcome (¬Marked (raws l)) s fun s' =>
      Within s' d (ts ++ [stringToken l]) ∧ s'.place.rest = rest ∧
        (d ≠ 0 → s.keyAllowed = true → s'.KeyBehind ts.length (quoted l)) := by
  obtain ⟨m, hmoves, hm, hplace, hstep⟩ := step_token h hc hrun (starts_quoted l rest)
  obtain ⟨hread, hmark⟩ := keyed_quoted hm hplace
  rw [token_quote hplace] at hstep
  constructor
  · intro hnone
    have hrest : (m.place.advanceBy (quoted l).length).rest = rest :=
      Cursor.rest_advanceBy_length hplace
    have hadded := hm.remembered.take 0 (stringToken l)
    have hwithin : Within { m.remembered.push (stringToken l) with
        place := m.place.advanceBy (quoted l).length, keyAllowed := false } d
        (ts ++ [stringToken l]) :=
      { tokens := hadded.tokens, count := hadded.count, depth := hadded.depth
        indent := hadded.indent, optional := hadded.optional, keys := hadded.keys
        room := Cursor.rest_le_size_advanceBy _ hm.room }
    refine ⟨_, leads_of_step (hstep.trans (hread hnone)) (hwithin.isOver nofun) ?_, hwithin, hrest,
      fun hd hkey => ?_⟩
    · show (m.place.advanceBy (quoted l).length).rest.length < _
      rw [hrest, hc]
      simp [quoted]
      omega
    · have hallowed : m.keyAllowed = true := (hmoves.allowed (h.depth ▸ hd)).trans hkey
      have hremembered : m.remembered =
          { m.keyless with keys := (m.depth, m.keyHere) :: m.keyless.keys } := if_pos hallowed
      refine ⟨m.place, m.keyless.keys, m.place.column, ?_, ?_, ?_, rfl⟩
      · show m.remembered.keys = (m.remembered.depth, _) :: _
        rw [hremembered, ← hm.count]
        rfl
      · show ∀ k ∈ m.keyless.keys, k.1 ≠ m.remembered.depth
        rw [hremembered]
        exact fun k hk => ne_depth_of_mem_keyless (s := m) hk
      · show m.place.rest = quoted l ++ (m.place.advanceBy (quoted l).length).rest
        rw [hrest, hplace]
        rfl
  · intro hmarked
    exact fails_of_step (hstep.trans (hmark (not_not.1 hmarked)))

-- ==================================================== names

/-- A key may be so long: on one line, and not more than 1024 characters. -/
def Fits (cs : List Char) : Prop := (∀ ch ∈ cs, isBreak ch = false) ∧ cs.length ≤ 1024

instance (cs : List Char) : Decidable (Fits cs) :=
  decidable_of_iff ((cs.all fun ch => !isBreak ch) = true ∧ cs.length ≤ 1024) (by simp [Fits])

/-- A name is too old for a key if it has a break in it or is too long. -/
theorem isStale_eq {c : Cursor} {cs : List Char} (hc : c.rest = cs ++ rest)
    (hplace : s.place = c.advanceBy cs.length) (hreturn : '\r' ∉ cs) (before column : Nat) :
    s.isStale ⟨before, false, c.index, c.line, column⟩ = !decide (Fits cs) := by
  have hindex := Cursor.index_advanceBy hc
  have hline := Cursor.line_advanceBy_iff hc hreturn
  have hiff : s.isStale ⟨before, false, c.index, c.line, column⟩ = false ↔ Fits cs := by
    unfold isStale Fits
    rw [hplace, Bool.or_eq_false_iff, bne_eq_false_iff_eq, decide_eq_false_iff_not, ← hline,
      hindex]
    refine and_congr ⟨Eq.symm, Eq.symm⟩ ?_
    simp only [Nat.add_sub_cancel_left, Nat.not_lt]
  cases hstale : s.isStale ⟨before, false, c.index, c.line, column⟩ with
  | false => rw [decide_eq_true (hiff.1 hstale)]; rfl
  | true =>
      rw [decide_eq_false]
      · rfl
      · intro hfits
        rw [hiff.2 hfits] at hstale
        cases hstale

/-- Behind a name that can be a key the colon puts the key before it. -/
theorem valueSign_of_key {k : Nat × PossibleKey} (hflow : s.inFlow = true)
    (hk : s.keys.find? (fun k => k.1 == s.depth) = some k) :
    s.valueSign =
      .ok { (s.keyless.insert k.2.before .key).take 1 .value with keyAllowed := false } := by
  have hflow' : (s.keyless.insert k.2.before .key).inFlow = true := hflow
  unfold valueSign
  rw [hk]
  show Except.ok { (if (!(s.keyless.insert k.2.before .key).inFlow && _) = true then _
    else s.keyless.insert k.2.before .key).take 1 .value with keyAllowed := false } = _
  rw [hflow']
  rfl

/-- Behind one that cannot be the colon stands for itself. -/
theorem valueSign_of_none (hflow : s.inFlow = true)
    (hk : s.keys.find? (fun k => k.1 == s.depth) = none) :
    s.valueSign = .ok { s.take 1 .value with keyAllowed := false } := by
  unfold valueSign
  rw [hk]
  dsimp only
  rw [hflow, Bool.not_true, Bool.false_and, if_neg Bool.false_ne_true, if_pos rfl, hflow]
  rfl

/-- Puts the token of a key in front of the last token. -/
theorem Within.insert_key (h : Within s d (ts ++ [t])) :
    Within (s.insert ts.length .key) d (ts ++ [.key, t]) := by
  have hlater : s.count - ts.length = 1 := by
    rw [h.count, List.length_append, List.length_singleton]
    omega
  have htokens : s.tokens = t :: ts.reverse := by
    rw [h.tokens, List.reverse_append]
    rfl
  constructor
  · show s.tokens.take (s.count - ts.length) ++ .key :: s.tokens.drop (s.count - ts.length) = _
    rw [hlater, htokens]
    simp
  · show s.count + 1 = _
    rw [h.count]
    simp
  · exact h.depth
  · exact h.indent
  · exact h.optional
  · exact h.keys
  · exact h.room

/-- The tokens of a name up to its colon, if it is written with these characters. -/
def nameTokens (l : List Letter) (cs : List Char) : List Token :=
  if Fits cs then [.key, stringToken l, .value] else [stringToken l, .value]

/-- Behind the blanks and breaks that follow a key, its start is still known if all of it
fits. -/
theorem KeyBehind.find?_before {m : Scan} {cs after : List Char} {before : Nat}
    (h : s.KeyBehind before cs) (hmoves : MovesTo s m after.length)
    (hc : s.place.rest = after ++ rest) (hafter : IsSpacing after) (hreturn : '\r' ∉ cs) :
    (m.keys.find? fun k => k.1 == m.depth).map (fun k => k.2.before) =
      if Fits (cs ++ after) then some before else none := by
  obtain ⟨c, old, column, hkeys, hold, hbehind, hat⟩ := h.exists_key
  have hstale : m.isStale ⟨before, false, c.index, c.line, column⟩ =
      !decide (Fits (cs ++ after)) := by
    have hcs : c.rest = (cs ++ after) ++ rest := by
      rw [hbehind, hc, List.append_assoc]
    refine isStale_eq hcs ?_ ?_ _ _
    · rw [hmoves.place, hat, ← Cursor.advanceBy_add, List.length_append]
    · intro hmem
      rcases List.mem_append.1 hmem with hmem | hmem
      · exact hreturn hmem
      · rcases hafter _ hmem with heq | heq <;> cases heq
  have hnone (k : Nat × PossibleKey) (hk : k ∈ old.filter fun k => !m.isStale k.2) :
      ¬(k.1 == m.depth) = true := by
    rw [hmoves.depth, beq_iff_eq]
    exact hold k (List.mem_of_mem_filter hk)
  rw [hmoves.keys, hkeys]
  by_cases hfits : Fits (cs ++ after)
  · rw [if_pos hfits, List.filter_cons_of_pos (by rw [hstale, decide_eq_true hfits]; rfl),
      List.find?_cons_of_pos]
    · rfl
    · exact beq_iff_eq.2 hmoves.depth.symm
  · rw [if_neg hfits, List.filter_cons_of_neg (by rw [hstale, decide_eq_false hfits]; nofun),
      List.find?_eq_none.2 hnone]
    rfl

/-- The colon behind a string makes a key of it, if it fits. -/
theorem leads_colon {cs after : List Char} (h : Within s d (ts ++ [stringToken l])) (hd : d ≠ 0)
    (hkey : s.KeyBehind ts.length cs) (hc : s.place.rest = after ++ ':' :: rest)
    (hafter : IsSpacing after) (hreturn : '\r' ∉ cs) :
    ∃ s', Leads s s' ∧ Within s' d (ts ++ nameTokens l (cs ++ after)) ∧ s'.place.rest = rest := by
  refine leads_token h hc hafter (by rintro _ ⟨⟩; decide) fun m hmoves hm hplace => ?_
  have hflow := hm.inFlow hd
  have hbefore := hkey.find?_before hmoves hc hafter hreturn
  rw [token_colon hplace hflow]
  unfold nameTokens
  split at hbefore
  · next hfits =>
    obtain ⟨k, hfind, hk⟩ := Option.map_eq_some_iff.1 hbefore
    have hrest : ((m.keyless.insert ts.length .key).take 1 .value).place.rest = rest :=
      rest_take hplace .value
    have hwithin := (hm.keyless.insert_key.take 1 .value).allow false
    have hover := hwithin.isOver (by nofun)
    rw [List.append_assoc] at hwithin
    rw [valueSign_of_key hflow hfind, hk, if_pos hfits]
    exact ⟨_, rfl, hover, Nat.le_of_eq (congrArg _ hrest), hwithin, hrest⟩
  · next hfits =>
    have hrest : (m.take 1 .value).place.rest = rest := rest_take hplace .value
    have hwithin := (hm.take 1 .value).allow false
    have hover := hwithin.isOver (by nofun)
    rw [List.append_assoc] at hwithin
    rw [valueSign_of_none hflow (Option.map_eq_none_iff.1 hbefore), if_neg hfits]
    exact ⟨_, rfl, hover, Nat.le_of_eq (congrArg _ hrest), hwithin, hrest⟩

-- ==================================================== words

open PlainScalar (isPlain EndsPlain scan_word)

/-- A word may start a plain scalar: with a character of no other use, or with a hyphen that
another such character follows. -/
inductive StartsWord : List Char → Prop
  | plain {ch : Char} {more : List Char} (hindicator : isIndicator ch = false) (hpoint : ch ≠ '.')
      (hmark : ch ≠ '\ufeff') : StartsWord (ch :: more)
  | hyphen {ch : Char} {more : List Char} (hhyphen : ch ≠ '-') : StartsWord ('-' :: ch :: more)

/-- A word starts with what is no sign. -/
theorem token_plain (hc : s.place.rest = ch :: rest) (hplain : isPlain ch = true)
    (hindicator : isIndicator ch = false) (hpoint : ch ≠ '.') :
    s.token ch rest.head? = s.plainScalar := by
  have hne {x : Char} (hx : isIndicator x = true) : (ch == x) = false := by
    rw [beq_eq_false_iff_ne]
    rintro rfl
    rw [hindicator] at hx
    cases hx
  have hminus : ch ≠ '-' := beq_eq_false_iff_ne.1 (hne rfl)
  obtain ⟨hhyphens, hpoints⟩ := token_of_sign hc hminus hpoint
  have hblank : (isIndicator ch || isSpaceOrTab ch || isBreak ch) = false := by
    simp only [isPlain, Bool.not_eq_true', Bool.or_eq_false_iff] at hplain
    rw [hindicator, hplain.1.1.1.1.1, hplain.1.1.1.1.2]
    rfl
  have hstarts : s.startsPlain ch rest.head? = true := by
    unfold startsPlain
    rw [hblank]
    rfl
  have hsign : (ch == '%') = false ∧ (ch == '[') = false ∧ (ch == '\x7b') = false ∧
      (ch == ']') = false ∧ (ch == '\x7d') = false ∧ (ch == ',') = false ∧ (ch == '-') = false ∧
      (ch == '?') = false ∧ (ch == ':') = false ∧ (ch == '*') = false ∧ (ch == '&') = false ∧
      (ch == '!') = false ∧ (ch == '|') = false ∧ (ch == '>') = false ∧ (ch == '\'') = false ∧
      (ch == '"') = false :=
    ⟨hne rfl, hne rfl, hne rfl, hne rfl, hne rfl, hne rfl, hne rfl, hne rfl, hne rfl, hne rfl,
      hne rfl, hne rfl, hne rfl, hne rfl, hne rfl, hne rfl⟩
  unfold token
  simp only [hhyphens, hpoints, hsign, hstarts, Bool.and_false, Bool.false_and,
    Bool.false_eq_true, if_false, if_true]

/-- Or with a hyphen that no blank follows. -/
theorem token_hyphen (hc : s.place.rest = '-' :: ch :: rest) (hplain : isPlain ch = true)
    (hne : ch ≠ '-') : s.token '-' (some ch) = s.plainScalar := by
  have hends : endsWord (some ch) = false := by
    simp only [isPlain, Bool.not_eq_true', Bool.or_eq_false_iff] at hplain
    show (isSpaceOrTab ch || isBreak ch) = false
    rw [hplain.1.1.1.1.1, hplain.1.1.1.1.2]
    rfl
  have hhyphens : s.place.atTriple '-' = false := by
    rw [Bool.eq_false_iff]
    intro htriple
    obtain ⟨more, heq, _⟩ := QuotedScalar.atTriple_iff.1 htriple
    rw [hc] at heq
    cases heq
    exact hne rfl
  have hpoints : s.place.atTriple '.' = false := by
    rw [Bool.eq_false_iff]
    intro htriple
    obtain ⟨more, heq, _⟩ := QuotedScalar.atTriple_iff.1 htriple
    rw [hc] at heq
    cases heq
  have hstarts : s.startsPlain '-' (some ch) = true := by
    unfold startsPlain
    rw [hends]
    simp
  unfold token
  rw [hhyphens, hpoints, hends, hstarts, Bool.and_false]
  simp

/-- What starts a word is read as a plain scalar. -/
theorem StartsWord.token {w : List Char} (hstart : StartsWord w) (hw : ∀ ch ∈ w, isPlain ch = true)
    (rest : List Char) :
    ∃ ch more, w ++ rest = ch :: more ∧ Starts (ch :: more) ∧
      ∀ m : Scan, m.place.rest = ch :: more → m.token ch more.head? = m.plainScalar := by
  cases hstart with
  | @plain ch more hindicator hpoint hmark =>
      have hplain := hw ch (List.mem_cons_self ..)
      refine ⟨ch, more ++ rest, rfl, ?_, fun m hc => token_plain hc hplain hindicator hpoint⟩
      rintro _ ⟨⟩
      simp only [isPlain, Bool.not_eq_true', Bool.or_eq_false_iff, beq_eq_false_iff_ne] at hplain
      refine ⟨?_, hplain.1.1.1.1.2, hplain.1.2, hmark⟩
      rintro rfl
      exact absurd hplain.1.1.1.1.1 (by decide)
  | @hyphen ch more hhyphen =>
      refine ⟨'-', ch :: (more ++ rest), rfl, by rintro _ ⟨⟩; decide, fun m hc => ?_⟩
      exact token_hyphen hc (hw ch (by simp)) hhyphen

/-- A word between brackets leads to one token. -/
theorem leads_word {w spacing : List Char} (h : Within s d ts) (hd : d ≠ 0)
    (hc : s.place.rest = run ++ (w ++ (spacing ++ rest))) (hrun : IsSpacing run)
    (hstart : StartsWord w) (hw : ∀ ch ∈ w, isPlain ch = true) (hspacing : IsSpacing spacing)
    (hrest : EndsPlain rest) :
    ∃ s', Leads s s' ∧ Within s' d (ts ++ [.scalar (w.map .char) true]) ∧
      s'.place.rest = rest := by
  obtain ⟨ch, more, heq, hstarts, htoken⟩ := hstart.token hw (spacing ++ rest)
  have hc' : s.place.rest = run ++ ch :: more := by rw [hc, heq]
  have hne : w ≠ [] := by
    rintro rfl
    cases hstart
  refine leads_token h hc' hrun hstarts fun m hmoves hm hplace => ?_
  have hremembered := hm.remembered
  obtain ⟨broke, hscan⟩ :=
    scan_word (m.remembered.indent + 1) hm.room (hplace.trans heq.symm) hne hw hspacing hrest
  have hend : (m.place.advanceBy (w.length + spacing.length)).rest = rest := by
    rw [← List.length_append]
    exact Cursor.rest_advanceBy_length
      (hplace.trans (heq.symm.trans (List.append_assoc ..).symm))
  have hplain : m.plainScalar = .ok { m.remembered.push (.scalar (w.map .char) true) with
      place := m.place.advanceBy (w.length + spacing.length), keyAllowed := broke } := by
    unfold plainScalar
    rw [hm.rememberKey]
    show Except.ok { m.remembered.push (.scalar ((PlainScalar.scan
      m.remembered.inFlow (m.remembered.indent + 1) m.remembered.place).1.map .char) true) with
        place := (PlainScalar.scan m.remembered.inFlow (m.remembered.indent + 1)
          m.remembered.place).2.1,
        keyAllowed := (PlainScalar.scan m.remembered.inFlow (m.remembered.indent + 1)
          m.remembered.place).2.2 } = _
    rw [hremembered.inFlow hd, place_remembered, hscan]
  have hadded := hremembered.take 0 (.scalar (w.map .char) true)
  have hwithin : Within { m.remembered.push (.scalar (w.map .char) true) with
      place := m.place.advanceBy (w.length + spacing.length), keyAllowed := broke } d
      (ts ++ [.scalar (w.map .char) true]) :=
    { tokens := hadded.tokens, count := hadded.count, depth := hadded.depth
      indent := hadded.indent, optional := hadded.optional, keys := hadded.keys
      room := Cursor.rest_le_size_advanceBy _ hm.room }
  refine ⟨_, (htoken m hplace).trans hplain, hwithin.isOver (by nofun), ?_, hwithin, hend⟩
  have hlength := congrArg List.length heq
  show (m.place.advanceBy (w.length + spacing.length)).rest.length ≤ more.length
  rw [hend]
  simp only [List.length_append, List.length_cons] at hlength
  have hw' := List.length_pos_iff.2 hne
  omega

-- ==================================================== ends

/-- No token starts with a tab. -/
theorem fails_tab {ws : List Char} (h : Within s d ts) (hc : s.place.rest = ws ++ rest)
    (hws : ∀ w ∈ ws, w = ' ' ∨ w = '\t' ∨ w = '\n') (htab : '\t' ∈ ws) : Fails s := by
  obtain ⟨run, more, rfl, hnone⟩ := List.eq_append_cons_of_mem htab
  have hrun : IsSpacing run := by
    intro w hw
    rcases hws w (List.mem_append_left _ hw) with rfl | rfl | rfl
    · exact Or.inl rfl
    · exact absurd hw hnone
    · exact Or.inr rfl
  rw [List.append_assoc, List.cons_append] at hc
  obtain ⟨m, _, _, hplace, hstep⟩ := step_token h hc hrun (by rintro _ ⟨⟩; decide)
  rw [token_tab hplace] at hstep
  exact fails_of_step hstep

/-- The end of the text behind all brackets. -/
theorem complete_end (h : Within s 0 ts) (hrun : IsSpacing s.place.rest) (fuel : Nat) :
    complete (fuel + 1) s = some (ts ++ [.streamEnd]) := by
  have hc : s.place.rest = s.place.rest ++ [] := (List.append_nil _).symm
  obtain ⟨allowed, _, hplace, hstep⟩ := step_eq h hc hrun nofun
  have hm := h.moved s.place.rest.length allowed
  have hend : (s.moved s.place.rest.length allowed).streamEnd =
      .ok ((s.moved s.place.rest.length allowed).keyless.push .streamEnd) := by
    unfold streamEnd
    rw [unindent_eq hm.indent (by omega), hm.forgetKey]
    rfl
  rw [hplace] at hstep
  have hover : ((s.moved s.place.rest.length allowed).keyless.push .streamEnd).isOver = true := rfl
  rw [complete_of_step (hstep.trans hend), if_pos hover]
  show some ((Token.streamEnd :: s.tokens).reverse) = _
  rw [h.tokens, List.reverse_cons, List.reverse_reverse]

end ApiAuthz.Yaml.Scan
