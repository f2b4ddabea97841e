/-
Documents without numbers read back as written, whatever layout they are written
in, as long as only blank space stands beside the commas and brackets. What is
read is not always what was written: keys come back as texts, two keys with one
text as one member, and a pair as a list. `Value.readBack` says what comes back.

`Denotes t v` is the meaning of a text inside a longer one: it is read as `v`
whatever follows, with fuel no more than its length. Each way of writing has a
lemma that makes a denoting text from denoting parts, and `denotes_write` puts
them together along the value.

# Why without numbers

A number goes on as far as the characters behind it allow, so it would not be read
alike whatever follows it. The documents that are written here have none
(`NumberFree`); keys may be numbers, since a key is written as a string. A text
that starts a value starts with a character of its own (`starts`), never with a
blank, a closing bracket or a byte order mark, and that is what the readers of
lists and mappings look at before they go on.

# Lists and mappings

Both are an opening bracket, denoting parts joined by the layout, and a closing
one (`Layout.joined`, `Layout.enclose_cons`). The induction is on the list of
parts, with the fuel above the length of what is left and the parts read so far in
the accumulator (`items_denoted`, `members_denoted`). A member is a name, a colon
and a denoting text (`DenotesMember`).
-/
import ApiAuthz.Proofs.Attempt
import ApiAuthz.Proofs.Json.Strings

namespace ApiAuthz

-- ==================================================== what comes back

namespace Json

/-- The text of a key, empty for a key that has none. -/
def keyName (k : Scalar) : String :=
  match keyText k with
  | .ok s => s
  | .error _ => ""

end Json

namespace Value

mutual

/-- What a written value is read as: of two members with one text as their key,
the later value in the earlier place. -/
def readBack : Value → Value Broken
  | .list vs => .list (readBackItems vs)
  | .pair a b => .list [readBack a, readBack b]
  | .map ms => .map (Members.ofEntries (readBackMembers ms))
  | v => v.lift

/-- What items are read back as. -/
def readBackItems : List Value → List (Value Broken)
  | [] => []
  | v :: vs => readBack v :: readBackItems vs

/-- What members are read back as: their keys are texts then. -/
def readBackMembers : List (Scalar × Value) → List (Scalar Broken × Value Broken)
  | [] => []
  | (k, v) :: ms => (.text (Json.keyName k), readBack v) :: readBackMembers ms

end

theorem readBackItems_eq_map (vs : List Value) : readBackItems vs = vs.map readBack := by
  induction vs with
  | nil => rfl
  | cons v vs ih => rw [readBackItems, ih, List.map_cons]

theorem readBackMembers_eq_map (ms : List (Scalar × Value)) :
    readBackMembers ms = ms.map fun m => (.text (Json.keyName m.1), readBack m.2) := by
  induction ms with
  | nil => rfl
  | cons m ms ih => rw [readBackMembers, ih, List.map_cons]

/-- Values made of nulls, truth values and texts. Keys may be numbers: they are
written as texts. -/
inductive NumberFree : Value → Prop
  | null : NumberFree .null
  | bool (b : Bool) : NumberFree (.bool b)
  | text (s : String) : NumberFree (.text s)
  | list {vs : List Value} (h : ∀ v ∈ vs, NumberFree v) : NumberFree (.list vs)
  | map {ms : List (Scalar × Value)} (h : ∀ m ∈ ms, NumberFree m.2) : NumberFree (.map ms)

end Value

namespace Json

-- ==================================================== blank space

/-- Only blank space stands beside the commas and brackets. -/
structure Layout.Spaced (l : Layout) : Prop where
  between : ∀ d, ∃ ws, l.between d = ',' :: ws ∧ ∀ c ∈ ws, isSpace c = true
  edge : ∀ d, ∀ c ∈ l.edge d, isSpace c = true

/-- A line break is made of what may stand between tokens. -/
theorem isSpace_of_mem_lineBreak {width depth : Nat} {c : Char}
    (h : c ∈ Layout.lineBreak width depth) : isSpace c = true := by
  rcases List.mem_cons.1 h with rfl | h
  · rfl
  · rw [(List.mem_replicate.1 h).2]
    rfl

/-- So the layout with line breaks can be read. -/
theorem Layout.spaced_indented (width : Nat) : (Layout.indented width).Spaced where
  between := fun _ => ⟨_, rfl, fun _ h => isSpace_of_mem_lineBreak h⟩
  edge := fun _ _ h => isSpace_of_mem_lineBreak h

/-- What may stand between tokens is skipped. -/
theorem skipSpace_append {ws : List Char} (h : ∀ c ∈ ws, isSpace c = true) (cs : List Char) :
    skipSpace (ws ++ cs) = skipSpace cs := by
  exact List.dropWhile_append_of_pos h

theorem skipSpace_cons {c : Char} (h : isSpace c = false) (cs : List Char) :
    skipSpace (c :: cs) = c :: cs := by
  unfold skipSpace
  rw [List.dropWhile_cons, h]
  rfl

-- ==================================================== denoting texts

/-- The characters that written values start with. -/
def starts : List Char := ['"', 't', 'f', 'n', '[', '\x7b']

theorem not_isSpace_of_mem_starts {c : Char} (h : c ∈ starts) : isSpace c = false := by
  simp only [starts, List.mem_cons, List.not_mem_nil, or_false] at h
  rcases h with rfl | rfl | rfl | rfl | rfl | rfl <;> rfl

/-- The text is read as the value, whatever follows it. -/
structure Denotes (t : List Char) (v : Value Broken) : Prop where
  head : ∃ c cs, t = c :: cs ∧ c ∈ starts
  reads : ∀ fuel rest, t.length ≤ fuel → value fuel (t ++ rest) = .ok (v, rest)

namespace Denotes

variable {t : List Char} {v : Value Broken}

/-- No value is written as nothing. -/
theorem length_pos (h : Denotes t v) : 0 < t.length := by
  obtain ⟨c, cs, rfl, -⟩ := h.head
  exact Nat.succ_pos _

/-- Nothing is skipped in front of a value. -/
theorem skipSpace_append (h : Denotes t v) (rest : List Char) :
    skipSpace (t ++ rest) = t ++ rest := by
  obtain ⟨c, cs, rfl, hc⟩ := h.head
  exact skipSpace_cons (not_isSpace_of_mem_starts hc) _

end Denotes

/-- The word for nothing. -/
theorem denotes_null : Denotes "null".toList .null where
  head := ⟨_, _, rfl, by decide⟩
  reads := fun fuel rest h => by
    match fuel, h with
    | fuel + 1, _ => rfl

/-- The words for truth values. -/
theorem denotes_bool (b : Bool) : Denotes (if b then "true" else "false").toList (.bool b) where
  head := by cases b <;> exact ⟨_, _, rfl, by decide⟩
  reads := fun fuel rest h => by
    match b, fuel, h with
    | true, fuel + 1, _ => rfl
    | false, fuel + 1, _ => rfl

/-- A string denotes the text it was written for. -/
theorem denotes_string (s : String) : Denotes (string s) (.text s) where
  head := ⟨_, _, rfl, by decide⟩
  reads := fun fuel rest h => by
    match fuel, h with
    | fuel + 1, _ =>
      have hs : string s ++ rest = '"' :: (s.toList.flatMap escapedChar ++ '"' :: rest) := by
        unfold string
        simp
      rw [hs, value, stringRest_string]
      dsimp only
      rw [Scalar.ofPoints_points]

-- ==================================================== lists

/-- The texts of further items, each behind what stands between two. -/
def Layout.joined (l : Layout) (d : Nat) (ts : List (List Char)) : List Char :=
  ts.flatMap (l.between d ++ ·)

/-- What stands between two items is a comma and blank space. -/
theorem Layout.Spaced.joined_cons {l : Layout} (hl : l.Spaced) (d : Nat) (t : List Char)
    (ts : List (List Char)) : ∃ ws, (∀ c ∈ ws, isSpace c = true) ∧
      l.joined d (t :: ts) = ',' :: (ws ++ (t ++ l.joined d ts)) := by
  obtain ⟨ws, hws, hspace⟩ := hl.between d
  refine ⟨ws, hspace, ?_⟩
  unfold Layout.joined
  rw [List.flatMap_cons, hws, List.cons_append, List.cons_append, List.append_assoc]

theorem Layout.enclose_cons (l : Layout) (d : Nat) (o c : Char) (t : List Char)
    (ts : List (List Char)) (rest : List Char) :
    l.enclose d o c (t :: ts) ++ rest =
      o :: (l.edge (d + 1) ++ (t ++ (l.joined (d + 1) ts ++ (l.edge d ++ c :: rest)))) := by
  simp [Layout.enclose, Layout.joined]

variable {l : Layout}

/-- Items that denote values are read as these, behind those that have been read. -/
theorem items_denoted (hl : l.Spaced) {d : Nat} {ts : List (List Char)} {vs : List (Value Broken)}
    (h : List.Forall₂ Denotes ts vs) :
    ∀ {t : List Char} {v : Value Broken}, Denotes t v → ∀ (fuel : Nat) (acc : List (Value Broken))
      (rest : List Char), t.length + (l.joined (d + 1) ts).length < fuel →
      items fuel acc (t ++ (l.joined (d + 1) ts ++ (l.edge d ++ ']' :: rest))) =
        .ok (.list (acc.reverse ++ v :: vs), rest) := by
  induction h with
  | nil =>
      intro t v ht fuel acc rest hfuel
      match fuel with
      | fuel + 1 =>
        rw [items, ht.reads fuel _ (by omega)]
        simp only [Layout.joined, List.flatMap_nil, List.nil_append]
        rw [Json.skipSpace_append (hl.edge d), skipSpace_cons (by decide)]
        simp
  | @cons t' v' ts vs ht' _ ih =>
      intro t v ht fuel acc rest hfuel
      obtain ⟨ws, hspace, hjoined⟩ := hl.joined_cons (d + 1) t' ts
      have hpos := ht.length_pos
      match fuel with
      | fuel + 1 =>
        rw [hjoined] at hfuel ⊢
        simp only [List.length_cons, List.length_append] at hfuel
        rw [items, ht.reads fuel _ (by omega)]
        simp only [List.cons_append, List.append_assoc]
        rw [skipSpace_cons (rfl : isSpace ',' = false)]
        simp only
        rw [Json.skipSpace_append hspace, ht'.skipSpace_append,
          ih ht' fuel (v :: acc) rest (by omega)]
        simp

/-- Denoting texts between brackets denote the list of what they denote. -/
theorem denotes_list (hl : l.Spaced) (d : Nat) {ts : List (List Char)} {vs : List (Value Broken)}
    (h : List.Forall₂ Denotes ts vs) : Denotes (l.enclose d '[' ']' ts) (.list vs) where
  head := by cases h <;> exact ⟨_, _, rfl, by decide⟩
  reads := fun fuel rest hfuel => by
    cases h with
    | nil =>
        match fuel, hfuel with
        | fuel + 1, _ => rfl
    | @cons t v ts vs ht hts =>
        have hlength := congrArg List.length (l.enclose_cons d '[' ']' t ts [])
        simp only [List.length_append, List.length_cons, List.append_nil] at hlength
        match fuel with
        | 0 => omega
        | fuel + 1 =>
          rw [l.enclose_cons, value, Json.skipSpace_append (hl.edge (d + 1)), ht.skipSpace_append]
          obtain ⟨c, cs, rfl, hc⟩ := ht.head
          have hopen : c ≠ ']' := by
            rintro rfl
            exact absurd hc (by decide)
          rw [List.cons_append]
          split
          · next heq => exact absurd (List.cons.inj heq).1 hopen
          · rw [← List.cons_append, items_denoted hl hts ht fuel [] rest (by omega)]
            rfl

-- ==================================================== mappings

/-- The text is a name, a colon and a text that denotes the value. -/
def DenotesMember (t : List Char) (m : String × Value Broken) : Prop :=
  ∃ u, t = string m.1 ++ ':' :: ' ' :: u ∧ Denotes u m.2

/-- Named values as members put one after the other. -/
def entriesOf (es : List (String × Value Broken)) : List (Scalar Broken × Value Broken) :=
  es.map fun e => (.text e.1, e.2)

/-- The reader of members takes one of them and looks at what follows. -/
theorem members_denoted_step {t : List Char} {e : String × Value Broken} (ht : DenotesMember t e)
    {fuel : Nat} (acc : Members (Value Broken) Broken) (rest : List Char)
    (hfuel : t.length ≤ fuel) :
    members (fuel + 1) acc (t ++ rest) =
      match skipSpace rest with
      | '\x7d' :: rest => .ok (.map (Members.put (.text e.1) e.2 acc), rest)
      | ',' :: rest => members fuel (Members.put (.text e.1) e.2 acc) (skipSpace rest)
      | rest => .error (.unmet .comma rest) := by
  obtain ⟨u, rfl, hu⟩ := ht
  have hopen : string e.1 ++ ':' :: ' ' :: u ++ rest =
      '"' :: (e.1.toList.flatMap escapedChar ++ '"' :: (':' :: ' ' :: (u ++ rest))) := by
    simp [string]
  have hlength : u.length ≤ fuel := by
    simp only [List.length_append, List.length_cons] at hfuel
    omega
  rw [hopen, members, stringRest_string]
  simp only
  rw [skipSpace_cons (rfl : isSpace ':' = false)]
  simp only
  rw [show (' ' :: (u ++ rest)) = [' '] ++ (u ++ rest) from rfl,
    Json.skipSpace_append (List.forall_mem_singleton.2 rfl), hu.skipSpace_append]
  split
  · next he => cases (hu.reads fuel rest hlength).symm.trans he
  · next he =>
    cases (hu.reads fuel rest hlength).symm.trans he
    have hname := Scalar.ofPoints_points e.1
    exact hname ▸ rfl

/-- No member is written as nothing. -/
theorem DenotesMember.length_pos {t : List Char} {e : String × Value Broken}
    (h : DenotesMember t e) : 0 < t.length := by
  obtain ⟨u, rfl, -⟩ := h
  rw [List.length_append, List.length_cons]
  omega

theorem DenotesMember.skipSpace_append {t : List Char} {e : String × Value Broken}
    (h : DenotesMember t e) (rest : List Char) : skipSpace (t ++ rest) = t ++ rest := by
  obtain ⟨u, rfl, -⟩ := h
  rw [List.append_assoc]
  exact (denotes_string e.1).skipSpace_append _

/-- Members that denote entries are put into those that have been read. -/
theorem members_denoted (hl : l.Spaced) {d : Nat} {ts : List (List Char)}
    {es : List (String × Value Broken)} (h : List.Forall₂ DenotesMember ts es) :
    ∀ {t : List Char} {e : String × Value Broken}, DenotesMember t e → ∀ (fuel : Nat)
      (acc : Members (Value Broken) Broken) (rest : List Char),
      t.length + (l.joined (d + 1) ts).length < fuel →
      members fuel acc (t ++ (l.joined (d + 1) ts ++ (l.edge d ++ '\x7d' :: rest))) =
        .ok (.map ((entriesOf (e :: es)).foldl (fun ms e => Members.put e.1 e.2 ms) acc),
          rest) := by
  induction h with
  | nil =>
      intro t e ht fuel acc rest hfuel
      match fuel with
      | fuel + 1 =>
        rw [members_denoted_step ht _ _ (by omega)]
        simp only [Layout.joined, List.flatMap_nil, List.nil_append]
        rw [Json.skipSpace_append (hl.edge d), skipSpace_cons (by decide)]
        rfl
  | @cons t' e' ts es ht' _ ih =>
      intro t e ht fuel acc rest hfuel
      obtain ⟨ws, hspace, hjoined⟩ := hl.joined_cons (d + 1) t' ts
      have hpos := ht.length_pos
      match fuel with
      | fuel + 1 =>
        rw [hjoined] at hfuel ⊢
        simp only [List.length_cons, List.length_append] at hfuel
        rw [members_denoted_step ht _ _ (by omega)]
        simp only [List.cons_append, List.append_assoc]
        rw [skipSpace_cons (rfl : isSpace ',' = false)]
        simp only
        rw [Json.skipSpace_append hspace, ht'.skipSpace_append, ih ht' fuel _ rest (by omega)]
        rfl

/-- Denoting members between brackets denote the mapping that they make one
after the other. -/
theorem denotes_map (hl : l.Spaced) (d : Nat) {ts : List (List Char)}
    {es : List (String × Value Broken)} (h : List.Forall₂ DenotesMember ts es) :
    Denotes (l.enclose d '\x7b' '\x7d' ts) (.map (Members.ofEntries (entriesOf es))) where
  head := by cases h <;> exact ⟨_, _, rfl, by decide⟩
  reads := fun fuel rest hfuel => by
    cases h with
    | nil =>
        match fuel, hfuel with
        | fuel + 1, _ => rfl
    | @cons t e ts es ht hts =>
        have hlength := congrArg List.length (l.enclose_cons d '\x7b' '\x7d' t ts [])
        simp only [List.length_append, List.length_cons, List.append_nil] at hlength
        match fuel with
        | 0 => omega
        | fuel + 1 =>
          rw [l.enclose_cons, value, Json.skipSpace_append (hl.edge (d + 1)), ht.skipSpace_append]
          have hmembers := members_denoted (d := d) hl hts ht fuel [] rest (by omega)
          obtain ⟨u, rfl, -⟩ := ht
          simp only [string, List.cons_append, List.append_assoc] at hmembers ⊢
          exact hmembers

-- ==================================================== written values

/-- The written items denote what items are read back as. -/
theorem denotes_writeItems {d : Nat} {vs : List Value}
    (ih : ∀ v ∈ vs, ∀ t, write l d v = .ok t → Denotes t v.readBack) :
    ∀ {ts : List (List Char)}, writeItems l d vs = .ok ts →
      List.Forall₂ Denotes ts (vs.map Value.readBack) := by
  induction vs with
  | nil =>
      intro ts h
      rw [writeItems, Attempt.pure_eq_ok] at h
      rw [← h]
      exact List.Forall₂.nil
  | cons v vs ihs =>
      intro ts h
      obtain ⟨t, ht, h⟩ := Attempt.bind_eq_ok.1 h
      obtain ⟨us, hus, h⟩ := Attempt.bind_eq_ok.1 h
      obtain rfl := Attempt.pure_eq_ok.1 h
      have hrest := ihs (fun w hw => ih w (List.mem_cons_of_mem _ hw)) hus
      exact List.Forall₂.cons (ih v (List.mem_cons_self ..) t ht) hrest

/-- The written members denote what members are read back as. -/
theorem denotes_writeMembers {d : Nat} {ms : List (Scalar × Value)}
    (ih : ∀ m ∈ ms, ∀ t, write l d m.2 = .ok t → Denotes t m.2.readBack) :
    ∀ {ts : List (List Char)}, writeMembers l d ms = .ok ts →
      List.Forall₂ DenotesMember ts (ms.map fun m => (keyName m.1, m.2.readBack)) := by
  induction ms with
  | nil =>
      intro ts h
      rw [writeMembers, Attempt.pure_eq_ok] at h
      rw [← h]
      exact List.Forall₂.nil
  | cons m ms ihs =>
      intro ts h
      obtain ⟨key, hkey, h⟩ := Attempt.bind_eq_ok.1 h
      obtain ⟨t, ht, h⟩ := Attempt.bind_eq_ok.1 h
      obtain ⟨us, hus, h⟩ := Attempt.bind_eq_ok.1 h
      obtain rfl := Attempt.pure_eq_ok.1 h
      have hname : keyName m.1 = key := by
        unfold keyName
        rw [hkey]
      have hrest := ihs (fun n hn => ih n (List.mem_cons_of_mem _ hn)) hus
      refine List.Forall₂.cons ⟨t, ?_, ih m (List.mem_cons_self ..) t ht⟩ hrest
      rw [← hname]

/-- The text of a document without numbers denotes what it is read back as. -/
theorem denotes_write (hl : l.Spaced) {v : Value} (hv : v.NumberFree) :
    ∀ {d : Nat} {t : List Char}, write l d v = .ok t → Denotes t v.readBack := by
  induction hv with
  | null =>
      intro d t h
      cases h
      exact denotes_null
  | bool b =>
      intro d t h
      cases h
      exact denotes_bool b
  | text s =>
      intro d t h
      cases h
      exact denotes_string s
  | @list vs _ ih =>
      intro d t h
      obtain ⟨ts, hts, h⟩ := Attempt.bind_eq_ok.1 h
      obtain rfl := Attempt.pure_eq_ok.1 h
      rw [Value.readBack, Value.readBackItems_eq_map]
      exact denotes_list hl d (denotes_writeItems (fun v hv t ht => ih v hv ht) hts)
  | @map ms _ ih =>
      intro d t h
      obtain ⟨ts, hts, h⟩ := Attempt.bind_eq_ok.1 h
      obtain rfl := Attempt.pure_eq_ok.1 h
      have hdenotes := denotes_map hl d (denotes_writeMembers (fun m hm t ht => ih m hm ht) hts)
      rw [Value.readBack, Value.readBackMembers_eq_map]
      rw [entriesOf, List.map_map] at hdenotes
      exact hdenotes

/-- A denoting text as a whole is read as its value. -/
theorem Denotes.read_eq {t : List Char} {v : Value Broken} (h : Denotes t v) : read t = .ok v := by
  have hvalue := h.reads (2 * t.length + 2) [] (by omega)
  have hspace := h.skipSpace_append []
  rw [List.append_nil] at hvalue hspace
  obtain ⟨c, cs, rfl, hc⟩ := h.head
  have hmark : c ≠ '\ufeff' := by
    rintro rfl
    exact absurd hc (by decide)
  unfold read
  split
  · next heq => exact absurd (List.cons.inj heq).1 hmark
  · rw [hspace, hvalue]
    rfl

/-- A document without numbers, written with an indentation, is read back. -/
theorem read_indented {width : Nat} {v : Value} (hv : v.NumberFree) {s : String}
    (h : indented width v = .ok s) : read s.toList = .ok v.readBack := by
  obtain ⟨t, ht, h⟩ := Attempt.bind_eq_ok.1 h
  obtain rfl := Attempt.pure_eq_ok.1 h
  rw [String.toList_ofList]
  exact (denotes_write (Layout.spaced_indented width) hv ht).read_eq

end Json

end ApiAuthz
