/-
Which strings folding leaves alone. A run of raw blanks and breaks comes to itself if it is
blanks alone, or breaks alone that count as themselves; any other run comes to less, or to as
much of something else. Folding never makes more of a string, so it leaves the string alone
exactly if it leaves every run alone (`folded_eq_iff`).

# Lengths

That each run has to stay as it is does not follow at once from the whole being the same: a run
that shrinks might be made up for elsewhere. Nothing grows, though (`length_foldedGap_le`,
`length_foldedFrom_le`), so in a whole that stays as long as it was every part does. The induction
is on the letters with the run in front of them, and at a letter that ends the run the equation of
the whole is split into that of the run and that of the rest (`foldedFrom_cons_eq_iff`).

# Pairs of escapes

A character beyond the first 65536 may be written by the escapes of its two halves, and these are
read as two halves, which makes the string longer by one. A half is no character, and folding takes
none away that was escaped (`points_subset_foldedFrom`), so what is read is no text then, whatever
else was folded (`not_isPair_of_folded`). Hence the lengths are compared for strings without pairs,
and that there are none is part of the condition. Brought together again to the nearest text, the
two halves are the character that was meant (`nearest_folded`).

# Unfolded

The condition on runs is put as one on the letters of the string in a row, raw or not
(`Unfolded`): no next-line character stands raw, since it counts as a line feed, and no raw space
stands at a raw break. That is a chain, so it can be taken apart where a run ends
(`unfolded_append`, `unfolded_cons`).
-/
import ApiAuthz.Proofs.Yaml.QuotedScalar
import Mathlib.Data.List.Chain

namespace ApiAuthz.Yaml.QuotedScalar

open Json (Letter raws)

/-- A raw space stands right before a raw break, or right behind one. -/
def SpaceAtBreak (a b : Option Char) : Prop :=
  (a = some ' ' ∧ b.any isBreak = true) ∨ (a.any isBreak = true ∧ b = some ' ')

/-- No raw break counts as another character, and no space is at a raw break. -/
def Unfolded (os : List (Option Char)) : Prop :=
  some '\u0085' ∉ os ∧ os.IsChain fun a b => ¬SpaceAtBreak a b

variable {run blanks more : List Char} {os : List (Option Char)} {s : List Letter}

-- ==================================================== lengths

/-- Each break is fed as one character. -/
theorem length_fedBreaks_le (cs : List Char) : (fedBreaks cs).length ≤ cs.length := by
  unfold fedBreaks
  rw [List.length_map]
  exact List.length_filter_le ..

theorem length_firstFed_le (b : Char) (later : List Char) : (firstFed b later).length ≤ 1 := by
  unfold firstFed
  split
  · exact Nat.le_refl _
  · split
    · exact Nat.le_refl _
    · exact Nat.zero_le _

/-- A gap does not grow when it is folded. -/
theorem length_foldedGap_le (hrun : ∀ ch ∈ run, isGap ch = true) :
    (foldedGap run).length ≤ run.length := by
  obtain ⟨blanks, hblanks, rfl | ⟨b, more, rfl, hb⟩⟩ := run_cases hrun
  · rw [foldedGap_blanks hblanks]
  · have hfirst := length_firstFed_le b (fedBreaks more)
    have hmore := length_fedBreaks_le more
    rw [foldedGap_append hblanks hb]
    simp only [List.length_append, List.length_cons]
    omega

/-- The characters of runs in strings. -/
def IsRun (run : List Char) : Prop := ∀ ch ∈ run, isGap ch = true ∧ 0x20 ≤ ch.toNat

theorem isRun_nil : IsRun [] := List.forall_mem_nil _

/-- A letter that may be folded makes a run longer. -/
theorem IsRun.concat {l : Letter} {ch : Char} (hrun : IsRun run) (hl : gapChar? l = some ch) :
    IsRun (run ++ [ch]) := by
  obtain ⟨_, hgap, _, _, hch⟩ := gapChar?_eq_some hl
  intro d hd
  rcases List.mem_append.1 hd with hd | hd
  · exact hrun d hd
  · rw [List.mem_singleton.1 hd]
    exact ⟨hgap, hch⟩

/-- A letter that is no pair is one code point. -/
theorem points_of_not_isPair {l : Letter} (h : l.isPair = false) : points l = [.char l.char] := by
  cases l with
  | pair high low hhigh hlow => cases h
  | raw | short | unit => rfl

/-- Without pairs a string does not grow when it is folded. -/
theorem length_foldedFrom_le (hrun : IsRun run) (hs : ∀ l ∈ s, l.isPair = false) :
    (foldedFrom run s).length ≤ run.length + s.length := by
  induction s generalizing run with
  | nil =>
      rw [foldedFrom, List.length_map]
      exact length_foldedGap_le fun ch hch => (hrun ch hch).1
  | cons l s ih =>
      rw [List.forall_mem_cons] at hs
      unfold foldedFrom
      split
      · next ch hl =>
        have h := ih (hrun.concat hl) hs.2
        rw [List.length_append, List.length_singleton] at h
        rw [List.length_cons]
        omega
      · have hgap := length_foldedGap_le fun ch hch => (hrun ch hch).1
        have h : (foldedFrom [] s).length ≤ 0 + s.length := ih isRun_nil hs.2
        rw [points_of_not_isPair hs.1, List.length_append, List.length_append, List.length_map,
          List.length_cons, List.length_cons]
        rw [List.length_nil]
        omega

-- ==================================================== runs

theorem isChain_of_forall_mem {α : Type} {R : α → α → Prop} {xs : List α}
    (h : ∀ a ∈ xs, ∀ b ∈ xs, R a b) : xs.IsChain R := by
  refine List.isChain_iff_forall_rel_of_append_cons_cons.2 ?_
  rintro a b before after rfl
  exact h a (by simp) b (by simp)

/-- Without raw breaks there is nothing to fold. -/
theorem unfolded_of_no_break (h : ∀ o ∈ os, o.any isBreak = false) : Unfolded os := by
  refine ⟨fun hmem => absurd (h _ hmem) (by decide), ?_⟩
  refine isChain_of_forall_mem ?_
  rintro a ha b hb (⟨_, hbreaks⟩ | ⟨hbreaks, _⟩)
  · rw [h b hb] at hbreaks
    cases hbreaks
  · rw [h a ha] at hbreaks
    cases hbreaks

/-- Without raw breaks nothing stands behind one. -/
theorem not_marked_of_no_break (h : ∀ o ∈ os, o.any isBreak = false) : ¬Marked os := by
  rintro ⟨b, tail, hsuffix, hb, _⟩
  have hnone := h _ (hsuffix.mem (List.mem_cons_self ..))
  rw [Option.any_some, hb] at hnone
  cases hnone

/-- Blanks without a break stay as they are. -/
theorem unfolded_blanks (h : ∀ ch ∈ blanks, isSpaceOrTab ch = true) :
    Unfolded (blanks.map some) := by
  refine unfolded_of_no_break fun o ho => ?_
  obtain ⟨ch, hch, rfl⟩ := List.mem_map.1 ho
  exact not_break_of_blank (h ch hch)

/-- Breaks that count as themselves, and nothing else. -/
def Separators (cs : List Char) : Prop := ∀ ch ∈ cs, isBreak ch = true ∧ fed ch = ch

/-- Breaks that are no line feeds stay as they are if no blank is among them. -/
theorem Separators.unfolded (h : Separators run) : Unfolded (run.map some) := by
  constructor
  · intro hmem
    obtain ⟨ch, hch, heq⟩ := List.mem_map.1 hmem
    cases heq
    exact absurd (h _ hch).2 (by decide)
  · refine isChain_of_forall_mem ?_
    rintro a ha b hb (⟨rfl, _⟩ | ⟨_, rfl⟩)
    · obtain ⟨ch, hch, heq⟩ := List.mem_map.1 ha
      cases heq
      exact absurd (h _ hch).1 (by decide)
    · obtain ⟨ch, hch, heq⟩ := List.mem_map.1 hb
      cases heq
      exact absurd (h _ hch).1 (by decide)

/-- In a string the only blank that stands for itself is the space. -/
theorem space_of_blank {ch : Char} (h : isSpaceOrTab ch = true) (hch : 0x20 ≤ ch.toNat) :
    ch = ' ' := by
  rw [isSpaceOrTab, Bool.or_eq_true, beq_iff_eq, beq_iff_eq] at h
  rcases h with rfl | rfl
  · rfl
  · exact absurd hch (by decide)

/-- A raw separator is fed as itself. -/
theorem fed_of_break {ch : Char} (hb : isBreak ch = true) (hch : 0x20 ≤ ch.toNat)
    (hne : ch ≠ '\u0085') : fed ch = ch := by
  simp only [isBreak, Bool.or_eq_true, beq_iff_eq] at hb
  rcases hb with (((rfl | rfl) | rfl) | rfl) | rfl
  · exact absurd hch (by decide)
  · exact absurd hch (by decide)
  · exact absurd rfl hne
  · rfl
  · rfl

/-- In a run of which nothing is folded, only breaks come behind a break. -/
theorem separators_of_unfolded {b : Char} (hb : isBreak b = true) (hrun : IsRun (b :: more))
    (h : Unfolded ((b :: more).map some)) : Separators (b :: more) := by
  induction more generalizing b with
  | nil =>
      refine List.forall_mem_singleton.2 ⟨hb, fed_of_break hb (hrun b (by simp)).2 ?_⟩
      rintro rfl
      exact h.1 (by simp)
  | cons d more ih =>
      have hself : fed b = b := by
        refine fed_of_break hb (hrun b (by simp)).2 ?_
        rintro rfl
        exact h.1 (by simp)
      have hchain := List.isChain_cons_cons.1 h.2
      have hd : isBreak d = true := by
        refine break_of_gap (hrun d (by simp)).1 ?_
        rw [Bool.eq_false_iff]
        intro hblank
        rw [space_of_blank hblank (hrun d (by simp)).2] at hchain
        exact hchain.1 (Or.inr ⟨hb, rfl⟩)
      refine List.forall_mem_cons.2 ⟨⟨hb, hself⟩, ih hd (fun ch hch => hrun ch (by simp [hch])) ?_⟩
      exact ⟨fun hmem => h.1 (List.mem_cons_of_mem _ hmem), hchain.2⟩

/-- Separators are fed as themselves. -/
theorem Separators.fedBreaks_eq (h : Separators run) : fedBreaks run = run := by
  unfold fedBreaks
  rw [List.filter_eq_self.2 fun ch hch => (h ch hch).1]
  exact List.map_congr_left (fun ch hch => (h ch hch).2) |>.trans (List.map_id _)

/-- A first break and the breaks behind it stay only if all of them count as themselves. -/
theorem separators_of_fed {b : Char} (hb : isBreak b = true)
    (hfirst : firstFed b (fedBreaks more) = [b]) (hmore : fedBreaks more = more) :
    Separators (b :: more) := by
  have hself : fed b = b := by
    unfold firstFed at hfirst
    split at hfirst
    · exact (List.cons.inj hfirst).1
    · split at hfirst
      · cases hfirst
        cases hb
      · cases hfirst
  have hlength : (more.filter isBreak).length = more.length := by
    have h := congrArg List.length hmore
    unfold fedBreaks at h
    rwa [List.length_map] at h
  have hall := List.length_filter_eq_length_iff.1 hlength
  refine List.forall_mem_cons.2 ⟨⟨hb, hself⟩, fun ch hch => ⟨hall ch hch, ?_⟩⟩
  unfold fedBreaks at hmore
  rw [List.filter_eq_self.2 hall] at hmore
  exact List.map_inj_left.1 (hmore.trans (List.map_id more).symm) ch hch

/-- A run comes to itself if nothing of it is folded. -/
theorem foldedGap_eq_iff (hrun : IsRun run) : foldedGap run = run ↔ Unfolded (run.map some) := by
  obtain ⟨blanks, hblanks, rfl | ⟨b, more, rfl, hb⟩⟩ := run_cases fun ch hch => (hrun ch hch).1
  · exact iff_of_true (foldedGap_blanks hblanks) (unfolded_blanks hblanks)
  · rw [foldedGap_append hblanks hb]
    constructor
    · intro heq
      have hlength := congrArg List.length heq
      have hfirst := length_firstFed_le b (fedBreaks more)
      have hmore := length_fedBreaks_le more
      simp only [List.length_append, List.length_cons] at hlength
      have hnil : blanks = [] := List.length_eq_zero_iff.1 (by omega)
      rw [hnil, List.nil_append] at heq ⊢
      have hparts : firstFed b (fedBreaks more) = [b] ∧ fedBreaks more = more :=
        List.append_inj heq (by rw [List.length_singleton]; omega)
      exact (separators_of_fed hb hparts.1 hparts.2).unfolded
    · intro h
      rcases List.eq_nil_or_concat blanks with rfl | ⟨before, d, rfl⟩
      · have hall := separators_of_unfolded hb hrun h
        have hmore : Separators more := fun ch hch => hall ch (List.mem_cons_of_mem _ hch)
        have hb' := hall b (List.mem_cons_self ..)
        have hfeed : b ≠ '\n' := by
          rintro rfl
          exact absurd (hrun '\n' (by simp)).2 (by decide)
        have hfirst : firstFed b more = [b] := by
          unfold firstFed
          rw [hb'.2, if_pos hfeed]
        rw [hmore.fedBreaks_eq, hfirst]
        rfl
      · have hd : d = ' ' := space_of_blank (hblanks d (by simp)) (hrun d (by simp)).2
        have hchain := h.2
        rw [hd, List.concat_eq_append, List.append_assoc, List.map_append] at hchain
        exact absurd (Or.inl ⟨rfl, hb⟩) (List.isChain_append_cons_cons.1 hchain).2.1

-- ==================================================== strings

/-- A break is part of a gap. -/
theorem gap_of_any_break {o : Option Char} (h : o.any isBreak = true) :
    ∃ ch, o = some ch ∧ isGap ch = true := by
  cases o with
  | none => cases h
  | some ch => exact ⟨ch, rfl, by rw [isGap, show isBreak ch = true from h, Bool.or_true]⟩

/-- A run is folded on its own, in front of what is no gap. -/
theorem unfolded_append (hos : ∀ o ∈ os.head?, ∀ ch ∈ o, isGap ch = false) :
    Unfolded (run.map some ++ os) ↔ Unfolded (run.map some) ∧ Unfolded os := by
  have hend : ∀ x ∈ (run.map some).getLast?, ∀ y ∈ os.head?, ¬SpaceAtBreak x y := by
    intro x _ y hy hbeside
    obtain ⟨ch, rfl, hgap⟩ : ∃ ch, y = some ch ∧ isGap ch = true := by
      rcases hbeside with ⟨_, hbreak⟩ | ⟨_, rfl⟩
      · exact gap_of_any_break hbreak
      · exact ⟨' ', rfl, rfl⟩
    have hfalse := hos _ hy ch rfl
    rw [hgap] at hfalse
    cases hfalse
  unfold Unfolded
  rw [List.mem_append, not_or, List.isChain_append]
  constructor
  · rintro ⟨⟨hrun, hos⟩, hchain, hchain', _⟩
    exact ⟨⟨hrun, hchain⟩, hos, hchain'⟩
  · rintro ⟨⟨hrun, hchain⟩, hos, hchain'⟩
    exact ⟨⟨hrun, hos⟩, hchain, hchain', hend⟩

/-- What is no gap is not folded. -/
theorem unfolded_cons {o : Option Char} (ho : ∀ ch ∈ o, isGap ch = false) :
    Unfolded (o :: os) ↔ Unfolded os := by
  have hgap {ch : Char} (hch : o = some ch) : isGap ch ≠ true := by
    rw [ho ch hch]
    exact nofun
  have hstart : ∀ y ∈ os.head?, ¬SpaceAtBreak o y := by
    rintro y _ (⟨heq, _⟩ | ⟨hbreak, _⟩)
    · exact hgap heq rfl
    · obtain ⟨ch, heq, hch⟩ := gap_of_any_break hbreak
      exact hgap heq hch
  have hne : some '\u0085' ≠ o := fun heq => hgap heq.symm rfl
  unfold Unfolded
  rw [List.mem_cons, not_or, List.isChain_cons]
  constructor
  · rintro ⟨⟨_, hos⟩, _, hchain⟩
    exact ⟨hos, hchain⟩
  · rintro ⟨hos, hchain⟩
    exact ⟨⟨hne, hos⟩, hstart, hchain⟩

theorem isGap_of_gapChar?_none {l : Letter} (hl : gapChar? l = none) :
    ∀ ch ∈ l.raw?, isGap ch = false := by
  intro ch hch
  unfold gapChar? at hl
  rw [Option.mem_def.1 hch, Option.filter_some] at hl
  simpa using hl

/-- Behind a run, a letter that does not go on with it is read as it is. The run and what comes
behind the letter then come to themselves apart: neither gets longer by folding. -/
theorem foldedFrom_cons_eq_iff {l : Letter} (hrun : IsRun run) (hl : gapChar? l = none)
    (hpair : l.isPair = false) (hs : ∀ l ∈ s, l.isPair = false) :
    foldedFrom run (l :: s) = (run ++ (l :: s).map Letter.char).map .char ↔
      foldedGap run = run ∧ foldedFrom [] s = (s.map Letter.char).map .char := by
  have hgap := length_foldedGap_le fun ch hch => (hrun ch hch).1
  have hrest : (foldedFrom [] s).length ≤ 0 + s.length := length_foldedFrom_le isRun_nil hs
  have hchars : Function.Injective (List.map CodePoint.char) :=
    List.map_injective_iff.2 fun _ _ => CodePoint.char.inj
  rw [foldedFrom, hl]
  dsimp only
  rw [points_of_not_isPair hpair, List.map_append, List.map_cons, List.map_cons,
    List.singleton_append]
  constructor
  · intro heq
    have hlength := congrArg List.length heq
    simp only [List.length_append, List.length_cons, List.length_map] at hlength
    obtain ⟨hhead, htail⟩ := List.append_inj heq (by simp only [List.length_map]; omega)
    exact ⟨hchars hhead, (List.cons.inj htail).2⟩
  · rintro ⟨hhead, htail⟩
    rw [hhead, htail]

/-- Without pairs a string is read as it stands if nothing in it is folded. The induction is over
the letters, with the run in front of them. -/
theorem foldedFrom_eq_iff (hrun : IsRun run) (hs : ∀ l ∈ s, l.isPair = false) :
    foldedFrom run s = (run ++ s.map Letter.char).map .char ↔
      Unfolded (run.map some ++ raws s) := by
  induction s generalizing run with
  | nil =>
      have hchars : Function.Injective (List.map CodePoint.char) :=
        List.map_injective_iff.2 fun _ _ => CodePoint.char.inj
      show (foldedGap run).map CodePoint.char = (run ++ []).map CodePoint.char ↔
        Unfolded (run.map some ++ [])
      rw [List.append_nil, List.append_nil, hchars.eq_iff]
      exact foldedGap_eq_iff hrun
  | cons l s ih =>
      rw [List.forall_mem_cons] at hs
      cases hl : gapChar? l with
      | some ch =>
          obtain ⟨hraw, _, _, hchar, _⟩ := gapChar?_eq_some hl
          have hraws : run.map some ++ raws (l :: s) = (run ++ [ch]).map some ++ raws s := by
            show run.map some ++ (l.raw? :: raws s) = _
            rw [hraw]
            simp
          have hchars : run ++ (l :: s).map Letter.char = run ++ [ch] ++ s.map Letter.char := by
            rw [List.map_cons, hchar, List.append_assoc]
            rfl
          rw [hraws, hchars, foldedFrom, hl]
          exact ih (hrun.concat hl) hs.2
      | none =>
          have hstart := isGap_of_gapChar?_none hl
          have hraws : Unfolded (raws (l :: s)) ↔ Unfolded (raws s) := unfolded_cons hstart
          have hhead : ∀ o ∈ (raws (l :: s)).head?, ∀ ch ∈ o, isGap ch = false := by
            rintro _ ⟨⟩
            exact hstart
          rw [foldedFrom_cons_eq_iff hrun hl hs.1 hs.2, unfolded_append hhead, hraws,
            foldedGap_eq_iff hrun]
          exact and_congr_right fun _ => ih isRun_nil hs.2

-- ==================================================== pairs of escapes

/-- A number that opens a pair is that of a half which does. -/
theorem ofCode_of_opens {code : Nat} (h : CodePoint.opens code = true) :
    ∃ place, place < 1024 ∧ CodePoint.ofCode code = .half place ∧
      (CodePoint.half place).code = code := by
  simp only [CodePoint.opens, Bool.and_eq_true, decide_eq_true_eq] at h
  have hrange : CodePoint.firstHalf ≤ code ∧ code - CodePoint.firstHalf < 2048 := by
    unfold CodePoint.firstHalf
    omega
  refine ⟨⟨code - CodePoint.firstHalf, hrange.2⟩, ?_, dif_pos hrange, ?_⟩
  · rw [Fin.lt_def]
    show code - 0xd800 < 1024
    omega
  · exact Nat.add_sub_of_le hrange.1

/-- A number that closes one is that of a half which does. -/
theorem ofCode_of_closes {code : Nat} (h : CodePoint.closes code = true) :
    ∃ place, 1024 ≤ place ∧ CodePoint.ofCode code = .half place ∧
      (CodePoint.half place).code = code := by
  simp only [CodePoint.closes, Bool.and_eq_true, decide_eq_true_eq] at h
  have hrange : CodePoint.firstHalf ≤ code ∧ code - CodePoint.firstHalf < 2048 := by
    unfold CodePoint.firstHalf
    omega
  refine ⟨⟨code - CodePoint.firstHalf, hrange.2⟩, ?_, dif_pos hrange, ?_⟩
  · rw [Fin.le_def]
    show 1024 ≤ code - 0xd800
    omega
  · exact Nat.add_sub_of_le hrange.1

/-- No folding takes a code point of a letter away that is not blank. -/
theorem points_subset_foldedFrom {l : Letter} (hl : gapChar? l = none) (hmem : l ∈ s)
    (run : List Char) : points l ⊆ foldedFrom run s := by
  induction s generalizing run with
  | nil => cases hmem
  | cons l' s ih =>
      unfold foldedFrom
      rcases List.mem_cons.1 hmem with rfl | hmem
      · rw [hl]
        exact List.subset_append_of_subset_right _ (List.subset_append_left _ _)
      · cases gapChar? l' with
        | some ch => exact ih hmem _
        | none =>
            exact List.subset_append_of_subset_right _
              (List.subset_append_of_subset_right _ (ih hmem _))

/-- A pair of escapes is read as two halves, so what is read is no text. -/
theorem not_isPair_of_folded {cs : List Char} (h : folded s = cs.map .char) :
    ∀ l ∈ s, l.isPair = false := by
  intro l hmem
  cases l with
  | raw | short | unit => rfl
  | pair high low hhigh hlow =>
      obtain ⟨place, -, hhalf, -⟩ := ofCode_of_opens hhigh
      have hin : CodePoint.half place ∈ folded s :=
        points_subset_foldedFrom rfl hmem [] (hhalf ▸ List.mem_cons_self ..)
      rw [h] at hin
      obtain ⟨ch, -, hch⟩ := List.mem_map.1 hin
      cases hch

/-- A string of JSON is read as it is if nothing of it is folded and no character of it is given
by a pair of escapes. -/
theorem folded_eq_iff : folded s = (s.map Letter.char).map .char ↔
    Unfolded (raws s) ∧ ∀ l ∈ s, l.isPair = false := by
  constructor
  · intro h
    have hs := not_isPair_of_folded h
    exact ⟨(foldedFrom_eq_iff isRun_nil hs).1 h, hs⟩
  · rintro ⟨hunfolded, hs⟩
    exact (foldedFrom_eq_iff isRun_nil hs).2 hunfolded

-- ==================================================== strings on one line

/-- Without raw breaks all letters are read apart. -/
theorem foldedFrom_of_no_break (hblanks : ∀ ch ∈ blanks, isSpaceOrTab ch = true)
    (h : ∀ o ∈ raws s, o.any isBreak = false) :
    foldedFrom blanks s = blanks.map .char ++ s.flatMap points := by
  induction s generalizing blanks with
  | nil => rw [foldedFrom, foldedGap_blanks hblanks, List.flatMap_nil, List.append_nil]
  | cons l s ih =>
      have hl : l.raw?.any isBreak = false := h _ (List.mem_cons_self ..)
      have hs : ∀ o ∈ raws s, o.any isBreak = false := fun o ho => h o (List.mem_cons_of_mem _ ho)
      unfold foldedFrom
      split
      · next ch hgap =>
        obtain ⟨hraw, hisGap, _, hchar, _⟩ := gapChar?_eq_some hgap
        rw [hraw, Option.any_some] at hl
        have hblank : isSpaceOrTab ch = true := by rwa [isGap, hl, Bool.or_false] at hisGap
        have hpair : l.isPair = false := by
          cases l with
          | pair => cases hraw
          | raw | short | unit => rfl
        rw [ih (List.forall_mem_append.2 ⟨hblanks, List.forall_mem_singleton.2 hblank⟩) hs,
          List.flatMap_cons, points_of_not_isPair hpair, hchar, List.map_append, List.append_assoc]
        rfl
      · have hrest : foldedFrom [] s = [] ++ s.flatMap points := ih (List.forall_mem_nil _) hs
        rw [hrest, foldedGap_blanks hblanks, List.flatMap_cons, List.nil_append]

/-- The text nearest to the code points of letters is that of their characters: two halves of a
pair are next to each other. -/
theorem nearestChars_points (s : List Letter) :
    Text.nearestChars (s.flatMap points) = s.map Letter.char := by
  induction s with
  | nil => rfl
  | cons l s ih =>
      rw [List.flatMap_cons, List.map_cons]
      cases l with
      | raw | short | unit => exact (Text.nearestChars_char_cons _ _).trans (congrArg _ ih)
      | pair high low hhigh hlow =>
          obtain ⟨opening, hopening, hhigh', hcode⟩ := ofCode_of_opens hhigh
          obtain ⟨closing, hclosing, hlow', hcode'⟩ := ofCode_of_closes hlow
          show Text.nearestChars (.ofCode high.code :: .ofCode low.code :: s.flatMap points) = _
          rw [hhigh', hlow', Text.nearestChars, if_pos ⟨hopening, hclosing⟩, hcode, hcode', ih]
          rfl

/-- On one line, the text nearest to what a string is read as is what it denotes. -/
theorem nearest_folded (h : ∀ o ∈ raws s, o.any isBreak = false) :
    Text.nearest (folded s) = Json.contents s := by
  have hfolded : folded s = [] ++ s.flatMap points :=
    foldedFrom_of_no_break (List.forall_mem_nil _) h
  rw [hfolded, List.nil_append, Text.nearest, nearestChars_points]
  rfl

end ApiAuthz.Yaml.QuotedScalar
