/-
Terminal control sequences. A sequence is an escape character and an opening
bracket, then digits, semicolons and question marks, and a letter that ends it.
Text that is shown elsewhere than on a terminal is shown without them.
-/

namespace ApiAuthz.Text

/-- What may stand between the bracket and the letter of a sequence. -/
def isSequenceParameter (c : Char) : Bool := c.isDigit || c == ';' || c == '?'

/-- What is behind a sequence, given what is behind its bracket; a sequence ends in
a letter. -/
def afterSequence? : List Char → Option (List Char)
  | [] => none
  | c :: cs =>
    if isSequenceParameter c then afterSequence? cs
    else if c.isAlpha then some cs
    else none

theorem length_lt_of_afterSequence? {cs rest : List Char} (h : afterSequence? cs = some rest) :
    rest.length < cs.length := by
  induction cs with
  | nil => cases h
  | cons c cs ih =>
    unfold afterSequence? at h
    split at h
    · exact Nat.lt_succ_of_lt (ih h)
    · split at h
      · cases h
        exact Nat.lt_succ_self _
      · cases h

/-- The text without sequences. -/
def withoutSequences : List Char → List Char
  | '\x1b' :: '[' :: cs =>
    match _ : afterSequence? cs with
    | some rest => withoutSequences rest
    | none => '\x1b' :: withoutSequences ('[' :: cs)
  | c :: cs => c :: withoutSequences cs
  | [] => []
termination_by cs => cs.length
decreasing_by
  · have := length_lt_of_afterSequence? ‹afterSequence? cs = some rest›
    simp only [List.length_cons]
    omega
  · simp
  · simp

end ApiAuthz.Text
