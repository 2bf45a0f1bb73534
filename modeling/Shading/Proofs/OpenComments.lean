import Shading.Proofs.Fillers

/-!
    Reading on behind an open comment.

    Of a line that continues a block comment, adapting declarations reads only what stands behind the
    first `*/`. A search for the two characters finds it (`openCommentEnd`); the search knows nothing of
    the machine, which reads the comment character by character. Both come to the same end: the tokens of
    the line are those of its part behind the cut, and the line leaves a comment open exactly when that
    part does, or when there is no `*/` to find (`resumes_openCommentEnd`). -/

namespace Shading

/-- The position at which a pattern first occurs in a text. -/
def Text.search (pattern : Text) : Text → Option Nat
  | [] => if pattern.isEmpty then some 0 else none
  | c :: s =>
    if pattern.isPrefixOf (c :: s) then some 0
    else (search pattern s).map (c.utf8Size + ·)

/-- Where a search for `*/` cuts a line: behind its first occurrence, or at the end of the line. -/
def openCommentEnd (line : Text) : Nat :=
  match Text.search ['*', '/'] line with
  | some position => position + 2
  | none => line.byteSize

/-- The line can be read from the cut, as if a comment that is open in front of the line ended there. -/
structure Resumes (line : Text) (cut : Nat) : Prop where
  /-- The cut lies between two characters or at an end of the line. -/
  boundary : ∃ front back, line = front ++ back ∧ front.byteSize = cut
  /-- What lines are cut into is what stands on the two sides. -/
  halves : commentRest line = line.takeBytes cut ∧ afterComment line = line.dropBytes cut
  tokens : tokensFrom true line = (tokens (line.dropBytes cut)).map (Token.shift cut)
  closed : Closes line → endsInComment true line = endsInComment false (line.dropBytes cut)
  unclosed : ¬ Closes line → tokensFrom true line = [] ∧ endsInComment true line = true

/-! ### The search -/

theorem isPrefixOf_closing {c : Char} {s : Text} :
    List.isPrefixOf ['*', '/'] (c :: s) = true ↔ c = '*' ∧ s.head? = some '/' := by
  rw [List.isPrefixOf_iff_prefix, List.cons_prefix_cons, List.singleton_prefix_iff_head?_eq_some,
    eq_comm (a := '*')]

theorem search_of_not_closes {s : Text} (h : ¬ Closes s) : Text.search ['*', '/'] s = none := by
  induction s with
  | nil => rfl
  | cons c s ih =>
    rw [closes_cons, ← isPrefixOf_closing, not_or] at h
    rw [Text.search, if_neg h.1, ih h.2]
    rfl

/-- Behind a text that closes no comment the search finds the delimiter that comes next. -/
theorem search_closing {body : Text} (h : ¬ Closes body) (rest : Text) :
    Text.search ['*', '/'] (body ++ '*' :: '/' :: rest) = some body.byteSize := by
  induction body with
  | nil => rfl
  | cons c body ih =>
    rw [closes_cons, not_or] at h
    have hprefix : ¬ List.isPrefixOf ['*', '/'] (c :: (body ++ '*' :: '/' :: rest)) = true := by
      rw [isPrefixOf_closing]
      cases body with
      | nil => simp
      | cons d body => exact h.1
    rw [List.cons_append, Text.search, if_neg hprefix, ih h.2]
    rfl

/-- The search cuts a line where what it carries of an open comment ends. -/
theorem openCommentEnd_eq (line : Text) : openCommentEnd line = (commentRest line).byteSize := by
  rcases commentRest_cases line with ⟨hnot, hrest, -⟩ | ⟨body, hbody, hrest, hline⟩
  · rw [openCommentEnd, search_of_not_closes hnot, hrest]
  · have hsearch := search_closing hbody (afterComment line)
    rw [← hline] at hsearch
    rw [openCommentEnd, hsearch, hrest, Text.byteSize_append]
    rfl

/-! ### The machine -/

/-- A line that continues a comment ends as its part behind the comment does, if the comment is closed on
    it, and in the comment otherwise. -/
theorem endsInComment_true (line : Text) :
    (Closes line → endsInComment true line = endsInComment false (afterComment line)) ∧
      (¬ Closes line → endsInComment true line = true) := by
  constructor
  · intro hcloses
    rcases commentRest_cases line with ⟨hnot, -, -⟩ | ⟨body, hbody, -, hline⟩
    · exact absurd hcloses hnot
    · have hplace : placeAfter (.start true) line = placeAfter (.start false) (afterComment line) := by
        have hread := placeAfter_closes (afterComment line) hbody
        rwa [← hline] at hread
      rw [endsInComment, hplace, endsInComment]
  · intro hnot
    have hplace : placeAfter (.start true) line = .blockComment := placeAfter_not_closes hnot
    rw [endsInComment, hplace]
    rfl

/-- The search for the closing delimiter and the machine agree: a line that continues a block comment is
    read as its part behind the cut, and where nothing is found all of it stays in the comment. -/
theorem resumes_openCommentEnd (line : Text) : Resumes line (openCommentEnd line) := by
  have hcut := commentRest_append_afterComment line
  have hfront : commentRest line = line.takeBytes (commentRest line).byteSize := by
    have htake := Text.takeBytes_byteSize_append (commentRest line) (afterComment line)
    rw [hcut] at htake
    exact htake.symm
  have hback : afterComment line = line.dropBytes (commentRest line).byteSize := by
    have hdrop := Text.dropBytes_byteSize_append (commentRest line) (afterComment line)
    rw [hcut] at hdrop
    exact hdrop.symm
  rw [openCommentEnd_eq]
  refine ⟨⟨_, _, hcut.symm, rfl⟩, ⟨hfront, hback⟩, ?_, ?_, ?_⟩
  · rw [← hback]
    exact tokensFrom_true line
  · rw [← hback]
    exact (endsInComment_true line).1
  · intro hnot
    refine ⟨?_, (endsInComment_true line).2 hnot⟩
    rcases commentRest_cases line with ⟨-, -, hafter⟩ | ⟨body, -, -, hline⟩
    · rw [tokensFrom_true, hafter]
      rfl
    · have hcloses : Closes line := ⟨body, afterComment line, by simpa using hline.symm⟩
      exact absurd hcloses hnot

/-- A star in front of the delimiter and characters of several bytes, and a comment that stays open. -/
example : openCommentEnd "é**/ b".toList = 5 ∧ openCommentEnd "é/*".toList = 4 := by decide

end Shading
