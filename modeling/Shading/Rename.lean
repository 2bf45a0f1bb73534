import Shading.Edit

/-!
    Renaming of words.

    A list of renames is a finite map from words to their new spellings; the first entry for a word
    counts. All renames of a list are made in one pass over the tokens of a text, so no word is renamed
    twice, and a name inside a longer word, a number or a comment stays as it is. -/

namespace Shading

/-- One word and what it becomes. -/
structure Rename where
  source : String
  target : String
  deriving DecidableEq, Repr

/-- The new spelling of a token, if it is a word with an entry. -/
def newName? (renames : List Rename) (t : Token) : Option String :=
  (renames.find? fun r => t.isWord r.source).map (·.target)

/-- The edits that rename every word with an entry. -/
def wordEdits (renames : List Rename) (ts : List Token) : List Edit :=
  ts.filterMap fun t => (newName? renames t).map t.replacedBy

/-- The edits that rename the words with an entry that an opening parenthesis follows. -/
def callEdits (renames : List Rename) : List Token → List Edit
  | t :: u :: ts =>
    if u.isMark '(' then
      ((newName? renames t).map t.replacedBy).toList ++ callEdits renames (u :: ts)
    else callEdits renames (u :: ts)
  | _ => []

/-- Rename every word with an entry. -/
def renameWords (renames : List Rename) (s : Text) : Text :=
  splice (wordEdits renames (tokens s)) s

/-- Rename the words with an entry where they are called, that is, where the next token is an opening
    parenthesis. -/
def renameCalls (renames : List Rename) (s : Text) : Text :=
  splice (callEdits renames (tokens s)) s

theorem wordEdits_nil (ts : List Token) : wordEdits [] ts = [] := by
  induction ts with
  | nil => rfl
  | cons t ts ih => simp [wordEdits, newName?]

/-- Without renames nothing changes. -/
theorem renameWords_nil (s : Text) : renameWords [] s = s := by
  rw [renameWords, wordEdits_nil, splice_nil]

end Shading
