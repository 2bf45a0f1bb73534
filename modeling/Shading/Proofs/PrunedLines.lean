import Mathlib.Data.List.TakeWhile
import Shading.Proofs.Redeclaring
import Shading.Proofs.Switches

/-!
    Pruning as a pass over lines.

    Pruning finds the directives of a whole text and deletes their stretches all at once. The same comes
    of a pass over its lines that carries nothing from line to line but whether a block comment is open
    (`pruneLines`): a line whose tokens begin `# extension NAME : BEHAVIOR`, with one of the extensions
    and a behavior that switches it on, is cut down to what stands in front of the `#`, and to nothing
    if that is blank; every other line stays. -/

namespace Shading

/-- The tokens of a line begin with a directive that switches one of the extensions on. -/
def switchesOn (extensions : List String) : List Token → Bool
  | hash :: keyword :: name :: colon :: behavior :: _ =>
    hash.isMark '#' && keyword.isWord "extension" && extensions.any name.isWord &&
      colon.isMark ':' && ["enable", "require"].any behavior.isWord
  | _ => false

/-- Prune one line, which continues a block comment if `inComment` says so. -/
def pruneLine (extensions : List String) (inComment : Bool) (line : Text) : Text :=
  match tokensFrom inComment line with
  | [] => line
  | t :: ts =>
    if switchesOn extensions (t :: ts) then
      let lead := line.takeBytes t.start
      if lead.all isBlank then [] else lead
    else line

/-- Prune lines one by one. -/
def pruneLines (extensions : List String) : Bool → List Text → Text
  | _, [] => []
  | inComment, line :: lines =>
    pruneLine extensions inComment line ++
      pruneLines extensions (endsInComment inComment line) lines

/-! ### The directive of a line -/

theorem Token.any_isWord (words : List String) (t : Token) :
    words.any t.isWord = (t.kind == .word && words.any (·.toList == t.text)) :=
  Shading.any_isWord words ⟨[], t.kind, t.text⟩

/-- Behind a token of a line all others are on its line. -/
theorem takeWhile_lineStart_eq_self {ts : List Token} (h : ∀ t ∈ ts, t.lineStart = false) :
    ts.takeWhile (!·.lineStart) = ts := by
  rw [List.takeWhile_eq_self_iff]
  intro t ht
  rw [h t ht]
  rfl

section

variable {extensions : List String} {inComment : Bool} {line : Text}

/-- Of the tokens of a line only the first is the first on a line. -/
theorem lineStart_of_line (hline : line.firstLine = line) {t : Token} {ts : List Token}
    (h : tokensFrom inComment line = t :: ts) :
    t.lineStart = true ∧ ∀ u ∈ ts, u.lineStart = false := by
  have hhead := lineStart_head?_gather 0 (roles (.start inComment) line)
  rw [← tokensFrom, h] at hhead
  refine ⟨hhead, fun u hu => ?_⟩
  have hmem : u ∈ (tokensFrom inComment line).tail := by rwa [h]
  exact lineStart_of_mem_tail hline hmem

/-- On one line a directive is to be deleted exactly if the tokens of the line begin so. -/
theorem any_among_line (s : Text) {t : Token} {ts : List Token} (ht : t.lineStart = true)
    (hts : ∀ u ∈ ts, u.lineStart = false) :
    ((Pragma.among s (t :: ts)).any fun p =>
      p.names extensions && p.behaves Pragma.switchedOn) = switchesOn extensions (t :: ts) := by
  have hlater : Pragma.among s ts = [] := Pragma.among_eq_nil s hts
  rw [Pragma.among, ht, Bool.and_true, hlater, Pragma.stated?, takeWhile_lineStart_eq_self hts]
  rcases ts with _ | ⟨keyword, _ | ⟨name, _ | ⟨colon, _ | ⟨behavior, ts⟩⟩⟩⟩
  case cons.cons.cons.cons =>
    simp only [switchesOn, Token.any_isWord]
    cases t.isMark '#' <;> cases keyword.isWord "extension" <;> cases name.kind == .word <;>
      cases colon.isMark ':' <;> cases behavior.kind == .word <;>
      simp [Pragma.names, Pragma.behaves, Pragma.switchedOn]
  all_goals simp [switchesOn]

/-- A directive begins where the first token of its line does. -/
theorem Opens.exists_tokensFrom {lead : Text} {p : Pragma} (h : Opens inComment lead line p) :
    ∃ t ts, tokensFrom inComment line = t :: ts ∧ line.takeBytes t.start = lead := by
  obtain ⟨back, rfl⟩ := h.cut
  have hsight : sight (some '#') = sight none := rfl
  have hidle : ∀ x ∈ partRoles (.start inComment) lead (some '#'), x.2.isIdle = true := by
    rw [partRoles_congr hsight, partRoles_none]
    exact h.isIdle
  have hback : partPlace (.start inComment) lead (some '#') = .code := by
    rw [partPlace_congr hsight, partPlace_none, h.back]
  rw [tokensFrom_idle_append hidle hback]
  exact ⟨_, _, rfl, Text.takeBytes_byteSize_append lead ('#' :: back)⟩

/-- Of a single line pruning leaves what the pass leaves of it. -/
theorem pruneFrom_line (hline : line.firstLine = line) :
    pruneFrom extensions inComment line = pruneLine extensions inComment line := by
  have hswitches : ∀ {t ts}, tokensFrom inComment line = t :: ts →
      ((pragmasFrom inComment line).any fun p =>
        p.names extensions && p.behaves Pragma.switchedOn) = switchesOn extensions (t :: ts) := by
    intro t ts htokens
    obtain ⟨ht, hts⟩ := lineStart_of_line hline htokens
    rw [pragmasFrom, htokens, any_among_line line ht hts]
  rw [pruneLine]
  rcases prunedFrom_line extensions inComment hline with ⟨hnil, hkeep⟩ | ⟨lead, p, hone, hopens, hkept⟩
  · rw [hkeep]
    split
    next => rfl
    next t ts htokens =>
      have hnone : switchesOn extensions (t :: ts) = false := by
        rw [← hswitches htokens, List.any_eq_false]
        exact List.filter_eq_nil_iff.mp hnil
      simp [hnone]
  · obtain ⟨t, ts, htokens, hlead⟩ := hopens.exists_tokensFrom
    have hp : p ∈ prunedFrom extensions inComment line := by simp [hone]
    have hsome : switchesOn extensions (t :: ts) = true := by
      rw [← hswitches htokens, List.any_eq_true]
      exact ⟨p, List.mem_filter.mp hp⟩
    simp [htokens, hsome, hlead, hkept, kept]

end

/-! ### The pass over all lines -/

theorem pruneFrom_eq_pruneLines (extensions : List String) (s : Text) : ∀ inComment,
    pruneFrom extensions inComment s = pruneLines extensions inComment s.lines := by
  induction s using Text.line_induction with
  | nil => intro inComment; rfl
  | last l hne h =>
    intro inComment
    rw [Text.lines_last hne h, pruneLines, pruneLines, List.append_nil,
      pruneFrom_line (Text.firstLine_of_not_mem h)]
  | line l s h ih =>
    intro inComment
    rw [Text.lines_line_append s h, pruneLines, pruneFrom_newline_append extensions inComment h,
      pruneFrom_line (Text.firstLine_newline h), ih]

/-- Pruning a text is a pass over its lines that carries from line to line only whether a block comment
    is open. -/
theorem pruneExtensions_eq_pruneLines (extensions : List String) (s : Text) :
    pruneExtensions extensions s = pruneLines extensions false s.lines :=
  pruneFrom_eq_pruneLines extensions s false

/-- A directive behind the end of a comment leaves that end, and one that warns stays. -/
example : pruneLines ["E"] false
    (Text.lines "/*\n*/ #extension E : enable\n#extension E : warn".toList) =
      "/*\n*/ #extension E : warn".toList := by decide

end Shading
