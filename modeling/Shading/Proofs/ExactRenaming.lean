import Shading.Proofs.Gaps
import Shading.Proofs.Respelling

/-!
    What a renaming does to the tokens of a text.

    `Renamed` says, without the edits that a renaming makes, how the tokens of the new text relate to
    those of the old one: a word with an entry has the spelling of its first entry, every other token has
    its own, and none changes its kind or its place at the beginning of a line. An entry counts for the
    tokens that are there before, so a new name that is itself an old name is not renamed again. The
    gaps are the same, letter by letter: nothing in a comment is renamed. -/

namespace Shading

/-- The new tokens are the old ones, with each word spelled as its first entry says. An entry counts only
    in front of tokens that fulfil `counts`. -/
inductive Renamed (renames : List Rename) (counts : List Token → Prop) :
    List Token → List Token → Prop
  | nil : Renamed renames counts [] []
  | renamed (before : List Rename) (r : Rename) (after : List Rename) {t t' : Token}
      {ts ts' : List Token} (hlist : renames = before ++ r :: after)
      (hword : t.isWord r.source = true) (hfirst : ∀ q ∈ before, t.isWord q.source = false)
      (hcounts : counts ts) (htext : t'.text = r.target.toList)
      (hsame : t'.kind = t.kind ∧ t'.lineStart = t.lineStart) (h : Renamed renames counts ts ts') :
      Renamed renames counts (t :: ts) (t' :: ts')
  | kept {t t' : Token} {ts ts' : List Token}
      (hnone : counts ts → ∀ r ∈ renames, t.isWord r.source = false) (htext : t'.text = t.text)
      (hsame : t'.kind = t.kind ∧ t'.lineStart = t.lineStart) (h : Renamed renames counts ts ts') :
      Renamed renames counts (t :: ts) (t' :: ts')

/-- A word has a new spelling where its first entry gives one. -/
theorem newSpelling?_eq_some {renames : List Rename} {p : Piece} {new : String}
    (h : newSpelling? renames p = some new) : ∃ before r after, renames = before ++ r :: after ∧
      p.isWord r.source = true ∧ (∀ q ∈ before, p.isWord q.source = false) ∧ r.target = new := by
  obtain ⟨r, hr, rfl⟩ := Option.map_eq_some_iff.mp h
  obtain ⟨hword, before, after, hlist, hfirst⟩ := List.find?_eq_some_iff_append.mp hr
  refine ⟨before, r, after, hlist, hword, fun q hq => ?_, rfl⟩
  rw [← Bool.not_eq_true']
  exact hfirst q hq

theorem newSpelling?_eq_none_iff {renames : List Rename} {p : Piece} :
    newSpelling? renames p = none ↔ ∀ r ∈ renames, p.isWord r.source = false := by
  simp only [newSpelling?, Option.map_eq_none_iff, List.find?_eq_none, Bool.not_eq_true]

/-- Respelled along the reading, the tokens are renamed. -/
theorem renamed_locate {renames : List Rename} {counts : List Token → Prop}
    {spelling? : Piece → List Piece → Option String}
    (hcounts : ∀ n p ps, counts (locate n false ps) ∧ spelling? p ps = newSpelling? renames p ∨
      ¬ counts (locate n false ps) ∧ spelling? p ps = none) :
    ∀ (n n' : Nat) (fresh : Bool) (ps : List Piece),
      Renamed renames counts (locate n fresh ps) (locate n' fresh (respell spelling? ps))
  | _, _, _, [] => Renamed.nil
  | n, n', fresh, p :: ps => by
    have ih := fun n' => renamed_locate hcounts (n + p.gap.byteSize + p.text.byteSize) n' false ps
    rw [respell, locate, locate]
    rcases hcounts (n + p.gap.byteSize + p.text.byteSize) p ps with ⟨hc, hp⟩ | ⟨hc, hp⟩
    · cases hnew : newSpelling? renames p with
      | none =>
        have hnone := newSpelling?_eq_none_iff.mp hnew
        rw [hp, hnew]
        exact Renamed.kept (fun _ => hnone) rfl ⟨rfl, rfl⟩ (ih _)
      | some new =>
        obtain ⟨before, r, after, hlist, hword, hfirst, rfl⟩ := newSpelling?_eq_some hnew
        rw [hp, hnew]
        exact Renamed.renamed before r after hlist hword hfirst hc rfl ⟨rfl, rfl⟩ (ih _)
    · rw [hp]
      exact Renamed.kept (fun h => absurd h hc) rfl ⟨rfl, rfl⟩ (ih _)

theorem gaps_respell (spelling? : Piece → List Piece → Option String) (rest : Text) :
    ∀ ps : List Piece, Reading.gaps ⟨respell spelling? ps, rest⟩ = Reading.gaps ⟨ps, rest⟩
  | [] => rfl
  | p :: ps => congrArg (p.gap :: ·) (gaps_respell spelling? rest ps)

/-- A pass that respells the reading of a text renames its tokens and keeps its gaps. -/
theorem renamed_of_respell {renames : List Rename} {counts : List Token → Prop}
    {spelling? : Piece → List Piece → Option String} {s s' : Text}
    (hcounts : ∀ n p ps, counts (locate n false ps) ∧ spelling? p ps = newSpelling? renames p ∨
      ¬ counts (locate n false ps) ∧ spelling? p ps = none)
    (h : Reading.of s' = (Reading.of s).respell spelling?) :
    Renamed renames counts (tokens s) (tokens s') ∧ gaps false s' = gaps false s := by
  have hstart : ∀ s, Reading.start false s = Reading.of s := fun _ => rfl
  constructor
  · rw [tokens_eq, tokens_eq, h]
    exact renamed_locate hcounts 0 0 true (Reading.of s).pieces
  · rw [gaps_eq, gaps_eq, hstart, hstart, h]
    exact gaps_respell spelling? (Reading.of s).rest (Reading.of s).pieces

/-- Renaming to words is exact: the tokens of the new text are those of the old one, each word with an
    entry in the spelling of the first one, and the gaps between them stay as they are. Where calls are
    renamed, the entries count only for words in front of an opening parenthesis. -/
theorem renamings_exact {renames : List Rename}
    (h : ∀ r ∈ renames, spellsWord r.target.toList = true) (s : Text) :
    (Renamed renames (fun _ => True) (tokens s) (tokens (renameWords renames s)) ∧
      gaps false (renameWords renames s) = gaps false s) ∧
    (Renamed renames (fun ts => ts.head?.any (·.isMark '(') = true) (tokens s)
        (tokens (renameCalls renames s)) ∧
      gaps false (renameCalls renames s) = gaps false s) := by
  refine ⟨renamed_of_respell (fun _ _ _ => Or.inl ⟨trivial, rfl⟩) (of_renameWords h s),
    renamed_of_respell (fun n p ps => ?_) (of_renameCalls h s)⟩
  have hhead : (locate n false ps).head?.any (·.isMark '(') = ps.head?.any (·.isMark '(') := by
    cases ps <;> rfl
  rw [hhead, calledSpelling?]
  by_cases hcall : ps.head?.any (·.isMark '(') = true
  · exact Or.inl ⟨hcall, if_pos hcall⟩
  · exact Or.inr ⟨hcall, if_neg hcall⟩

/-- Two names change places, next to a number and in front of a comment; a third entry for one of them
    does not count. -/
theorem renamings_exact_swap :
    (∀ r ∈ [⟨"a", "bb"⟩, ⟨"bb", "a"⟩, ⟨"a", "c"⟩], spellsWord (Rename.target r).toList = true) ∧
      Renamed [⟨"a", "bb"⟩, ⟨"bb", "a"⟩, ⟨"a", "c"⟩] (fun _ => True)
        (tokens "a.bb+1a/*a*/bb".toList) (tokens "bb.a+1a/*a*/a".toList) ∧
      gaps false "a(a)bb//a\n(".toList = gaps false "bb(a)a//a\n(".toList := by
  have h : ∀ r ∈ [⟨"a", "bb"⟩, ⟨"bb", "a"⟩, ⟨"a", "c"⟩],
      spellsWord (Rename.target r).toList = true := by decide
  have hwords : renameWords [⟨"a", "bb"⟩, ⟨"bb", "a"⟩, ⟨"a", "c"⟩] "a.bb+1a/*a*/bb".toList =
      "bb.a+1a/*a*/a".toList := by decide
  have hcalls : renameCalls [⟨"a", "bb"⟩, ⟨"bb", "a"⟩, ⟨"a", "c"⟩] "a(a)bb//a\n(".toList =
      "bb(a)a//a\n(".toList := by decide
  have hexact := (renamings_exact h "a.bb+1a/*a*/bb".toList).1.1
  have hgaps := (renamings_exact h "a(a)bb//a\n(".toList).2.2
  rw [hwords] at hexact
  rw [hcalls] at hgaps
  exact ⟨h, hexact, hgaps.symm⟩

end Shading
