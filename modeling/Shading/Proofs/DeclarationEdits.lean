import Shading.Dialect
import Shading.Proofs.Reading
import Shading.Proofs.Splices
import Shading.Proofs.TokenLines

/-!
    Declarations as edits of the whole text.

    Adapting the declarations of a shader treats it line by line: of a line inside a comment the part
    behind the comment is read by itself, and what was read of the lines before is kept in a single bit.
    The same result comes of one list of edits to the whole text, at most one for a physical line, which
    depend only on the first two tokens of that line in the reading of the whole
    (`splices_declarationEdits`). All else is kept, whatever the keywords of the dialect are. -/

namespace Shading

/-- The edit that the tokens of one line call for. -/
def Rules.declarationEdit (rules : Rules) (stage : Stage) : List Token → Option Edit
  | [] => none
  | t :: ts =>
    if t.isWord "attribute" then some (t.replacedBy rules.attributeKeyword)
    else if t.isWord "varying" then some (t.replacedBy (rules.varyingKeyword stage))
    else if ["flat", "smooth", "noperspective", "centroid", "invariant"].any t.isWord then
      (ts.head?.filter (·.isWord "varying")).map (·.replacedBy (rules.varyingKeyword stage))
    else none

/-- The edits of all physical lines of a text, each for the tokens of the text that begin on it. -/
def Rules.declarationEdits (rules : Rules) (stage : Stage) (inComment : Bool) (s : Text) :
    List Edit :=
  (List.range s.lines.length).flatMap fun line =>
    (rules.declarationEdit stage (tokensOn inComment s line)).toList

/-! ### Edits of one token -/

theorem replacedBy_shift (n : Nat) (t : Token) (new : String) :
    (t.shift n).replacedBy new = (t.replacedBy new).shift n := by
  rw [Token.replacedBy, Token.stop_shift]
  rfl

/-- Replacing one token of a text. -/
theorem splices_replacedBy {s : Text} {t : Token} (h : t ∈ tokens s) (new : String) :
    Splices 0 [t.replacedBy new] s (splice [t.replacedBy new] s) := by
  obtain ⟨front, back, hs, hstart⟩ := exists_of_mem_tokens h
  have hedit : t.replacedBy new =
      ⟨0 + front.byteSize, 0 + front.byteSize + t.text.byteSize, new.toList⟩ := by
    rw [Token.replacedBy, Token.stop, hstart, Nat.zero_add]
  have hsplices : Splices 0 [t.replacedBy new] s (front ++ (new.toList ++ back)) := by
    rw [hedit, hs]
    exact Splices.single 0 front t.text new.toList back
  rwa [hsplices.splice_eq]

/-! ### Lines -/

theorem Rules.declarationEdit_shift (rules : Rules) (stage : Stage) (k : Nat) : ∀ ts : List Token,
    rules.declarationEdit stage (ts.map (Token.shift k)) =
      (rules.declarationEdit stage ts).map (Edit.shift k)
  | [] => rfl
  | t :: ts => by
    have hword : (t.shift k).isWord = t.isWord := rfl
    have hfilter : ((Token.isWord · "varying") ∘ Token.shift k) = (Token.isWord · "varying") := rfl
    have hreplaced : ∀ new, ((Token.replacedBy · new) ∘ Token.shift k) =
        Edit.shift k ∘ (Token.replacedBy · new) := fun new => funext fun t => replacedBy_shift k t new
    rw [List.map_cons, declarationEdit, declarationEdit, hword, replacedBy_shift, replacedBy_shift,
      List.head?_map, Option.filter_map, hfilter, Option.map_map, hreplaced]
    simp only [apply_ite (Option.map (Edit.shift k)), Option.map_some, Option.map_map,
      Option.map_none]

/-- Replacing the first occurrence of a word, where there is one. -/
theorem splices_replaceWord {s : Text} {word : String} {t : Token}
    (h : (tokens s).find? (·.isWord word) = some t) (new : String) :
    Splices 0 [t.replacedBy new] s (replaceWord word new s) := by
  rw [replaceWord, h]
  exact splices_replacedBy (List.mem_of_find?_eq_some h) new

theorem declaresAttribute_of_tokens {line : Text} {t : Token} {ts : List Token}
    (h : tokens line = t :: ts) : declaresAttribute line = t.isWord "attribute" := by
  rw [declaresAttribute, h, List.head?_cons, Option.any_some]

theorem declaresVarying_of_tokens {line : Text} {t : Token} {ts : List Token}
    (h : tokens line = t :: ts) : declaresVarying line =
      (t.isWord "varying" ||
        (interpolationQualifiers.any t.isWord && ts.head?.any (·.isWord "varying"))) := by
  rw [declaresVarying, h]

/-- A line that is read by itself. -/
theorem splices_adaptLine (name : String) (rules : Rules) (stage : Stage) (line : Text) :
    Splices 0 (rules.declarationEdit stage (tokens line)).toList line
      ((Dialect.ruled name rules).adaptLine stage line) := by
  cases hts : tokens line with
  | nil =>
    rw [Dialect.adaptLine, declaresAttribute, declaresVarying, hts]
    exact Splices.nil 0 line
  | cons t ts =>
    rw [Dialect.adaptLine, declaresAttribute_of_tokens hts, declaresVarying_of_tokens hts,
      Rules.declarationEdit]
    by_cases hattribute : t.isWord "attribute" = true
    · rw [if_pos hattribute, if_pos hattribute]
      refine splices_replaceWord ?_ _
      rw [hts, List.find?_cons, hattribute]
    rw [if_neg hattribute, if_neg hattribute]
    by_cases hvarying : t.isWord "varying" = true
    · rw [if_pos hvarying, hvarying, Bool.true_or, if_pos rfl]
      refine splices_replaceWord ?_ _
      rw [hts, List.find?_cons, hvarying]
    rw [if_neg hvarying, Bool.eq_false_iff.mpr hvarying, Bool.false_or, interpolationQualifiers]
    by_cases hqualifier :
        ["flat", "smooth", "noperspective", "centroid", "invariant"].any t.isWord = true
    · rw [if_pos hqualifier, hqualifier, Bool.true_and]
      cases ts with
      | nil => exact Splices.nil 0 line
      | cons u us =>
        rw [List.head?_cons, Option.any_some, Option.filter_some]
        by_cases hsecond : u.isWord "varying" = true
        · rw [if_pos hsecond, if_pos hsecond]
          refine splices_replaceWord ?_ _
          rw [hts, List.find?_cons, Bool.eq_false_iff.mpr hvarying, List.find?_cons, hsecond]
        · rw [if_neg hsecond, if_neg hsecond]
          exact Splices.nil 0 line
    · rw [if_neg hqualifier, Bool.eq_false_iff.mpr hqualifier, Bool.false_and,
        if_neg Bool.false_ne_true]
      exact Splices.nil 0 line

/-- A line, with what it carries of a comment opened on an earlier line. -/
theorem splices_adaptLine_behind (name : String) (rules : Rules) (stage : Stage) (inComment : Bool)
    (line : Text) :
    Splices 0 (rules.declarationEdit stage (tokensFrom inComment line)).toList line
      (if inComment then
        commentRest line ++ (Dialect.ruled name rules).adaptLine stage (afterComment line)
      else (Dialect.ruled name rules).adaptLine stage line) := by
  cases inComment with
  | false => exact splices_adaptLine name rules stage line
  | true =>
    have hbehind := (Splices.nil 0 (commentRest line)).append_shift
      (splices_adaptLine name rules stage (afterComment line))
    rw [commentRest_append_afterComment, List.nil_append] at hbehind
    rwa [if_pos rfl, tokensFrom_true, Rules.declarationEdit_shift, Option.toList_map]

/-! ### Whole texts -/

/-- The edits of a text with a first line: those of the line, then those of the rest, shifted. -/
theorem Rules.declarationEdits_line_append (rules : Rules) (stage : Stage) (inComment : Bool)
    {l : Text} (h : '\n' ∉ l) (s : Text) :
    rules.declarationEdits stage inComment ((l ++ ['\n']) ++ s) =
      (rules.declarationEdit stage (tokensFrom inComment (l ++ ['\n']))).toList ++
        (rules.declarationEdits stage (endsInComment inComment (l ++ ['\n'])) s).map
          (Edit.shift (Text.byteSize (l ++ ['\n']))) := by
  rw [declarationEdits, Text.lines_line_append s h, List.length_cons, List.range_succ_eq_map,
    List.flatMap_cons, List.flatMap_map, tokensOn_zero inComment h, declarationEdits,
    List.map_flatMap]
  simp only [tokensOn_succ inComment h, declarationEdit_shift, Option.toList_map]

/-- Line by line or all at once. -/
theorem splices_declarationEdits (name : String) (rules : Rules) (stage : Stage) (s : Text) :
    ∀ inComment, Splices 0 (rules.declarationEdits stage inComment s) s
      (mapLines ((Dialect.ruled name rules).adaptLine stage) inComment s.lines) := by
  induction s using Text.line_induction with
  | nil => exact fun _ => Splices.nil 0 []
  | last l hne h =>
    intro inComment
    rw [Rules.declarationEdits, Text.lines_last hne h, mapLines, mapLines, List.append_nil,
      List.length_singleton, List.range_one, List.flatMap_singleton, tokensOn_last inComment h]
    exact splices_adaptLine_behind name rules stage inComment l
  | line l s h ih =>
    intro inComment
    rw [rules.declarationEdits_line_append stage inComment h, Text.lines_line_append s h, mapLines]
    exact (splices_adaptLine_behind name rules stage inComment (l ++ ['\n'])).append_shift (ih _)

/-- Adapting the declarations of a text line by line makes one list of edits to the whole text, at
    most one for each physical line; the edits are sorted and cut the text between characters, so all
    else is kept. The neutral dialect keeps every text. -/
theorem adaptDeclarations_eq_splice (name : String) (rules : Rules) (stage : Stage) (s : Text) :
    (Dialect.ruled name rules).adaptDeclarations stage s =
        splice (rules.declarationEdits stage false s) s ∧
      Splices 0 (rules.declarationEdits stage false s) s
        ((Dialect.ruled name rules).adaptDeclarations stage s) ∧
      Dialect.glsl100.adaptDeclarations stage s = s := by
  have hsplices := splices_declarationEdits name rules stage s false
  refine ⟨hsplices.splice_eq.symm, hsplices, ?_⟩
  have hneutral : Dialect.neutral.adaptLine stage = fun line => line :=
    funext (Dialect.adaptLine_neutral stage)
  rw [Dialect.glsl100, Dialect.adaptDeclarations, hneutral, mapCode_id]

end Shading
