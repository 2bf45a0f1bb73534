import Shading.Proofs.DeclarationEdits
import Shading.Proofs.Directives
import Shading.Proofs.Respelling

/-!
    Declarations along the reading.

    Whether a token is a keyword of the neutral syntax depends on what stands in front of it on its line:
    nothing, a single interpolation qualifier, or anything else (`Spot`). So the declarations of a whole
    text are adapted in one run along its pieces that carries the spot and starts anew at each newline:

        first ──qualifier──▶ qualified ──any──▶ later
        first ──any other──▶ later ──any──▶ later
        a newline in the gap leads back to first

    A new keyword is a word, so the adapted text is read as the pieces of the run
    (`of_adaptDeclarations`). If none of the new keywords is an old one or a qualifier, a second run finds
    nothing to adapt (`settled_redeclare`). -/

namespace Shading

/-- What stands in front of a token on its line: nothing, one interpolation qualifier, or more. -/
inductive Spot where
  | first
  | qualified
  | later
  deriving DecidableEq

/-- The spot behind a token, given which words the token is. -/
def Spot.next (isWord : String → Bool) : Spot → Spot
  | .first => if interpolationQualifiers.any isWord then .qualified else .later
  | .qualified => .later
  | .later => .later

/-- The spot of a piece, given the spot behind the piece before. -/
def Spot.of (spot : Spot) (p : Piece) : Spot := if p.gap.contains '\n' then .first else spot

/-- A token is one word only. -/
theorem Token.isWord_inj (t : Token) (a b : String) (ha : t.isWord a = true)
    (hb : t.isWord b = true) : a = b := by
  simp only [Token.isWord, Bool.and_eq_true, beq_iff_eq] at ha hb
  exact String.toList_inj.mp (ha.2.symm.trans hb.2)

theorem Piece.isWord_inj (p : Piece) (a b : String) (ha : p.isWord a = true)
    (hb : p.isWord b = true) : a = b :=
  Token.isWord_inj ⟨p.kind, p.text, 0, false⟩ a b ha hb

theorem isWord_eq_false_of_ne {p : Piece} {a b : String} (ha : p.isWord a = true) (hne : a ≠ b) :
    p.isWord b = false := by
  rw [Bool.eq_false_iff]
  exact fun hb => hne (p.isWord_inj a b ha hb)

/-- Behind the first token of a line no other is the first. -/
theorem lineStart_of_mem_tail {inComment : Bool} {line : Text} (hline : line.firstLine = line)
    {t : Token} (h : t ∈ (tokensFrom inComment line).tail) : t.lineStart = false := by
  have hgather : ∀ {n : Nat} {fresh : Bool} {R : List (Char × Role)},
      Text.firstLine (R.map (·.1)) = R.map (·.1) → t ∈ (gather n fresh R).tail →
        t.lineStart = false := by
    intro n fresh R
    induction R generalizing n fresh with
    | nil => intro _ h; exact absurd h List.not_mem_nil
    | cons x R ih =>
      obtain ⟨c, role⟩ := x
      intro hline h
      have hR := Text.firstLine_of_cons hline
      cases role with
      | head kind => exact lineStart_of_mem_gather hR h
      | tail => exact ih hR h
      | blank => exact ih hR h
      | comment => exact ih hR h
  refine hgather ?_ h
  rwa [map_fst_roles]

namespace Rules

/-- What a token becomes that declares something at its spot, given which words it is. -/
def keyword? (rules : Rules) (stage : Stage) (isWord : String → Bool) : Spot → Option String
  | .first =>
    if isWord "attribute" then some rules.attributeKeyword
    else if isWord "varying" then some (rules.varyingKeyword stage)
    else none
  | .qualified => if isWord "varying" then some (rules.varyingKeyword stage) else none
  | .later => none

/-- The edits of declarations along the tokens of a text. -/
def keywordEdits (rules : Rules) (stage : Stage) : Spot → List Token → List Edit
  | _, [] => []
  | spot, t :: ts =>
    let spot := if t.lineStart then .first else spot
    ((rules.keyword? stage t.isWord spot).map t.replacedBy).toList ++
      rules.keywordEdits stage (spot.next t.isWord) ts

/-- The pieces of a text with adapted declarations. -/
def redeclare (rules : Rules) (stage : Stage) : Spot → List Piece → List Piece
  | _, [] => []
  | spot, p :: ps =>
    { p with text := ((rules.keyword? stage p.isWord (spot.of p)).map String.toList).getD p.text } ::
      rules.redeclare stage ((spot.of p).next p.isWord) ps

/-! ### Keywords -/

section

variable {rules : Rules} {stage : Stage} {isWord : String → Bool}

/-- A token that is a keyword of a declaration is `attribute` or `varying`. -/
theorem isWord_of_keyword? {spot : Spot} {new : String}
    (h : rules.keyword? stage isWord spot = some new) :
    isWord "attribute" = true ∧ new = rules.attributeKeyword ∨
      isWord "varying" = true ∧ new = rules.varyingKeyword stage := by
  cases spot with
  | first => grind [keyword?]
  | qualified => grind [keyword?]
  | later => simp [keyword?] at h

/-- Behind a keyword no other one is awaited on the line. -/
theorem next_of_keyword? (hinj : ∀ a b, isWord a = true → isWord b = true → a = b) {spot : Spot}
    {new : String} (h : rules.keyword? stage isWord spot = some new) :
    spot.next isWord = .later := by
  cases spot with
  | first =>
    have hnone : interpolationQualifiers.any isWord = false := by
      rw [List.any_eq_false]
      intro q hq hword
      rcases isWord_of_keyword? h with ⟨hkeyword, -⟩ | ⟨hkeyword, -⟩
      · rw [hinj q _ hword hkeyword] at hq
        exact absurd hq (by decide)
      · rw [hinj q _ hword hkeyword] at hq
        exact absurd hq (by decide)
    simp [Spot.next, hnone]
  | qualified => rfl
  | later => rfl

end

/-! ### From lines to a run along the tokens -/

section

variable (rules : Rules) (stage : Stage)

theorem keywordEdits_append {ts' : List Token} (h : ts'.head?.all (·.lineStart) = true) :
    ∀ (spot : Spot) (ts : List Token), rules.keywordEdits stage spot (ts ++ ts') =
      rules.keywordEdits stage spot ts ++ rules.keywordEdits stage .first ts'
  | spot, [] => by
    cases ts' with
    | nil => rfl
    | cons t ts' =>
      have ht : t.lineStart = true := h
      simp [keywordEdits, ht]
  | spot, t :: ts => by
    simp only [List.cons_append, keywordEdits, keywordEdits_append h, List.append_assoc]

theorem keywordEdits_shift (k : Nat) : ∀ (spot : Spot) (ts : List Token),
    rules.keywordEdits stage spot (ts.map (Token.shift k)) =
      (rules.keywordEdits stage spot ts).map (Edit.shift k)
  | _, [] => rfl
  | spot, t :: ts => by
    have hword : (t.shift k).isWord = t.isWord := rfl
    have hstart : (t.shift k).lineStart = t.lineStart := rfl
    have hreplaced : (t.shift k).replacedBy = Edit.shift k ∘ t.replacedBy :=
      funext fun new => replacedBy_shift k t new
    rw [List.map_cons, keywordEdits, keywordEdits, keywordEdits_shift k, hword, hstart, hreplaced,
      List.map_append, ← Option.map_map, Option.toList_map]

/-- Behind its second token a line holds no keyword. -/
theorem keywordEdits_later : ∀ {ts : List Token}, (∀ t ∈ ts, t.lineStart = false) →
    rules.keywordEdits stage .later ts = []
  | [], _ => rfl
  | t :: ts, h => by
    rw [List.forall_mem_cons] at h
    simp [keywordEdits, h.1, keyword?, Spot.next, keywordEdits_later h.2]

/-- Behind an interpolation qualifier only the next token of the line counts. -/
theorem keywordEdits_qualified {ts : List Token} (h : ∀ t ∈ ts, t.lineStart = false) :
    rules.keywordEdits stage .qualified ts = ((ts.head?.filter (·.isWord "varying")).map
      (·.replacedBy (rules.varyingKeyword stage))).toList := by
  cases ts with
  | nil => rfl
  | cons t ts =>
    rw [List.forall_mem_cons] at h
    have hlater := keywordEdits_later rules stage h.2
    by_cases hvarying : t.isWord "varying" = true
    · simp [keywordEdits, h.1, keyword?, Spot.next, hlater, hvarying, Option.filter]
    · simp [keywordEdits, h.1, keyword?, Spot.next, hlater, hvarying, Option.filter]

/-- Of a single line the first two tokens count. -/
theorem keywordEdits_line {ts : List Token} (h : ∀ t ∈ ts.tail, t.lineStart = false) :
    rules.keywordEdits stage .first ts = (rules.declarationEdit stage ts).toList := by
  rcases ts with _ | ⟨t, ts⟩
  · rfl
  have hlater : ∀ new, rules.keyword? stage t.isWord .first = some new →
      rules.keywordEdits stage (Spot.next t.isWord .first) ts = [] := by
    intro new hnew
    rw [next_of_keyword? t.isWord_inj hnew]
    exact keywordEdits_later rules stage h
  rw [keywordEdits, declarationEdit, ite_self]
  by_cases hattribute : t.isWord "attribute" = true
  · have hnew : rules.keyword? stage t.isWord .first = some rules.attributeKeyword := if_pos hattribute
    simp [hnew, hlater _ hnew, hattribute]
  by_cases hvarying : t.isWord "varying" = true
  · have hnew : rules.keyword? stage t.isWord .first = some (rules.varyingKeyword stage) := by
      simp [keyword?, hattribute, hvarying]
    simp [hnew, hlater _ hnew, hattribute, hvarying]
  have hnone : rules.keyword? stage t.isWord .first = none := by simp [keyword?, hattribute, hvarying]
  rw [hnone, if_neg hattribute, if_neg hvarying, Spot.next, interpolationQualifiers]
  split
  · exact keywordEdits_qualified rules stage h
  · exact keywordEdits_later rules stage h

/-- The edits of all lines, found in one run along the tokens of the text. -/
theorem declarationEdits_eq (s : Text) : ∀ inComment,
    rules.declarationEdits stage inComment s =
      rules.keywordEdits stage .first (tokensFrom inComment s) := by
  induction s using Text.line_induction with
  | nil => intro inComment; cases inComment <;> rfl
  | last l hne h =>
    intro inComment
    rw [declarationEdits, Text.lines_last hne h, List.length_singleton, List.range_one,
      List.flatMap_singleton, tokensOn_last inComment h, keywordEdits_line]
    exact fun t => lineStart_of_mem_tail (Text.firstLine_of_not_mem h)
  | line l s h ih =>
    intro inComment
    rw [rules.declarationEdits_line_append stage inComment h, tokensFrom_newline_append,
      keywordEdits_append rules stage (lineStart_head?_map_shift _ _ s), keywordEdits_shift, ← ih,
      keywordEdits_line]
    exact fun t => lineStart_of_mem_tail (Text.firstLine_newline h)

/-! ### From tokens to the reading -/

/-- The edits of declarations turn a text into the one with adapted pieces. -/
theorem splices_keywordEdits (rest : Text) : ∀ (n : Nat) (fresh : Bool) (spot : Spot)
    (ps : List Piece), (fresh = true → spot = .first) →
      Splices n (rules.keywordEdits stage spot (locate n fresh ps)) (Reading.text ⟨ps, rest⟩)
        (Reading.text ⟨rules.redeclare stage spot ps, rest⟩)
  | n, _, _, [], _ => Splices.nil n rest
  | n, fresh, spot, p :: ps, h => by
    have hspot : (if (fresh || p.gap.contains '\n') = true then Spot.first else spot) = spot.of p := by
      cases fresh with
      | true => simp [Spot.of, h rfl]
      | false => rw [Bool.false_or, Spot.of]
    have ih := splices_keywordEdits rest (n + p.gap.byteSize + p.text.byteSize) false
      ((spot.of p).next p.isWord) ps Bool.noConfusion
    have hword : Token.isWord ⟨p.kind, p.text, n + p.gap.byteSize, fresh || p.gap.contains '\n'⟩ =
      p.isWord := rfl
    rw [locate, keywordEdits, hword, hspot, redeclare, Reading.text_pieces, Reading.text_pieces]
    cases rules.keyword? stage p.isWord (spot.of p) with
    | none => exact Splices.keep p.gap (Splices.keep p.text ih)
    | some new => exact Splices.cons p.gap p.text new.toList ih

/-- A text with adapted declarations, put together from adapted pieces. -/
theorem adaptDeclarations_eq_text (name : String) (s : Text) :
    (Dialect.ruled name rules).adaptDeclarations stage s =
      Reading.text ⟨rules.redeclare stage .first (Reading.of s).pieces, (Reading.of s).rest⟩ := by
  have hlines := splices_declarationEdits name rules stage s false
  have hpieces := rules.splices_keywordEdits stage (Reading.of s).rest 0 true .first
    (Reading.of s).pieces fun _ => rfl
  have htokens : tokensFrom false s = locate 0 true (Reading.of s).pieces := tokens_eq s
  rw [declarationEdits_eq, htokens] at hlines
  rw [Reading.text_mk_of] at hpieces
  exact hlines.splice_eq.symm.trans hpieces.splice_eq

end

/-! ### New keywords -/

/-- The words that a declaration of the neutral syntax can begin with. -/
def declaringWords : List String := ["attribute", "varying"] ++ interpolationQualifiers

/-- The new keywords are words, and no declaration of the neutral syntax begins with them. -/
def Renews (rules : Rules) (stage : Stage) : Prop :=
  ∀ new ∈ [rules.attributeKeyword, rules.varyingKeyword stage],
    spellsWord new.toList = true ∧ new ∉ declaringWords

/-- No declaration is left to adapt in the pieces behind a spot. -/
def Settled (rules : Rules) (stage : Stage) : Spot → List Piece → Prop
  | _, [] => True
  | spot, p :: ps => rules.keyword? stage p.isWord (spot.of p) = none ∧
      rules.Settled stage ((spot.of p).next p.isWord) ps

section

variable {rules : Rules} {stage : Stage}

theorem mem_of_keyword? {isWord : String → Bool} {spot : Spot} {new : String}
    (h : rules.keyword? stage isWord spot = some new) :
    new ∈ [rules.attributeKeyword, rules.varyingKeyword stage] := by
  rcases isWord_of_keyword? h with ⟨-, rfl⟩ | ⟨-, rfl⟩ <;> simp

theorem reworded_redeclare {IsNew : Text → Prop}
    (h : ∀ new ∈ [rules.attributeKeyword, rules.varyingKeyword stage], IsNew new.toList) :
    ∀ (spot : Spot) (ps : List Piece), Reworded IsNew ps (rules.redeclare stage spot ps)
  | _, [] => Reworded.nil
  | spot, ⟨gap, kind, t⟩ :: ps => by
    have ih := fun next => reworded_redeclare h next ps
    rw [redeclare]
    cases hnew : rules.keyword? stage (Piece.isWord ⟨gap, kind, t⟩) (spot.of ⟨gap, kind, t⟩) with
    | none => exact Reworded.keep _ (ih _)
    | some new =>
      have hkind : kind = .word := by
        rcases isWord_of_keyword? hnew with ⟨hword, -⟩ | ⟨hword, -⟩ <;> exact isWord_kind hword
      subst hkind
      exact Reworded.reword gap t new.toList (h new (mem_of_keyword? hnew)) (ih _)

/-- Adapting declarations changes keywords of the reading and nothing else. -/
theorem of_adaptDeclarations (h : rules.Renews stage) (name : String) (s : Text) :
    Reading.of ((Dialect.ruled name rules).adaptDeclarations stage s) =
      ⟨rules.redeclare stage .first (Reading.of s).pieces, (Reading.of s).rest⟩ := by
  rw [adaptDeclarations_eq_text]
  exact ((reads_of s).reword
    (reworded_redeclare (fun new hnew => (h new hnew).1) .first _)).1.of_eq

/-- Where no declaration is left to adapt, the pieces stay as they are. -/
theorem Settled.redeclare_eq : ∀ {spot : Spot} {ps : List Piece}, rules.Settled stage spot ps →
    rules.redeclare stage spot ps = ps
  | _, [], _ => rfl
  | spot, p :: ps, h => by
    rw [redeclare, h.1, h.2.redeclare_eq]
    rfl

/-- A word that no declaration begins with declares nothing, and none follows it on its line. -/
theorem keyword?_of_not_declaring (rules : Rules) (stage : Stage) {isWord : String → Bool}
    (h : ∀ word ∈ declaringWords, isWord word = false) (spot : Spot) :
    rules.keyword? stage isWord spot = none ∧ spot.next isWord = .later := by
  have hnone : interpolationQualifiers.any isWord = false := by
    rw [List.any_eq_false]
    intro q hq
    rw [h q (List.mem_append_right _ hq)]
    exact Bool.false_ne_true
  have hattribute := h "attribute" (by decide)
  have hvarying := h "varying" (by decide)
  cases spot <;> simp [keyword?, Spot.next, hattribute, hvarying, hnone]

/-- Behind a word that no declaration begins with nothing is awaited before the next line. -/
theorem settled_cons_of_not_declaring {p : Piece} (h : ∀ word ∈ declaringWords, p.isWord word = false)
    {spot : Spot} {ps : List Piece} :
    rules.Settled stage spot (p :: ps) ↔ rules.Settled stage .later ps := by
  obtain ⟨hnone, hlater⟩ := keyword?_of_not_declaring rules stage h (spot.of p)
  rw [Settled, hnone, hlater]
  exact ⟨And.right, fun hps => ⟨rfl, hps⟩⟩

/-- Adapted pieces leave no declaration to adapt. -/
theorem settled_redeclare (h : rules.Renews stage) : ∀ (spot : Spot) (ps : List Piece),
    rules.Settled stage spot (rules.redeclare stage spot ps)
  | _, [] => trivial
  | spot, p :: ps => by
    rw [redeclare]
    cases hnew : rules.keyword? stage p.isWord (spot.of p) with
    | none => exact ⟨hnew, settled_redeclare h _ ps⟩
    | some new =>
      have hwords : ∀ word ∈ declaringWords,
          Piece.isWord ⟨p.gap, p.kind, new.toList⟩ word = false := by
        intro word hword
        rw [Bool.eq_false_iff]
        intro hnewWord
        rw [← String.toList_inj.mp (isWord_text hnewWord)] at hword
        exact (h new (mem_of_keyword? hnew)).2 hword
      rw [Option.map_some, Option.getD_some, next_of_keyword? p.isWord_inj hnew,
        settled_cons_of_not_declaring hwords]
      exact settled_redeclare h .later ps

end

end Rules

end Shading
