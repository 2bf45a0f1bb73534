import Shading.Output
import Shading.Proofs.Respelling

/-!
    Inserted lines.

    Whole lines that leave no comment open can be put in front of a text, or in front of a word inside it,
    without a change in how the rest is read: their own pieces come first, what stood in front of the
    word becomes the gap of the first of them, and their last newline the gap of the word. So the text
    with a declaration in front of every entry point is read as its pieces with those of the declaration
    in between (`of_insertBeforeEntryPoints`). -/

namespace Shading

def Piece.isNumber (p : Piece) (digits : String) : Bool :=
  p.kind == .number && p.text == digits.toList

/-- The pieces begin with `void main (`. -/
def beginsEntry : List Piece → Bool
  | p₁ :: p₂ :: p₃ :: _ => p₁.isWord "void" && p₂.isWord "main" && p₃.isMark '('
  | _ => false

/-- The pieces begin with `layout ( location = 0 ) out`. -/
def beginsOutput : List Piece → Bool
  | p₁ :: p₂ :: p₃ :: p₄ :: p₅ :: p₆ :: p₇ :: _ =>
    p₁.isWord "layout" && p₂.isMark '(' && p₃.isWord "location" && p₄.isMark '=' &&
      p₅.isNumber "0" && p₆.isMark ')' && p₇.isWord "out"
  | _ => false

/-- The pieces and the rest, with a reading in front of every entry point. -/
def declare (d : Reading) : List Piece → Text → Reading
  | [], rest => ⟨[], rest⟩
  | p :: ps, rest =>
    if beginsEntry (p :: ps) then
      (d ++ (declare d ps rest).cons { p with gap := [] }).behind p.gap
    else (declare d ps rest).cons p

/-- The text is made of whole lines and ends outside comments. -/
structure WholeLines (d : Text) : Prop where
  ends : d.getLast? = some '\n'
  closed : endsInComment false d = false

/-! ### Where the shapes occur -/

theorem beginsAs_entryShape (n : Nat) (fresh : Bool) : ∀ ps : List Piece,
    beginsAs entryShape (locate n fresh ps) = beginsEntry ps
  | [] => rfl
  | [_] => Bool.and_false _
  | [p₁, _] => by
    show (p₁.isWord "void" && (_ && false)) = false
    rw [Bool.and_false, Bool.and_false]
  | p₁ :: p₂ :: p₃ :: _ => by
    show (p₁.isWord "void" && (p₂.isWord "main" && (p₃.isMark '(' && true))) = _
    rw [Bool.and_true, beginsEntry, Bool.and_assoc]

theorem beginsAs_outputShape (n : Nat) (fresh : Bool) (ps : List Piece) :
    beginsAs outputShape (locate n fresh ps) = beginsOutput ps := by
  match ps with
  | p₁ :: p₂ :: p₃ :: p₄ :: p₅ :: p₆ :: p₇ :: ps =>
    show (p₁.isWord "layout" && (p₂.isMark '(' && (p₃.isWord "location" && (p₄.isMark '=' &&
      (p₅.isNumber "0" && (p₆.isMark ')' && (p₇.isWord "out" && true))))))) = _
    simp only [Bool.and_true, beginsOutput, Bool.and_assoc]
  | [] => rfl
  | [_] => simp [locate, beginsAs, outputShape, beginsOutput]
  | [_, _] => simp [locate, beginsAs, outputShape, beginsOutput]
  | [_, _, _] => simp [locate, beginsAs, outputShape, beginsOutput]
  | [_, _, _, _] => simp [locate, beginsAs, outputShape, beginsOutput]
  | [_, _, _, _, _] => simp [locate, beginsAs, outputShape, beginsOutput]
  | [_, _, _, _, _, _] => simp [locate, beginsAs, outputShape, beginsOutput]

/-- A shape occurs where the pieces fall in two parts of which the second begins so. -/
theorem occurrences_eq_nil_iff {shapes : List Shape} {begins : List Piece → Bool}
    (hbegins : ∀ n fresh ps, beginsAs shapes (locate n fresh ps) = begins ps)
    (hnil : begins [] = false) : ∀ (n : Nat) (fresh : Bool) (ps : List Piece),
      occurrences shapes (locate n fresh ps) = [] ↔
        ∀ front behind, ps = front ++ behind → begins behind = false
  | n, fresh, [] => by
    refine ⟨fun _ front behind h => ?_, fun _ => rfl⟩
    rw [(List.nil_eq_append_iff.mp h).2, hnil]
  | n, fresh, p :: ps => by
    have hhead := hbegins n fresh (p :: ps)
    have ih := occurrences_eq_nil_iff hbegins hnil
      (n + p.gap.byteSize + p.text.byteSize) false ps
    rw [locate] at hhead ⊢
    rw [occurrences, hhead]
    constructor
    · intro h front behind hps
      cases hb : begins (p :: ps) with
      | true => rw [hb, if_pos rfl] at h; exact absurd h (List.cons_ne_nil _ _)
      | false =>
        rw [hb, if_neg Bool.false_ne_true] at h
        cases front with
        | nil => rw [List.nil_append] at hps; rwa [← hps]
        | cons q front =>
          rw [List.cons_append, List.cons.injEq] at hps
          exact ih.mp h front behind hps.2
    · intro h
      rw [h [] (p :: ps) rfl, if_neg Bool.false_ne_true]
      exact ih.mpr fun front behind hps => h (p :: front) behind (by rw [hps, List.cons_append])

/-- An output is declared where the pieces fall in two parts of which the second begins with
    `layout ( location = 0 ) out`. -/
theorem hasOutputDeclaration_iff (s : Text) : hasOutputDeclaration s = true ↔
    ∃ front behind, (Reading.of s).pieces = front ++ behind ∧ beginsOutput behind = true := by
  have h := occurrences_eq_nil_iff beginsAs_outputShape rfl 0 true (Reading.of s).pieces
  rw [← tokens_eq] at h
  rw [hasOutputDeclaration, Bool.not_eq_true', Bool.eq_false_iff, Ne, List.isEmpty_iff, h]
  constructor
  · intro hnot
    refine Classical.byContradiction fun hno => hnot fun front behind hps => ?_
    rw [Bool.eq_false_iff]
    exact fun hb => hno ⟨front, behind, hps, hb⟩
  · rintro ⟨front, behind, hps, hb⟩ hall
    rw [hall front behind hps] at hb
    exact Bool.noConfusion hb

/-! ### Reading of inserted lines -/

theorem Reading.text_append (r q : Reading) : (r ++ q).text = r.text ++ q.text := by
  have hq := Reading.text_behind r.rest q
  rw [Reading.text] at hq
  rw [Reading.append_def, Reading.text, Reading.text, List.flatMap_append, List.append_assoc, hq,
    List.append_assoc]

/-- The insertions in front of the entry points fit the text. -/
theorem splices_declare {new : String} {d : Reading} (hd : d.text = new.toList) (rest : Text) :
    ∀ (n : Nat) (fresh : Bool) (ps : List Piece),
      Splices n ((occurrences entryShape (locate n fresh ps)).map (·.precededBy new))
        (Reading.text ⟨ps, rest⟩) (declare d ps rest).text
  | n, fresh, [] => Splices.nil n rest
  | n, fresh, p :: ps => by
    have ih := splices_declare hd rest (n + p.gap.byteSize + p.text.byteSize) false ps
    have hbegins := beginsAs_entryShape n fresh (p :: ps)
    rw [locate] at hbegins ⊢
    rw [Reading.text_pieces, occurrences, hbegins, declare]
    cases beginsEntry (p :: ps) with
    | true =>
      rw [if_pos rfl, if_pos rfl, List.map_cons, Reading.text_behind, Reading.text_append,
        Reading.text_cons, List.nil_append, hd]
      exact Splices.cons p.gap [] new.toList (Splices.keep p.text ih)
    | false =>
      rw [if_neg Bool.false_ne_true, if_neg Bool.false_ne_true, Reading.text_cons,
        List.append_assoc]
      exact Splices.keep p.gap (Splices.keep p.text ih)

theorem splices_insertBeforeEntryPoints (new : String) (s : Text) :
    Splices 0 ((entryPoints s).map (·.precededBy new)) s
      (declare (Reading.of new.toList) (Reading.of s).pieces (Reading.of s).rest).text := by
  have h := splices_declare (Reading.text_of new.toList) (Reading.of s).rest 0 true
    (Reading.of s).pieces
  rwa [← tokens_eq, Reading.text_mk_of] at h

theorem insertBeforeEntryPoints_eq_text (new : String) (s : Text) :
    insertBeforeEntryPoints new s =
      (declare (Reading.of new.toList) (Reading.of s).pieces (Reading.of s).rest).text :=
  (splices_insertBeforeEntryPoints new s).splice_eq

/-- Behind whole lines a text is read as it is alone. -/
theorem WholeLines.of_append {d : Text} (h : WholeLines d) (s : Text) :
    Reading.of (d ++ s) = Reading.of d ++ Reading.of s := by
  obtain ⟨l, rfl⟩ := List.getLast?_eq_some_iff.mp h.ends
  have hroles := roles_newline_append false l s
  rw [h.closed] at hroles
  have hcode : Place.isIdle .code = true := rfl
  have hcut := Reading.ofRoles_append (tailOf_roles hcode s) (roles .code (l ++ ['\n']))
  rw [Reading.of, Reading.of, Reading.of, ← hcut]
  exact congrArg Reading.ofRoles hroles

theorem isWord_of_beginsEntry {p : Piece} : ∀ {ps : List Piece}, beginsEntry (p :: ps) = true →
    p.isWord "void" = true
  | p₂ :: p₃ :: ps, h => by
    rw [beginsEntry, Bool.and_eq_true, Bool.and_eq_true] at h
    exact h.1.1
  | [_], h => Bool.noConfusion h
  | [], h => Bool.noConfusion h

theorem kind_of_beginsEntry {p : Piece} {ps : List Piece} (h : beginsEntry (p :: ps) = true) :
    p.kind = .word := isWord_kind (isWord_of_beginsEntry h)

theorem of_declare {d : Text} (hd : WholeLines d) (hletter : d.head?.any beginsWord = true)
    {s : Text} {r : Reading} (h : Reads s r) :
    Reading.of (declare (Reading.of d) r.pieces r.rest).text =
        declare (Reading.of d) r.pieces r.rest ∧
      Alike s.head? (declare (Reading.of d) r.pieces r.rest).text.head? := by
  induction h with
  | rest rest h => exact ⟨(Reads.rest rest h).of_eq, Or.inl rfl⟩
  | piece gap kind t s r hgap htoken h ih =>
    obtain ⟨hof, halike⟩ := ih
    have htoken' := htoken.congr halike
    have hfront : ∀ b : Text, (gap ++ b).head? = gap.head?.or b.head? := fun b => List.head?_append
    have hhead : (t ++ s).head? = t.head? := head?_append_of_ne_nil htoken.ne_nil s
    rw [Reading.cons, declare]
    cases hbegins : beginsEntry (⟨gap, kind, t⟩ :: r.pieces) with
    | true =>
      -- the entry point is a word, so the declaration begins like it
      obtain rfl : kind = .word := kind_of_beginsEntry hbegins
      have hd' : d ≠ [] := by rintro rfl; exact Bool.noConfusion hletter
      have halike' : ∀ b, Alike (t ++ s).head? (d ++ b).head? := by
        intro b
        rw [hhead, head?_append_of_ne_nil hd']
        exact Or.inr ⟨htoken.word.1, hletter⟩
      rw [if_pos rfl, Reading.text_behind, Reading.text_append, Reading.text_cons,
        Reading.text_of, List.nil_append]
      refine ⟨?_, ?_⟩
      · rw [Reading.of_gap (hgap.congr _), hd.of_append,
          Reading.of_token htoken', hof]
      · rw [hfront, hfront]
        exact (halike' _).or gap.head?
    | false =>
      have hhead' : ∀ b : Text, (t ++ b).head? = t.head? := head?_append_of_ne_nil htoken.ne_nil
      rw [if_neg Bool.false_ne_true, Reading.text_cons, List.append_assoc]
      refine ⟨?_, ?_⟩
      · rw [hhead, ← hhead'] at hgap
        rw [Reading.of_gap hgap, Reading.of_token htoken', hof, Reading.behind_cons,
          List.append_nil]
      · rw [hfront, hfront, hhead, hhead']
        exact Or.inl rfl

/-- A text that begins with a letter is read as a word in front of anything else. -/
theorem Reading.exists_of_letter {d : Text} (h : d.head?.any beginsWord = true) :
    ∃ (t : Text) (r : Reading), of d = r.cons ⟨[], .word, t⟩ := by
  cases d with
  | nil => exact Bool.noConfusion h
  | cons c s => exact ⟨_, _, by rw [of, roles, step, enter_of_beginsWord h, ofRoles]⟩

/-- At an entry point the declaration takes over the gap, and the word of the entry point stands behind
    the end of the declaration. -/
theorem declare_of_beginsEntry {p : Piece} {ps : List Piece} (h : beginsEntry (p :: ps) = true)
    (t : Text) (r : Reading) (rest : Text) :
    let d := r.cons ⟨[], .word, t⟩
    declare d (p :: ps) rest =
      ⟨⟨p.gap, .word, t⟩ :: (r.pieces ++ ⟨r.rest, p.kind, p.text⟩ :: (declare d ps rest).pieces),
        (declare d ps rest).rest⟩ := by
  intro d
  rw [declare, if_pos h, Reading.cons_append, Reading.behind_cons, List.append_nil,
    Reading.append_def, Reading.behind_cons, List.append_nil]
  rfl

theorem declare_of_not_beginsEntry {p : Piece} {ps : List Piece} (h : beginsEntry (p :: ps) = false)
    (d : Reading) (rest : Text) : declare d (p :: ps) rest = (declare d ps rest).cons p := by
  rw [declare, h, if_neg Bool.false_ne_true]

/-- A text with a declaration in front of every entry point. -/
theorem of_insertBeforeEntryPoints {new : String} (hnew : WholeLines new.toList)
    (hletter : new.toList.head?.any beginsWord = true) (s : Text) :
    Reading.of (insertBeforeEntryPoints new s) =
      declare (Reading.of new.toList) (Reading.of s).pieces (Reading.of s).rest := by
  rw [insertBeforeEntryPoints_eq_text, (of_declare hnew hletter (reads_of s)).1]

end Shading
