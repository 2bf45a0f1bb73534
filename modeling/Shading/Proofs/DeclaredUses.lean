import Shading.Proofs.Rematching

/-!
    Where the declaration of an output is in force.

    A fragment shader that brings no output of its own has one declared in front of every entry point,
    while the uses of the built-in output take the declared name wherever they stand. So not every use
    stands behind a declaration. To tell which do, the tokens of the treated shader are listed with
    their origins: a token comes from an inserted declaration or from a piece of the pruned shader
    (`Rules.tokenOrigins`).

    A pass puts a whole declaration in front of the piece that begins an entry point, and nothing in
    front of any other. Along the pieces it follows that a declaration stands in front of a use just when
    an entry point does (`Rules.declaration_infix_iff`): a function in front of the first entry point
    uses the output before it is declared. -/

namespace Shading

/-- Where a token of a treated shader comes from. -/
inductive Origin
  | declaration
  | piece (p : Piece)
  deriving DecidableEq, Repr

/-- The piece of the pruned shader that a token comes from. -/
def Origin.piece? : Origin → Option Piece
  | .declaration => none
  | .piece p => some p

/-- The tokens of an inserted reading. -/
def inserted (d : Reading) : List (Origin × Lexeme) := d.lexemes.map (.declaration, ·)

/-- The tokens that a single pass writes, each with its origin. -/
def originated (spelling? : Piece → List Piece → Option String) (declares : Bool) (d : Reading) :
    List Piece → List (Origin × Lexeme)
  | [] => []
  | p :: ps =>
    (if declares && beginsEntry (p :: ps) then inserted d else []) ++
      (.piece p, (p.kind, ((spelling? p ps).map String.toList).getD p.text)) ::
        originated spelling? declares d ps

/-- An entry point stands among the pieces. -/
def HasEntry (ps : List Piece) : Prop := ∃ entry, entry <:+ ps ∧ beginsEntry entry = true

section

variable {spelling? : Piece → List Piece → Option String} {declares : Bool} {d : Reading}

/-- The tokens with their origins are those of the pass. -/
theorem map_snd_originated (rest : Text) : ∀ ps : List Piece,
    (originated spelling? declares d ps).map (·.2) =
      (singlePass spelling? declares d ps rest).lexemes
  | [] => rfl
  | p :: ps => by
    have ih := map_snd_originated rest ps
    rw [originated, singlePass, List.map_append, List.map_cons, ih]
    split
    · rw [Reading.lexemes_behind, Reading.lexemes_append, inserted, List.map_map]
      exact congrArg (· ++ _) (List.map_id _)
    · rfl

theorem filterMap_inserted : (inserted d).filterMap (·.1.piece?) = [] := by
  rw [inserted, List.filterMap_map]
  exact List.filterMap_eq_nil_iff.mpr fun _ _ => rfl

/-- No piece is lost. -/
theorem filterMap_originated : ∀ ps : List Piece,
    (originated spelling? declares d ps).filterMap (·.1.piece?) = ps
  | [] => rfl
  | p :: ps => by
    rw [originated, List.filterMap_append, List.filterMap_cons, filterMap_originated ps]
    split
    · rw [filterMap_inserted]
      rfl
    · rfl

theorem fst_of_mem_inserted {x : Origin × Lexeme} (h : x ∈ inserted d) : x.1 = .declaration := by
  obtain ⟨l, -, rfl⟩ := List.mem_map.mp h
  rfl

/-- A token that comes from a piece is that of the first piece, with the inserted tokens in front of it,
    or stands behind that. -/
theorem originated_split {ps front behind : List (Origin × Lexeme)} {p q : Piece} {l l' : Lexeme}
    {before : List (Origin × Lexeme)} (hbefore : ∀ x ∈ before, x.1 = .declaration)
    (h : before ++ (.piece q, l') :: ps = front ++ (.piece p, l) :: behind) :
    (front = before ∧ q = p) ∨
      ∃ front', front = before ++ (.piece q, l') :: front' ∧
        ps = front' ++ (.piece p, l) :: behind := by
  rcases List.append_eq_append_iff.mp h with ⟨a, rfl, ha⟩ | ⟨a, rfl, ha⟩
  · cases a with
    | nil =>
      obtain ⟨hhead, -⟩ := List.cons.inj ha
      cases hhead
      exact Or.inl ⟨List.append_nil _, rfl⟩
    | cons x a =>
      obtain ⟨rfl, hps⟩ := List.cons.inj ha
      exact Or.inr ⟨a, rfl, hps⟩
  · cases a with
    | nil =>
      obtain ⟨hhead, -⟩ := List.cons.inj ha
      cases hhead
      exact Or.inl ⟨(List.append_nil _).symm, rfl⟩
    | cons x a =>
      -- an inserted token would come from a piece
      obtain ⟨rfl, -⟩ := List.cons.inj ha
      exact Origin.noConfusion (hbefore _ (List.mem_append_right _ List.mem_cons_self))

/-- Pieces in front of one that is no part of an entry point begin one as if they stood alone. -/
theorem beginsEntry_append {p : Piece} (hvoid : p.isWord "void" = false)
    (hmain : p.isWord "main" = false) (hparen : p.isMark '(' = false) (behind : List Piece) :
    ∀ ps : List Piece, beginsEntry (ps ++ p :: behind) = beginsEntry ps
  | [] => by
    cases behind with
    | nil => rfl
    | cons q behind =>
      cases behind with
      | nil => rfl
      | cons r behind =>
        rw [List.nil_append, beginsEntry, hvoid]
        rfl
  | [q] => by
    cases behind with
    | nil => rfl
    | cons r behind =>
      rw [List.singleton_append, beginsEntry, hmain, Bool.and_false]
      rfl
  | [q, r] => by
    rw [List.cons_append, List.cons_append, List.nil_append, beginsEntry, hparen, Bool.and_false]
    rfl
  | _ :: _ :: _ :: _ => rfl

theorem not_hasEntry_nil : ¬ HasEntry [] := by
  rintro ⟨entry, hsuffix, hentry⟩
  rw [List.suffix_nil.mp hsuffix] at hentry
  exact Bool.noConfusion hentry

theorem hasEntry_cons {p : Piece} {ps : List Piece} :
    HasEntry (p :: ps) ↔ beginsEntry (p :: ps) = true ∨ HasEntry ps := by
  simp only [HasEntry, List.suffix_cons_iff, or_and_right, exists_or, exists_eq_left]

instance decidableHasEntry : ∀ ps : List Piece, Decidable (HasEntry ps)
  | [] => isFalse not_hasEntry_nil
  | _ :: ps =>
    have := decidableHasEntry ps
    decidable_of_iff _ hasEntry_cons.symm

/-- An inserted reading does not begin with a token that comes from a piece. -/
theorem inserted_infix_cons (hd : d.pieces ≠ []) {q : Piece} {l : Lexeme}
    {front : List (Origin × Lexeme)} :
    inserted d <:+: (.piece q, l) :: front ↔ inserted d <:+: front := by
  rw [List.infix_cons_iff, or_iff_right]
  intro hprefix
  obtain ⟨p, ps, hps⟩ := List.exists_cons_of_ne_nil hd
  rw [inserted, Reading.lexemes, hps, List.map_cons, List.map_cons, List.cons_prefix_cons] at hprefix
  exact Origin.noConfusion (congrArg Prod.fst hprefix.1)

/-- What is inserted stands, as a whole, in front of a token just when an entry point does. The token
    comes from a piece that is no part of an entry point. -/
theorem inserted_infix_iff (hd : d.pieces ≠ []) {p : Piece} (hvoid : p.isWord "void" = false)
    (hmain : p.isWord "main" = false) (hparen : p.isMark '(' = false) {l : Lexeme}
    {behind : List (Origin × Lexeme)} :
    ∀ {ps : List Piece} {front : List (Origin × Lexeme)},
      originated spelling? true d ps = front ++ (.piece p, l) :: behind →
        (inserted d <:+: front ↔ HasEntry (front.filterMap (·.1.piece?)))
  | [], front, h => absurd h.symm (List.append_ne_nil_of_right_ne_nil front (List.cons_ne_nil _ _))
  | q :: ps, front, h => by
    -- the pieces fall apart where the tokens do, so an entry point in front of the token is one alone
    have hbegins : ∀ {front'}, originated spelling? true d ps = front' ++ (.piece p, l) :: behind →
        beginsEntry (q :: front'.filterMap (·.1.piece?)) = beginsEntry (q :: ps) := by
      intro front' hps
      have hcut := congrArg (List.filterMap (·.1.piece?)) hps
      rw [filterMap_originated, List.filterMap_append] at hcut
      rw [← beginsEntry_append hvoid hmain hparen (behind.filterMap (·.1.piece?)), hcut]
      rfl
    rw [originated, Bool.true_and] at h
    cases hentry : beginsEntry (q :: ps) with
    | true =>
      rw [hentry, if_pos rfl] at h
      rcases originated_split (fun _ => fst_of_mem_inserted) h with ⟨-, rfl⟩ | ⟨front', rfl, hps⟩
      · -- an entry point begins with another word
        rw [isWord_of_beginsEntry hentry] at hvoid
        exact Bool.noConfusion hvoid
      · have hfront := (hbegins hps).trans hentry
        rw [List.filterMap_append, filterMap_inserted, List.nil_append]
        exact iff_of_true (List.prefix_append _ _).isInfix (hasEntry_cons.mpr (Or.inl hfront))
    | false =>
      rw [hentry, if_neg Bool.false_ne_true] at h
      have hnil : ∀ x ∈ ([] : List (Origin × Lexeme)), x.1 = .declaration :=
        fun _ hx => absurd hx List.not_mem_nil
      rcases originated_split hnil h with ⟨rfl, rfl⟩ | ⟨front', rfl, hps⟩
      · refine iff_of_false (fun hinfix => hd ?_) not_hasEntry_nil
        exact List.map_eq_nil_iff.mp (List.map_eq_nil_iff.mp (List.infix_nil.mp hinfix))
      · have hfront : beginsEntry (q :: front'.filterMap (·.1.piece?)) ≠ true := by
          rw [hbegins hps, hentry]
          exact Bool.false_ne_true
        rw [List.nil_append, inserted_infix_cons hd, inserted_infix_iff hd hvoid hmain hparen hps]
        exact (hasEntry_cons.trans (or_iff_right hfront)).symm

/-- A token has the spelling of the piece that it comes from. -/
theorem eq_of_mem_originated {p : Piece} {l : Lexeme} : ∀ {ps : List Piece},
    (.piece p, l) ∈ originated spelling? declares d ps →
      ∃ qs, l = (p.kind, ((spelling? p qs).map String.toList).getD p.text)
  | [], h => absurd h List.not_mem_nil
  | q :: ps, h => by
    rw [originated, List.mem_append, List.mem_cons] at h
    rcases h with h | h | h
    · split at h
      · exact Origin.noConfusion (fst_of_mem_inserted h)
      · exact absurd h List.not_mem_nil
    · cases h
      exact ⟨ps, rfl⟩
    · exact eq_of_mem_originated h

end

namespace Rules

/-- The tokens of a treated fragment shader, each with its origin. -/
def tokenOrigins (rules : Rules) (s : Text) : List (Origin × Lexeme) :=
  originated (rules.spelling? .fragment) (decide ¬ rules.BringsOutput s)
    (Reading.of rules.outputDeclaration.toList)
    (Reading.of (pruneExtensions rules.prunedExtensions s)).pieces

theorem Lawful.map_snd_tokenOrigins {rules : Rules} (h : rules.Lawful) (defines : DefineSet)
    (s : Text) : (rules.tokenOrigins s).map (·.2) =
      (tokens (rules.finish defines .fragment s)).map Token.lexeme := by
  rw [← Reading.lexemes_of, h.of_finish, outcome_fragment, tokenOrigins]
  exact map_snd_originated _ _

/-- The declared name is written for the built-in output, and kept where it stands. -/
theorem spelled_output_iff {rules : Rules} (h : rules = glsl300es ∨ rules = glsl450) (p : Piece)
    (ps : List Piece) :
    (p.kind, ((rules.spelling? .fragment p ps).map String.toList).getD p.text) =
        (.word, "glFragColor".toList) ↔
      p.isWord "gl_FragColor" = true ∨ p.isWord "glFragColor" = true := by
  have htarget : ∀ r ∈ rules.renames, r.target = "glFragColor" ↔ r.source = "gl_FragColor" := by
    rcases h with rfl | rfl <;> decide
  have hsource : ∀ r ∈ rules.renames, r.source ≠ "glFragColor" := by
    rcases h with rfl | rfl <;> decide
  have houtput : ⟨"gl_FragColor", "glFragColor"⟩ ∈ rules.fragmentOutputs := by
    rcases h with rfl | rfl <;> decide
  cases hnew : rules.spelling? .fragment p ps with
  | none =>
    -- what keeps its spelling is not the built-in output
    have hnot : p.isWord "gl_FragColor" ≠ true := by
      have hnone := (Option.or_eq_none_iff.mp hnew).2
      exact List.find?_eq_none.mp (Option.map_eq_none_iff.mp hnone) _ houtput
    rw [or_iff_right hnot, Piece.isWord, Bool.and_eq_true, beq_iff_eq, beq_iff_eq, Prod.mk.injEq]
    rfl
  | some new =>
    obtain ⟨r, hr, hword, rfl⟩ := rules.lists_spelling? .fragment p ps new hnew
    have hnot : p.isWord "glFragColor" ≠ true := fun hown => hsource r hr (p.isWord_inj _ _ hword hown)
    rw [or_iff_left hnot, Option.map_some, Option.getD_some, isWord_kind hword, Prod.mk.injEq,
      and_iff_right rfl, String.toList_inj, htarget r hr]
    exact ⟨fun heq => heq ▸ hword, fun hcolor => p.isWord_inj _ _ hword hcolor⟩

/-- A token with the name of the declared output stands behind an inserted declaration just when it stands
    behind the beginning of an entry point, and it comes from the built-in output unless the pruned
    shader has the name already. The tokens with their origins are those of the treated shader, and the
    pieces are those of the pruned one. -/
theorem declaration_infix_iff {rules : Rules} (h : rules = glsl300es ∨ rules = glsl450)
    (defines : DefineSet) {s : Text} (hown : ¬ rules.BringsOutput s) :
    (rules.tokenOrigins s).map (·.2) =
        (tokens (rules.finish defines .fragment s)).map Token.lexeme ∧
      (rules.tokenOrigins s).filterMap (·.1.piece?) =
        (Reading.of (pruneExtensions rules.prunedExtensions s)).pieces ∧
      ∀ front p l behind, rules.tokenOrigins s = front ++ (.piece p, l) :: behind →
        (l = (.word, "glFragColor".toList) ↔
          p.isWord "gl_FragColor" = true ∨ p.isWord "glFragColor" = true) ∧
        (l = (.word, "glFragColor".toList) →
          (inserted (Reading.of rules.outputDeclaration.toList) <:+: front ↔
            HasEntry (front.filterMap (·.1.piece?)))) := by
  have hlawful := lawful_of_builtin h
  have hpieces : (Reading.of rules.outputDeclaration.toList).pieces ≠ [] := by
    rcases h with rfl | rfl <;> decide
  refine ⟨hlawful.map_snd_tokenOrigins defines s, filterMap_originated _, ?_⟩
  intro front p l behind hcut
  have hmem : (.piece p, l) ∈ rules.tokenOrigins s := by
    rw [hcut]
    exact List.mem_append_right _ List.mem_cons_self
  obtain ⟨qs, rfl⟩ := eq_of_mem_originated hmem
  have hspelled := spelled_output_iff h p qs
  refine ⟨hspelled, fun hname => ?_⟩
  -- neither name of the output is part of an entry point
  obtain ⟨word, hword, hvoid, hmain⟩ :
      ∃ word, p.isWord word = true ∧ word ≠ "void" ∧ word ≠ "main" := by
    rcases hspelled.mp hname with hcolor | hcolor
    · exact ⟨_, hcolor, by decide, by decide⟩
    · exact ⟨_, hcolor, by decide, by decide⟩
  have hparen : p.isMark '(' = false := by
    rw [Piece.isMark, isWord_kind hword]
    rfl
  rw [tokenOrigins, decide_eq_true hown] at hcut
  exact inserted_infix_iff hpieces (isWord_eq_false_of_ne hword hvoid)
    (isWord_eq_false_of_ne hword hmain) hparen hcut

/-- A use in a macro in front of the entry point, and one in the entry point. -/
theorem declaration_infix_iff_twice :
    (glsl450 = glsl300es ∨ glsl450 = glsl450) ∧
      ¬ glsl450.BringsOutput "#define C gl_FragColor\nvoid main(){C=a;gl_FragColor=b;}".toList ∧
      ¬ inserted (Reading.of glsl450.outputDeclaration.toList) <:+:
        (glsl450.tokenOrigins
          "#define C gl_FragColor\nvoid main(){C=a;gl_FragColor=b;}".toList).take 3 ∧
      inserted (Reading.of glsl450.outputDeclaration.toList) <:+:
        (glsl450.tokenOrigins
          "#define C gl_FragColor\nvoid main(){C=a;gl_FragColor=b;}".toList).take 23 := by
  have h : glsl450 = glsl300es ∨ glsl450 = glsl450 := Or.inr rfl
  have hown : ¬ glsl450.BringsOutput
      "#define C gl_FragColor\nvoid main(){C=a;gl_FragColor=b;}".toList := by decide
  have huse := (declaration_infix_iff h .empty hown).2.2
  have hdirective := huse
    ((glsl450.tokenOrigins "#define C gl_FragColor\nvoid main(){C=a;gl_FragColor=b;}".toList).take 3)
    ⟨[' '], .word, "gl_FragColor".toList⟩ (.word, "glFragColor".toList)
    ((glsl450.tokenOrigins "#define C gl_FragColor\nvoid main(){C=a;gl_FragColor=b;}".toList).drop 4)
    (by decide)
  have hmain := huse
    ((glsl450.tokenOrigins "#define C gl_FragColor\nvoid main(){C=a;gl_FragColor=b;}".toList).take 23)
    ⟨[], .word, "gl_FragColor".toList⟩ (.word, "glFragColor".toList)
    ((glsl450.tokenOrigins "#define C gl_FragColor\nvoid main(){C=a;gl_FragColor=b;}".toList).drop 24)
    (by decide)
  exact ⟨h, hown, mt (hdirective.2 rfl).mp (by decide), (hmain.2 rfl).mpr (by decide)⟩

/-- In a function in front of the entry point the output is used before it is declared. -/
theorem use_before_declaration :
    ¬ glsl300es.BringsOutput
        "void f() { gl_FragColor = vec4(1.0); }\nvoid main() { f(); }\n".toList ∧
      ((tokens "void f() { gl_FragColor = vec4(1.0); }\nvoid main() { f(); }\n".toList).all
          fun t => !t.isWord "glFragColor") = true ∧
      glsl300es.finish .empty .fragment
          "void f() { gl_FragColor = vec4(1.0); }\nvoid main() { f(); }\n".toList =
        ("void f() { glFragColor = vec4(1.0); }\n" ++
          "layout(location = 0) out vec4 glFragColor;\nvoid main() { f(); }\n").toList ∧
      ∃ front p behind,
        glsl300es.tokenOrigins
            "void f() { gl_FragColor = vec4(1.0); }\nvoid main() { f(); }\n".toList =
          front ++ (.piece p, (.word, "glFragColor".toList)) :: behind ∧
        p.isWord "gl_FragColor" = true ∧ ∀ x ∈ front, x.1 ≠ .declaration := by
  refine ⟨by decide, by decide, by decide, ?_⟩
  refine ⟨(glsl300es.tokenOrigins
      "void f() { gl_FragColor = vec4(1.0); }\nvoid main() { f(); }\n".toList).take 5,
    ⟨[' '], .word, "gl_FragColor".toList⟩,
    (glsl300es.tokenOrigins
      "void f() { gl_FragColor = vec4(1.0); }\nvoid main() { f(); }\n".toList).drop 6, ?_, ?_, ?_⟩
  · decide
  · decide
  · decide

end Rules

end Shading
