import Shading.Proofs.Reading

/-!
    Texts with blanked comments.

    Blanking overwrites every character of every comment with as many spaces as it has bytes; newlines
    stay, so that lines and positions are the same as before. `blankedFrom` says what a comment is without
    the machine that reads roles: `//` up to a newline, and `/*` through the first `*/` or to the end of
    the text.

        code ──//──▶ lineComment ──newline──▶ code
        code ──/*──▶ blockComment ──*/──▶ code

    Blanking changes only gaps of the reading (`of_blanked`). -/

namespace Shading

/-- Where a character stands: in code, or in a comment of one of the two kinds. -/
inductive Within where
  | code
  | lineComment
  | blockComment
  deriving DecidableEq

/-- What is written over a character of a comment. -/
def overwritten (c : Char) : Text := if c = '\n' then ['\n'] else List.replicate c.utf8Size ' '

/-- The text that follows what `Within` says, with its comments blanked. -/
def blankedFrom : Within → Text → Text
  | .code, '/' :: '/' :: s => ' ' :: ' ' :: blankedFrom .lineComment s
  | .code, '/' :: '*' :: s => ' ' :: ' ' :: blankedFrom .blockComment s
  | .code, c :: s => c :: blankedFrom .code s
  | .lineComment, '\n' :: s => '\n' :: blankedFrom .code s
  | .lineComment, c :: s => overwritten c ++ blankedFrom .lineComment s
  | .blockComment, '*' :: '/' :: s => ' ' :: ' ' :: blankedFrom .code s
  | .blockComment, c :: s => overwritten c ++ blankedFrom .blockComment s
  | _, [] => []

/-- The text with its comments blanked. -/
def blanked (s : Text) : Text := blankedFrom .code s

/-! ### Lines and positions -/

theorem byteSize_replicate_space (n : Nat) : Text.byteSize (List.replicate n ' ') = n := by
  induction n with
  | zero => rfl
  | succ n ih => rw [List.replicate_succ, Text.byteSize_cons, ih, Nat.add_comm]; rfl

theorem byteSize_overwritten (c : Char) : (overwritten c).byteSize = c.utf8Size := by
  rw [overwritten]
  split
  next h => rw [h]; rfl
  next => exact byteSize_replicate_space _

theorem newline_mem_overwritten {c : Char} : '\n' ∈ overwritten c ↔ '\n' = c := by
  rw [overwritten]
  split
  next h => simp [h]
  next h => simp [List.mem_replicate, Ne.symm h]

/-- Blanking keeps positions. -/
theorem byteSize_blankedFrom (within : Within) (s : Text) :
    (blankedFrom within s).byteSize = s.byteSize := by
  have hslash : ' '.utf8Size = '/'.utf8Size := rfl
  have hstar : ' '.utf8Size = '*'.utf8Size := rfl
  induction within, s using blankedFrom.induct with
  | case1 s ih => simp [blankedFrom, ih, hslash]
  | case2 s ih => simp [blankedFrom, ih, ← hslash, ← hstar]
  | case6 s ih => simp [blankedFrom, ih, ← hslash, ← hstar]
  | _ => simp_all [blankedFrom, byteSize_overwritten]

/-- Blanking keeps newlines. -/
theorem newline_mem_blankedFrom (within : Within) (s : Text) :
    '\n' ∈ blankedFrom within s ↔ '\n' ∈ s := by
  induction within, s using blankedFrom.induct <;>
    simp_all [blankedFrom, newline_mem_overwritten]

/-! ### Comments by their roles -/

/-- The text of characters with their roles, the comments blanked. -/
def blankedRoles (R : List (Char × Role)) : Text :=
  R.flatMap fun (c, role) => if role = .comment then overwritten c else [c]

/-- In code a character begins a comment or belongs to none. -/
theorem step_of_isCode {place : Place} (h : place.isCode = true) (c : Char) (next : Option Char) :
    (c = '/' ∧ (next = some '/' ∨ next = some '*') ∧ step place c next = (.comment, .opening)) ∨
    ((step place c next).1 ≠ .comment ∧ (step place c next).2.isCode = true) := by
  by_cases htakes : place.takes c = true
  · obtain ⟨hrole, hcode⟩ := step_of_takes htakes next
    exact Or.inr ⟨by rw [hrole]; exact Role.noConfusion, hcode⟩
  · rw [step_of_not_takes h (Bool.eq_false_iff.mpr htakes)]
    rcases enter_cases c next with ⟨-, he⟩ | ⟨hc, hnext, he⟩ | ⟨-, he⟩ | ⟨-, he⟩ | he
    · exact Or.inr (by rw [he]; exact ⟨Role.noConfusion, rfl⟩)
    · exact Or.inl ⟨hc, hnext, he⟩
    all_goals exact Or.inr (by rw [he]; exact ⟨Role.noConfusion, rfl⟩)

theorem step_slash {place : Place} (h : place.isCode = true) {next : Option Char}
    (hnext : next = some '/' ∨ next = some '*') : step place '/' next = (.comment, .opening) := by
  cases place with
  | code => rcases hnext with rfl | rfl <;> rfl
  | word => rcases hnext with rfl | rfl <;> rfl
  | number sign => cases sign <;> rcases hnext with rfl | rfl <;> rfl
  | _ => exact Bool.noConfusion h

/-- The places of the machine in code and in the two kinds of comments. -/
def Within.covers : Within → Place → Prop
  | .code, place => place.isCode = true
  | .lineComment, place => place = .lineComment
  | .blockComment, place => place = .blockComment

@[simp] theorem blankedRoles_comment (c : Char) (R : List (Char × Role)) :
    blankedRoles ((c, .comment) :: R) = overwritten c ++ blankedRoles R := rfl

theorem blankedRoles_of_ne {role : Role} (h : role ≠ .comment) (c : Char) (R : List (Char × Role)) :
    blankedRoles ((c, role) :: R) = c :: blankedRoles R := by
  simp [blankedRoles, h]

/-- The comments of a text are the characters with this role. -/
theorem blankedFrom_eq (within : Within) (s : Text) : ∀ {place : Place}, within.covers place →
    blankedFrom within s = blankedRoles (roles place s) := by
  have hcode : Within.code.covers .code := rfl
  have hline : Within.lineComment.covers .lineComment := rfl
  have hblock : Within.blockComment.covers .blockComment := rfl
  induction within, s using blankedFrom.induct with
  | case1 s ih =>
    intro place hplace
    rw [blankedFrom, roles, List.head?_cons, step_slash hplace (Or.inl rfl), roles, ih hline]
    rfl
  | case2 s ih =>
    intro place hplace
    rw [blankedFrom, roles, List.head?_cons, step_slash hplace (Or.inr rfl), roles, ih hblock]
    rfl
  | case3 c s hslashes hstar ih =>
    intro place hplace
    -- the machine may be in a word or a number: only a delimiter leads it out of code
    rcases step_of_isCode hplace c s.head? with ⟨rfl, hnext, -⟩ | ⟨hrole, hnext⟩
    · rcases hnext with hnext | hnext
      · obtain ⟨s, rfl⟩ := List.head?_eq_some_iff.mp hnext
        exact (hslashes s rfl rfl).elim
      · obtain ⟨s, rfl⟩ := List.head?_eq_some_iff.mp hnext
        exact (hstar s rfl rfl).elim
    · rw [blankedFrom, roles, blankedRoles_of_ne hrole, ih hnext]
      · exact hslashes
      · exact hstar
  | case4 s ih =>
    rintro place rfl
    rw [blankedFrom, roles, ih hcode]
    rfl
  | case5 c s hnewline ih =>
    rintro place rfl
    have hstep : step .lineComment c s.head? = (.comment, .lineComment) := by
      rw [step, beq_false_of_ne hnewline, if_neg Bool.false_ne_true]
    rw [blankedFrom, roles, hstep, blankedRoles_comment, ih hline]
    exact hnewline
  | case6 s ih =>
    rintro place rfl
    rw [blankedFrom, roles, roles, ih hcode]
    rfl
  | case7 c s hclose ih =>
    rintro place rfl
    have hopen : (c == '*' && s.head? == some '/') = false := by
      rw [Bool.eq_false_iff]
      intro h
      rw [Bool.and_eq_true, beq_iff_eq, beq_iff_eq] at h
      obtain ⟨s', hs⟩ := List.head?_eq_some_iff.mp h.2
      exact hclose s' h.1 hs
    have hstep : step .blockComment c s.head? = (.comment, .blockComment) := by
      rw [step, hopen, if_neg Bool.false_ne_true]
    rw [blankedFrom, roles, hstep, blankedRoles_comment, ih hblock]
    exact hclose
  | case8 within =>
    intro place _
    rw [blankedFrom]
    rfl

/-- Blanking, said by the machine that reads the text. -/
theorem blanked_eq (s : Text) : blanked s = blankedRoles (roles .code s) := by
  have hcode : Within.code.covers .code := rfl
  exact blankedFrom_eq .code s hcode

theorem byteSize_blanked (s : Text) : (blanked s).byteSize = s.byteSize := byteSize_blankedFrom .code s

theorem contains_newline_blanked (s : Text) : (blanked s).contains '\n' = s.contains '\n' := by
  rw [Bool.eq_iff_iff, List.contains_iff_mem, List.contains_iff_mem]
  exact newline_mem_blankedFrom .code s

/-! ### Blanked gaps -/

theorem isBlank_of_step {place : Place} {c : Char} {next : Option Char}
    (h : (step place c next).1 = .blank) : isBlank c = true := by
  have henter : (enter c next).1 = .blank → isBlank c = true := by
    intro h
    rcases enter_cases c next with ⟨hblank, -⟩ | ⟨-, -, he⟩ | ⟨-, he⟩ | ⟨-, he⟩ | he
    · exact hblank
    all_goals
      rw [he] at h
      exact Role.noConfusion h
  cases place with
  | code => exact henter h
  | word =>
    rw [step] at h
    split at h
    · exact Role.noConfusion h
    · exact henter h
  | number sign =>
    rw [step] at h
    split at h
    · exact Role.noConfusion h
    · split at h
      · exact Role.noConfusion h
      · exact henter h
  | lineComment =>
    rw [step] at h
    split at h
    next hc => rw [beq_iff_eq.mp hc]; decide
    next => exact Role.noConfusion h
  | _ => exact Role.noConfusion h

theorem all_isBlank_overwritten (c : Char) : (overwritten c).all isBlank = true := by
  rw [overwritten]
  split
  · decide
  · rw [List.all_eq_true]
    intro d hd
    rw [List.eq_of_mem_replicate hd]
    decide

/-- Of white space and comments only white space is left. -/
theorem all_isBlank_blankedRoles : ∀ {place : Place} {s : Text},
    (∀ x ∈ roles place s, x.2.isIdle = true) → (blankedRoles (roles place s)).all isBlank = true
  | _, [], _ => rfl
  | place, c :: s, h => by
    rw [roles, List.forall_mem_cons] at h
    have ih := all_isBlank_blankedRoles h.2
    rw [roles]
    cases hrole : (step place c s.head?).1 with
    | comment => rw [blankedRoles_comment, List.all_append, all_isBlank_overwritten, ih, Bool.and_self]
    | blank =>
      rw [blankedRoles_of_ne Role.noConfusion, List.all_cons, isBlank_of_step hrole, ih, Bool.and_self]
    | _ =>
      rw [hrole] at h
      exact Bool.noConfusion h.1

/-- White space is a gap. -/
theorem gap_of_isBlank (next : Option Char) : ∀ {g : Text}, g.all isBlank = true → Gap g next
  | [], _ => ⟨fun _ hx => absurd hx List.not_mem_nil, rfl⟩
  | c :: g, h => by
    rw [List.all_cons, Bool.and_eq_true] at h
    obtain ⟨hidle, hback⟩ := gap_of_isBlank next h.2
    have hstep : ∀ next, step .code c next = (.blank, .code) := fun next => by
      rw [step, enter, if_pos h.1]
    constructor
    · rw [partRoles, hstep, List.forall_mem_cons]
      exact ⟨rfl, hidle⟩
    · rw [partPlace, hstep]
      exact hback

theorem Gap.blanked {g : Text} {next : Option Char} (h : Gap g next) (next' : Option Char) :
    Gap (blanked g) next' := by
  have hidle := h.isIdle
  rw [h.roles_eq] at hidle
  rw [blanked_eq]
  exact gap_of_isBlank next' (all_isBlank_blankedRoles hidle)

/-! ### Tokens in front of blanked comments -/

/-- What follows the text begins as before, or with a space in place of a comment. -/
theorem head?_blanked (s : Text) :
    (blanked s).head? = s.head? ∨ s.head? = some '/' ∧ (blanked s).head? = some ' ' := by
  rw [blanked]
  unfold blankedFrom
  split
  · exact Or.inr ⟨rfl, rfl⟩
  · exact Or.inr ⟨rfl, rfl⟩
  · exact Or.inl rfl
  case h_8 => exact Or.inl rfl
  all_goals contradiction

/-- A slash that follows counts only for what begins a comment with it. -/
theorem enter_space {c : Char} (h : (enter c (some '/')).1 ≠ .comment) :
    enter c (some ' ') = enter c (some '/') := by
  have hc : c ≠ '/' := by
    rintro rfl
    exact h rfl
  rw [enter, enter, beq_false_of_ne hc]
  rfl

theorem step_space {place : Place} (hplace : place.isCode = true) {c : Char}
    (h : (step place c (some '/')).1 ≠ .comment) :
    step place c (some ' ') = step place c (some '/') := by
  by_cases htakes : place.takes c = true
  · cases place with
    | word =>
      have hword : continuesWord c = true := htakes
      rw [step, step, if_pos hword, if_pos hword]
    | number sign =>
      rw [step, step]
      split
      · rfl
      next hnumber =>
        have hsign := (Bool.or_eq_true _ _).mp htakes
        rw [if_pos (hsign.resolve_left hnumber), if_pos (hsign.resolve_left hnumber)]
    | _ => exact Bool.noConfusion htakes
  · have hnot := Bool.eq_false_iff.mpr htakes
    rw [step_of_not_takes hplace hnot] at h ⊢
    rw [step_of_not_takes hplace hnot, enter_space h]

/-- Where no comment begins, a part is read alike in front of a slash and of a space. -/
theorem partRoles_space : ∀ {place : Place} {s : Text}, place.isCode = true →
    (∀ x ∈ partRoles place s (some '/'), x.2 ≠ .comment) →
      partRoles place s (some ' ') = partRoles place s (some '/') ∧
        partPlace place s (some ' ') = partPlace place s (some '/')
  | _, [], _, _ => ⟨rfl, rfl⟩
  | place, [c], hplace, h => by
    have hstep := step_space hplace (h _ List.mem_cons_self)
    exact ⟨congrArg (fun x : Role × Place => [(c, x.1)]) hstep, congrArg Prod.snd hstep⟩
  | place, c :: d :: s, hplace, h => by
    rw [partRoles, List.forall_mem_cons] at h
    rcases step_of_isCode hplace c (some d) with ⟨-, -, hopen⟩ | ⟨-, hnext⟩
    · exact absurd (congrArg Prod.fst hopen) h.1
    · obtain ⟨hroles, hend⟩ := partRoles_space hnext h.2
      rw [partRoles, partPlace]
      exact ⟨congrArg _ hroles, hend⟩

theorem takes_space (place : Place) : place.takes ' ' = false := by
  cases place with
  | number sign => cases sign <;> rfl
  | _ => rfl

/-- A token ends in front of a space if it does in front of a comment. -/
theorem IsToken.space {kind : Kind} {t : Text} (h : IsToken kind t (some '/')) :
    IsToken kind t (some ' ') := by
  obtain ⟨⟨c, u, rfl, hroles⟩, hcode, -⟩ := h
  have hcomment : ∀ x ∈ partRoles .code (c :: u) (some '/'), x.2 ≠ .comment := by
    rw [hroles, List.forall_mem_cons]
    refine ⟨Role.noConfusion, fun x hx => ?_⟩
    obtain ⟨d, -, rfl⟩ := List.mem_map.mp hx
    exact Role.noConfusion
  obtain ⟨hroles', hplace⟩ := partRoles_space rfl hcomment
  exact ⟨⟨c, u, rfl, hroles'.trans hroles⟩, hplace ▸ hcode, takes_space _⟩

theorem IsToken.blanked {kind : Kind} {t s : Text} (h : IsToken kind t s.head?) :
    IsToken kind t (blanked s).head? := by
  rcases head?_blanked s with hsame | ⟨hslash, hspace⟩
  · rwa [hsame]
  · rw [hslash] at h
    rw [hspace]
    exact h.space

/-! ### The reading of a blanked text -/

/-- The piece with the comments in front of it blanked. -/
def Piece.blanked (p : Piece) : Piece := { p with gap := Shading.blanked p.gap }

/-- The reading with the comments in its gaps blanked. -/
def Reading.blanked (r : Reading) : Reading :=
  ⟨r.pieces.map Piece.blanked, Shading.blanked r.rest⟩

theorem blankedRoles_append (R R' : List (Char × Role)) :
    blankedRoles (R ++ R') = blankedRoles R ++ blankedRoles R' := List.flatMap_append

theorem blankedRoles_tails : ∀ u : Text, blankedRoles (u.map (·, Role.tail)) = u
  | [] => rfl
  | c :: u => by rw [List.map_cons, blankedRoles_of_ne Role.noConfusion, blankedRoles_tails u]

/-- Blanking leaves the tokens alone and blanks each gap by itself. -/
theorem blanked_piece {gap t s : Text} {kind : Kind} (hgap : Gap gap (t ++ s).head?)
    (htoken : IsToken kind t s.head?) :
    blanked (gap ++ (t ++ s)) = blanked gap ++ (t ++ blanked s) := by
  obtain ⟨c, u, rfl, hroles⟩ := htoken.roles
  rw [blanked_eq, roles_append, hgap.back, hgap.roles_eq, blankedRoles_append, ← blanked_eq,
    roles_append, roles_of_not_takes htoken.isCode htoken.ends, hroles, blankedRoles_append,
    ← blanked_eq, blankedRoles_of_ne Role.noConfusion, blankedRoles_tails]

theorem Reads.blanked {s : Text} {r : Reading} (h : Reads s r) : Reads (blanked s) r.blanked := by
  induction h with
  | rest rest h =>
    have hblank := all_isBlank_blankedRoles h
    rw [← blanked_eq] at hblank
    have hidle := (gap_of_isBlank none hblank).isIdle
    rw [partRoles_none] at hidle
    exact Reads.rest _ hidle
  | piece gap kind t s r hgap htoken h ih =>
    rw [blanked_piece hgap htoken]
    exact Reads.piece _ kind t _ r.blanked (hgap.blanked _) htoken.blanked ih

/-- Blanking changes only gaps. -/
theorem of_blanked (s : Text) : Reading.of (blanked s) = (Reading.of s).blanked :=
  (reads_of s).blanked.of_eq

theorem locate_blanked : ∀ (n : Nat) (fresh : Bool) (ps : List Piece),
    locate n fresh (ps.map Piece.blanked) = locate n fresh ps
  | _, _, [] => rfl
  | n, fresh, p :: ps => by
    rw [List.map_cons, locate, locate, Piece.blanked, byteSize_blanked, contains_newline_blanked,
      locate_blanked]

/-- Tokens and their places do not depend on what the comments hold. -/
theorem tokens_blanked (s : Text) : tokens (blanked s) = tokens s := by
  rw [tokens_eq, tokens_eq, of_blanked, Reading.blanked, locate_blanked]

end Shading
