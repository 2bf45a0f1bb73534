import Shading.Proofs.BlankedComments

/-!
    White space and comments.

    `Filler` says what may stand between tokens without the machine that reads roles: white space, line
    comments up to their newline, and block comments through the first `*/`. The input may also begin
    inside a block comment, and a comment of either kind may be cut off by its end. A text whose
    characters all have the role of white space or of a comment is such a filler (`filler_of_idle`), and
    where a filler ends is where the machine then stands (`Filler.covers`).

        code ──white space──▶ code
        code ──//, no newline──▶ newline or end of the input
        code ──/*──▶ comment ──through the first */──▶ code, or end of the input -/

namespace Shading

/-- The delimiter that closes a block comment occurs in the text. -/
def Closes (s : Text) : Prop := ['*', '/'] <:+: s

/-- White space and comments. `inComment` says that the text continues a block comment, and `stop` where
    it ends: outside comments, or in a comment that the end of the input cuts off. -/
inductive Filler : Bool → Within → Text → Prop
  | nil : Filler false .code []
  | blank (c : Char) {stop : Within} {g : Text} (hblank : isBlank c = true)
      (h : Filler false stop g) : Filler false stop (c :: g)
  | line (body : Text) {stop : Within} {g : Text} (hbody : '\n' ∉ body)
      (h : Filler false stop ('\n' :: g)) : Filler false stop ('/' :: '/' :: (body ++ '\n' :: g))
  | lastLine (body : Text) (hbody : '\n' ∉ body) :
      Filler false .lineComment ('/' :: '/' :: body)
  | block {stop : Within} {g : Text} (h : Filler true stop g) :
      Filler false stop ('/' :: '*' :: g)
  | closed (body : Text) {stop : Within} {g : Text} (hbody : ¬ Closes body)
      (h : Filler false stop g) : Filler true stop (body ++ '*' :: '/' :: g)
  | unclosed (body : Text) (hbody : ¬ Closes body) : Filler true .blockComment body

/-! ### Reading comments -/

theorem not_closes_nil : ¬ Closes [] := fun h => by simpa using h.length_le

theorem closes_cons {c : Char} {s : Text} :
    Closes (c :: s) ↔ c = '*' ∧ s.head? = some '/' ∨ Closes s := by
  rw [Closes, List.infix_cons_iff, List.cons_prefix_cons, List.singleton_prefix_iff_head?_eq_some,
    eq_comm (a := '*'), Closes]

/-- Where the comment is not closed, a character of it leads to no other place. -/
theorem step_not_closes {c : Char} {s : Text} (h : ¬(c = '*' ∧ s.head? = some '/')) :
    step .blockComment c s.head? = (.comment, .blockComment) := by
  rw [step, if_neg]
  rwa [Bool.and_eq_true, beq_iff_eq, beq_iff_eq]

theorem placeAfter_not_closes : ∀ {body : Text}, ¬ Closes body →
    placeAfter .blockComment body = .blockComment
  | [], _ => rfl
  | c :: body, h => by
    rw [closes_cons, not_or] at h
    rw [placeAfter, step_not_closes h.1, placeAfter_not_closes h.2]

theorem placeAfter_closes (g : Text) : ∀ {body : Text}, ¬ Closes body →
    placeAfter .blockComment (body ++ '*' :: '/' :: g) = placeAfter .code g
  | [], _ => rfl
  | c :: body, h => by
    rw [closes_cons, not_or] at h
    have hstep : ¬(c = '*' ∧ (body ++ '*' :: '/' :: g).head? = some '/') := by
      rw [List.head?_append]
      cases body with
      | nil => simp
      | cons d body => exact h.1
    rw [List.cons_append, placeAfter, step_not_closes hstep, placeAfter_closes g h.2]

/-- What a text carries of an open comment: all of it, or all through the delimiter that closes it. -/
theorem commentRest_cases : ∀ s : Text,
    (¬ Closes s ∧ commentRest s = s ∧ afterComment s = []) ∨
    ∃ body, ¬ Closes body ∧ commentRest s = body ++ ['*', '/'] ∧
      s = body ++ '*' :: '/' :: afterComment s
  | [] => Or.inl ⟨not_closes_nil, rfl, rfl⟩
  | [c] => Or.inl ⟨fun h => by simpa using h.length_le, rfl, rfl⟩
  | c :: d :: s => by
    by_cases hclose : (c == '*' && d == '/') = true
    · rw [commentRest, afterComment, if_pos hclose, if_pos hclose]
      rw [Bool.and_eq_true, beq_iff_eq, beq_iff_eq] at hclose
      obtain ⟨rfl, rfl⟩ := hclose
      exact Or.inr ⟨[], not_closes_nil, rfl, rfl⟩
    · rw [commentRest, afterComment, if_neg hclose, if_neg hclose]
      rw [Bool.and_eq_true, beq_iff_eq, beq_iff_eq] at hclose
      -- `c` and `d` close nothing, so what behind `c` begins with `d` closes if the whole does
      have hopen : ∀ {s' : Text}, s'.head? = some d → ¬ Closes s' → ¬ Closes (c :: s') := by
        intro s' hhead hs'
        rw [closes_cons, hhead, Option.some.injEq]
        exact not_or.mpr ⟨hclose, hs'⟩
      rcases commentRest_cases (d :: s) with ⟨hnot, hrest, hafter⟩ | ⟨body, hbody, hrest, hcut⟩
      · exact Or.inl ⟨hopen rfl hnot, congrArg (c :: ·) hrest, hafter⟩
      · refine Or.inr ⟨c :: body, ?_, congrArg (c :: ·) hrest, congrArg (c :: ·) hcut⟩
        cases body with
        | nil => exact fun h => by simpa using h.length_le
        | cons e body =>
          rw [List.cons_append, List.cons.injEq] at hcut
          exact hopen (congrArg some hcut.1.symm) hbody

/-- A line comment is read up to its newline. -/
theorem roles_lineComment (g : Text) : ∀ {body : Text}, '\n' ∉ body →
    roles .lineComment (body ++ '\n' :: g) =
        body.map (·, Role.comment) ++ roles .code ('\n' :: g) ∧
      placeAfter .lineComment (body ++ '\n' :: g) = placeAfter .code ('\n' :: g)
  | [], _ => by
    have hline : step .lineComment '\n' g.head? = (.blank, .code) := rfl
    have hcode : step .code '\n' g.head? = (.blank, .code) := enter_newline g.head?
    rw [List.nil_append, roles, roles, placeAfter, placeAfter, hline, hcode]
    exact ⟨rfl, rfl⟩
  | c :: body, h => by
    obtain ⟨hroles, hplace⟩ := roles_lineComment g (List.not_mem_of_not_mem_cons h)
    have hstep : ∀ next, step .lineComment c next = (.comment, .lineComment) := fun next => by
      rw [step, beq_false_of_ne (List.ne_of_not_mem_cons h).symm, if_neg Bool.false_ne_true]
    rw [List.cons_append, roles, placeAfter, hstep, hroles, hplace]
    exact ⟨rfl, rfl⟩

theorem placeAfter_lineComment : ∀ {body : Text}, '\n' ∉ body →
    placeAfter .lineComment body = .lineComment
  | [], _ => rfl
  | c :: body, h => by
    rw [placeAfter, step, beq_false_of_ne (List.ne_of_not_mem_cons h).symm,
      if_neg Bool.false_ne_true, placeAfter_lineComment (List.not_mem_of_not_mem_cons h)]

theorem step_blank {c : Char} (h : isBlank c = true) (next : Option Char) :
    step .code c next = (.blank, .code) := by
  rw [step, enter, if_pos h]

/-! ### Idle texts are fillers -/

/-- Where a filler ends is where the machine stands behind it. -/
theorem Filler.covers {inComment : Bool} {stop : Within} {g : Text} (h : Filler inComment stop g) :
    stop.covers (placeAfter (.start inComment) g) := by
  induction h with
  | nil => exact rfl
  | @blank c stop g hblank h ih =>
    have hplace : placeAfter (.start false) (c :: g) = placeAfter (.start false) g := by
      rw [placeAfter, Place.start, if_neg Bool.false_ne_true, step_blank hblank]
    rwa [hplace]
  | @line body stop g hbody h ih =>
    have hplace : placeAfter (.start false) ('/' :: '/' :: (body ++ '\n' :: g)) =
        placeAfter (.start false) ('\n' :: g) := (roles_lineComment g hbody).2
    rwa [hplace]
  | lastLine body hbody => exact placeAfter_lineComment hbody
  | block h ih => exact ih
  | @closed body stop g hbody h ih =>
    have hplace : placeAfter (.start true) (body ++ '*' :: '/' :: g) =
        placeAfter (.start false) g := placeAfter_closes g hbody
    rwa [hplace]
  | unclosed body hbody => exact placeAfter_not_closes hbody

theorem Within.covers_unique {within within' : Within} {place : Place} (h : within.covers place)
    (h' : within'.covers place) : within = within' := by
  have hline : ¬ Within.code.covers .lineComment := fun h => Bool.noConfusion h
  have hblock : ¬ Within.code.covers .blockComment := fun h => Bool.noConfusion h
  cases within with
  | code =>
    cases within' with
    | code => rfl
    | lineComment => exact absurd (h' ▸ h) hline
    | blockComment => exact absurd (h' ▸ h) hblock
  | lineComment =>
    cases within' with
    | code => exact absurd (h ▸ h') hline
    | lineComment => rfl
    | blockComment => exact Place.noConfusion (h.symm.trans h')
  | blockComment =>
    cases within' with
    | code => exact absurd (h ▸ h') hblock
    | lineComment => exact Place.noConfusion (h.symm.trans h')
    | blockComment => rfl

/-- A filler ends in one way only. -/
theorem Filler.stop_unique {inComment : Bool} {stop stop' : Within} {g : Text}
    (h : Filler inComment stop g) (h' : Filler inComment stop' g) : stop = stop' :=
  Within.covers_unique h.covers h'.covers

/-- A filler leaves a block comment open exactly when the machine stands in one behind it. -/
theorem Filler.open_iff {inComment : Bool} {stop : Within} {g : Text} (h : Filler inComment stop g) :
    stop = .blockComment ↔ placeAfter (.start inComment) g = .blockComment := by
  have hcovers := h.covers
  constructor
  · rintro rfl
    exact hcovers
  · intro hplace
    rw [hplace] at hcovers
    have hblock : Within.blockComment.covers .blockComment := rfl
    exact Within.covers_unique hcovers hblock

/-- Where only white space and comments are read, there is a filler. -/
theorem filler_of_idle : ∀ (inComment : Bool) (s : Text),
    (∀ x ∈ roles (.start inComment) s, x.2.isIdle = true) → ∃ stop, Filler inComment stop s
  | false, [], _ => ⟨.code, Filler.nil⟩
  | false, c :: s, h => by
    have hhead : (enter c s.head?).1.isIdle = true := h _ List.mem_cons_self
    have htail := fun x hx => h x (List.mem_cons_of_mem _ hx)
    rcases enter_cases c s.head? with ⟨hblank, he⟩ | ⟨rfl, hnext, he⟩ | ⟨-, he⟩ | ⟨-, he⟩ | he
    · have hplace : (step (.start false) c s.head?).2 = .start false := congrArg Prod.snd he
      rw [hplace] at htail
      obtain ⟨stop, hfiller⟩ := filler_of_idle false s htail
      exact ⟨stop, Filler.blank c hblank hfiller⟩
    · rcases hnext with hnext | hnext
      · obtain ⟨s, rfl⟩ := List.head?_eq_some_iff.mp hnext
        by_cases hline : '\n' ∈ s
        · obtain ⟨body, g, rfl, hbody⟩ := List.eq_append_cons_of_mem hline
          have hroles : roles (.start false) ('/' :: '/' :: (body ++ '\n' :: g)) =
              ('/', .comment) :: ('/', .comment) ::
                (body.map (·, Role.comment) ++ roles (.start false) ('\n' :: g)) := by
            rw [Place.start, if_neg Bool.false_ne_true, ← (roles_lineComment g hbody).1]
            rfl
          obtain ⟨stop, hfiller⟩ := filler_of_idle false ('\n' :: g) fun x hx => h x (by
            rw [hroles]
            exact List.mem_cons_of_mem _ (List.mem_cons_of_mem _ (List.mem_append_right _ hx)))
          exact ⟨stop, Filler.line body hbody hfiller⟩
        · exact ⟨.lineComment, Filler.lastLine s hline⟩
      · obtain ⟨s, rfl⟩ := List.head?_eq_some_iff.mp hnext
        obtain ⟨stop, hfiller⟩ := filler_of_idle true s fun x hx =>
          htail x (List.mem_cons_of_mem _ hx)
        exact ⟨stop, Filler.block hfiller⟩
    all_goals
      rw [he] at hhead
      exact Bool.noConfusion hhead
  | true, s, h => by
    rcases commentRest_cases s with ⟨hnot, -, -⟩ | ⟨body, hbody, -, hcut⟩
    · exact ⟨.blockComment, Filler.unclosed s hnot⟩
    · -- the tail of the comment is passed in one go, which makes the text shorter
      have hroles : roles (.start true) s = _ := roles_blockComment s
      have hlength : (afterComment s).length < s.length := by
        have hsize := congrArg List.length hcut
        simp only [List.length_append, List.length_cons] at hsize
        omega
      obtain ⟨stop, hfiller⟩ := filler_of_idle false (afterComment s) fun x hx => h x (by
        rw [hroles]
        exact List.mem_append_right _ hx)
      rw [hcut]
      exact ⟨stop, Filler.closed body hbody hfiller⟩
termination_by _ s => s.length

/-- A gap in front of a token is a filler that leaves no comment open. -/
theorem Gap.filler {g : Text} {next : Option Char} (h : Gap g next) : Filler false .code g := by
  obtain ⟨hroles, hback⟩ := partRoles_of_idle_code none rfl h.isIdle h.back
  rw [partRoles_none] at hroles
  rw [partPlace_none] at hback
  obtain ⟨stop, hfiller⟩ := filler_of_idle false g fun x hx => h.isIdle x (by
    rw [← hroles]
    exact hx)
  have hcovers : stop.covers (placeAfter .code g) := hfiller.covers
  rw [hback] at hcovers
  cases stop with
  | code => exact hfiller
  | lineComment => exact Place.noConfusion hcovers
  | blockComment => exact Place.noConfusion hcovers

/-! ### The end of a filler -/

theorem not_continuesWord_of_isBlank {c : Char} (h : isBlank c = true) : continuesWord c = false := by
  rw [Bool.eq_false_iff]
  intro hword
  rw [continuesWord, Char.isAlphanum, Bool.or_eq_true, Bool.or_eq_true, or_right_comm] at hword
  rcases hword with hword | hdigit
  · rw [← Bool.or_eq_true, ← beginsWord] at hword
    rw [not_isBlank_of_beginsWord hword] at h
    exact Bool.noConfusion h
  · have hrange : 48 ≤ c.toNat ∧ c.toNat ≤ 57 := Char.isDigit_iff_toNat.mp hdigit
    simp only [isBlank, blankRanges, List.any_cons, List.any_nil, Bool.or_eq_true, Bool.and_eq_true,
      decide_eq_true_eq, Bool.or_false] at h
    omega

theorem any_getLast?_append {a b : Text} {p : Char → Bool} (ha : a.getLast?.any p = false)
    (hb : b.getLast?.any p = false) : (a ++ b).getLast?.any p = false := by
  rw [List.getLast?_append]
  cases hlast : b.getLast? with
  | none => exact ha
  | some c => rwa [hlast] at hb

/-- White space and comments end in white space or in a delimiter, unless a comment is cut off. -/
theorem Filler.getLast?_not_word {inComment : Bool} {stop : Within} {g : Text}
    (h : Filler inComment stop g) (hstop : stop = .code) :
    g.getLast?.any continuesWord = false := by
  induction h with
  | nil => rfl
  | @blank c stop g hblank h ih =>
    rw [← List.singleton_append]
    exact any_getLast?_append (not_continuesWord_of_isBlank hblank) (ih hstop)
  | @line body stop g hbody h ih =>
    have hcut : '/' :: '/' :: (body ++ '\n' :: g) = ('/' :: '/' :: body) ++ '\n' :: g := rfl
    have hlast := ih hstop
    rw [List.getLast?_cons] at hlast
    rw [hcut, List.getLast?_append, List.getLast?_cons, Option.some_or]
    exact hlast
  | lastLine body hbody => exact Within.noConfusion hstop
  | @block stop g h ih =>
    have hcut : '/' :: '*' :: g = ['/', '*'] ++ g := rfl
    rw [hcut]
    exact any_getLast?_append rfl (ih hstop)
  | @closed body stop g hbody h ih =>
    have hcut : body ++ '*' :: '/' :: g = (body ++ ['*', '/']) ++ g := by
      rw [List.append_assoc]
      rfl
    rw [hcut]
    refine any_getLast?_append ?_ (ih hstop)
    rw [List.getLast?_append]
    rfl
  | unclosed body hbody => exact Within.noConfusion hstop

end Shading
