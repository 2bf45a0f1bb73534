import Shading.Proofs.Fillers
import Shading.Proofs.Gaps
import Shading.Proofs.Lines
import Shading.Proofs.Respelling

/-!
    Tokens and gaps tile a text.

    From left to right a text is made of its tokens and of white space and comments between them, and of
    nothing else (`Tiling`). The tokens stand in order and do not overlap, a word ends only where no
    character could continue it, no token reaches over a newline, and a token is marked as the first of
    its line exactly when it is. Everything is proved along the reading of the text, one piece at a time:
    what a piece needs of the text in front of it is its last character and its number of newlines. -/

namespace Shading

/-- The stretches are white space and comments, from left to right. No comment is open behind a stretch,
    the last one apart. -/
def Fillers : Bool → Within → List Text → Prop
  | _, _, [] => False
  | inComment, stop, [g] => Filler inComment stop g
  | inComment, stop, g :: gs => Filler inComment .code g ∧ Fillers false stop gs

/-- The token stands in the text where it says, on one line, and if it is a word, between characters
    that continue none. -/
structure Placed (s : Text) (t : Token) : Prop where
  start_lt_stop : t.start < t.stop
  oneLine : '\n' ∉ t.text
  cut : ∃ front back, s = front ++ (t.text ++ back) ∧ t.start = front.byteSize ∧
    (t.kind = .word →
      front.getLast?.any continuesWord = false ∧ back.head?.any continuesWord = false)

/-- The tokens of a text and the white space and comments between them make up the text. -/
structure Tiling (inComment : Bool) (s : Text) : Prop where
  /-- A token begins behind those in front of it. -/
  ordered : (tokensFrom inComment s).Pairwise fun t u => t.stop ≤ u.start
  placed : ∀ t ∈ tokensFrom inComment s, Placed s t
  /-- Between the tokens stand white space and comments. -/
  fillers : ∃ stop, Fillers inComment stop (gaps inComment s)
  /-- Behind the last token a block comment is open exactly when the text ends in one. -/
  unclosed_iff :
    Fillers inComment .blockComment (gaps inComment s) ↔ endsInComment inComment s = true
  /-- The tokens at the beginning of a line are those without another in front of them on it. -/
  lineStart_iff : ∀ t ∈ tokensFrom inComment s, t.lineStart = true ↔
    ∀ u ∈ tokensFrom inComment s, u.start < t.start →
      s.lineNumber u.start ≠ s.lineNumber t.start

/-! ### What the machine says of a token -/

/-- A newline continues no token and begins none. -/
theorem isIdle_step_newline (place : Place) (next : Option Char) :
    (step place '\n' next).1.isIdle = true := by
  have hword : continuesWord '\n' = false := by decide
  have hnumber : continuesNumber '\n' = false := by decide
  cases place with
  | number sign => cases sign <;> simp [step, enter_newline, hnumber, Role.isIdle]
  | _ => simp [step, enter_newline, hword, Role.isIdle]

theorem isIdle_of_newline {next : Option Char} {role : Role} : ∀ {place : Place} {s : Text},
    ('\n', role) ∈ partRoles place s next → role.isIdle = true
  | _, [], h => absurd h List.not_mem_nil
  | place, c :: s, h => by
    rw [partRoles, List.mem_cons] at h
    rcases h with h | h
    · obtain ⟨rfl, rfl⟩ := Prod.mk.inj h
      exact isIdle_step_newline place _
    · exact isIdle_of_newline h

section

variable {kind : Kind} {t : Text} {next : Option Char}

theorem IsToken.not_isIdle (h : IsToken kind t next) :
    ∀ x ∈ partRoles .code t next, x.2.isIdle = false := by
  obtain ⟨c, u, rfl, hroles⟩ := h.roles
  rw [hroles, List.forall_mem_cons]
  refine ⟨rfl, fun x hx => ?_⟩
  obtain ⟨d, -, rfl⟩ := List.mem_map.mp hx
  rfl

theorem IsToken.oneLine (h : IsToken kind t next) : '\n' ∉ t := by
  intro hmem
  rw [← map_fst_partRoles next .code t] at hmem
  obtain ⟨⟨d, role⟩, hrole, rfl⟩ := List.mem_map.mp hmem
  have hidle := isIdle_of_newline hrole
  rw [h.not_isIdle _ hrole] at hidle
  exact Bool.noConfusion hidle

/-- A letter or a digit leads into a word or a number. -/
theorem enter_ne_code {c : Char} (h : continuesWord c = true) (next : Option Char) :
    (enter c next).2 ≠ .code := by
  have hblank : isBlank c = false := by
    rw [Bool.eq_false_iff]
    intro hblank
    rw [not_continuesWord_of_isBlank hblank] at h
    exact Bool.noConfusion h
  have hslash : c ≠ '/' := by
    rintro rfl
    exact absurd h (by decide)
  rw [enter, hblank, if_neg Bool.false_ne_true, beq_false_of_ne hslash, Bool.false_and,
    if_neg Bool.false_ne_true]
  split
  · exact Place.noConfusion
  next hbegins =>
    have hdigit : c.isDigit = true := by
      rw [beginsWord, Bool.or_eq_true, not_or] at hbegins
      rw [continuesWord, Char.isAlphanum, Bool.or_eq_true, Bool.or_eq_true] at h
      exact (h.resolve_right hbegins.2).resolve_left hbegins.1
    rw [hdigit, Bool.true_or, if_pos rfl]
    exact Place.noConfusion

/-- A letter or a digit of a token leaves the machine in a word or a number. -/
theorem step_ne_code {place : Place} {c : Char} (h : continuesWord c = true)
    (hrole : (step place c next).1.isIdle = false) : (step place c next).2 ≠ .code := by
  cases place with
  | code => exact enter_ne_code h next
  | word =>
    rw [step, if_pos h]
    exact Place.noConfusion
  | number sign =>
    rw [step, if_pos (continuesNumber_of_continuesWord h)]
    exact Place.noConfusion
  | lineComment =>
    rw [step] at hrole
    split at hrole <;> exact Bool.noConfusion hrole
  | _ => exact Bool.noConfusion hrole

/-- A token that ends in a letter or a digit is not followed by a letter. -/
theorem IsToken.next_of_getLast? (h : IsToken kind t next)
    (hlast : t.getLast?.any continuesWord = true) : next.any beginsWord = false := by
  cases hc : t.getLast? with
  | none =>
    rw [hc] at hlast
    exact Bool.noConfusion hlast
  | some c =>
    have hword : continuesWord c = true := by rwa [hc] at hlast
    obtain ⟨u, rfl⟩ := List.getLast?_eq_some_iff.mp hc
    have hidle := h.not_isIdle
    have hcode := h.isCode
    have hends := h.ends
    rw [partRoles_append] at hidle
    rw [partPlace_append] at hcode hends
    have hne := step_ne_code hword (hidle _ (List.mem_append_right _ List.mem_cons_self))
    cases next with
    | none => rfl
    | some d => exact Bool.eq_false_iff.mpr fun hd => hne (takes_of_beginsWord hcode hd hends)

end

/-! ### Along the reading -/

/-- The tokens of a reading stand in order. -/
theorem ordered_locate : ∀ (n : Nat) (fresh : Bool) (ps : List Piece),
    (∀ t ∈ locate n fresh ps, n ≤ t.start) ∧
      (locate n fresh ps).Pairwise fun t u => t.stop ≤ u.start
  | _, _, [] => ⟨fun _ h => absurd h List.not_mem_nil, List.Pairwise.nil⟩
  | n, fresh, p :: ps => by
    obtain ⟨hle, hpairs⟩ := ordered_locate (n + p.gap.byteSize + p.text.byteSize) false ps
    rw [locate, List.forall_mem_cons, List.pairwise_cons]
    refine ⟨⟨Nat.le_add_right _ _, fun t ht => ?_⟩, fun t ht => hle t ht, hpairs⟩
    have ht := hle t ht
    omega

/-- A token behind a gap stands where it says, if the text in front does not run on into it where there
    is no gap. -/
theorem placed_piece {gap t : Text} {kind : Kind} {front s : Text} (lineStart : Bool)
    (hgap : Gap gap (t ++ s).head?) (htoken : IsToken kind t s.head?)
    (hfront : front.getLast?.any continuesWord = true → (gap ++ (t ++ s)).head?.any beginsWord = false) :
    Placed (front ++ (gap ++ (t ++ s))) ⟨kind, t, front.byteSize + gap.byteSize, lineStart⟩ := by
  have hpos : 0 < t.byteSize := by
    rw [Nat.pos_iff_ne_zero, Ne, Text.byteSize_eq_zero]
    exact htoken.ne_nil
  refine ⟨Nat.lt_add_of_pos_right hpos, htoken.oneLine, front ++ gap, s, ?_, ?_, ?_⟩
  · rw [List.append_assoc]
  · rw [Text.byteSize_append]
  · rintro rfl
    obtain ⟨hbegins, hnext⟩ := htoken.word
    refine ⟨?_, hnext⟩
    have hlast := hgap.filler.getLast?_not_word rfl
    cases gap with
    | nil =>
      rw [List.append_nil, Bool.eq_false_iff]
      intro hword
      have hhead := hfront hword
      rw [List.nil_append, head?_append_of_ne_nil htoken.ne_nil, hbegins] at hhead
      exact Bool.noConfusion hhead
    | cons c gap =>
      rw [List.getLast?_cons] at hlast
      rw [List.getLast?_append, List.getLast?_cons, Option.some_or]
      exact hlast

/-- The tokens of a text stand where they say, whatever stands in front of it that does not grow
    together with it. -/
theorem placed_of_reads {s : Text} {r : Reading} (h : Reads s r) : ∀ (front : Text) (fresh : Bool),
    (front.getLast?.any continuesWord = true → s.head?.any beginsWord = false) →
      ∀ t ∈ locate front.byteSize fresh r.pieces, Placed (front ++ s) t := by
  induction h with
  | rest rest h => exact fun _ _ _ _ ht => absurd ht List.not_mem_nil
  | piece gap kind t s r hgap htoken h ih =>
    intro front fresh hfront u hu
    rw [Reading.cons, locate, List.mem_cons] at hu
    rcases hu with rfl | hu
    · exact placed_piece _ hgap htoken hfront
    · have hsize : Text.byteSize (front ++ (gap ++ t)) =
          front.byteSize + gap.byteSize + t.byteSize := by
        rw [Text.byteSize_append, Text.byteSize_append, Nat.add_assoc]
      have hcut : front ++ (gap ++ (t ++ s)) = (front ++ (gap ++ t)) ++ s := by
        simp only [List.append_assoc]
      rw [hcut]
      refine ih (front ++ (gap ++ t)) false ?_ u (by rwa [hsize])
      -- a token that ends in a letter is not followed by one, since it would be longer then
      rw [← List.append_assoc, List.getLast?_append]
      intro hlast
      refine htoken.next_of_getLast? ?_
      cases hc : t.getLast? with
      | none => exact absurd (List.getLast?_eq_none_iff.mp hc) htoken.ne_nil
      | some c => rwa [hc] at hlast

/-- Behind a token that the text does not continue, a comment is open exactly when it is behind code. -/
theorem placeAfter_of_not_takes {place : Place} (hcode : place.isCode = true) {s : Text}
    (h : s.head?.any place.takes = false) :
    placeAfter place s = .blockComment ↔ placeAfter .code s = .blockComment := by
  cases s with
  | nil =>
    have hne : place ≠ .blockComment := by
      rintro rfl
      exact Bool.noConfusion hcode
    exact iff_of_false hne Place.noConfusion
  | cons c s =>
    have hc : place.takes c = false := h
    rw [placeAfter, placeAfter, step_of_not_takes hcode hc, step]

theorem fillers_cons {inComment : Bool} {stop : Within} {g : Text} {gs : List Text} (h : gs ≠ []) :
    Fillers inComment stop (g :: gs) ↔ Filler inComment .code g ∧ Fillers false stop gs := by
  cases gs with
  | nil => exact absurd rfl h
  | cons g' gs => exact Iff.rfl

theorem Fillers.stop_unique {stop stop' : Within} : ∀ {inComment : Bool} {gs : List Text},
    Fillers inComment stop gs → Fillers inComment stop' gs → stop = stop'
  | _, [], h, _ => h.elim
  | _, [_], h, h' => Filler.stop_unique h h'
  | _, _ :: _ :: _, h, h' => h.2.stop_unique h'.2

theorem Reading.gaps_ne_nil (r : Reading) : r.gaps ≠ [] :=
  List.append_ne_nil_of_right_ne_nil _ (List.cons_ne_nil _ _)

/-- The gaps of a reading are white space and comments, and the last one ends where the text ends. -/
theorem fillers_of_reads {s : Text} {r : Reading} (h : Reads s r) :
    ∃ stop, Fillers false stop r.gaps ∧
      (stop = .blockComment ↔ placeAfter .code s = .blockComment) := by
  induction h with
  | rest rest h =>
    obtain ⟨stop, hfiller⟩ := filler_of_idle false rest h
    exact ⟨stop, hfiller, hfiller.open_iff⟩
  | piece gap kind t s r hgap htoken h ih =>
    obtain ⟨stop, hfillers, hopen⟩ := ih
    have hplace : placeAfter .code (gap ++ (t ++ s)) = .blockComment ↔
        placeAfter .code s = .blockComment := by
      rw [placeAfter_append, hgap.back, placeAfter_append]
      exact placeAfter_of_not_takes htoken.isCode htoken.ends
    have hcons : Fillers false stop (gap :: r.gaps) :=
      (fillers_cons r.gaps_ne_nil).mpr ⟨hgap.filler, hfillers⟩
    exact ⟨stop, hcons, hopen.trans hplace.symm⟩

/-- In front of gaps, the tail of a comment belongs to the first one. -/
theorem Fillers.behind {stop : Within} {body : Text} (hbody : ¬ Closes body) {r : Reading}
    (h : Fillers false stop r.gaps) :
    Fillers true stop (r.behind (body ++ ['*', '/'])).gaps := by
  have hclosed : ∀ {stop : Within} {g : Text}, Filler false stop g →
      Filler true stop ((body ++ ['*', '/']) ++ g) := by
    intro stop g hg
    rw [List.append_assoc]
    exact Filler.closed body hbody hg
  obtain ⟨_ | ⟨p, ps⟩, rest⟩ := r
  · exact hclosed h
  · have hne := Reading.gaps_ne_nil ⟨ps, rest⟩
    obtain ⟨hgap, hgaps⟩ := (fillers_cons hne).mp h
    exact (fillers_cons hne).mpr ⟨hclosed hgap, hgaps⟩

/-- The gaps of a text that may continue a block comment. -/
theorem fillers_gaps (inComment : Bool) (s : Text) :
    ∃ stop, Fillers inComment stop (gaps inComment s) ∧
      (stop = .blockComment ↔ endsInComment inComment s = true) := by
  rw [gaps_eq, endsInComment, beq_iff_eq]
  cases inComment with
  | false => exact fillers_of_reads (reads_of s)
  | true =>
    rw [Reading.start, if_pos rfl]
    rcases commentRest_cases s with ⟨hnot, hrest, hafter⟩ | ⟨body, hbody, hrest, hcut⟩
    · have hfiller := Filler.unclosed s hnot
      refine ⟨.blockComment, ?_, hfiller.open_iff⟩
      have hnil : (Reading.of []).behind s = ⟨[], s ++ []⟩ := rfl
      rw [hrest, hafter, hnil, List.append_nil]
      exact hfiller
    · obtain ⟨stop, hfillers, hopen⟩ := fillers_of_reads (reads_of (afterComment s))
      have hplace : placeAfter (.start true) s = placeAfter .code (afterComment s) := by
        have hcloses := placeAfter_closes (afterComment s) hbody
        rwa [← hcut] at hcloses
      rw [hrest, hplace]
      exact ⟨stop, hfillers.behind hbody, hopen⟩

/-! ### First tokens of lines -/

/-- The lines on which a reading, its first token and what is behind that token begin. -/
theorem lineNumber_piece (rest front : Text) (p : Piece) (ps : List Piece) (hline : '\n' ∉ p.text)
    {s : Text} (hs : s = front ++ Reading.text ⟨p :: ps, rest⟩) :
    s.lineNumber front.byteSize = front.count '\n' ∧
      s.lineNumber (front.byteSize + p.gap.byteSize) = front.count '\n' + p.gap.count '\n' ∧
      s.lineNumber (front.byteSize + p.gap.byteSize + p.text.byteSize) =
        s.lineNumber (front.byteSize + p.gap.byteSize) := by
  rw [Reading.text_pieces] at hs
  have hgap : s = (front ++ p.gap) ++ (p.text ++ Reading.text ⟨ps, rest⟩) := by
    simp only [hs, List.append_assoc]
  have htext : s = (front ++ p.gap ++ p.text) ++ Reading.text ⟨ps, rest⟩ := by
    simp only [hs, List.append_assoc]
  have hgapLine : s.lineNumber (front.byteSize + p.gap.byteSize) =
      front.count '\n' + p.gap.count '\n' := by
    rw [hgap, ← Text.byteSize_append, Text.lineNumber_cut, List.count_append]
  have htextLine : s.lineNumber (front.byteSize + p.gap.byteSize + p.text.byteSize) =
      front.count '\n' + p.gap.count '\n' := by
    rw [htext, ← Text.byteSize_append, ← Text.byteSize_append, Text.lineNumber_cut,
      List.count_append, List.count_append, List.count_eq_zero.mpr hline]
    rfl
  refine ⟨?_, hgapLine, htextLine.trans hgapLine.symm⟩
  rw [hs, Text.lineNumber_cut]

/-- Along the reading, a token begins a line exactly when no token in front of it stands on that line
    and the line is not the one that the reading begins on, unless that is fresh. -/
theorem lineStart_locate (rest : Text) : ∀ (front : Text) (fresh : Bool) (ps : List Piece),
    (∀ p ∈ ps, p.text ≠ [] ∧ '\n' ∉ p.text) → ∀ s, s = front ++ Reading.text ⟨ps, rest⟩ →
      ∀ t ∈ locate front.byteSize fresh ps, t.lineStart = true ↔
        (∀ u ∈ locate front.byteSize fresh ps, u.start < t.start →
          s.lineNumber u.start ≠ s.lineNumber t.start) ∧
        (fresh = true ∨ s.lineNumber front.byteSize < s.lineNumber t.start)
  | _, _, [], _, _, _ => fun _ ht => absurd ht List.not_mem_nil
  | front, fresh, p :: ps, hps, s, hs => by
    rw [List.forall_mem_cons] at hps
    obtain ⟨⟨hne, hline⟩, hps⟩ := hps
    obtain ⟨hfrontLine, hgapLine, htextLine⟩ := lineNumber_piece rest front p ps hline hs
    have htextSize : Text.byteSize (front ++ (p.gap ++ p.text)) =
        front.byteSize + p.gap.byteSize + p.text.byteSize := by
      rw [Text.byteSize_append, Text.byteSize_append, Nat.add_assoc]
    have hs' : s = (front ++ (p.gap ++ p.text)) ++ Reading.text ⟨ps, rest⟩ := by
      rw [hs, Reading.text_pieces]
      simp only [List.append_assoc]
    have hpos : 0 < p.text.byteSize := by
      rw [Nat.pos_iff_ne_zero, Ne, Text.byteSize_eq_zero]
      exact hne
    have hbehind := (ordered_locate (front.byteSize + p.gap.byteSize + p.text.byteSize) false ps).1
    intro t ht
    rw [locate, List.mem_cons] at ht
    rw [locate, List.forall_mem_cons]
    rcases ht with rfl | ht
    · -- the first token has none in front of it, so all depends on where the reading begins
      show (fresh || p.gap.contains '\n') = true ↔ _
      have hnone : ∀ u ∈ locate (front.byteSize + p.gap.byteSize + p.text.byteSize) false ps,
          u.start < front.byteSize + p.gap.byteSize →
            s.lineNumber u.start ≠ s.lineNumber (front.byteSize + p.gap.byteSize) := by
        intro u hu hlt
        have hle := hbehind u hu
        omega
      rw [hgapLine] at hnone
      rw [Bool.or_eq_true, List.contains_iff_mem, hfrontLine, hgapLine, ← List.count_pos_iff]
      constructor
      · intro hfresh
        exact ⟨⟨fun hlt => absurd hlt (Nat.lt_irrefl _), hnone⟩,
          hfresh.imp_right Nat.lt_add_of_pos_right⟩
      · rintro ⟨-, hfresh⟩
        exact hfresh.imp_right fun hlt => by omega
    · -- a later token: the reading behind the first token begins on that token's line
      have ih := lineStart_locate rest _ false ps hps s hs' t (by rwa [htextSize])
      have hle := hbehind t ht
      have hmono := s.lineNumber_mono (Nat.le_trans (Nat.le_add_right _ p.text.byteSize) hle)
      rw [htextSize, htextLine] at ih
      rw [ih]
      constructor
      · rintro ⟨hrest, hlt⟩
        have hlt := hlt.resolve_left Bool.false_ne_true
        refine ⟨⟨fun _ => Nat.ne_of_lt hlt, hrest⟩, Or.inr ?_⟩
        rw [hfrontLine]
        rw [hgapLine] at hlt
        omega
      · rintro ⟨⟨hfirst, hrest⟩, -⟩
        have hbefore : front.byteSize + p.gap.byteSize < t.start := by omega
        exact ⟨hrest, Or.inr (Nat.lt_of_le_of_ne hmono (hfirst hbefore))⟩

theorem forall_pieces_of_reads {s : Text} {r : Reading} (h : Reads s r) :
    ∀ p ∈ r.pieces, p.text ≠ [] ∧ '\n' ∉ p.text := by
  induction h with
  | rest rest h => exact fun _ hp => absurd hp List.not_mem_nil
  | piece gap kind t s r hgap htoken h ih =>
    rw [Reading.cons, List.forall_mem_cons]
    exact ⟨⟨htoken.ne_nil, htoken.oneLine⟩, ih⟩

theorem forall_pieces_start (inComment : Bool) (s : Text) :
    ∀ p ∈ (Reading.start inComment s).pieces, p.text ≠ [] ∧ '\n' ∉ p.text := by
  have hbehind : ∀ {r : Reading} (g : Text), (∀ p ∈ r.pieces, p.text ≠ [] ∧ '\n' ∉ p.text) →
      ∀ p ∈ (r.behind g).pieces, p.text ≠ [] ∧ '\n' ∉ p.text := by
    rintro ⟨_ | ⟨p, ps⟩, rest⟩ g h
    · exact h
    · exact List.forall_mem_cons.mpr (List.forall_mem_cons.mp h)
  cases inComment with
  | false => exact forall_pieces_of_reads (reads_of s)
  | true => exact hbehind _ (forall_pieces_of_reads (reads_of (afterComment s)))

theorem placed_of_mem (inComment : Bool) (s : Text) : ∀ t ∈ tokensFrom inComment s, Placed s t := by
  cases inComment with
  | false =>
    have hplaced := placed_of_reads (reads_of s) [] true fun h => Bool.noConfusion h
    rwa [Text.byteSize_nil, ← tokens_eq] at hplaced
  | true =>
    have hapart : (commentRest s).getLast?.any continuesWord = true →
        (afterComment s).head?.any beginsWord = false := by
      rcases commentRest_cases s with ⟨-, -, hafter⟩ | ⟨body, -, hrest, -⟩
      · rw [hafter]
        exact fun _ => rfl
      · rw [hrest, List.getLast?_append]
        exact fun h => Bool.noConfusion h
    have hplaced := placed_of_reads (reads_of (afterComment s)) (commentRest s) true hapart
    rw [commentRest_append_afterComment] at hplaced
    rwa [tokensFrom_true, tokens_eq, locate_shift, Nat.add_zero]

/-- The tokens of a text and the gaps between them tile it, whether the text continues a comment or not:
    the tokens stand in order, each on one line and no word next to a letter, between them stand white
    space and comments only, behind the last token a block comment stays open exactly when the text ends
    in one, and the first tokens of lines are marked as such and no others. -/
theorem tokensFrom_tile (inComment : Bool) (s : Text) : Tiling inComment s where
  ordered := by
    rw [tokensFrom_eq]
    exact (ordered_locate 0 true _).2
  placed := placed_of_mem inComment s
  fillers := by
    obtain ⟨stop, hfillers, -⟩ := fillers_gaps inComment s
    exact ⟨stop, hfillers⟩
  unclosed_iff := by
    obtain ⟨stop, hfillers, hopen⟩ := fillers_gaps inComment s
    constructor
    · exact fun h => hopen.mp (hfillers.stop_unique h)
    · intro hends
      rwa [hopen.mpr hends] at hfillers
  lineStart_iff := by
    intro t ht
    rw [tokensFrom_eq] at ht ⊢
    have hline := lineStart_locate (Reading.start inComment s).rest [] true _
      (forall_pieces_start inComment s) s (Reading.text_start inComment s).symm t ht
    exact hline.trans (and_iff_left (Or.inl rfl))

/-- A comment that does not close at its own opening, behind the tail of another one. -/
example : gaps true "b*/a/*/c*/ d".toList =
    ["b*/".toList, "/*/c*/ ".toList, []] := by decide

end Shading
