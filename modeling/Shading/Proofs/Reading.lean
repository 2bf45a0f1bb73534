import Shading.Proofs.Chunks

/-!
    Readings.

    A text falls into pieces, each of them a token with the white space and the comments in front of it,
    and a rest without a token. This is its reading; put together again it is the text (`text_of`), and
    with positions counted along it, its pieces are the tokens of the text (`tokens_eq`).

    `Reads` says the same from the side of the reading: it lists what each piece has to fulfil for the
    machine to cut the text there and nowhere else. Every text has a reading, and what `Reads` allows is
    no other than that one (`Reads.of_eq`). To know how an edited text is read, it is therefore enough to
    look at each piece and the character that follows it. -/

namespace Shading

/-- A token without its place: what it is and how it is spelled. -/
abbrev Lexeme := Kind × Text

def Token.lexeme (t : Token) : Lexeme := (t.kind, t.text)

/-- A token with what stands in front of it, behind the token before. -/
structure Piece where
  gap : Text
  kind : Kind
  text : Text
  deriving DecidableEq, Repr

def Piece.lexeme (p : Piece) : Lexeme := (p.kind, p.text)

/-- A text cut at its tokens: the pieces, and what stands behind the last token. -/
structure Reading where
  pieces : List Piece
  rest : Text
  deriving DecidableEq, Repr

namespace Reading

/-- The text that a reading is cut from. -/
def text (r : Reading) : Text := (r.pieces.flatMap fun p => p.gap ++ p.text) ++ r.rest

/-- The tokens of a reading, without their places. -/
def lexemes (r : Reading) : List Lexeme := r.pieces.map Piece.lexeme

/-- A reading with one more piece in front. -/
def cons (p : Piece) (r : Reading) : Reading := ⟨p :: r.pieces, r.rest⟩

/-- A reading with more white space or comments in front. -/
def behind (gap : Text) (r : Reading) : Reading :=
  match r.pieces with
  | [] => ⟨[], gap ++ r.rest⟩
  | p :: ps => ⟨{ p with gap := gap ++ p.gap } :: ps, r.rest⟩

/-- One reading after the other. -/
def append (r q : Reading) : Reading :=
  ⟨r.pieces ++ (q.behind r.rest).pieces, (q.behind r.rest).rest⟩

instance : Append Reading := ⟨append⟩

/-- The reading of a text whose characters have their roles. -/
def ofRoles : List (Char × Role) → Reading
  | [] => ⟨[], []⟩
  | (c, role) :: s =>
    match role with
    | .head kind => (ofRoles s).cons ⟨[], kind, c :: tailOf s⟩
    | .tail => ofRoles s
    | _ => (ofRoles s).behind [c]

/-- The reading of a text. -/
def of (s : Text) : Reading := ofRoles (roles .code s)

@[simp] theorem text_cons (p : Piece) (r : Reading) :
    (r.cons p).text = p.gap ++ p.text ++ r.text := by
  simp only [text, cons, List.flatMap_cons, List.append_assoc]

theorem text_pieces (p : Piece) (ps : List Piece) (rest : Text) :
    text ⟨p :: ps, rest⟩ = p.gap ++ (p.text ++ text ⟨ps, rest⟩) := by
  rw [← List.append_assoc]
  exact text_cons p ⟨ps, rest⟩

@[simp] theorem text_behind (gap : Text) (r : Reading) : (r.behind gap).text = gap ++ r.text := by
  obtain ⟨_ | ⟨p, ps⟩, rest⟩ := r <;> simp [text, behind]

@[simp] theorem behind_nil (r : Reading) : r.behind [] = r := by
  obtain ⟨_ | ⟨p, ps⟩, rest⟩ := r <;> rfl

@[simp] theorem behind_behind (g g' : Text) (r : Reading) :
    (r.behind g).behind g' = r.behind (g' ++ g) := by
  obtain ⟨_ | ⟨p, ps⟩, rest⟩ := r <;> simp [behind]

@[simp] theorem behind_cons (g : Text) (p : Piece) (r : Reading) :
    (r.cons p).behind g = r.cons { p with gap := g ++ p.gap } := rfl

theorem append_def (r q : Reading) :
    r ++ q = ⟨r.pieces ++ (q.behind r.rest).pieces, (q.behind r.rest).rest⟩ := rfl

/-- A reading without pieces only lengthens the gap of what follows. -/
@[simp] theorem nil_append (rest : Text) (q : Reading) : (⟨[], rest⟩ : Reading) ++ q = q.behind rest := by
  rw [append_def, List.nil_append]

@[simp] theorem cons_append (p : Piece) (r q : Reading) : r.cons p ++ q = (r ++ q).cons p := rfl

@[simp] theorem behind_append (g : Text) (r q : Reading) : r.behind g ++ q = (r ++ q).behind g := by
  obtain ⟨_ | ⟨p, ps⟩, rest⟩ := r
  · show (⟨[], g ++ rest⟩ : Reading) ++ q = (⟨[], rest⟩ ++ q : Reading).behind g
    rw [nil_append, nil_append, behind_behind]
  · rfl

theorem lexemes_behind (gap : Text) (r : Reading) : (r.behind gap).lexemes = r.lexemes := by
  obtain ⟨_ | ⟨p, ps⟩, rest⟩ := r <;> rfl

theorem lexemes_append (r q : Reading) : (r ++ q).lexemes = r.lexemes ++ q.lexemes := by
  have hq := lexemes_behind r.rest q
  rw [lexemes] at hq
  rw [append_def, lexemes, List.map_append, hq, ← lexemes]

/-! ### Roles in part -/

theorem ofRoles_idle (R' : List (Char × Role)) :
    ∀ R : List (Char × Role), (∀ x ∈ R, x.2.isIdle = true) →
      ofRoles (R ++ R') = (ofRoles R').behind (R.map (·.1))
  | [], _ => (behind_nil _).symm
  | (c, role) :: R, h => by
    have hR := ofRoles_idle R' R fun x hx => h x (List.mem_cons_of_mem _ hx)
    have hrole : role.isIdle = true := h (c, role) List.mem_cons_self
    cases role with
    | blank => simp [ofRoles, hR]
    | comment => simp [ofRoles, hR]
    | _ => exact Bool.noConfusion hrole

theorem ofRoles_tails {R' : List (Char × Role)} : ∀ u : Text,
    ofRoles (u.map (·, Role.tail) ++ R') = ofRoles R'
  | [] => rfl
  | c :: u => by rw [List.map_cons, List.cons_append, ofRoles, ofRoles_tails u]

theorem tailOf_tails {R' : List (Char × Role)} (h : tailOf R' = []) : ∀ u : Text,
    tailOf (u.map (·, Role.tail) ++ R') = u
  | [] => h
  | c :: u => by rw [List.map_cons, List.cons_append, tailOf, tailOf_tails h u]

theorem ofRoles_token {R' : List (Char × Role)} (h : tailOf R' = []) (c : Char) (kind : Kind)
    (u : Text) : ofRoles (((c, .head kind) :: u.map (·, Role.tail)) ++ R')
      = (ofRoles R').cons ⟨[], kind, c :: u⟩ := by
  rw [List.cons_append, ofRoles, ofRoles_tails, tailOf_tails h]

/-- Roles are read part by part where no token reaches over the cut. -/
theorem ofRoles_append {R' : List (Char × Role)} (h : tailOf R' = []) :
    ∀ R : List (Char × Role), ofRoles (R ++ R') = ofRoles R ++ ofRoles R'
  | [] => by rw [List.nil_append, ofRoles, nil_append, behind_nil]
  | (c, .head kind) :: R => by
    rw [List.cons_append, ofRoles, ofRoles, ofRoles_append h R, tailOf_append h, cons_append]
  | (c, .tail) :: R => by rw [List.cons_append, ofRoles, ofRoles, ofRoles_append h R]
  | (c, .blank) :: R => by simp only [List.cons_append, ofRoles, ofRoles_append h R, behind_append]
  | (c, .comment) :: R => by simp only [List.cons_append, ofRoles, ofRoles_append h R, behind_append]

end Reading

/-! ### Gaps and tokens -/

/-- Read from code in front of `next`, the text holds no token and ends outside comments. -/
structure Gap (g : Text) (next : Option Char) : Prop where
  isIdle : ∀ x ∈ partRoles .code g next, x.2.isIdle = true
  back : partPlace .code g next = .code

/-- Read from code in front of `next`, the text is one token and `next` does not continue it. -/
structure IsToken (kind : Kind) (t : Text) (next : Option Char) : Prop where
  roles : ∃ c u, t = c :: u ∧ partRoles .code t next = (c, .head kind) :: u.map (·, Role.tail)
  isCode : (partPlace .code t next).isCode = true
  ends : next.any (partPlace .code t next).takes = false

/-- A gap is one in front of anything. -/
theorem Gap.congr {g : Text} {next : Option Char} (h : Gap g next) (next' : Option Char) :
    Gap g next' := by
  obtain ⟨hroles, hback⟩ := partRoles_of_idle_code next' rfl h.isIdle h.back
  exact ⟨by rw [hroles]; exact h.isIdle, hback⟩

/-- A gap is read as it is alone. -/
theorem Gap.roles_eq {g : Text} {next : Option Char} (h : Gap g next) :
    partRoles .code g next = roles .code g := by
  rw [← partRoles_none]
  exact (partRoles_of_idle_code none rfl h.isIdle h.back).1.symm

theorem IsToken.ne_nil {kind : Kind} {t : Text} {next : Option Char} (h : IsToken kind t next) :
    t ≠ [] := by
  obtain ⟨c, u, rfl, -⟩ := h.roles
  exact List.cons_ne_nil c u

/-- Reading of a text that begins with a gap. -/
theorem Reading.of_gap {g b : Text} (h : Gap g b.head?) : of (g ++ b) = (of b).behind g := by
  rw [of, roles_append, h.back, ofRoles_idle _ _ h.isIdle, map_fst_partRoles, of]

/-- Reading of a text that begins with a token. -/
theorem Reading.of_token {kind : Kind} {t b : Text} (h : IsToken kind t b.head?) :
    of (t ++ b) = (of b).cons ⟨[], kind, t⟩ := by
  obtain ⟨c, u, rfl, hroles⟩ := h.roles
  rw [of, roles_append, roles_of_not_takes h.isCode h.ends, hroles,
    ofRoles_token (tailOf_roles rfl b), of]

/-- The text is read as these pieces and this rest: each gap and each token is one in front of what
    follows it, and the rest holds no token. -/
inductive Reads : Text → Reading → Prop
  | rest (rest : Text) (h : ∀ x ∈ roles .code rest, x.2.isIdle = true) : Reads rest ⟨[], rest⟩
  | piece (gap : Text) (kind : Kind) (t s : Text) (r : Reading) (hgap : Gap gap (t ++ s).head?)
      (htoken : IsToken kind t s.head?) (h : Reads s r) :
      Reads (gap ++ (t ++ s)) (r.cons ⟨gap, kind, t⟩)

/-- A text is read in one way only. -/
theorem Reads.of_eq {s : Text} {r : Reading} (h : Reads s r) : Reading.of s = r := by
  induction h with
  | rest rest h =>
    have hidle := Reading.ofRoles_idle [] _ h
    rw [List.append_nil, map_fst_roles] at hidle
    rw [Reading.of, hidle, Reading.ofRoles, Reading.behind, List.append_nil]
  | piece gap kind t s r hgap htoken h ih =>
    rw [Reading.of_gap hgap, Reading.of_token htoken, ih, Reading.behind_cons, List.append_nil]

/-- Outside words and numbers a text begins with a gap, and behind that stands a token or nothing. -/
theorem exists_gap : ∀ (s : Text) {place : Place}, place.isIdle = true →
    ∃ g b, s = g ++ b ∧ (∀ x ∈ partRoles place g b.head?, x.2.isIdle = true) ∧
      (b = [] ∨ partPlace place g b.head? = .code ∧
        ∃ c u kind, b = c :: u ∧ (enter c u.head?).1 = .head kind)
  | [], place, _ => ⟨[], [], rfl, fun _ hx => absurd hx List.not_mem_nil, Or.inl rfl⟩
  | c :: s, place, hplace => by
    rcases step_of_isIdle hplace c s.head? with ⟨hrole, hnext⟩ | ⟨rfl, kind, hkind⟩
    · obtain ⟨g, b, rfl, hidle, hb⟩ := exists_gap s hnext
      rw [List.head?_append] at hrole hidle hb
      refine ⟨c :: g, b, rfl, ?_, hb⟩
      rw [partRoles, List.forall_mem_cons]
      exact ⟨hrole, hidle⟩
    · exact ⟨[], c :: s, rfl, fun _ hx => absurd hx List.not_mem_nil,
        Or.inr ⟨rfl, c, s, kind, rfl, hkind⟩⟩

/-- Behind the beginning of a token stands what continues it, up to a character that does not. -/
theorem exists_tail : ∀ (s : Text) {place : Place}, place.isCode = true →
    ∃ u b, s = u ++ b ∧ partRoles place u b.head? = u.map (·, Role.tail) ∧
      (partPlace place u b.head?).isCode = true ∧
      b.head?.any (partPlace place u b.head?).takes = false
  | [], place, hplace => ⟨[], [], rfl, rfl, hplace, rfl⟩
  | c :: s, place, hplace => by
    by_cases htakes : place.takes c = true
    · obtain ⟨hrole, hnext⟩ := step_of_takes htakes s.head?
      obtain ⟨u, b, rfl, hroles, hcode, hends⟩ := exists_tail s hnext
      rw [List.head?_append] at hrole hroles hcode hends
      refine ⟨c :: u, b, rfl, ?_, hcode, hends⟩
      rw [partRoles, hrole, hroles, List.map_cons]
    · exact ⟨[], c :: s, rfl, rfl, hplace, Bool.eq_false_iff.mpr htakes⟩

theorem exists_reads (s : Text) : ∃ r, Reads s r := by
  have hcode : Place.isIdle .code = true := rfl
  obtain ⟨g, b, hs, hidle, rfl | ⟨hback, c, u, kind, rfl, hkind⟩⟩ := exists_gap s hcode
  · rw [List.head?_nil, partRoles_none] at hidle
    rw [hs, List.append_nil]
    exact ⟨_, Reads.rest g hidle⟩
  · obtain ⟨v, b, rfl, hroles, hcode, hends⟩ := exists_tail u (isCode_of_enter hkind)
    have hlength : b.length < s.length := by
      rw [hs, List.length_append, List.length_cons, List.length_append]
      omega
    obtain ⟨r, hr⟩ := exists_reads b
    rw [List.head?_append] at hkind hroles hcode hends
    have htoken : IsToken kind (c :: v) b.head? := by
      refine ⟨⟨c, v, rfl, ?_⟩, hcode, hends⟩
      rw [partRoles, step, hkind, hroles]
    rw [hs]
    exact ⟨_, Reads.piece g kind (c :: v) b r ⟨hidle, hback⟩ htoken hr⟩
termination_by s.length

/-- Every text is read as its reading. -/
theorem reads_of (s : Text) : Reads s (Reading.of s) := by
  obtain ⟨r, hr⟩ := exists_reads s
  rwa [hr.of_eq]

/-- A reading put together again is the text. -/
theorem Reading.text_of (s : Text) : (of s).text = s := by
  have h : ∀ {s : Text} {r : Reading}, Reads s r → r.text = s := by
    intro s r h
    induction h with
    | rest rest h => rfl
    | piece gap kind t s r hgap htoken h ih => rw [text_cons, ih, List.append_assoc]
  exact h (reads_of s)

theorem Reading.text_mk_of (s : Text) : Reading.text ⟨(of s).pieces, (of s).rest⟩ = s := text_of s

/-! ### Tokens of a reading -/

/-- The tokens of pieces that begin behind `n` bytes. `fresh` says that no token stands in front of them
    on the line. -/
def locate : Nat → Bool → List Piece → List Token
  | _, _, [] => []
  | n, fresh, p :: ps =>
    { kind := p.kind, text := p.text, start := n + p.gap.byteSize,
      lineStart := fresh || p.gap.contains '\n' } ::
      locate (n + p.gap.byteSize + p.text.byteSize) false ps

theorem gather_idle (R' : List (Char × Role)) :
    ∀ (n : Nat) (fresh : Bool) (R : List (Char × Role)), (∀ x ∈ R, x.2.isIdle = true) →
      gather n fresh (R ++ R') = gather (n + Text.byteSize (R.map (·.1)))
        (fresh || (R.map (·.1)).contains '\n') R'
  | n, fresh, [], _ => by simp
  | n, fresh, (c, role) :: R, h => by
    have hR := fun k f => gather_idle R' k f R fun x hx => h x (List.mem_cons_of_mem _ hx)
    have hrole : role.isIdle = true := h (c, role) List.mem_cons_self
    have hnewline : ((fresh || c == '\n') || (R.map (·.1)).contains '\n')
        = (fresh || (c :: R.map (·.1)).contains '\n') := by
      rw [List.contains_cons, Bool.or_assoc, Bool.beq_comm]
    cases role with
    | blank =>
      simp only [List.cons_append, gather, List.map_cons, Text.byteSize_cons, hR, Nat.add_assoc,
        hnewline]
    | comment =>
      simp only [List.cons_append, gather, List.map_cons, Text.byteSize_cons, hR, Nat.add_assoc,
        hnewline]
    | _ => exact Bool.noConfusion hrole

theorem gather_tails (R' : List (Char × Role)) (fresh : Bool) : ∀ (n : Nat) (u : Text),
    gather n fresh (u.map (·, Role.tail) ++ R') = gather (n + u.byteSize) fresh R'
  | _, [] => rfl
  | n, c :: u => by
    rw [List.map_cons, List.cons_append, gather, gather_tails R' fresh, Text.byteSize_cons,
      Nat.add_assoc]

theorem gather_reads {s : Text} {r : Reading} (h : Reads s r) : ∀ (n : Nat) (fresh : Bool),
    gather n fresh (roles .code s) = locate n fresh r.pieces := by
  induction h with
  | rest rest h =>
    intro n fresh
    have hidle := gather_idle [] n fresh _ h
    rwa [List.append_nil] at hidle
  | piece gap kind t s r hgap htoken h ih =>
    intro n fresh
    obtain ⟨c, u, rfl, hroles⟩ := htoken.roles
    rw [roles_append, hgap.back, gather_idle _ _ _ _ hgap.isIdle, map_fst_partRoles, roles_append,
      roles_of_not_takes htoken.isCode htoken.ends, hroles, List.cons_append, gather,
      Reading.tailOf_tails (tailOf_roles rfl s), gather_tails, ih, Reading.cons, locate,
      Text.byteSize_cons, Nat.add_assoc (n + gap.byteSize)]

/-- The tokens of a text are those of its reading, with their places counted along it. -/
theorem tokens_eq (s : Text) : tokens s = locate 0 true (Reading.of s).pieces :=
  gather_reads (reads_of s) 0 true

theorem map_lexeme_locate : ∀ (n : Nat) (fresh : Bool) (ps : List Piece),
    (locate n fresh ps).map Token.lexeme = ps.map Piece.lexeme
  | _, _, [] => rfl
  | n, fresh, p :: ps => by rw [locate, List.map_cons, List.map_cons, map_lexeme_locate]; rfl

theorem Reading.lexemes_of (s : Text) : (of s).lexemes = (tokens s).map Token.lexeme := by
  rw [tokens_eq, map_lexeme_locate, lexemes]

/-- A token stands in the text where it says. -/
theorem exists_of_mem_locate {t : Token} (rest : Text) : ∀ {n : Nat} {fresh : Bool} {ps : List Piece},
    t ∈ locate n fresh ps → ∃ front back,
      Reading.text ⟨ps, rest⟩ = front ++ (t.text ++ back) ∧ t.start = n + front.byteSize
  | n, fresh, [], h => absurd h List.not_mem_nil
  | n, fresh, p :: ps, h => by
    rw [locate, List.mem_cons] at h
    rcases h with rfl | h
    · exact ⟨p.gap, _, Reading.text_pieces p ps rest, rfl⟩
    · obtain ⟨front, back, hps, hstart⟩ := exists_of_mem_locate rest h
      refine ⟨p.gap ++ (p.text ++ front), back, ?_, ?_⟩
      · rw [Reading.text_pieces, hps]
        simp only [List.append_assoc]
      · rw [hstart, Text.byteSize_append, Text.byteSize_append]
        omega

theorem exists_of_mem_tokens {s : Text} {t : Token} (h : t ∈ tokens s) :
    ∃ front back, s = front ++ (t.text ++ back) ∧ t.start = front.byteSize := by
  rw [tokens_eq] at h
  obtain ⟨front, back, hs, hstart⟩ := exists_of_mem_locate (Reading.of s).rest h
  rw [Reading.text_mk_of] at hs
  exact ⟨front, back, hs, by rw [hstart, Nat.zero_add]⟩

/-! ### Behind an open comment -/

/-- Behind what is read up to code without a token, a text has the tokens that it has alone. -/
theorem tokensFrom_idle_append {inComment : Bool} {lead s : Text}
    (hidle : ∀ x ∈ partRoles (.start inComment) lead s.head?, x.2.isIdle = true)
    (hback : partPlace (.start inComment) lead s.head? = .code) :
    tokensFrom inComment (lead ++ s) = (tokens s).map (Token.shift lead.byteSize) := by
  rw [tokensFrom, roles_append, hback, gather_idle _ _ _ _ hidle, map_fst_partRoles, Bool.true_or,
    Nat.zero_add, ← Nat.add_zero (Text.byteSize _), gather_shift]
  rfl

/-- A text that continues a comment: what belongs to the comment, then what is read from code. -/
theorem roles_blockComment : ∀ s : Text, roles .blockComment s =
    (commentRest s).map (·, Role.comment) ++ roles .code (afterComment s)
  | [] => rfl
  | [c] => rfl
  | c :: d :: s => by
    by_cases h : (c == '*' && d == '/') = true
    · rw [commentRest, afterComment, if_pos h, if_pos h]
      simp only [Bool.and_eq_true, beq_iff_eq] at h
      obtain ⟨rfl, rfl⟩ := h
      rfl
    · have hstep : step .blockComment c (some d) = (.comment, .blockComment) := by
        rw [step, Option.some_beq_some, Bool.eq_false_iff.mpr h, if_neg Bool.false_ne_true]
      rw [commentRest, afterComment, if_neg h, if_neg h, roles, List.head?_cons, hstep,
        roles_blockComment (d :: s), List.map_cons, List.cons_append]

/-- The tokens of a text that continues a comment are those behind the comment. -/
theorem tokensFrom_true (s : Text) :
    tokensFrom true s =
      (tokens (afterComment s)).map (·.shift (Text.byteSize (commentRest s))) := by
  have hidle : ∀ x ∈ (commentRest s).map (·, Role.comment), x.2.isIdle = true := by
    intro x hx
    obtain ⟨c, -, rfl⟩ := List.mem_map.mp hx
    rfl
  have hfst : ((commentRest s).map (·, Role.comment)).map (·.1) = commentRest s := by
    rw [List.map_map]
    exact List.map_id _
  show gather 0 true (roles .blockComment s) = _
  rw [roles_blockComment, gather_idle _ _ _ _ hidle, hfst, Bool.true_or, Nat.zero_add,
    ← Nat.add_zero (Text.byteSize _), gather_shift]
  rfl

/-- A token stands in the text where it says, also behind an open comment. -/
theorem exists_of_mem_tokensFrom {inComment : Bool} {s : Text} {t : Token}
    (h : t ∈ tokensFrom inComment s) :
    ∃ front back, s = front ++ (t.text ++ back) ∧ t.start = front.byteSize := by
  cases inComment with
  | false => exact exists_of_mem_tokens h
  | true =>
    rw [tokensFrom_true] at h
    obtain ⟨t, ht, rfl⟩ := List.mem_map.mp h
    obtain ⟨front, back, hs, hstart⟩ := exists_of_mem_tokens ht
    refine ⟨commentRest s ++ front, back, ?_, ?_⟩
    · have hcut := commentRest_append_afterComment s
      rw [List.append_assoc]
      exact hcut.symm.trans (congrArg (commentRest s ++ ·) hs)
    · rw [Text.byteSize_append, ← hstart]
      rfl

end Shading
