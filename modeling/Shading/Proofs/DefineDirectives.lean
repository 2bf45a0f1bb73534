import Mathlib.Data.List.Basic
import Shading.Proofs.DefineRuns
import Shading.Proofs.Fillers
import Shading.Proofs.PrunedLines

/-!
    Two ways to find the `#define` directives of a text.

    A define set is made of the directives of a text by looking at raw lines: blanks, `#`, blanks, the
    letters `define`, and then a name that ends at a blank, at an opening parenthesis or with the line
    (`scannedName?`). The tokens of the text know its directives too: a `#` that is the first token on its
    line, and behind it on that line the words `define` and the name (`definedNames`).

    Both ways go line by line, the second one with the comment that a line continues
    (`definesAmong_tokensFrom`). On a line they find the same, and nothing in a comment, just when all
    that one of them finds is a plain directive outside comments: blanks only in front of `#` and of
    `define`, one blank at least in front of the name, and a name that is a word (`PlainDefine`). Where
    every line is so, the sets are the same (`names_ofDirectives_iff`). -/

namespace Shading

/-! ### Names among tokens -/

/-- The name that the tokens of a line define, if they begin `# define NAME`. -/
def definedName? : List Lexeme → Option Text
  | (.mark '#', _) :: (.word, keyword) :: (.word, name) :: _ =>
    if keyword = "define".toList then some name else none
  | _ => none

/-- The names that tokens of a text define, line by line. -/
def definesAmong : List Token → List Text
  | [] => []
  | t :: ts =>
    (if t.lineStart then definedName? ((t :: ts.takeWhile (!·.lineStart)).map Token.lexeme)
      else none).toList ++ definesAmong ts

/-- The names that a text defines outside comments, each where it first occurs. -/
def definedNames (s : Text) : List Text := (definesAmong (tokens s)).eraseDups

/-- The lines, each with whether it continues a block comment. -/
def entered : Bool → List Text → List (Bool × Text)
  | _, [] => []
  | inComment, line :: lines => (inComment, line) :: entered (endsInComment inComment line) lines

/-- The name that the tokens of a line define. -/
def lexedName? (inComment : Bool) (line : Text) : Option Text :=
  definedName? ((tokensFrom inComment line).map Token.lexeme)

theorem definesAmong_append {ts' : List Token} (h : ts'.head?.all (·.lineStart) = true) :
    ∀ ts : List Token, definesAmong (ts ++ ts') = definesAmong ts ++ definesAmong ts'
  | [] => rfl
  | t :: ts => by
    rw [List.cons_append, definesAmong, definesAmong, takeWhile_lineStart_append h,
      definesAmong_append h ts, List.append_assoc]

theorem definesAmong_shift (k : Nat) : ∀ ts : List Token,
    definesAmong (ts.map (Token.shift k)) = definesAmong ts
  | [] => rfl
  | t :: ts => by
    have htake : (ts.map (Token.shift k)).takeWhile (!·.lineStart) =
        (ts.takeWhile (!·.lineStart)).map (Token.shift k) := List.takeWhile_map
    rw [List.map_cons, definesAmong, definesAmong, htake, ← List.map_cons, map_lexeme_shift,
      definesAmong_shift k ts]
    rfl

/-- Where no token is the first on its line nothing is defined. -/
theorem definesAmong_eq_nil : ∀ {ts : List Token}, (∀ t ∈ ts, t.lineStart = false) →
    definesAmong ts = []
  | [], _ => rfl
  | t :: ts, h => by
    obtain ⟨ht, hts⟩ := List.forall_mem_cons.mp h
    rw [definesAmong, ht, definesAmong_eq_nil hts]
    rfl

/-- A line defines one name at most. -/
theorem definesAmong_line (inComment : Bool) {line : Text} (hline : line.firstLine = line) :
    definesAmong (tokensFrom inComment line) = (lexedName? inComment line).toList := by
  rw [lexedName?]
  cases htokens : tokensFrom inComment line with
  | nil => rfl
  | cons t ts =>
    obtain ⟨ht, hts⟩ := lineStart_of_line hline htokens
    rw [definesAmong, ht, if_pos rfl, takeWhile_lineStart_eq_self hts, definesAmong_eq_nil hts,
      List.append_nil]

/-- The tokens of a text define what its lines define. -/
theorem definesAmong_tokensFrom (s : Text) : ∀ inComment, definesAmong (tokensFrom inComment s) =
    (entered inComment s.lines).filterMap fun x => lexedName? x.1 x.2 := by
  induction s using Text.line_induction with
  | nil => intro inComment; rfl
  | last l hne h =>
    intro inComment
    rw [definesAmong_line inComment (Text.firstLine_of_not_mem h), Text.lines_last hne h, entered,
      entered, List.filterMap_cons]
    cases lexedName? inComment l <;> rfl
  | line l s h ih =>
    intro inComment
    rw [tokensFrom_newline_append, definesAmong_append (lineStart_head?_map_shift _ _ s),
      definesAmong_shift, definesAmong_line inComment (Text.firstLine_newline h), ih,
      Text.lines_line_append s h, entered, List.filterMap_cons]
    cases lexedName? inComment (l ++ ['\n']) <;> rfl

/-! ### Names on raw lines -/

namespace DefineSet

/-- The name that a line adds to the set of the directives of a text. -/
def scannedName? (line : Text) : Option Text := if isDirective line then symbolOf? line else none

theorem names_ofDirectives (s : Text) :
    (ofDirectives s).names = (s.lines.filterMap scannedName?).eraseDups := by
  have hnames := names_insertAll (s.lines.filter isDirective) empty [] rfl
  rw [List.nil_append, List.filterMap_filter] at hnames
  exact hnames

/-- The lines add the same names, whatever comments they continue. -/
theorem filterMap_entered : ∀ (inComment : Bool) (lines : List Text),
    (entered inComment lines).filterMap (fun x => scannedName? x.2) = lines.filterMap scannedName?
  | _, [] => rfl
  | inComment, line :: lines => by
    rw [entered, List.filterMap_cons, List.filterMap_cons, filterMap_entered]

/-- A line adds a name just when it is written as a directive for it. -/
theorem scannedName?_eq_some_iff {line name : Text} : scannedName? line = some name ↔
    IsName name ∧ ∃ lead gap gap' rest : Text,
      line = lead ++ '#' :: (gap ++ ("define".toList ++ (gap' ++ (name ++ rest)))) ∧
      lead.all isBlank = true ∧ gap.all isBlank = true ∧ gap'.all isBlank = true ∧ EndsName rest := by
  rw [scannedName?, Option.ite_none_right_eq_some, symbolOf?_eq_some_iff, isDirective, beq_iff_eq]
  constructor
  · rintro ⟨hhead, hname, hstands⟩
    refine ⟨hname, ?_⟩
    cases hstands with
    | bare lead rest hlead hhash hrest =>
      rw [Text.trimStart_append hlead, hname.trimStart_append, hname.head?_append] at hhead
      exact absurd hhead hhash
    | directive lead gap gap' rest hlead hgap hgap' hrest =>
      exact ⟨lead, gap, gap', rest, rfl, hlead, hgap, hgap', hrest⟩
  · rintro ⟨hname, lead, gap, gap', rest, rfl, hlead, hgap, hgap', hrest⟩
    refine ⟨?_, hname, StandsFor.directive lead gap gap' rest hlead hgap hgap' hrest⟩
    rw [Text.trimStart_append hlead, Text.trimStart_cons (by decide)]
    rfl

end DefineSet

/-! ### Reading a directive -/

theorem isToken_hash (next : Option Char) : IsToken (.mark '#') ['#'] next := by
  have hstep : step .code '#' next = (.head (.mark '#'), .code) := rfl
  refine ⟨⟨'#', [], rfl, ?_⟩, ?_, ?_⟩
  · rw [partRoles, List.head?_nil, Option.none_or, hstep]
    rfl
  · rw [partPlace, List.head?_nil, Option.none_or, hstep]
    rfl
  · rw [partPlace, List.head?_nil, Option.none_or, hstep]
    cases next <;> rfl

/-- A word goes on as far as its characters do. -/
theorem of_word {c : Char} (hc : beginsWord c = true) (s : Text) : Reading.of (c :: s) =
    (Reading.of (s.dropWhile continuesWord)).cons ⟨[], .word, c :: s.takeWhile continuesWord⟩ := by
  have hword : spellsWord (c :: s.takeWhile continuesWord) = true := by
    rw [spellsWord, hc, Bool.true_and]
    exact List.all_takeWhile
  have hnext : (s.dropWhile continuesWord).head?.any continuesWord = false := by
    have hhead := List.head?_dropWhile_not continuesWord s
    cases h : (s.dropWhile continuesWord).head? with
    | none => rfl
    | some d =>
      rw [h] at hhead
      exact hhead
  have hread := Reading.of_token (isToken_word hword hnext)
  rwa [List.cons_append, List.takeWhile_append_dropWhile] at hread

theorem lexemes_blank {gap : Text} (h : gap.all isBlank = true) (s : Text) :
    (Reading.of (gap ++ s)).lexemes = (Reading.of s).lexemes := by
  rw [Reading.of_gap (gap_of_isBlank _ h), Reading.lexemes_behind]

theorem lexemes_word {t : Text} (h : spellsWord t = true) {s : Text}
    (hs : s.head?.any continuesWord = false) :
    (Reading.of (t ++ s)).lexemes = (.word, t) :: (Reading.of s).lexemes := by
  rw [Reading.of_token (isToken_word h hs)]
  rfl

/-- The words of a text begin with a letter. -/
theorem beginsWord_of_mem_lexemes {s t : Text} (h : (.word, t) ∈ (Reading.of s).lexemes) :
    t.head?.any beginsWord = true := by
  have hall : ∀ {s : Text} {r : Reading}, Reads s r → (.word, t) ∈ r.lexemes →
      t.head?.any beginsWord = true := by
    intro s r hreads
    induction hreads with
    | rest rest h => exact fun hmem => absurd hmem List.not_mem_nil
    | piece gap kind text s r hgap htoken h ih =>
      intro hmem
      rcases List.mem_cons.mp hmem with heq | hmem
      · obtain ⟨rfl, rfl⟩ := Prod.mk.inj heq
        exact htoken.word.1
      · exact ih hmem
  exact hall (reads_of s) h

/-- The tokens of a line with nothing but blanks in front of its `#`. -/
theorem lexedName?_hash {lead : Text} (h : lead.all isBlank = true) (s : Text) :
    lexedName? false (lead ++ '#' :: s) = definedName? ((.mark '#', ['#']) :: (Reading.of s).lexemes) := by
  have hhash : Reading.of ('#' :: s) = (Reading.of s).cons ⟨[], .mark '#', ['#']⟩ :=
    Reading.of_token (isToken_hash _)
  have hlexemes := Reading.lexemes_of (lead ++ '#' :: s)
  rw [lexemes_blank h, hhash] at hlexemes
  rw [lexedName?, ← tokens, ← hlexemes]
  rfl

theorem definedName?_eq_some_iff {ls : List Lexeme} {name : Text} :
    definedName? ((.mark '#', ['#']) :: ls) = some name ↔
      ∃ ls', ls = (.word, "define".toList) :: (.word, name) :: ls' := by
  rw [definedName?.eq_def]
  split
  next keyword name' ls' heq =>
    rw [(List.cons.inj heq).2, Option.ite_none_right_eq_some, Option.some.injEq]
    constructor
    · rintro ⟨rfl, rfl⟩
      exact ⟨ls', rfl⟩
    · rintro ⟨_, hls⟩
      obtain ⟨hkeyword, htail⟩ := List.cons.inj hls
      exact ⟨(Prod.mk.inj hkeyword).2, (Prod.mk.inj (List.cons.inj htail).1).2⟩
  next hnot =>
    refine ⟨fun h => absurd h.symm (Option.some_ne_none name), ?_⟩
    rintro ⟨ls', rfl⟩
    exact absurd rfl (hnot _ _ _ _)

/-! ### Plain directives -/

/-- The line defines the name in plain form: blanks only in front of `#` and of `define`, one blank at
    least in front of the name, and the name a word that ends as the names on raw lines do. -/
inductive PlainDefine (name : Text) : Text → Prop
  | intro (lead gap gap' rest : Text) (hlead : lead.all isBlank = true)
      (hgap : gap.all isBlank = true) (hgap' : gap'.all isBlank = true) (hne : gap' ≠ [])
      (hname : spellsWord name = true) (hrest : EndsName rest) :
      PlainDefine name (lead ++ '#' :: (gap ++ ("define".toList ++ (gap' ++ (name ++ rest)))))

/-- A character of a word can stand in a name. -/
theorem continuesName_of_continuesWord {c : Char} (h : continuesWord c = true) :
    isBlank c = false ∧ c ≠ '(' := by
  constructor
  · rw [Bool.eq_false_iff]
    intro hblank
    rw [not_continuesWord_of_isBlank hblank] at h
    exact Bool.noConfusion h
  · rintro rfl
    exact absurd h (by decide)

theorem isName_of_spellsWord {name : Text} (h : spellsWord name = true) : IsName name := by
  cases name with
  | nil => exact Bool.noConfusion h
  | cons c u =>
    rw [spellsWord, Bool.and_eq_true, List.all_eq_true] at h
    refine ⟨List.cons_ne_nil c u, List.forall_mem_cons.mpr ⟨?_, fun d hd => ?_⟩⟩
    · exact continuesName_of_continuesWord (continuesWord_of_beginsWord h.1)
    · exact continuesName_of_continuesWord (h.2 d hd)

/-- A word ends where a name does. -/
theorem EndsName.not_continuesWord {rest : Text} (h : EndsName rest) :
    rest.head?.any continuesWord = false := by
  cases rest with
  | nil => rfl
  | cons c rest =>
    rw [Bool.eq_false_iff]
    intro hword
    obtain ⟨hblank, hparen⟩ := continuesName_of_continuesWord hword
    rcases h c rfl with hc | hc
    · rw [hblank] at hc
      exact Bool.noConfusion hc
    · exact hparen hc

/-- A word in front of a text is its first token just when the text does not continue it. -/
theorem lexemes_word_iff {t s : Text} (h : spellsWord t = true) {ls : List Lexeme} :
    (Reading.of (t ++ s)).lexemes = (.word, t) :: ls ↔
      s.head?.any continuesWord = false ∧ (Reading.of s).lexemes = ls := by
  constructor
  · intro hlexemes
    have hnext : s.head?.any continuesWord = false := by
      cases t with
      | nil => exact Bool.noConfusion h
      | cons c u =>
        rw [spellsWord, Bool.and_eq_true, List.all_eq_true] at h
        rw [List.cons_append, of_word h.1, List.takeWhile_append_of_pos h.2] at hlexemes
        have htext := congrArg Prod.snd (List.cons.inj hlexemes).1
        have htake := List.append_right_eq_self.mp (List.cons.inj htext).2
        cases s with
        | nil => rfl
        | cons d s =>
          rw [Bool.eq_false_iff]
          intro hnext
          have hd : continuesWord d = true := hnext
          rw [List.takeWhile_cons_of_pos hd] at htake
          exact List.cons_ne_nil _ _ htake
    rw [lexemes_word h hnext] at hlexemes
    exact ⟨hnext, (List.cons.inj hlexemes).2⟩
  · rintro ⟨hnext, rfl⟩
    exact lexemes_word h hnext

/-- The first token of a text is a word of it. -/
theorem spellsWord_of_lexemes {name rest : Text} {ls : List Lexeme}
    (h : (Reading.of (name ++ rest)).lexemes = (.word, name) :: ls) : spellsWord name = true := by
  have hmem : (Kind.word, name) ∈ (Reading.of (name ++ rest)).lexemes := by
    rw [h]
    exact List.mem_cons_self
  have hhead := beginsWord_of_mem_lexemes hmem
  cases name with
  | nil => exact Bool.noConfusion hhead
  | cons c u =>
    have hc : beginsWord c = true := hhead
    rw [List.cons_append, of_word hc] at h
    have htext := congrArg Prod.snd (List.cons.inj h).1
    have htake : (u ++ rest).takeWhile continuesWord = u := (List.cons.inj htext).2
    rw [spellsWord, hc, ← htake, Bool.true_and]
    exact List.all_takeWhile

/-- Outside comments the raw line and its tokens name the same just when the line is a plain
    directive. -/
theorem plainDefine_iff {line name : Text} : PlainDefine name line ↔
    DefineSet.scannedName? line = some name ∧ lexedName? false line = some name := by
  have hdefine : spellsWord "define".toList = true := by decide
  constructor
  · rintro ⟨lead, gap, gap', rest, hlead, hgap, hgap', hne, hname, hrest⟩
    refine ⟨DefineSet.scannedName?_eq_some_iff.mpr ⟨isName_of_spellsWord hname, lead, gap, gap', rest, rfl,
      hlead, hgap, hgap', hrest⟩, ?_⟩
    have hnext : (gap' ++ (name ++ rest)).head?.any continuesWord = false := by
      obtain ⟨c, gap', rfl⟩ := List.exists_cons_of_ne_nil hne
      rw [List.all_cons, Bool.and_eq_true] at hgap'
      exact not_continuesWord_of_isBlank hgap'.1
    rw [lexedName?_hash hlead, definedName?_eq_some_iff]
    refine ⟨(Reading.of rest).lexemes, ?_⟩
    rw [lexemes_blank hgap, lexemes_word hdefine hnext, lexemes_blank hgap',
      lexemes_word hname hrest.not_continuesWord]
  · rintro ⟨hscan, hlex⟩
    obtain ⟨-, lead, gap, gap', rest, rfl, hlead, hgap, hgap', hrest⟩ :=
      DefineSet.scannedName?_eq_some_iff.mp hscan
    rw [lexedName?_hash hlead, definedName?_eq_some_iff] at hlex
    obtain ⟨ls, hls⟩ := hlex
    rw [lexemes_blank hgap, lexemes_word_iff hdefine, lexemes_blank hgap'] at hls
    have hname := spellsWord_of_lexemes hls.2
    refine PlainDefine.intro lead gap gap' rest hlead hgap hgap' ?_ hname hrest
    -- without a blank the name would continue the word in front of it
    rintro rfl
    obtain ⟨hnext, -⟩ := hls
    cases name with
    | nil => exact Bool.noConfusion hname
    | cons c u =>
      have hc : beginsWord c = true := any_beginsWord_of_spellsWord hname
      have hcontinues : continuesWord c = false := hnext
      rw [continuesWord_of_beginsWord hc] at hcontinues
      exact Bool.noConfusion hcontinues

/-- All that the line defines, as raw text or by its tokens, it defines in plain form and outside
    comments. -/
def DefinesPlainly (inComment : Bool) (line : Text) : Prop :=
  ∀ name, DefineSet.scannedName? line = some name ∨ lexedName? inComment line = some name →
    inComment = false ∧ PlainDefine name line

/-- The raw line and its tokens name the same, and a line that begins in a comment nothing. -/
def ReadsAlike (inComment : Bool) (line : Text) : Prop :=
  DefineSet.scannedName? line = lexedName? inComment line ∧
    (inComment = true → DefineSet.scannedName? line = none)

instance (inComment : Bool) (line : Text) : Decidable (ReadsAlike inComment line) :=
  inferInstanceAs (Decidable (_ ∧ _))

theorem readsAlike_iff {inComment : Bool} {line : Text} :
    ReadsAlike inComment line ↔ DefinesPlainly inComment line := by
  constructor
  · rintro ⟨hsame, hcomment⟩ name hname
    have hscan : DefineSet.scannedName? line = some name := by
      rwa [← hsame, or_self] at hname
    cases inComment with
    | true =>
      have hnone := hcomment rfl
      rw [hscan] at hnone
      exact absurd hnone (Option.some_ne_none name)
    | false => exact ⟨rfl, plainDefine_iff.mpr ⟨hscan, hsame ▸ hscan⟩⟩
  · intro hplain
    constructor
    · refine Option.ext fun name => ⟨fun hscan => ?_, fun hlex => ?_⟩
      · obtain ⟨rfl, hdefine⟩ := hplain name (Or.inl hscan)
        exact (plainDefine_iff.mp hdefine).2
      · obtain ⟨rfl, hdefine⟩ := hplain name (Or.inr hlex)
        exact (plainDefine_iff.mp hdefine).1
    · rintro rfl
      refine Option.eq_none_iff_forall_ne_some.mpr fun name hscan => ?_
      exact Bool.noConfusion (hplain name (Or.inl hscan)).1

/-! ### The set of a text -/

theorem names_ofDirectives_line {line : Text} (h : line.firstLine = line) :
    (DefineSet.ofDirectives line).names = (DefineSet.scannedName? line).toList := by
  by_cases hne : line = []
  · rw [hne]
    decide
  · rw [DefineSet.names_ofDirectives, Text.lines_of_firstLine hne h, List.filterMap_cons]
    cases DefineSet.scannedName? line <;> rfl

theorem definedNames_line {line : Text} (h : line.firstLine = line) :
    definedNames line = (lexedName? false line).toList := by
  rw [definedNames, tokens, definesAmong_line false h]
  cases lexedName? false line <;> rfl

/-- The set has the names that the tokens define, where every line defines its name plainly. On a line
    that does not, the raw text and the tokens differ or a comment adds a name; a text of one line shows
    it in its set. -/
theorem names_ofDirectives_iff (s : Text) :
    ((∀ x ∈ entered false s.lines, DefinesPlainly x.1 x.2) →
      (DefineSet.ofDirectives s).names = definedNames s) ∧
    ((∀ x ∈ entered false s.lines, DefinesPlainly x.1 x.2) ↔
      ∀ x ∈ entered false s.lines, ReadsAlike x.1 x.2) ∧
    (s.firstLine = s →
      ((DefineSet.ofDirectives s).names = definedNames s ↔ DefinesPlainly false s)) := by
  have halike : (∀ x ∈ entered false s.lines, DefinesPlainly x.1 x.2) ↔
      ∀ x ∈ entered false s.lines, ReadsAlike x.1 x.2 :=
    forall₂_congr fun x _ => readsAlike_iff.symm
  refine ⟨fun hplain => ?_, halike, fun hline => ?_⟩
  · have hsame := halike.mp hplain
    rw [DefineSet.names_ofDirectives, definedNames, tokens, definesAmong_tokensFrom,
      ← DefineSet.filterMap_entered false]
    exact congrArg List.eraseDups (List.filterMap_congr fun x hx => (hsame x hx).1)
  · rw [names_ofDirectives_line hline, definedNames_line hline, ← readsAlike_iff, ReadsAlike,
      and_iff_left fun h => Bool.noConfusion h]
    refine ⟨fun h => ?_, congrArg Option.toList⟩
    have hhead := congrArg List.head? h
    rwa [Option.head?_toList, Option.head?_toList] at hhead

/-- Two definitions among blanks, a comment and a test; only the first and the third line add a name. -/
theorem names_ofDirectives_iff_plain :
    (∀ x ∈ entered false (Text.lines " # define A(x) x\r\n// #define B\n#define C 1\n#ifdef A".toList),
      DefinesPlainly x.1 x.2) ∧
    (DefineSet.ofDirectives " # define A(x) x\r\n// #define B\n#define C 1\n#ifdef A".toList).names =
      definedNames " # define A(x) x\r\n// #define B\n#define C 1\n#ifdef A".toList ∧
    Text.firstLine "#define C 1\n".toList = "#define C 1\n".toList ∧
    DefinesPlainly false "#define C 1\n".toList := by
  have hall := names_ofDirectives_iff " # define A(x) x\r\n// #define B\n#define C 1\n#ifdef A".toList
  have hplain := hall.2.1.mpr (by decide)
  have hline : Text.firstLine "#define C 1\n".toList = "#define C 1\n".toList := by decide
  exact ⟨hplain, hall.1 hplain, hline,
    ((names_ofDirectives_iff "#define C 1\n".toList).2.2 hline).mp (by decide)⟩

/-- A definition in a comment, a longer word in place of `define`, and a comment behind the name. -/
theorem names_ofDirectives_ne :
    (DefineSet.ofDirectives "/*\n#define MULTIVIEW\n*/\n#defined FOG\n#define A/**/\n".toList).names =
      ["MULTIVIEW".toList, "d".toList, "A/**/".toList] ∧
    definedNames "/*\n#define MULTIVIEW\n*/\n#defined FOG\n#define A/**/\n".toList =
      ["A".toList] ∧
    (DefineSet.ofDirectives "/*\n#define MULTIVIEW\n*/\n#defined FOG\n#define A/**/\n".toList).names ≠
      definedNames "/*\n#define MULTIVIEW\n*/\n#defined FOG\n#define A/**/\n".toList := by
  decide

end Shading
