import Shading.Proofs.Rematching

/-!
    Signs behind hexadecimal literals.

    A number takes a sign with it behind an `e`, as in `1.0e-5`. In a hexadecimal literal `e` is a digit,
    and the machine does not tell the two apart: `0xF+x` is a number, a mark and a word, but `0xE+x` is
    one number, in which no renaming finds the word. The last digit alone decides, however long the
    literal is (`hexSum_apart_iff`).

        0 x 1 E     after the last digit the machine stands in `number true`: the sign is taken
        0 x E 1     after the last digit the machine stands in `number false`: the sign is a mark -/

namespace Shading

/-- A digit of a hexadecimal literal, capital or small. -/
def isHexDigit (c : Char) : Bool := "0123456789abcdefABCDEF".toList.contains c

/-- A hexadecimal literal, a sign and a word, one right behind the other. -/
structure HexSum where
  digits : Text
  sign : Char
  word : Text
  digits_ne_nil : digits ≠ []
  isHex : digits.all isHexDigit = true
  isSign : sign = '+' ∨ sign = '-'
  isWord : spellsWord word = true

namespace HexSum

/-- The literal. -/
def literal (x : HexSum) : Text := '0' :: 'x' :: x.digits

def text (x : HexSum) : Text := x.literal ++ x.sign :: x.word

/-- The last digit of the literal is an `e`. -/
def endsInMark (x : HexSum) : Bool := x.digits.getLast?.any isExponentMark

/-- The three tokens of the sum, as a reader of hexadecimal literals expects them. -/
def lexemes (x : HexSum) : List Lexeme :=
  [(.number, x.literal), (.mark x.sign, [x.sign]), (.word, x.word)]

end HexSum

/-- The text is empty or ends in white space outside comments. -/
def EndsBlank (front : Text) : Prop := ∀ x ∈ (roles .code front).getLast?, x.2 = .blank

instance (front : Text) : Decidable (EndsBlank front) :=
  inferInstanceAs (Decidable (∀ x ∈ (roles .code front).getLast?, x.2 = .blank))

/-- The word in the spelling that the list gives it. -/
def wordIn (renames : List Rename) (word : Text) : Text :=
  ((renames.find? fun r => word == r.source.toList).map fun r => r.target.toList).getD word

/-! ### Behind white space -/

/-- White space leads to code, whatever follows it. -/
theorem step_of_blank {place : Place} {c : Char} {next : Option Char}
    (h : (step place c next).1 = .blank) (next' : Option Char) :
    step place c next' = (.blank, .code) := by
  have henter : (enter c next).1 = .blank → enter c next' = (.blank, .code) := by
    intro h
    rcases enter_cases c next with ⟨hblank, -⟩ | ⟨-, -, he⟩ | ⟨-, he⟩ | ⟨-, he⟩ | he
    · rw [enter, if_pos hblank]
    all_goals
      rw [he] at h
      exact Role.noConfusion h
  cases place with
  | code => exact henter h
  | word =>
    rw [step] at h ⊢
    split at h
    · exact Role.noConfusion h
    next hc => rw [if_neg hc, henter h]
  | number sign =>
    rw [step] at h ⊢
    split at h
    · exact Role.noConfusion h
    next hc =>
      split at h
      · exact Role.noConfusion h
      next hsign => rw [if_neg hc, if_neg hsign, henter h]
  | lineComment =>
    rw [step] at h ⊢
    split at h
    next hc => rw [if_pos hc]
    · exact Role.noConfusion h
  | _ => exact Role.noConfusion h

theorem EndsBlank.part {front : Text} (h : EndsBlank front) (next : Option Char) :
    partRoles .code front next = roles .code front ∧ partPlace .code front next = .code := by
  rcases List.eq_nil_or_concat front with rfl | ⟨l, c, rfl⟩
  · exact ⟨rfl, rfl⟩
  · rw [List.concat_eq_append] at h ⊢
    have hc : (step (partPlace .code l (some c)) c none).1 = .blank := by
      refine h (c, _) ?_
      rw [← partRoles_none, partRoles_append]
      exact List.getLast?_concat
    rw [← partRoles_none, partRoles_append, partRoles_append, partPlace_append]
    simp only [partRoles, partPlace, List.head?_cons, List.head?_nil, Option.some_or, Option.none_or,
      step_of_blank hc, and_self]

/-- Behind white space a text is read as it is alone. -/
theorem EndsBlank.of_append {front : Text} (h : EndsBlank front) (s : Text) :
    Reading.of (front ++ s) = Reading.of front ++ Reading.of s := by
  obtain ⟨hroles, hplace⟩ := h.part s.head?
  rw [Reading.of, roles_append, hroles, hplace, Reading.ofRoles_append (tailOf_roles rfl s)]
  rfl

/-! ### Numbers -/

/-- Characters of a number are read as such, and the last of them decides whether a sign may follow. -/
theorem number_run (next : Option Char) : ∀ (sign : Bool) (u : Text),
    u.all continuesNumber = true →
      partRoles (.number sign) u next = u.map (·, Role.tail) ∧
        partPlace (.number sign) u next = .number ((u.getLast?.map isExponentMark).getD sign)
  | _, [], _ => ⟨rfl, rfl⟩
  | sign, c :: u, h => by
    rw [List.all_cons, Bool.and_eq_true] at h
    obtain ⟨hroles, hplace⟩ := number_run next (isExponentMark c) u h.2
    rw [partRoles, partPlace, step, if_pos h.1, hroles, hplace, List.getLast?_cons]
    refine ⟨rfl, ?_⟩
    cases u.getLast? <;> rfl

theorem continuesNumber_of_isHexDigit {c : Char} (h : isHexDigit c = true) :
    continuesNumber c = true := by
  have hall : "0123456789abcdefABCDEF".toList.all continuesNumber = true := by decide
  exact List.all_eq_true.mp hall c (List.contains_iff_mem.mp h)

theorem all_continuesNumber_of_spellsWord {word : Text} (h : spellsWord word = true) :
    word.all continuesNumber = true := by
  cases word with
  | nil => exact Bool.noConfusion h
  | cons c u =>
    rw [spellsWord, Bool.and_eq_true, List.all_eq_true] at h
    rw [List.all_cons, Bool.and_eq_true, List.all_eq_true]
    exact ⟨continuesNumber_of_continuesWord (continuesWord_of_beginsWord h.1),
      fun d hd => continuesNumber_of_continuesWord (h.2 d hd)⟩

namespace HexSum

variable (x : HexSum)

/-- Behind its literal the machine waits for a sign exactly if the last digit is an `e`. -/
theorem literal_run (next : Option Char) :
    partRoles .code x.literal next = ('0', .head .number) :: ('x' :: x.digits).map (·, Role.tail) ∧
      partPlace .code x.literal next = .number x.endsInMark := by
  have hall : ('x' :: x.digits).all continuesNumber = true := by
    rw [List.all_cons, Bool.and_eq_true, List.all_eq_true]
    exact ⟨rfl, fun c hc => continuesNumber_of_isHexDigit (List.all_eq_true.mp x.isHex c hc)⟩
  have hzero : step .code '0' (some 'x') = (.head .number, .number false) := rfl
  obtain ⟨hroles, hplace⟩ := number_run next false ('x' :: x.digits) hall
  rw [literal, partRoles, partPlace, List.head?_cons, Option.some_or, hzero, hroles, hplace]
  refine ⟨rfl, ?_⟩
  rw [endsInMark, List.getLast?_cons]
  cases hlast : x.digits.getLast? with
  | none => exact absurd (List.getLast?_eq_none_iff.mp hlast) x.digits_ne_nil
  | some c => rfl

theorem not_continuesNumber_sign : continuesNumber x.sign = false := by
  rcases x.isSign with h | h <;> rw [h] <;> rfl

theorem isToken_sign (next : Option Char) : IsToken (.mark x.sign) [x.sign] next := by
  rcases x.isSign with h | h <;> rw [h] <;> exact ⟨⟨_, [], rfl, rfl⟩, rfl, by cases next <;> rfl⟩

/-- Behind a literal that does not end in an `e`, the sign and the word are tokens. -/
theorem of_apart (h : x.endsInMark = false) {rest : Text}
    (hrest : rest.head?.any continuesWord = false) :
    Reading.of (x.text ++ rest) = (((Reading.of rest).cons ⟨[], .word, x.word⟩).cons
      ⟨[], .mark x.sign, [x.sign]⟩).cons ⟨[], .number, x.literal⟩ := by
  obtain ⟨hroles, hplace⟩ := x.literal_run (some x.sign)
  have hliteral : IsToken .number x.literal (some x.sign) := by
    refine ⟨⟨_, _, rfl, hroles⟩, ?_, ?_⟩
    · rw [hplace]; rfl
    · rw [hplace, h, Option.any_some, Place.takes, x.not_continuesNumber_sign]; rfl
  have hcut : x.text ++ rest = x.literal ++ ([x.sign] ++ (x.word ++ rest)) := by
    simp only [text, List.append_assoc, List.cons_append, List.nil_append]
  rw [hcut, Reading.of_token hliteral, Reading.of_token (x.isToken_sign _),
    Reading.of_token (isToken_word x.isWord hrest)]

/-- A literal that ends in an `e` takes the sign and the word with it, and what else continues a
    number. -/
theorem exists_of_together (h : x.endsInMark = true) (rest : Text) :
    ∃ more behind, rest = more ++ behind ∧
      Reading.of (x.text ++ rest) = (Reading.of behind).cons ⟨[], .number, x.text ++ more⟩ := by
  have hword := fun next => number_run next false x.word (all_continuesNumber_of_spellsWord x.isWord)
  have hcode : (Place.number ((x.word.getLast?.map isExponentMark).getD false)).isCode = true := rfl
  obtain ⟨more, behind, rfl, hmore, hcode, hends⟩ := exists_tail rest hcode
  have hsign : ∀ next, step (.number true) x.sign next = (.tail, .number false) := by
    intro next
    rcases x.isSign with h | h <;> rw [h] <;> rfl
  obtain ⟨hroles, hplace⟩ := x.literal_run (some x.sign)
  have htoken : IsToken .number (x.text ++ more) behind.head? := by
    have hcut : x.text ++ more = x.literal ++ (x.sign :: (x.word ++ more)) := by
      simp only [text, List.append_assoc, List.cons_append]
    rw [hcut]
    refine ⟨⟨'0', ('x' :: x.digits) ++ (x.sign :: (x.word ++ more)), rfl, ?_⟩, ?_, ?_⟩
    · rw [partRoles_append, List.head?_cons, Option.some_or, hroles, hplace, h, partRoles, hsign,
        partRoles_append, (hword _).1, (hword _).2, hmore]
      simp only [List.map_append, List.map_cons, List.cons_append]
    · rwa [partPlace_append, List.head?_cons, Option.some_or, hplace, h, partPlace, hsign,
        partPlace_append, (hword _).2]
    · rwa [partPlace_append, List.head?_cons, Option.some_or, hplace, h, partPlace, hsign,
        partPlace_append, (hword _).2]
  refine ⟨more, behind, rfl, ?_⟩
  rw [← List.append_assoc, Reading.of_token htoken]

end HexSum

/-! ### Renaming part by part -/

section

variable {renames : List Rename} {f : Piece → List Piece → Option String}

/-- What is no word keeps its spelling. -/
theorem FollowsList.respell_cons (hf : FollowsList renames f) {p : Piece} (h : p.kind ≠ .word)
    (r : Reading) : (r.cons p).respell f = (r.respell f).cons p := by
  have hword : ∀ x ∈ renames, p.isWord x.source = false := fun x _ =>
    Bool.eq_false_iff.mpr fun hword => h (isWord_kind hword)
  rw [Reading.respell, Reading.cons, respell, hf.eq_none hword]
  rfl

/-- Only an opening parenthesis is seen from the words in front of it. -/
theorem FollowsList.respell_append (hf : FollowsList renames f) {qs : List Piece}
    (hqs : opensCall qs = false) : ∀ ps : List Piece,
      respell f (ps ++ qs) = respell f ps ++ respell f qs
  | [] => rfl
  | p :: ps => by
    have hnext : opensCall (ps ++ qs) = opensCall ps := by
      cases ps with
      | nil => exact hqs
      | cons q ps => rfl
    rw [List.cons_append, respell, hf.called p _ _ hnext, hf.respell_append hqs ps]
    rfl

/-- In front of a number a text is renamed as it is alone. -/
theorem FollowsList.text_respell_number (hf : FollowsList renames f) (r q : Reading) (t : Text) :
    ((r ++ q.cons ⟨[], .number, t⟩).respell f).text =
      (r.respell f).text ++ (t ++ (q.respell f).text) := by
  have hnumber : ∀ gap : Text, Piece.kind ⟨gap, .number, t⟩ ≠ .word := fun _ => Kind.noConfusion
  have happend : (r ++ q.cons ⟨[], .number, t⟩).respell f =
      r.respell f ++ (q.respell f).cons ⟨[], .number, t⟩ := by
    have hq := hf.respell_cons (hnumber (r.rest ++ [])) q
    rw [Reading.append_def, Reading.append_def, Reading.behind_cons, Reading.behind_cons,
      Reading.respell, hf.respell_append rfl]
    rw [Reading.respell, Reading.mk.injEq] at hq
    rw [hq.1]
    rfl
  rw [happend, Reading.text_append, Reading.text_cons, List.nil_append]

end

/-! ### Where the word is found -/

/-- The literal, the sign and the word are tokens, and both renamings reach the word. -/
structure HexSum.StandsApart (x : HexSum) (front rest : Text) : Prop where
  lexemes : (tokens (front ++ (x.text ++ rest))).map Token.lexeme =
    (tokens front).map Token.lexeme ++ (x.lexemes ++ (tokens rest).map Token.lexeme)
  words : ∀ renames, renameWords renames (front ++ (x.text ++ rest)) =
    renameWords renames front ++
      (x.literal ++ x.sign :: (wordIn renames x.word ++ renameWords renames rest))
  calls : ∀ renames, renameCalls renames (front ++ (x.text ++ rest)) =
    renameCalls renames front ++ (x.literal ++ x.sign ::
      ((if (tokens rest).head?.any (·.isMark '(') then wordIn renames x.word else x.word) ++
        renameCalls renames rest))

/-- One number holds the sign and the word, and no renaming reaches the word. -/
def HexSum.GrowsTogether (x : HexSum) (front rest : Text) : Prop :=
  ∃ more behind, rest = more ++ behind ∧
    (tokens (front ++ (x.text ++ rest))).map Token.lexeme = (tokens front).map Token.lexeme ++
      ((.number, x.text ++ more) :: (tokens behind).map Token.lexeme) ∧
    ∀ renames,
      renameWords renames (front ++ (x.text ++ rest)) =
        renameWords renames front ++ (x.text ++ more ++ renameWords renames behind) ∧
      renameCalls renames (front ++ (x.text ++ rest)) =
        renameCalls renames front ++ (x.text ++ more ++ renameCalls renames behind)

theorem newSpelling?_wordIn (renames : List Rename) (word : Text) :
    ((newSpelling? renames ⟨[], .word, word⟩).map String.toList).getD word = wordIn renames word := by
  rw [newSpelling?, Option.map_map]
  rfl

theorem calledSpelling?_wordIn (renames : List Rename) (word rest : Text) :
    ((calledSpelling? renames ⟨[], .word, word⟩ (Reading.of rest).pieces).map String.toList).getD word =
      if (tokens rest).head?.any (·.isMark '(') then wordIn renames word else word := by
  have hnext : (tokens rest).head?.any (·.isMark '(') =
      (Reading.of rest).pieces.head?.any (·.isMark '(') := by
    rw [tokens_eq]
    cases (Reading.of rest).pieces <;> rfl
  rw [calledSpelling?, hnext]
  split
  · exact newSpelling?_wordIn renames word
  · rfl

section

variable {front : Text} (hfront : EndsBlank front) (x : HexSum)

include hfront

theorem HexSum.standsApart (h : x.endsInMark = false) {rest : Text}
    (hrest : rest.head?.any continuesWord = false) : x.StandsApart front rest := by
  have hof := hfront.of_append (x.text ++ rest)
  rw [x.of_apart h hrest] at hof
  -- behind the literal, the mark stays and the word has its new spelling
  have htext : ∀ {renames : List Rename} {f : Piece → List Piece → Option String},
      FollowsList renames f → ((Reading.of (front ++ (x.text ++ rest))).respell f).text =
        ((Reading.of front).respell f).text ++ (x.literal ++ x.sign ::
          (((f ⟨[], .word, x.word⟩ (Reading.of rest).pieces).map String.toList).getD x.word ++
            ((Reading.of rest).respell f).text)) := by
    intro renames f hf
    have hmark : Piece.kind ⟨[], .mark x.sign, [x.sign]⟩ ≠ .word := Kind.noConfusion
    have hword := Reading.text_cons ⟨[], .word, ((f ⟨[], .word, x.word⟩
      (Reading.of rest).pieces).map String.toList).getD x.word⟩ ((Reading.of rest).respell f)
    rw [hof, hf.text_respell_number, hf.respell_cons hmark, Reading.text_cons]
    exact congrArg (fun t => _ ++ (x.literal ++ x.sign :: t)) hword
  refine ⟨?_, fun renames => ?_, fun renames => ?_⟩
  · rw [← Reading.lexemes_of, ← Reading.lexemes_of, ← Reading.lexemes_of, hof,
      Reading.lexemes_append]
    rfl
  · rw [renameWords_eq_text, renameWords_eq_text, renameWords_eq_text,
      htext (followsList_newSpelling? renames), newSpelling?_wordIn]
  · rw [renameCalls_eq_text, renameCalls_eq_text, renameCalls_eq_text,
      htext (followsList_calledSpelling? renames), calledSpelling?_wordIn]

theorem HexSum.growsTogether (h : x.endsInMark = true) (rest : Text) :
    x.GrowsTogether front rest := by
  obtain ⟨more, behind, rfl, hreading⟩ := x.exists_of_together h rest
  have hof := hfront.of_append (x.text ++ (more ++ behind))
  rw [hreading] at hof
  refine ⟨more, behind, rfl, ?_, fun renames => ⟨?_, ?_⟩⟩
  · rw [← Reading.lexemes_of, ← Reading.lexemes_of, ← Reading.lexemes_of, hof,
      Reading.lexemes_append]
    rfl
  · rw [renameWords_eq_text, renameWords_eq_text, renameWords_eq_text, hof,
      (followsList_newSpelling? renames).text_respell_number]
  · rw [renameCalls_eq_text, renameCalls_eq_text, renameCalls_eq_text, hof,
      (followsList_calledSpelling? renames).text_respell_number]

end

/-- The one number is longer than the literal. -/
theorem HexSum.GrowsTogether.not_standsApart {x : HexSum} {front rest : Text}
    (h : x.GrowsTogether front rest) : ¬ x.StandsApart front rest := by
  obtain ⟨more, behind, -, htokens, -⟩ := h
  intro hapart
  have heq := List.append_cancel_left (htokens.symm.trans hapart.lexemes)
  rw [lexemes, List.cons_append, List.cons.injEq, Prod.mk.injEq] at heq
  have hlength := congrArg List.length heq.1.2
  simp only [text, List.length_append, List.length_cons] at hlength
  omega

/-- Behind white space, and with nothing behind the word that continues it, a hexadecimal literal, a
    sign and a word are three tokens, and both renamings reach the word, exactly when the last digit of
    the literal is not an `e`. Otherwise one number holds them all, and no renaming reaches the word. -/
theorem hexSum_apart_iff {front : Text} (hfront : EndsBlank front) (x : HexSum) {rest : Text}
    (hrest : rest.head?.any continuesWord = false) :
    (x.StandsApart front rest ↔ x.endsInMark = false) ∧
      (x.GrowsTogether front rest ↔ x.endsInMark = true) := by
  cases hmark : x.endsInMark with
  | false =>
    have hapart := x.standsApart hfront hmark hrest
    exact ⟨iff_of_true hapart rfl, iff_of_false (fun h => h.not_standsApart hapart) Bool.noConfusion⟩
  | true =>
    have htogether := x.growsTogether hfront hmark rest
    exact ⟨iff_of_false htogether.not_standsApart Bool.noConfusion, iff_of_true htogether rfl⟩

/-- An `e` in front of the last digit does no harm. -/
theorem hexSum_apart_iff_inside :
    EndsBlank "f(1e-5, // 1\n".toList ∧ ")".toList.head?.any continuesWord = false ∧
      HexSum.StandsApart ⟨"E1".toList, '+', "gl_FragColor".toList, by decide, by decide, by decide,
        by decide⟩ "f(1e-5, // 1\n".toList ")".toList := by
  have hfront : EndsBlank "f(1e-5, // 1\n".toList := by decide
  have hrest : ")".toList.head?.any continuesWord = false := by decide
  exact ⟨hfront, hrest, (hexSum_apart_iff hfront _ hrest).1.mpr (by decide)⟩

/-- Behind `0xE+` the built-in output is part of a number and keeps its name. -/
theorem not_standsApart_of_exponentMark :
    ¬ HexSum.StandsApart ⟨"E".toList, '+', "gl_FragColor".toList, by decide, by decide, by decide,
        by decide⟩ [] [] ∧
      tokens "0xE+gl_FragColor".toList = [⟨.number, "0xE+gl_FragColor".toList, 0, true⟩] ∧
      renameWords [⟨"gl_FragColor", "glFragColor"⟩] "0xE+gl_FragColor".toList =
        "0xE+gl_FragColor".toList := by
  refine ⟨fun h => ?_, by decide, by decide⟩
  exact absurd h.lexemes (by decide)

end Shading
