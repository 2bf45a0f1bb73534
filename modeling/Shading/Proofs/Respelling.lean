import Shading.Proofs.Reading
import Shading.Proofs.Splices
import Shading.Rename

/-!
    Respelled words.

    A renaming gives some words of a text a new spelling. On the reading of the text this is a change of
    the pieces one by one (`Reading.respell`). When every new spelling is itself a word, the new text is
    read as the changed pieces: no word grows together with its neighbours, no comment opens or closes,
    and the gaps stay as they are (`reads_respell`).

    The reason is that a piece depends on what follows it only by one character, and a word in place of
    another word begins with a letter as the old one did (`Alike`). -/

namespace Shading

/-- The text is one word. -/
def spellsWord : Text → Bool
  | [] => false
  | c :: u => beginsWord c && u.all continuesWord

namespace Piece

/-- The piece is this very word. -/
def isWord (p : Piece) (word : String) : Bool := p.kind == .word && p.text == word.toList

/-- The piece is this mark. -/
def isMark (p : Piece) (c : Char) : Bool := p.kind == .mark c

end Piece

/-- The new spelling of a word with an entry in the list; the first entry counts. -/
def newSpelling? (renames : List Rename) (p : Piece) : Option String :=
  (renames.find? fun r => p.isWord r.source).map (·.target)

/-- The new spelling of a word with an entry when an opening parenthesis is the next token. -/
def calledSpelling? (renames : List Rename) (p : Piece) (ps : List Piece) : Option String :=
  if ps.head?.any (·.isMark '(') then newSpelling? renames p else none

/-- Give pieces their new spellings. A new spelling may depend on the pieces that follow. -/
def respell (spelling? : Piece → List Piece → Option String) : List Piece → List Piece
  | [] => []
  | p :: ps =>
    { p with text := ((spelling? p ps).map String.toList).getD p.text } :: respell spelling? ps

def Reading.respell (spelling? : Piece → List Piece → Option String) (r : Reading) : Reading :=
  ⟨Shading.respell spelling? r.pieces, r.rest⟩

/-- New spellings are words, and only words get one. -/
def Spells (spelling? : Piece → List Piece → Option String) : Prop :=
  ∀ p ps new, spelling? p ps = some new → p.kind = .word ∧ spellsWord new.toList = true

/-! ### The edits of a renaming -/

/-- Edits that follow the tokens of a text turn it into the respelled text. -/
theorem splices_respell (edits : List Token → List Edit)
    (spelling? : Piece → List Piece → Option String) (hnil : edits [] = [])
    (hcons : ∀ n fresh p ps, edits (locate n fresh (p :: ps)) =
      ((spelling? p ps).map fun new =>
        (⟨n + p.gap.byteSize, n + p.gap.byteSize + p.text.byteSize, new.toList⟩ : Edit)).toList ++
        edits (locate (n + p.gap.byteSize + p.text.byteSize) false ps))
    (rest : Text) : ∀ (n : Nat) (fresh : Bool) (ps : List Piece),
      Splices n (edits (locate n fresh ps)) (Reading.text ⟨ps, rest⟩)
        (Reading.respell spelling? ⟨ps, rest⟩).text
  | n, fresh, [] => by rw [locate, hnil]; exact Splices.nil n rest
  | n, fresh, p :: ps => by
    have ih := splices_respell edits spelling? hnil hcons rest (n + p.gap.byteSize + p.text.byteSize) false ps
    have hnew : (Reading.respell spelling? ⟨p :: ps, rest⟩).text =
        p.gap ++ (((spelling? p ps).map String.toList).getD p.text ++
          (Reading.respell spelling? ⟨ps, rest⟩).text) := by
      rw [← List.append_assoc]; exact Reading.text_cons _ (Reading.respell spelling? ⟨ps, rest⟩)
    rw [hcons, Reading.text_pieces, hnew]
    cases spelling? p ps with
    | none =>
      refine Splices.keep p.gap (Splices.keep p.text ?_)
      exact ih
    | some new => exact Splices.cons p.gap p.text new.toList ih

theorem newName?_locate (renames : List Rename) (p : Piece) (n : Nat) (fresh : Bool) :
    newName? renames ⟨p.kind, p.text, n, fresh⟩ = newSpelling? renames p := rfl

/-- The edits of a renaming fit the text. -/
theorem splices_renameWords (renames : List Rename) (s : Text) :
    Splices 0 (wordEdits renames (tokens s)) s
      ((Reading.of s).respell fun p _ => newSpelling? renames p).text := by
  have h := splices_respell (wordEdits renames) (fun p _ => newSpelling? renames p) rfl
    (fun n fresh p ps => by
      rw [locate, wordEdits, List.filterMap_cons, newName?_locate]
      cases newSpelling? renames p <;> rfl)
    (Reading.of s).rest 0 true (Reading.of s).pieces
  rwa [← tokens_eq, Reading.text_mk_of] at h

theorem splices_renameCalls (renames : List Rename) (s : Text) :
    Splices 0 (callEdits renames (tokens s)) s
      ((Reading.of s).respell (calledSpelling? renames)).text := by
  have h := splices_respell (callEdits renames) (calledSpelling? renames) rfl
    (fun n fresh p ps => by
      cases ps with
      | nil => rfl
      | cons q ps =>
        rw [locate, locate, callEdits, newName?_locate, calledSpelling?, List.head?_cons]
        show (if q.isMark '(' = true then _ else _) = _
        rw [Option.any_some]
        cases q.isMark '(' with
        | false => rfl
        | true => cases newSpelling? renames p <;> rfl)
    (Reading.of s).rest 0 true (Reading.of s).pieces
  rwa [← tokens_eq, Reading.text_mk_of] at h

theorem renameWords_eq_text (renames : List Rename) (s : Text) :
    renameWords renames s = ((Reading.of s).respell fun p _ => newSpelling? renames p).text :=
  (splices_renameWords renames s).splice_eq

theorem renameCalls_eq_text (renames : List Rename) (s : Text) :
    renameCalls renames s = ((Reading.of s).respell (calledSpelling? renames)).text :=
  (splices_renameCalls renames s).splice_eq

/-! ### Words in place of words -/

/-- The same character, or a letter in place of a letter. -/
def Alike (next next' : Option Char) : Prop :=
  next = next' ∨ next.any beginsWord = true ∧ next'.any beginsWord = true

theorem sight_of_any_beginsWord {next : Option Char} (h : next.any beginsWord = true) :
    sight next = sight none := by
  cases next with
  | none => rfl
  | some c => exact sight_of_beginsWord h

theorem Alike.sight_eq {next next' : Option Char} (h : Alike next next') :
    sight next = sight next' := by
  rcases h with rfl | ⟨h, h'⟩
  · rfl
  · rw [sight_of_any_beginsWord h, sight_of_any_beginsWord h']

theorem Alike.or {next next' : Option Char} (h : Alike next next') (first : Option Char) :
    Alike (first.or next) (first.or next') := by
  cases first with
  | none => exact h
  | some c => exact Or.inl rfl

/-- A letter continues every word and every number. -/
theorem takes_of_beginsWord {place : Place} (hcode : place.isCode = true) {c : Char}
    (h : beginsWord c = true) (ht : place.takes c = false) : place = .code := by
  have hw := continuesWord_of_beginsWord h
  cases place with
  | code => rfl
  | word => rw [Place.takes, hw] at ht; exact Bool.noConfusion ht
  | number sign =>
    rw [Place.takes, continuesNumber_of_continuesWord hw, Bool.true_or] at ht
    exact Bool.noConfusion ht
  | _ => exact Bool.noConfusion hcode

/-- A token stays one in front of a character like the one that follows it. -/
theorem IsToken.congr {kind : Kind} {t : Text} {next next' : Option Char} (h : IsToken kind t next)
    (halike : Alike next next') : IsToken kind t next' := by
  rcases halike with rfl | ⟨hn, hn'⟩
  · exact h
  · have hsight : sight next = sight next' := Alike.sight_eq (Or.inr ⟨hn, hn'⟩)
    obtain ⟨hroles, hcode, hends⟩ := h
    rw [partPlace_congr hsight] at hcode hends
    rw [partRoles_congr hsight] at hroles
    refine ⟨hroles, hcode, ?_⟩
    cases next with
    | none => exact Bool.noConfusion hn
    | some c => rw [takes_of_beginsWord hcode hn hends]; cases next' <;> rfl

/-- In a word the machine stays in the word as long as characters continue it. -/
theorem partPlace_word_of_tails (next : Option Char) : ∀ u : Text,
    partRoles .word u next = u.map (·, Role.tail) → partPlace .word u next = .word
  | [], _ => rfl
  | c :: u, h => by
    rw [partRoles, List.map_cons, List.cons.injEq, Prod.mk.injEq] at h
    obtain ⟨⟨-, hrole⟩, htails⟩ := h
    have hc : continuesWord c = true := by
      cases hc : continuesWord c with
      | true => rfl
      | false =>
        rw [step, hc, if_neg Bool.false_ne_true] at hrole
        rcases enter_cases c (u.head?.or next) with ⟨-, he⟩ | ⟨-, -, he⟩ | ⟨-, he⟩ | ⟨-, he⟩ | he <;>
          rw [he] at hrole <;> exact Role.noConfusion hrole
    have hstep : step .word c (u.head?.or next) = (.tail, .word) := by rw [step, if_pos hc]
    rw [hstep] at htails
    rw [partPlace, hstep]
    exact partPlace_word_of_tails next u htails

/-- A word begins with a letter and ends where nothing continues it. -/
theorem IsToken.word {t : Text} {next : Option Char} (h : IsToken .word t next) :
    t.head?.any beginsWord = true ∧ next.any continuesWord = false := by
  obtain ⟨⟨c, u, rfl, hroles⟩, -, hends⟩ := h
  rw [partRoles, List.cons.injEq, Prod.mk.injEq] at hroles
  obtain ⟨⟨-, hrole⟩, htails⟩ := hroles
  have henter : beginsWord c = true ∧ enter c (u.head?.or next) = (.head .word, .word) := by
    rw [step] at hrole
    rcases enter_cases c (u.head?.or next) with ⟨-, he⟩ | ⟨-, -, he⟩ | h | ⟨-, he⟩ | he
    · rw [he] at hrole; exact Role.noConfusion hrole
    · rw [he] at hrole; exact Role.noConfusion hrole
    · exact h
    · rw [he] at hrole; exact Kind.noConfusion (Role.head.inj hrole)
    · rw [he] at hrole; exact Kind.noConfusion (Role.head.inj hrole)
  rw [step, henter.2] at htails
  rw [partPlace, step, henter.2, partPlace_word_of_tails next u htails] at hends
  exact ⟨henter.1, hends⟩

theorem partRoles_word (next : Option Char) : ∀ u : Text, u.all continuesWord = true →
    partRoles .word u next = u.map (·, Role.tail)
  | [], _ => rfl
  | c :: u, h => by
    rw [List.all_cons, Bool.and_eq_true] at h
    rw [partRoles, step, if_pos h.1, partRoles_word next u h.2, List.map_cons]

/-- A text that spells a word is one token where nothing continues it. -/
theorem isToken_word {t : Text} (h : spellsWord t = true) {next : Option Char}
    (hnext : next.any continuesWord = false) : IsToken .word t next := by
  cases t with
  | nil => exact Bool.noConfusion h
  | cons c u =>
    rw [spellsWord, Bool.and_eq_true] at h
    have hroles : partRoles .code (c :: u) next = (c, .head .word) :: u.map (·, Role.tail) := by
      rw [partRoles, step, enter_of_beginsWord h.1, partRoles_word next u h.2]
    have hplace : partPlace .code (c :: u) next = .word := by
      rw [partPlace, step, enter_of_beginsWord h.1]
      exact partPlace_word_of_tails next u (partRoles_word next u h.2)
    exact ⟨⟨c, u, rfl, hroles⟩, by rw [hplace]; rfl, by rw [hplace]; exact hnext⟩

theorem any_beginsWord_of_spellsWord {t : Text} (h : spellsWord t = true) :
    t.head?.any beginsWord = true := by
  cases t with
  | nil => exact Bool.noConfusion h
  | cons c u =>
    rw [spellsWord, Bool.and_eq_true] at h
    exact h.1

theorem head?_append_of_ne_nil {t : Text} (h : t ≠ []) (s : Text) : (t ++ s).head? = t.head? := by
  cases t with
  | nil => exact absurd rfl h
  | cons c u => rfl

/-- The same pieces, but for some words with a new spelling. -/
inductive Reworded (IsNew : Text → Prop) : List Piece → List Piece → Prop
  | nil : Reworded IsNew [] []
  | keep (p : Piece) {ps qs : List Piece} (h : Reworded IsNew ps qs) :
      Reworded IsNew (p :: ps) (p :: qs)
  | reword (gap old new : Text) {ps qs : List Piece} (hnew : IsNew new)
      (h : Reworded IsNew ps qs) : Reworded IsNew (⟨gap, .word, old⟩ :: ps) (⟨gap, .word, new⟩ :: qs)

/-- Where words stand in place of words, a text is read as the new pieces, and begins like the old. -/
theorem Reads.reword {s : Text} {r : Reading} (h : Reads s r) : ∀ {qs : List Piece},
    Reworded (spellsWord · = true) r.pieces qs →
      Reads (Reading.text ⟨qs, r.rest⟩) ⟨qs, r.rest⟩ ∧
        Alike s.head? (Reading.text ⟨qs, r.rest⟩).head? := by
  induction h with
  | rest rest h =>
    rintro qs ⟨⟩
    exact ⟨Reads.rest rest h, Or.inl rfl⟩
  | piece gap kind t s r hgap htoken h ih =>
    -- what stands in place of a token is one where the token stood, and begins like it
    have hpiece : ∀ {t' : Text} {qs : List Piece},
        (IsToken kind t (Reading.text ⟨qs, r.rest⟩).head? →
          IsToken kind t' (Reading.text ⟨qs, r.rest⟩).head? ∧ Alike t.head? t'.head?) →
        Reworded (spellsWord · = true) r.pieces qs →
        Reads (Reading.text ⟨⟨gap, kind, t'⟩ :: qs, r.rest⟩) ⟨⟨gap, kind, t'⟩ :: qs, r.rest⟩ ∧
          Alike (gap ++ (t ++ s)).head? (Reading.text ⟨⟨gap, kind, t'⟩ :: qs, r.rest⟩).head? := by
      intro t' qs htoken' hqs
      obtain ⟨hreads, halike⟩ := ih hqs
      obtain ⟨htoken', hhead⟩ := htoken' (htoken.congr halike)
      have halike' : Alike (t ++ s).head? (t' ++ Reading.text ⟨qs, r.rest⟩).head? := by
        rwa [head?_append_of_ne_nil htoken.ne_nil, head?_append_of_ne_nil htoken'.ne_nil]
      have hfront : ∀ b : Text, (gap ++ b).head? = gap.head?.or b.head? := fun b => List.head?_append
      rw [Reading.text_pieces]
      refine ⟨Reads.piece gap kind t' _ _ (hgap.congr _) htoken' hreads, ?_⟩
      rw [hfront, hfront]
      exact halike'.or gap.head?
    intro qs hqs
    cases hqs with
    | keep p hqs => exact hpiece (fun htoken' => ⟨htoken', Or.inl rfl⟩) hqs
    | reword gap old new hnew hqs =>
      refine hpiece (fun htoken' => ⟨isToken_word hnew htoken'.word.2, Or.inr ?_⟩) hqs
      exact ⟨htoken.word.1, any_beginsWord_of_spellsWord hnew⟩

theorem reworded_respell {IsNew : Text → Prop} {spelling? : Piece → List Piece → Option String}
    (h : ∀ p ps new, spelling? p ps = some new → p.kind = .word ∧ IsNew new.toList) :
    ∀ ps : List Piece, Reworded IsNew ps (respell spelling? ps)
  | [] => Reworded.nil
  | p :: ps => by
    have ih := reworded_respell h ps
    rw [respell]
    cases hnew : spelling? p ps with
    | none => exact Reworded.keep p ih
    | some new =>
      obtain ⟨gap, kind, t⟩ := p
      obtain ⟨rfl, hisNew⟩ := h _ _ _ hnew
      exact Reworded.reword gap t new.toList hisNew ih

/-- A respelled text is read as the respelled pieces, and begins like the text. -/
theorem reads_respell {spelling? : Piece → List Piece → Option String} (hspells : Spells spelling?)
    {s : Text} {r : Reading} (h : Reads s r) :
    Reads (r.respell spelling?).text (r.respell spelling?) ∧
      Alike s.head? (r.respell spelling?).text.head? :=
  h.reword (reworded_respell (fun p ps new hnew => hspells p ps new hnew) r.pieces)

/-- The reading of a respelled text. -/
theorem of_respell {spelling? : Piece → List Piece → Option String} (hspells : Spells spelling?)
    (s : Text) :
    Reading.of ((Reading.of s).respell spelling?).text = (Reading.of s).respell spelling? :=
  (reads_respell hspells (reads_of s)).1.of_eq

/-! ### Renaming by words -/

theorem isWord_kind {p : Piece} {word : String} (h : p.isWord word = true) : p.kind = .word := by
  rw [Piece.isWord, Bool.and_eq_true, beq_iff_eq] at h
  exact h.1

theorem isWord_text {p : Piece} {word : String} (h : p.isWord word = true) :
    p.text = word.toList := by
  rw [Piece.isWord, Bool.and_eq_true, beq_iff_eq, beq_iff_eq] at h
  exact h.2

theorem exists_of_newSpelling? {renames : List Rename} {p : Piece} {new : String}
    (h : newSpelling? renames p = some new) :
    ∃ r ∈ renames, p.isWord r.source = true ∧ r.target = new := by
  obtain ⟨r, hr, rfl⟩ := Option.map_eq_some_iff.mp h
  have hword := List.find?_some hr
  exact ⟨r, List.mem_of_find?_eq_some hr, hword, rfl⟩

theorem newSpelling?_of_called {renames : List Rename} {p : Piece} {ps : List Piece} {new : String}
    (h : calledSpelling? renames p ps = some new) : newSpelling? renames p = some new := by
  unfold calledSpelling? at h
  split at h
  · exact h
  · exact absurd h (by simp)

theorem spells_newSpelling? {renames : List Rename}
    (h : ∀ r ∈ renames, spellsWord r.target.toList = true) :
    Spells fun p _ => newSpelling? renames p := by
  intro p ps new hnew
  obtain ⟨r, hr, hword, rfl⟩ := exists_of_newSpelling? hnew
  exact ⟨isWord_kind hword, h r hr⟩

theorem spells_calledSpelling? {renames : List Rename}
    (h : ∀ r ∈ renames, spellsWord r.target.toList = true) : Spells (calledSpelling? renames) :=
  fun p ps new hnew => spells_newSpelling? h p ps new (newSpelling?_of_called hnew)

/-- Renaming words by words changes the words of the reading and nothing else. -/
theorem of_renameWords {renames : List Rename}
    (h : ∀ r ∈ renames, spellsWord r.target.toList = true) (s : Text) :
    Reading.of (renameWords renames s) =
      (Reading.of s).respell fun p _ => newSpelling? renames p := by
  rw [renameWords_eq_text, of_respell (spells_newSpelling? h)]

/-- Renaming calls by words changes the called words of the reading and nothing else. -/
theorem of_renameCalls {renames : List Rename}
    (h : ∀ r ∈ renames, spellsWord r.target.toList = true) (s : Text) :
    Reading.of (renameCalls renames s) = (Reading.of s).respell (calledSpelling? renames) := by
  rw [renameCalls_eq_text, of_respell (spells_calledSpelling? h)]

end Shading
