import Shading.Proofs.SkippedJson

/-!
    Spellings that read alike.

    A string may be spelled in many ways, since every character can be escaped by its code and some by a
    letter, and a list may have blanks around its items. Whatever the spelling, the same is read
    (`EscapedAs.readQuoted`, `Bracketed.readsBack`). -/

namespace Shading.Json

/-- From the front of any text the reader takes the value and leaves the rest. -/
def ReadsBack (read : Reader α) (text : Text) (a : α) : Prop :=
  ∀ rest, read (text ++ rest) = .ok (a, rest)

theorem skipBlank_cons {c : Char} (h : isJsonBlank c = false) (s : Text) :
    skipBlank (c :: s) = c :: s :=
  List.dropWhile_cons_of_neg (by rw [h]; exact Bool.false_ne_true)

/-! ### Strings -/

/-- Four hexadecimal digits, capital or small, spell a code. -/
inductive CodedAs : Nat → Text → Prop
  | digits {d₁ d₂ d₃ d₄ : Char} {a b c d : Nat} (h₁ : hexValue? d₁ = some a)
      (h₂ : hexValue? d₂ = some b) (h₃ : hexValue? d₃ = some c) (h₄ : hexValue? d₄ = some d) :
      CodedAs (((a * 16 + b) * 16 + c) * 16 + d) [d₁, d₂, d₃, d₄]

/-- The string is spelled so between its quotes. A character may stand for itself, unless it is a quote,
    a backslash or a control character; it may be escaped by its letter, if it has one, or by its code,
    which is a surrogate pair above U+FFFF. -/
inductive EscapedAs : Text → Text → Prop
  | nil : EscapedAs [] []
  | plain (c : Char) {s body : Text} (hquote : c ≠ '"') (hbackslash : c ≠ '\\')
      (hcontrol : ¬ c.toNat < 0x20) (h : EscapedAs s body) : EscapedAs (c :: s) (c :: body)
  | letter {c letter : Char} {s body : Text} (hletter : unescapeChar? letter = some c)
      (h : EscapedAs s body) : EscapedAs (c :: s) ('\\' :: letter :: body)
  | code {n : Nat} {digits s body : Text} (hdigits : CodedAs n digits) (hlead : isLead n = false)
      (htrail : isTrail n = false) (h : EscapedAs s body) :
      EscapedAs (Char.ofNat n :: s) ('\\' :: 'u' :: (digits ++ body))
  | pair {lead trail : Nat} {digits digits' s body : Text} (hdigits : CodedAs lead digits)
      (hdigits' : CodedAs trail digits') (hlead : isLead lead = true) (htrail : isTrail trail = true)
      (h : EscapedAs s body) :
      EscapedAs (pairChar lead trail :: s)
        ('\\' :: 'u' :: (digits ++ '\\' :: 'u' :: (digits' ++ body)))

/-- The string is spelled so, quotes included. -/
def QuotedAs (s t : Text) : Prop := ∃ body, EscapedAs s body ∧ t = '"' :: (body ++ ['"'])

theorem CodedAs.holdsFourBytes {n : Nat} {digits : Text} (h : CodedAs n digits) (s : Text) :
    holdsFourBytes (digits ++ s) = true := by
  cases h
  exact holdsFourBytes_cons ..

theorem CodedAs.readInside_none {n : Nat} {digits : Text} (h : CodedAs n digits) (s : Text) :
    readInside (.hex 0 3 none) (digits ++ s) =
      if isTrail n then .error (.malformed .loneSurrogate)
      else if isLead n then readInside (.half n) s
      else push (Char.ofNat n) (readInside .plain s) := by
  cases h with
  | digits h₁ h₂ h₃ h₄ =>
    simp only [List.cons_append, List.nil_append, readInside, h₁, h₂, h₃, h₄, Nat.zero_mul,
      Nat.zero_add]

theorem CodedAs.readInside_some {n : Nat} {digits : Text} (h : CodedAs n digits) (lead : Nat)
    (s : Text) : readInside (.hex 0 3 (some lead)) (digits ++ s) =
      if isTrail n then push (pairChar lead n) (readInside .plain s)
      else .error (.malformed .loneSurrogate) := by
  cases h with
  | digits h₁ h₂ h₃ h₄ =>
    simp only [List.cons_append, List.nil_append, readInside, h₁, h₂, h₃, h₄, Nat.zero_mul,
      Nat.zero_add]

/-- However a string is spelled, it is read. -/
theorem EscapedAs.readQuoted {s body : Text} (h : EscapedAs s body) (rest : Text) :
    readQuoted (body ++ '"' :: rest) = .ok (s, rest) := by
  have hcode : ∀ {n : Nat} {digits : Text}, CodedAs n digits → ∀ s,
      readInside .plain ('\\' :: 'u' :: (digits ++ s)) =
        readInside (.hex 0 3 none) (digits ++ s) := by
    intro n digits h s
    show (if holdsFourBytes (digits ++ s) then _ else _) = _
    rw [h.holdsFourBytes, if_pos rfl]
  rw [Json.readQuoted]
  induction h with
  | nil => rfl
  | plain c hquote hbackslash hcontrol h ih =>
    rw [List.cons_append, readInside, if_neg hquote, if_neg hbackslash, if_neg hcontrol, ih]
    rfl
  | letter hletter h ih =>
    have hopen : ∀ s, readInside .plain ('\\' :: s) = readInside .escape s := fun _ => rfl
    rw [List.cons_append, List.cons_append, hopen, readInside, hletter]
    dsimp only
    rw [ih]
    rfl
  | code hdigits hlead htrail h ih =>
    rw [List.cons_append, List.cons_append, List.append_assoc, hcode hdigits, hdigits.readInside_none,
      hlead, htrail, if_neg Bool.false_ne_true, if_neg Bool.false_ne_true, ih]
    rfl
  | @pair lead trail digits digits' s body hdigits hdigits' hlead htrail h ih =>
    have hnot : isTrail lead = false := by
      simp only [isLead, isTrail, Bool.and_eq_true, decide_eq_true_eq] at hlead ⊢
      simp
      omega
    have hhalf : ∀ s, readInside (.half lead) ('\\' :: 'u' :: (digits' ++ s)) =
        readInside (.hex 0 3 (some lead)) (digits' ++ s) := by
      intro s
      show (if holdsFourBytes (digits' ++ s) then _ else _) = _
      rw [hdigits'.holdsFourBytes, if_pos rfl]
    rw [List.cons_append, List.cons_append, List.append_assoc, hcode hdigits, hdigits.readInside_none,
      hnot, if_neg Bool.false_ne_true, hlead, if_pos rfl, List.cons_append, List.cons_append,
      List.append_assoc, hhalf, hdigits'.readInside_some, htrail, if_pos rfl, ih]
    rfl

theorem QuotedAs.beginsValue {s t : Text} (h : QuotedAs s t) : BeginsValue t := by
  obtain ⟨body, -, rfl⟩ := h
  exact ⟨'"', _, rfl, by decide, by decide⟩

theorem QuotedAs.readsBack {s t : Text} (h : QuotedAs s t) (expected : String) :
    ReadsBack (readString expected) t s := by
  obtain ⟨body, hbody, rfl⟩ := h
  intro rest
  have hopen : ∀ u : Text, readString expected ('"' :: u) = readQuoted u := fun _ => rfl
  rw [List.cons_append, List.append_assoc, hopen, List.singleton_append, hbody.readQuoted]

/-- A present value is read by its own reader. -/
theorem QuotedAs.readsBack_some {value : Reader α} {s t : Text} {a : α} (h : QuotedAs s t)
    (hvalue : ReadsBack value t a) : ReadsBack (readOptional value) t (some a) := by
  obtain ⟨body, -, rfl⟩ := h
  intro rest
  have hopen : ∀ u : Text, readOptional value ('"' :: u) =
      (value ('"' :: u)).map fun r => (some r.1, r.2) := fun _ => rfl
  rw [List.cons_append, hopen, ← List.cons_append, hvalue rest]
  rfl

theorem readsBack_null (value : Reader α) :
    ReadsBack (readOptional value) "null".toList none := fun _ => rfl

/-- A name is read as what the choices give it. -/
theorem QuotedAs.readsBack_choice {choices : List (String × α)} {name t : Text} {a : α}
    (h : QuotedAs name t) (hchoice : choose choices name = .ok a) :
    ReadsBack (readChoice choices) t a := by
  obtain ⟨body, hbody, rfl⟩ := h
  intro rest
  have hopen : ∀ u : Text, readChoice choices ('"' :: u) =
      readQuoted u >>= fun r => choose choices r.1 >>= fun a => return (a, r.2) := fun _ => rfl
  rw [List.cons_append, List.append_assoc, hopen, List.singleton_append, hbody.readQuoted]
  show (choose choices name >>= fun a => _) = _
  rw [hchoice]
  rfl

/-! ### Blanks -/

/-- The reader passes over blanks in front of a value. -/
def SkipsBlanks (read : Reader α) : Prop := ∀ w s, Blanks w → read (w ++ s) = read s

theorem skipBlank_blanks {w : Text} (hw : Blanks w) (s : Text) : skipBlank (w ++ s) = skipBlank s :=
  List.dropWhile_append_of_pos (List.all_eq_true.mp hw)

theorem skipsBlanks_string (expected : String) : SkipsBlanks (readString expected) := fun w s hw => by
  rw [readString, skipBlank_blanks hw, readString]

theorem skipsBlanks_optional (value : Reader α) : SkipsBlanks (readOptional value) := fun w s hw => by
  rw [readOptional, skipBlank_blanks hw, readOptional]

theorem skipsBlanks_list (item : Reader α) : SkipsBlanks (readList item) := fun w s hw => by
  rw [readList, skipBlank_blanks hw, readList]

theorem skipsBlanks_choice (choices : List (String × α)) : SkipsBlanks (readChoice choices) :=
  fun w s hw => by
    rw [readChoice, skipBlank_blanks hw, readChoice]

theorem readColon_blanks {w : Text} (hw : Blanks w) (s : Text) : readColon (w ++ ':' :: s) = .ok s := by
  rw [readColon, skipBlank_blanks hw]
  rfl

/-! ### Lists -/

/-- What stands behind an item: blanks, or a comma and further items, with blanks around each. -/
inductive Behind (spelled : α → Text → Prop) : List α → Text → Prop
  | nil {w : Text} (hw : Blanks w) : Behind spelled [] w
  | cons {a : α} {as : List α} {w w' t u : Text} (hw : Blanks w) (hw' : Blanks w') (h : spelled a t)
      (hu : Behind spelled as u) : Behind spelled (a :: as) (w ++ ',' :: (w' ++ (t ++ u)))

/-- One item at least, with a comma between each two and blanks around each. -/
inductive Separated (spelled : α → Text → Prop) : List α → Text → Prop
  | cons {a : α} {as : List α} {w t u : Text} (hw : Blanks w) (h : spelled a t)
      (hu : Behind spelled as u) : Separated spelled (a :: as) (w ++ (t ++ u))

/-- A list in its brackets. -/
inductive Bracketed (spelled : α → Text → Prop) : List α → Text → Prop
  | empty {w : Text} (hw : Blanks w) : Bracketed spelled [] ('[' :: (w ++ [']']))
  | items {as : List α} {t : Text} (h : Separated spelled as t) :
      Bracketed spelled as ('[' :: (t ++ [']']))

section

variable {spelled : α → Text → Prop} {item : Reader α} {a : α} {as : List α} {w w' s t u : Text}

/-- Every item takes a character at least, its comma. -/
theorem Behind.length_le (h : Behind spelled as u) : as.length ≤ u.length := by
  induction h with
  | nil hw => exact Nat.zero_le _
  | cons hw hw' h hu ih =>
    simp only [List.length_append, List.length_cons]
    omega

theorem nextItem_blanks (hw : Blanks w) (first : Bool) (s : Text) :
    nextItem first (w ++ s) = nextItem first s := by
  rw [nextItem, skipBlank_blanks hw, nextItem]

theorem nextItem_close (hw : Blanks w) (first : Bool) (rest : Text) :
    nextItem first (w ++ ']' :: rest) = .ok (.close rest) :=
  (nextItem_blanks hw first _).trans rfl

/-- The first item, with blanks in front. -/
theorem nextItem_opened (hw : Blanks w) (h : BeginsValue t) (rest : Text) :
    nextItem true (w ++ (t ++ rest)) = .ok (.item (t ++ rest)) := by
  obtain ⟨c, v, rfl, hblank, hclose⟩ := h
  rw [nextItem_blanks hw, List.cons_append, nextItem, skipBlank_cons hblank]
  dsimp only
  rw [if_neg hclose, if_pos rfl]

/-- A further item, with blanks on both sides of its comma. -/
theorem nextItem_behind (hw : Blanks w) (hw' : Blanks w') (h : BeginsValue t) (rest : Text) :
    nextItem false (w ++ ',' :: (w' ++ (t ++ rest))) = .ok (.item (t ++ rest)) := by
  obtain ⟨c, v, rfl, hblank, hclose⟩ := h
  have hcomma : ∀ s, skipBlank (',' :: s) = ',' :: s := skipBlank_cons (by decide)
  rw [nextItem_blanks hw, nextItem, hcomma]
  dsimp only
  rw [if_neg (by decide), if_neg (by decide), if_neg (by decide), skipBlank_blanks hw',
    List.cons_append, skipBlank_cons hblank]
  dsimp only
  rw [if_neg hclose]

/-- One item is read, and then the others. -/
theorem readItems_item {first : Bool} {bound : Nat} {rest : Text}
    (hnext : nextItem first s = .ok (.item (t ++ u))) (hread : ReadsBack item t a)
    (hmore : readItems item bound false u = .ok (as, rest)) :
    readItems item (bound + 1) first s = .ok (a :: as, rest) := by
  rw [readItems, hnext]
  dsimp only
  rw [hread]
  dsimp only
  rw [hmore]
  rfl

theorem Behind.readItems (hitem : ∀ a t, spelled a t → ReadsBack item t a ∧ BeginsValue t)
    (h : Behind spelled as u) (rest : Text) : ∀ bound, as.length < bound →
      readItems item bound false (u ++ ']' :: rest) = .ok (as, rest) := by
  induction h with
  | nil hw =>
    intro bound hbound
    obtain ⟨bound, rfl⟩ := Nat.exists_eq_succ_of_ne_zero (Nat.ne_zero_of_lt hbound)
    rw [Json.readItems, nextItem_close hw]
  | cons hw hw' h hu ih =>
    intro bound hbound
    obtain ⟨bound, rfl⟩ := Nat.exists_eq_succ_of_ne_zero (Nat.ne_zero_of_lt hbound)
    obtain ⟨hread, hbegins⟩ := hitem _ _ h
    simp only [List.append_assoc, List.cons_append]
    exact readItems_item (nextItem_behind hw hw' hbegins _) hread
      (ih bound (Nat.lt_of_succ_lt_succ hbound))

/-- However a list is spelled, it is read if its items are. -/
theorem Bracketed.readsBack (hitem : ∀ a t, spelled a t → ReadsBack item t a ∧ BeginsValue t)
    (h : Bracketed spelled as t) : ReadsBack (readList item) t as := by
  intro rest
  have hopen : ∀ s : Text, readList item ('[' :: s) = Json.readItems item (s.length + 1) true s :=
    fun _ => rfl
  cases h with
  | empty hw =>
    rw [List.cons_append, List.append_assoc, hopen, Json.readItems, List.singleton_append,
      nextItem_close hw]
  | items h =>
    obtain ⟨hw, h, hu⟩ := h
    obtain ⟨hread, hbegins⟩ := hitem _ _ h
    have hlength := hu.length_le
    simp only [List.append_assoc, List.cons_append, List.nil_append]
    rw [hopen]
    refine readItems_item (nextItem_opened hw hbegins _) hread (hu.readItems hitem rest _ ?_)
    simp only [List.length_append, List.length_cons]
    omega

theorem Bracketed.beginsValue (h : Bracketed spelled as t) : BeginsValue t := by
  cases h <;> exact ⟨'[', _, rfl, by decide, by decide⟩

theorem readListEnd_blanks (hw : Blanks w) (rest : Text) :
    readListEnd (w ++ ']' :: rest) = .ok rest := by
  rw [readListEnd, skipBlank_blanks hw]
  rfl

end

end Shading.Json
