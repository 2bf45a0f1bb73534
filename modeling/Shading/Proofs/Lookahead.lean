import Shading.Token

/-!
    Reading a text in parts.

    The machine looks one character ahead, so how the last character of a part is read depends on
    what follows the part, and on nothing else of it. `partRoles` and `partPlace` are the run over a
    part that `next` follows; a text read in two parts is read as a whole. Of `next` the machine only
    sees whether it is a slash, a star or a digit (`sight`), and in front of anything else a part is
    read as it is at the end of a text. -/

namespace Shading

/-- What the machine sees of the next character: a slash, a star or a digit. -/
def sight (next : Option Char) : Bool × Bool × Bool :=
  (next == some '/', next == some '*', next.any Char.isDigit)

/-- The roles of a part of a text that `next` follows. -/
def partRoles : Place → Text → Option Char → List (Char × Role)
  | _, [], _ => []
  | place, c :: s, next =>
    (c, (step place c (s.head?.or next)).1) :: partRoles (step place c (s.head?.or next)).2 s next

/-- Where the machine stands after a part of a text that `next` follows. -/
def partPlace : Place → Text → Option Char → Place
  | place, [], _ => place
  | place, c :: s, next => partPlace (step place c (s.head?.or next)).2 s next

theorem partRoles_none : ∀ (place : Place) (s : Text), partRoles place s none = roles place s
  | _, [] => rfl
  | place, c :: s => by rw [partRoles, roles, Option.or_none, partRoles_none _ s]

theorem partPlace_none : ∀ (place : Place) (s : Text), partPlace place s none = placeAfter place s
  | _, [] => rfl
  | place, c :: s => by rw [partPlace, placeAfter, Option.or_none, partPlace_none _ s]

@[simp] theorem map_fst_partRoles (next : Option Char) :
    ∀ (place : Place) (s : Text), (partRoles place s next).map (·.1) = s
  | _, [] => rfl
  | place, c :: s => by rw [partRoles, List.map_cons, map_fst_partRoles next _ s]

theorem head?_append_or (a b : Text) (next : Option Char) :
    (a ++ b).head?.or next = a.head?.or (b.head?.or next) := by
  cases a <;> simp

/-- A part read in two parts. -/
theorem partRoles_append (b : Text) (next : Option Char) : ∀ (place : Place) (a : Text),
    partRoles place (a ++ b) next =
      partRoles place a (b.head?.or next) ++ partRoles (partPlace place a (b.head?.or next)) b next
  | _, [] => rfl
  | place, c :: a => by
    rw [List.cons_append, partRoles, partRoles, partPlace, head?_append_or,
      partRoles_append b next _ a, List.cons_append]

theorem partPlace_append (b : Text) (next : Option Char) : ∀ (place : Place) (a : Text),
    partPlace place (a ++ b) next = partPlace (partPlace place a (b.head?.or next)) b next
  | _, [] => rfl
  | place, c :: a => by
    rw [List.cons_append, partPlace, partPlace, head?_append_or, partPlace_append b next _ a]

/-- A text read in two parts. -/
theorem roles_append (place : Place) (a b : Text) :
    roles place (a ++ b) = partRoles place a b.head? ++ roles (partPlace place a b.head?) b := by
  have h := partRoles_append b none place a
  rwa [partRoles_none, partRoles_none, Option.or_none] at h

theorem placeAfter_append (place : Place) (a b : Text) :
    placeAfter place (a ++ b) = placeAfter (partPlace place a b.head?) b := by
  have h := partPlace_append b none place a
  rwa [partPlace_none, partPlace_none, Option.or_none] at h

/-! ### What the look ahead can see -/

theorem enter_congr {next next' : Option Char} (h : sight next = sight next') (c : Char) :
    enter c next = enter c next' := by
  simp only [sight, Prod.mk.injEq] at h
  obtain ⟨hslash, hstar, hdigit⟩ := h
  rw [enter, enter, hslash, hstar, hdigit]

theorem step_congr {next next' : Option Char} (h : sight next = sight next') (place : Place)
    (c : Char) : step place c next = step place c next' := by
  cases place with
  | code => exact enter_congr h c
  | word => rw [step, step, enter_congr h]
  | number sign => rw [step, step, enter_congr h]
  | opening => rfl
  | lineComment => rfl
  | blockComment =>
    have hslash : (next == some '/') = (next' == some '/') := congrArg Prod.fst h
    rw [step, step, hslash]
  | closing => rfl

theorem sight_or {next next' : Option Char} (h : sight next = sight next') (first : Option Char) :
    sight (first.or next) = sight (first.or next') := by
  cases first with
  | none => exact h
  | some c => rfl

/-- A part is read alike in front of characters that look alike. -/
theorem partRoles_congr {next next' : Option Char} (h : sight next = sight next') :
    ∀ (place : Place) (s : Text), partRoles place s next = partRoles place s next'
  | _, [] => rfl
  | place, c :: s => by
    rw [partRoles, partRoles, step_congr (sight_or h s.head?), partRoles_congr h _ s]

theorem partPlace_congr {next next' : Option Char} (h : sight next = sight next') :
    ∀ (place : Place) (s : Text), partPlace place s next = partPlace place s next'
  | _, [] => rfl
  | place, c :: s => by
    rw [partPlace, partPlace, step_congr (sight_or h s.head?), partPlace_congr h _ s]

/-! ### Characters of words and numbers -/

theorem isAlpha_iff {c : Char} : c.isAlpha = true ↔
    65 ≤ c.toNat ∧ c.toNat ≤ 90 ∨ 97 ≤ c.toNat ∧ c.toNat ≤ 122 := by
  show (decide (c.val ≥ 'A'.val ∧ c.val ≤ 'Z'.val) || (c.val ≥ 'a'.val && c.val ≤ 'z'.val)) = true ↔ _
  simp only [Bool.or_eq_true, Bool.and_eq_true, decide_eq_true_eq, ge_iff_le,
    UInt32.le_iff_toNat_le]
  exact Iff.rfl

theorem beginsWord_iff {c : Char} : beginsWord c = true ↔
    65 ≤ c.toNat ∧ c.toNat ≤ 90 ∨ 97 ≤ c.toNat ∧ c.toNat ≤ 122 ∨ c.toNat = 95 := by
  have hdash : c = '_' ↔ c.toNat = 95 := by rw [← Char.toNat_inj]; exact Iff.rfl
  rw [beginsWord, Bool.or_eq_true, isAlpha_iff, beq_iff_eq, hdash, or_assoc]

theorem not_isBlank_of_beginsWord {c : Char} (h : beginsWord c = true) : isBlank c = false := by
  rw [beginsWord_iff] at h
  rw [Bool.eq_false_iff]
  intro hb
  simp only [isBlank, blankRanges, List.any_cons, List.any_nil, Bool.or_eq_true, Bool.and_eq_true,
    decide_eq_true_eq, Bool.or_false] at hb
  omega

theorem ne_of_beginsWord {c d : Char} (h : beginsWord c = true) (hd : beginsWord d = false) :
    c ≠ d := by
  rintro rfl
  rw [h] at hd
  exact Bool.noConfusion hd

theorem continuesWord_of_beginsWord {c : Char} (h : beginsWord c = true) :
    continuesWord c = true := by
  rw [beginsWord, Bool.or_eq_true] at h
  rw [continuesWord, Char.isAlphanum, Bool.or_eq_true, Bool.or_eq_true]
  rcases h with h | h
  · exact Or.inl (Or.inl h)
  · exact Or.inr h

theorem continuesNumber_of_continuesWord {c : Char} (h : continuesWord c = true) :
    continuesNumber c = true := by
  rw [continuesNumber, ← continuesWord, h, Bool.true_or]

/-- The machine cannot tell a letter from the end of the text. -/
theorem sight_of_beginsWord {c : Char} (h : beginsWord c = true) : sight (some c) = sight none := by
  have hdigit : c.isDigit = false := by
    rw [beginsWord_iff] at h
    rw [Bool.eq_false_iff]
    intro hd
    have hrange : 48 ≤ c.toNat ∧ c.toNat ≤ 57 := Char.isDigit_iff_toNat.mp hd
    omega
  have hslash : c ≠ '/' := ne_of_beginsWord h (by decide)
  have hstar : c ≠ '*' := ne_of_beginsWord h (by decide)
  simp [sight, hdigit, hslash, hstar]

theorem enter_of_beginsWord {c : Char} (h : beginsWord c = true) (next : Option Char) :
    enter c next = (.head .word, .word) := by
  have hslash : c ≠ '/' := ne_of_beginsWord h (by decide)
  simp [enter, not_isBlank_of_beginsWord h, hslash, h]

/-- All that can come of a character outside comments that continues no token. -/
theorem enter_cases (c : Char) (next : Option Char) :
    (isBlank c = true ∧ enter c next = (.blank, .code)) ∨
    (c = '/' ∧ (next = some '/' ∨ next = some '*') ∧ enter c next = (.comment, .opening)) ∨
    (beginsWord c = true ∧ enter c next = (.head .word, .word)) ∨
    ((c.isDigit = true ∨ c = '.') ∧ enter c next = (.head .number, .number false)) ∨
    enter c next = (.head (.mark c), .code) := by
  unfold enter
  split
  next h => exact Or.inl ⟨h, rfl⟩
  next =>
    split
    next h =>
      simp only [Bool.and_eq_true, Bool.or_eq_true, beq_iff_eq] at h
      exact Or.inr (Or.inl ⟨h.1, h.2, rfl⟩)
    next =>
      split
      next h => exact Or.inr (Or.inr (Or.inl ⟨h, rfl⟩))
      next =>
        split
        next h =>
          simp only [Bool.or_eq_true, Bool.and_eq_true, beq_iff_eq] at h
          exact Or.inr (Or.inr (Or.inr (Or.inl ⟨h.imp_right And.left, rfl⟩)))
        next => exact Or.inr (Or.inr (Or.inr (Or.inr rfl)))

/-! ### Places between tokens and places in tokens -/

/-- A character of white space or of a comment. -/
def Role.isIdle : Role → Bool
  | .blank => true
  | .comment => true
  | _ => false

/-- The machine is inside neither a word nor a number. -/
def Place.isIdle : Place → Bool
  | .word => false
  | .number _ => false
  | _ => true

/-- The next character can be part of a token. -/
def Place.isCode : Place → Bool
  | .code => true
  | .word => true
  | .number _ => true
  | _ => false

/-- The character continues the token in which the machine is. -/
def Place.takes : Place → Char → Bool
  | .word, c => continuesWord c
  | .number sign, c => continuesNumber c || sign && (c == '+' || c == '-')
  | _, _ => false

/-- Outside words and numbers a character is idle, unless it begins a token. -/
theorem step_of_isIdle {place : Place} (h : place.isIdle = true) (c : Char) (next : Option Char) :
    ((step place c next).1.isIdle = true ∧ (step place c next).2.isIdle = true) ∨
    (place = .code ∧ ∃ kind, (enter c next).1 = .head kind) := by
  cases place with
  | code =>
    rcases enter_cases c next with ⟨-, he⟩ | ⟨-, -, he⟩ | ⟨-, he⟩ | ⟨-, he⟩ | he
    · exact Or.inl (by rw [step, he]; exact ⟨rfl, rfl⟩)
    · exact Or.inl (by rw [step, he]; exact ⟨rfl, rfl⟩)
    · exact Or.inr ⟨rfl, .word, by rw [he]⟩
    · exact Or.inr ⟨rfl, .number, by rw [he]⟩
    · exact Or.inr ⟨rfl, .mark c, by rw [he]⟩
  | word => exact Bool.noConfusion h
  | number sign => exact Bool.noConfusion h
  | opening => left; rw [step]; split <;> exact ⟨rfl, rfl⟩
  | lineComment => left; rw [step]; split <;> exact ⟨rfl, rfl⟩
  | blockComment => left; rw [step]; split <;> exact ⟨rfl, rfl⟩
  | closing => exact Or.inl ⟨rfl, rfl⟩

/-- The beginning of a token leaves the machine in code. -/
theorem isCode_of_enter {c : Char} {next : Option Char} {kind : Kind}
    (h : (enter c next).1 = .head kind) : (enter c next).2.isCode = true := by
  rcases enter_cases c next with ⟨-, he⟩ | ⟨-, -, he⟩ | ⟨-, he⟩ | ⟨-, he⟩ | he <;>
    rw [he] at h ⊢ <;> first | rfl | exact Role.noConfusion h

/-- A character that continues a token is read as such. -/
theorem step_of_takes {place : Place} {c : Char} (h : place.takes c = true) (next : Option Char) :
    (step place c next).1 = .tail ∧ (step place c next).2.isCode = true := by
  cases place with
  | word =>
    have hw : continuesWord c = true := h
    rw [step, if_pos hw]
    exact ⟨rfl, rfl⟩
  | number sign =>
    rw [Place.takes, Bool.or_eq_true] at h
    by_cases hn : continuesNumber c = true
    · rw [step, if_pos hn]; exact ⟨rfl, rfl⟩
    · rw [step, if_neg hn, if_pos (h.resolve_left hn)]; exact ⟨rfl, rfl⟩
  | _ => exact Bool.noConfusion h

/-- A character that continues no token is read as at the beginning of one. -/
theorem step_of_not_takes {place : Place} (hcode : place.isCode = true) {c : Char}
    (h : place.takes c = false) (next : Option Char) : step place c next = enter c next := by
  cases place with
  | code => rfl
  | word =>
    have hw : continuesWord c = false := h
    rw [step, hw, if_neg Bool.false_ne_true]
  | number sign =>
    rw [Place.takes, Bool.or_eq_false_iff] at h
    rw [step, h.1, h.2, if_neg Bool.false_ne_true, if_neg Bool.false_ne_true]
  | _ => exact Bool.noConfusion hcode

/-- Behind a token that the next character does not continue, reading goes on as from code. -/
theorem roles_of_not_takes {place : Place} (hcode : place.isCode = true) {s : Text}
    (h : s.head?.any place.takes = false) : roles place s = roles .code s := by
  cases s with
  | nil => rfl
  | cons c s =>
    have hc : place.takes c = false := h
    rw [roles, roles, step_of_not_takes hcode hc, step]

/-! ### Idle texts that lead to code -/

/-- An idle character that leads to code does so whatever follows it. -/
theorem step_of_idle_code {place : Place} (hplace : place.isIdle = true) {c : Char}
    {next : Option Char} (hrole : (step place c next).1.isIdle = true)
    (hcode : (step place c next).2 = .code) (next' : Option Char) :
    step place c next' = step place c next := by
  cases place with
  | code =>
    rw [step] at hrole hcode
    rcases enter_cases c next with ⟨hblank, -⟩ | ⟨-, -, he⟩ | ⟨-, he⟩ | ⟨-, he⟩ | he
    · rw [step, step, enter, enter, if_pos hblank, if_pos hblank]
    · rw [he] at hcode
      exact Place.noConfusion hcode
    all_goals
      rw [he] at hrole
      exact Bool.noConfusion hrole
  | blockComment =>
    rw [step] at hcode
    split at hcode <;> exact Place.noConfusion hcode
  | word => exact Bool.noConfusion hplace
  | number sign => exact Bool.noConfusion hplace
  | _ => rfl

/-- What is idle and leads to code is read alike in front of anything. -/
theorem partRoles_of_idle_code {next : Option Char} (next' : Option Char) :
    ∀ {place : Place} {s : Text}, place.isIdle = true →
      (∀ x ∈ partRoles place s next, x.2.isIdle = true) → partPlace place s next = .code →
        partRoles place s next' = partRoles place s next ∧ partPlace place s next' = .code
  | place, [], _, _, h => ⟨rfl, h⟩
  | place, [c], hplace, hidle, h => by
    have hc : step place c next' = step place c next :=
      step_of_idle_code hplace (hidle _ List.mem_cons_self) h next'
    show [(c, (step place c next').1)] = [(c, (step place c next).1)] ∧ (step place c next').2 = .code
    rw [hc]
    exact ⟨rfl, h⟩
  | place, c :: d :: s, hplace, hidle, h => by
    have hrole := hidle _ List.mem_cons_self
    have hnext : (step place c (some d)).2.isIdle = true := by
      rcases step_of_isIdle hplace c (some d) with ⟨-, hnext⟩ | ⟨rfl, kind, hkind⟩
      · exact hnext
      · rw [List.head?_cons, Option.some_or, step, hkind] at hrole
        exact Bool.noConfusion hrole
    obtain ⟨hroles, hback⟩ := partRoles_of_idle_code next' hnext
      (fun x hx => hidle x (List.mem_cons_of_mem _ hx)) h
    rw [partRoles, partPlace, partRoles]
    exact ⟨congrArg _ hroles, hback⟩

end Shading
