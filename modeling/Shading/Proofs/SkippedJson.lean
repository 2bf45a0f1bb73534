import Shading.Json.Reader

/-!
    Values that are passed over.

    `WellFormed` is the grammar of JSON: literals, numbers, strings, lists and objects of any depth, with
    blanks around everything. A string may hold the code of half a surrogate pair. What the grammar
    allows is passed over: from the front of any text in which a value may end there, the machine goes
    on behind the value as behind any other (`resume`), whatever lists and objects are open around it
    (`WellFormed.skips`). -/

namespace Shading.Json

/-! ### The grammar -/

/-- The text is made of blanks. -/
def Blanks (w : Text) : Prop := w.all isJsonBlank = true

/-- What stands between the quotes of a string. -/
inductive StringBody : Text → Prop
  | nil : StringBody []
  | plain (c : Char) {body : Text} (hquote : c ≠ '"') (hbackslash : c ≠ '\\')
      (hcontrol : ¬ c.toNat < 0x20) (h : StringBody body) : StringBody (c :: body)
  | letter (c : Char) {body : Text} (hletter : (unescapeChar? c).isSome = true)
      (h : StringBody body) : StringBody ('\\' :: c :: body)
  | code (d₁ d₂ d₃ d₄ : Char) {body : Text}
      (hdigits : ∀ d ∈ [d₁, d₂, d₃, d₄], (hexValue? d).isSome = true) (h : StringBody body) :
      StringBody ('\\' :: 'u' :: d₁ :: d₂ :: d₃ :: d₄ :: body)

/-- The text is a run of digits. -/
def IsDigits (t : Text) : Prop := t ≠ [] ∧ t.all Char.isDigit = true

/-- Zero, or a run of digits that does not begin with zero. -/
def IsWhole (t : Text) : Prop := t = ['0'] ∨ IsDigits t ∧ t.head? ≠ some '0'

/-- Nothing, or a point and a run of digits. -/
def IsFraction (t : Text) : Prop := t = [] ∨ ∃ ds, t = '.' :: ds ∧ IsDigits ds

/-- Nothing, or an `e`, a sign or none, and a run of digits. -/
def IsExponent (t : Text) : Prop :=
  t = [] ∨ ∃ e sign ds, t = e :: (sign ++ ds) ∧ (e = 'e' ∨ e = 'E') ∧
    (sign = [] ∨ sign = ['+'] ∨ sign = ['-']) ∧ IsDigits ds

/-- The text is a number. -/
def IsNumber (t : Text) : Prop :=
  ∃ sign whole fraction exponent, t = sign ++ (whole ++ (fraction ++ exponent)) ∧
    (sign = [] ∨ sign = ['-']) ∧ IsWhole whole ∧ IsFraction fraction ∧ IsExponent exponent

/-- What a piece of JSON is: a value, or what stands between the brackets of a list or an object. -/
inductive Phrase where
  | value
  | items
  | members

/-- The text is such a piece of JSON. -/
inductive WellFormed : Phrase → Text → Prop
  | literal {word : String} (h : word ∈ ["null", "true", "false"]) : WellFormed .value word.toList
  | number {t : Text} (h : IsNumber t) : WellFormed .value t
  | string {body : Text} (h : StringBody body) : WellFormed .value ('"' :: (body ++ ['"']))
  | emptyList {w : Text} (hw : Blanks w) : WellFormed .value ('[' :: (w ++ [']']))
  | list {t : Text} (h : WellFormed .items t) : WellFormed .value ('[' :: (t ++ [']']))
  | emptyObject {w : Text} (hw : Blanks w) : WellFormed .value ('\x7b' :: (w ++ ['\x7d']))
  | object {t : Text} (h : WellFormed .members t) : WellFormed .value ('\x7b' :: (t ++ ['\x7d']))
  | item {w v w' : Text} (hw : Blanks w) (h : WellFormed .value v) (hw' : Blanks w') :
      WellFormed .items (w ++ (v ++ w'))
  | items {w v w' t : Text} (hw : Blanks w) (h : WellFormed .value v) (hw' : Blanks w')
      (ht : WellFormed .items t) : WellFormed .items (w ++ (v ++ (w' ++ ',' :: t)))
  | member {w body w₁ w₂ v w' : Text} (hw : Blanks w) (hkey : StringBody body) (hw₁ : Blanks w₁)
      (hw₂ : Blanks w₂) (h : WellFormed .value v) (hw' : Blanks w') :
      WellFormed .members (w ++ '"' :: (body ++ '"' :: (w₁ ++ ':' :: (w₂ ++ (v ++ w')))))
  | members {w body w₁ w₂ v w' t : Text} (hw : Blanks w) (hkey : StringBody body)
      (hw₁ : Blanks w₁) (hw₂ : Blanks w₂) (h : WellFormed .value v) (hw' : Blanks w')
      (ht : WellFormed .members t) :
      WellFormed .members
        (w ++ '"' :: (body ++ '"' :: (w₁ ++ ':' :: (w₂ ++ (v ++ (w' ++ ',' :: t))))))

/-! ### Steps of the machine -/

/-- Go on behind a value; the outermost one ends the machine. -/
def resume (frames : List Frame) (s : Text) : Except Problem Text :=
  match frames with
  | [] => .ok s
  | frames => skipFrom frames .passed s

/-- A value may end in front of the text. -/
def Delimits (s : Text) : Prop :=
  ∀ c ∈ s.head?, isJsonBlank c = true ∨ c = ',' ∨ c = ']' ∨ c = '\x7d'

/-- The text begins with a character that is neither a blank nor the end of a list. -/
def BeginsValue (text : Text) : Prop :=
  ∃ c u, text = c :: u ∧ isJsonBlank c = false ∧ c ≠ ']'

/-- Blanks do not move the machine. -/
def Waits (frames : List Frame) (spot : Spot) : Prop :=
  ∀ c rest, isJsonBlank c = true → advance frames spot c rest = .go frames spot

section

variable {frames frames' : List Frame} {spot spot' : Spot} {c : Char} {s : Text}

theorem skipFrom_go (h : advance frames spot c s = .go frames' spot') :
    skipFrom frames spot (c :: s) = skipFrom frames' spot' s := by
  rw [skipFrom, h]

theorem skipFrom_completed (h : advance frames spot c s = completed frames') :
    skipFrom frames spot (c :: s) = resume frames' s := by
  rw [skipFrom, h]
  cases frames' <;> rfl

theorem Waits.skipFrom_blanks (h : Waits frames spot) (s : Text) : ∀ {w : Text}, Blanks w →
    skipFrom frames spot (w ++ s) = skipFrom frames spot s
  | [], _ => rfl
  | c :: w, hw => by
    rw [Blanks, List.all_cons, Bool.and_eq_true] at hw
    rw [List.cons_append, skipFrom_go (h c _ hw.1), h.skipFrom_blanks s hw.2]

theorem waits_value : Waits frames .value := fun c _ h => by rw [advance, beginValue, if_pos h]

theorem waits_key : Waits frames .key := fun c _ h => by rw [advance, beginKey, if_pos h]

theorem waits_colon : Waits frames .colon := fun c _ h => by rw [advance, if_pos h]

theorem waits_opened (frame : Frame) : Waits (frame :: frames) .opened := fun c _ h => by
  rw [advance, goIn, if_pos h]

theorem waits_passed (frame : Frame) : Waits (frame :: frames) .passed := fun c _ h => by
  cases frame <;> simp [advance, goOn, h]

/-! ### Literals, strings and numbers -/

theorem skipFrom_literal (frames : List Frame) (s : Text) : ∀ {ds : Text}, ds ≠ [] →
    skipFrom frames (.literal ds) (ds ++ s) = resume frames s
  | [], h => absurd rfl h
  | [d], _ => skipFrom_completed (by simp [advance])
  | d :: d' :: ds, _ => by
    have hnext : advance frames (.literal (d :: d' :: ds)) d (d' :: ds ++ s) =
        .go frames (.literal (d' :: ds)) := by simp [advance]
    rw [List.cons_append, skipFrom_go hnext, skipFrom_literal frames s (List.cons_ne_nil d' ds)]

/-- Four characters are four bytes at least. -/
theorem holdsFourBytes_cons (d₁ d₂ d₃ d₄ : Char) (s : Text) :
    holdsFourBytes (d₁ :: d₂ :: d₃ :: d₄ :: s) = true := by
  have h₁ := d₁.utf8Size_pos
  have h₂ := d₂.utf8Size_pos
  have h₃ := d₃.utf8Size_pos
  have h₄ := d₄.utf8Size_pos
  rw [holdsFourBytes, decide_eq_true_eq]
  simp only [List.take_succ_cons, List.take_zero, Text.byteSize_cons, Text.byteSize_nil]
  omega

theorem StringBody.skips {body : Text} (h : StringBody body) (frames : List Frame) (key : Bool)
    (s : Text) :
    skipFrom frames (.string key) (body ++ s) = skipFrom frames (.string key) s := by
  induction h with
  | nil => rfl
  | plain c hquote hbackslash hcontrol h ih =>
    have hplain : ∀ rest, advance frames (.string key) c rest = .go frames (.string key) := by
      intro rest
      rw [advance, if_neg hquote, if_neg hbackslash, if_neg hcontrol]
    rw [List.cons_append, skipFrom_go (hplain _), ih]
  | letter c hletter h ih =>
    have hescape : ∀ rest, advance frames (.string key) '\\' rest = .go frames (.escape key) :=
      fun _ => rfl
    have hclose : ∀ rest, advance frames (.escape key) c rest = .go frames (.string key) := by
      intro rest
      rw [advance, if_pos hletter]
    rw [List.cons_append, List.cons_append, skipFrom_go (hescape _), skipFrom_go (hclose _), ih]
  | code d₁ d₂ d₃ d₄ hdigits h ih =>
    have hescape : ∀ rest, advance frames (.string key) '\\' rest = .go frames (.escape key) :=
      fun _ => rfl
    have hcode : ∀ d₁ d₂ d₃ d₄ rest, advance frames (.escape key) 'u' (d₁ :: d₂ :: d₃ :: d₄ :: rest) =
        .go frames (.hex 3 key) := by
      intro d₁ d₂ d₃ d₄ rest
      rw [advance, if_neg (by decide), if_neg (by decide), if_pos (holdsFourBytes_cons ..)]
    have hdigit : ∀ {d : Char}, (hexValue? d).isSome = true → ∀ left rest,
        advance frames (.hex (left + 1) key) d rest = .go frames (.hex left key) := by
      intro d hd left rest
      rw [advance, ← Option.not_isSome, hd]
      rfl
    have hlast : ∀ {d : Char}, (hexValue? d).isSome = true → ∀ rest,
        advance frames (.hex 0 key) d rest = .go frames (.string key) := by
      intro d hd rest
      rw [advance, ← Option.not_isSome, hd]
      rfl
    simp only [List.forall_mem_cons] at hdigits
    obtain ⟨h₁, h₂, h₃, h₄, -⟩ := hdigits
    simp only [List.cons_append]
    rw [skipFrom_go (hescape _), skipFrom_go (hcode ..), skipFrom_go (hdigit h₁ _ _),
      skipFrom_go (hdigit h₂ _ _), skipFrom_go (hdigit h₃ _ _), skipFrom_go (hlast h₄ _), ih]

end

/-! ### Numbers -/

theorem ne_of_isDigit {c d : Char} (h : c.isDigit = true) (hd : d.isDigit = false) : c ≠ d := by
  rintro rfl
  rw [h] at hd
  exact Bool.noConfusion hd

theorem isJsonBlank_of_isDigit {c : Char} (h : c.isDigit = true) : isJsonBlank c = false := by
  have hspace : c ≠ ' ' := ne_of_isDigit h rfl
  have hnewline : c ≠ '\n' := ne_of_isDigit h rfl
  have htab : c ≠ '\t' := ne_of_isDigit h rfl
  have hreturn : c ≠ '\r' := ne_of_isDigit h rfl
  simp [isJsonBlank, hspace, hnewline, htab, hreturn]

/-- A digit leads from one place of a number to another. -/
def Digits.LeadsTo (d d' : Digits) : Prop := ∀ c, c.isDigit = true → d.next? c = .ok (some d')

theorem leadsTo_exponent : Digits.LeadsTo .exponent .exponentDigits := by
  intro c hc
  have hplus : c ≠ '+' := ne_of_isDigit hc rfl
  have hminus : c ≠ '-' := ne_of_isDigit hc rfl
  simp [Digits.next?, hc, hplus, hminus]

theorem leadsTo_of_digit {d d' : Digits}
    (h : (d, d') ∈ [(.whole, .whole), (.point, .fraction), (.fraction, .fraction),
      (.exponentSign, .exponentDigits), (.exponentDigits, .exponentDigits)]) : d.LeadsTo d' := by
  intro c hc
  simp only [List.mem_cons, Prod.mk.injEq, List.not_mem_nil, or_false] at h
  rcases h with ⟨rfl, rfl⟩ | ⟨rfl, rfl⟩ | ⟨rfl, rfl⟩ | ⟨rfl, rfl⟩ | ⟨rfl, rfl⟩ <;>
    simp [Digits.next?, hc]

section

variable {frames : List Frame} {spot : Spot} {d d' : Digits} {c : Char} {s : Text}

theorem skipFrom_number (h : d.next? c = .ok (some d')) :
    skipFrom frames (.number d) (c :: s) = skipFrom frames (.number d') s :=
  skipFrom_go (by rw [advance, h])

theorem skipFrom_moreDigits (h : d.LeadsTo d) : ∀ {ds : Text}, ds.all Char.isDigit = true →
    skipFrom frames (.number d) (ds ++ s) = skipFrom frames (.number d) s
  | [], _ => rfl
  | c :: ds, hds => by
    rw [List.all_cons, Bool.and_eq_true] at hds
    rw [List.cons_append, skipFrom_number (h c hds.1), skipFrom_moreDigits h hds.2]

theorem skipFrom_digits (hfirst : d.LeadsTo d') (hmore : d'.LeadsTo d') {ds : Text}
    (h : IsDigits ds) : skipFrom frames (.number d) (ds ++ s) = skipFrom frames (.number d') s := by
  obtain ⟨hne, hall⟩ := h
  cases ds with
  | nil => exact absurd rfl hne
  | cons c ds =>
    rw [List.all_cons, Bool.and_eq_true] at hall
    rw [List.cons_append, skipFrom_number (hfirst c hall.1), skipFrom_moreDigits hmore hall.2]

/-- A number ends in front of what may follow a value. -/
theorem skipFrom_numberEnd (hd : d.mayEnd = true) (hs : Delimits s) :
    skipFrom frames (.number d) s = resume frames s := by
  cases s with
  | nil => cases frames <;> simp [skipFrom, endOfText, resume, hd]
  | cons c s =>
    have hc : c.isDigit = false ∧ c ≠ '.' ∧ c ≠ 'e' ∧ c ≠ 'E' := by
      rcases hs c rfl with h | rfl | rfl | rfl
      · simp only [isJsonBlank, Bool.or_eq_true, beq_iff_eq] at h
        rcases h with ((rfl | rfl) | rfl) | rfl <;> decide
      all_goals decide
    have hnext : d.next? c = .ok none := by
      cases d with
      | zero | whole | fraction | exponentDigits => simp [Digits.next?, hc]
      | _ => exact Bool.noConfusion hd
    rw [skipFrom, advance, hnext]
    cases frames with
    | nil => rfl
    | cons frame frames =>
      show _ = skipFrom (frame :: frames) .passed (c :: s)
      rw [skipFrom, advance]

theorem IsExponent.skips (hd : d = .zero ∨ d = .whole ∨ d = .fraction) {t : Text}
    (h : IsExponent t) (hs : Delimits s) :
    skipFrom frames (.number d) (t ++ s) = resume frames s := by
  rcases h with rfl | ⟨e, sign, ds, rfl, he, hsign, hds⟩
  · exact skipFrom_numberEnd (by rcases hd with rfl | rfl | rfl <;> rfl) hs
  · have hmark : d.next? e = .ok (some .exponent) := by
      rcases hd with rfl | rfl | rfl <;> rcases he with rfl | rfl <;> rfl
    have hmore : Digits.LeadsTo .exponentDigits .exponentDigits := leadsTo_of_digit (by simp)
    have hsigned : Digits.LeadsTo .exponentSign .exponentDigits := leadsTo_of_digit (by simp)
    have hbehind : skipFrom frames (.number .exponentSign) (ds ++ s) = resume frames s := by
      rw [skipFrom_digits hsigned hmore hds, skipFrom_numberEnd rfl hs]
    rw [List.cons_append, skipFrom_number hmark, List.append_assoc]
    rcases hsign with rfl | rfl | rfl
    · rw [List.nil_append, skipFrom_digits leadsTo_exponent hmore hds, skipFrom_numberEnd rfl hs]
    · exact (skipFrom_number rfl).trans hbehind
    · exact (skipFrom_number rfl).trans hbehind

theorem IsFraction.skips (hd : d = .zero ∨ d = .whole) {t : Text} (h : IsFraction t) :
    ∃ d', (d' = .zero ∨ d' = .whole ∨ d' = .fraction) ∧
      ∀ s, skipFrom frames (.number d) (t ++ s) = skipFrom frames (.number d') s := by
  rcases h with rfl | ⟨ds, rfl, hds⟩
  · exact ⟨d, hd.imp_right Or.inl, fun _ => rfl⟩
  · have hpoint : d.next? '.' = .ok (some .point) := by rcases hd with rfl | rfl <;> rfl
    have hfirst : Digits.LeadsTo .point .fraction := leadsTo_of_digit (by simp)
    have hmore : Digits.LeadsTo .fraction .fraction := leadsTo_of_digit (by simp)
    refine ⟨.fraction, Or.inr (Or.inr rfl), fun s => ?_⟩
    rw [List.cons_append, skipFrom_number hpoint, skipFrom_digits hfirst hmore hds]

/-- The digits in front of the point, read from where a zero and the other digits lead to them. -/
theorem IsWhole.skips
    (hzero : ∀ rest, advance frames spot '0' rest = .go frames (.number .zero))
    (hdigit : ∀ c rest, c.isDigit = true → c ≠ '0' →
      advance frames spot c rest = .go frames (.number .whole)) {t : Text} (h : IsWhole t) :
    ∃ d, (d = .zero ∨ d = .whole) ∧
      ∀ s, skipFrom frames spot (t ++ s) = skipFrom frames (.number d) s := by
  rcases h with rfl | ⟨⟨hne, hall⟩, hfirst⟩
  · exact ⟨.zero, Or.inl rfl, fun s => skipFrom_go (hzero s)⟩
  · refine ⟨.whole, Or.inr rfl, fun s => ?_⟩
    cases t with
    | nil => exact absurd rfl hne
    | cons c ds =>
      rw [List.all_cons, Bool.and_eq_true] at hall
      have hc : c ≠ '0' := fun h => hfirst (congrArg some h)
      rw [List.cons_append, skipFrom_go (hdigit c _ hall.1 hc),
        skipFrom_moreDigits (leadsTo_of_digit (by simp)) hall.2]

theorem beginValue_digit (hc : c.isDigit = true) (hzero : c ≠ '0') :
    beginValue frames c = .go frames (.number .whole) := by
  have hn : c ≠ 'n' := ne_of_isDigit hc rfl
  have ht : c ≠ 't' := ne_of_isDigit hc rfl
  have hf : c ≠ 'f' := ne_of_isDigit hc rfl
  have hminus : c ≠ '-' := ne_of_isDigit hc rfl
  simp [beginValue, isJsonBlank_of_isDigit hc, hc, hzero, hn, ht, hf, hminus]

theorem IsNumber.skips {t : Text} (h : IsNumber t) (hs : Delimits s) :
    skipFrom frames .value (t ++ s) = resume frames s := by
  obtain ⟨sign, whole, fraction, exponent, rfl, hsign, hwhole, hfraction, hexponent⟩ := h
  -- behind the sign the number is read as without it
  have hbehind : ∃ d, (d = .zero ∨ d = .whole) ∧
      ∀ s, skipFrom frames .value (sign ++ (whole ++ s)) = skipFrom frames (.number d) s := by
    rcases hsign with rfl | rfl
    · have hdigit : ∀ c rest, c.isDigit = true → c ≠ '0' →
          advance frames .value c rest = .go frames (.number .whole) :=
        fun c _ hc hzero => beginValue_digit hc hzero
      exact hwhole.skips (fun _ => rfl) hdigit
    · have hdigit : ∀ c rest, c.isDigit = true → c ≠ '0' →
          advance frames (.number .minus) c rest = .go frames (.number .whole) := by
        intro c rest hc hzero
        simp [advance, Digits.next?, hc, hzero]
      obtain ⟨d, hd, hskip⟩ := hwhole.skips (fun _ => rfl) hdigit
      exact ⟨d, hd, fun s => (skipFrom_go rfl).trans (hskip s)⟩
  obtain ⟨d, hd, hskip⟩ := hbehind
  obtain ⟨d', hd', hskip'⟩ := hfraction.skips hd
  simp only [List.append_assoc]
  rw [hskip, hskip', hexponent.skips hd' hs]

end

/-! ### Values -/

/-- How a piece of JSON is passed over. In a list and in an object the machine stands behind the opening
    or behind a comma. -/
def Skips : Phrase → Text → Prop
  | .value, v => ∀ frames s, Delimits s → skipFrom frames .value (v ++ s) = resume frames s
  | .items, t => ∀ frames s, ∀ spot ∈ [Spot.opened, .value],
    skipFrom (.list :: frames) spot (t ++ ']' :: s) = resume frames s
  | .members, t => ∀ frames s, ∀ spot ∈ [Spot.opened, .key],
    skipFrom (.object :: frames) spot (t ++ '\x7d' :: s) = resume frames s

theorem WellFormed.beginsValue {v : Text} (h : WellFormed .value v) : BeginsValue v := by
  cases h with
  | number h =>
    obtain ⟨sign, whole, fraction, exponent, rfl, hsign, hwhole, -, -⟩ := h
    have hdigit : ∀ c : Char, c.isDigit = true → isJsonBlank c = false ∧ c ≠ ']' := fun c hc =>
      ⟨isJsonBlank_of_isDigit hc, ne_of_isDigit hc rfl⟩
    rcases hsign with rfl | rfl
    · rcases hwhole with rfl | ⟨⟨hne, hall⟩, -⟩
      · exact ⟨'0', _, rfl, by decide, by decide⟩
      · cases whole with
        | nil => exact absurd rfl hne
        | cons c ds =>
          rw [List.all_cons, Bool.and_eq_true] at hall
          exact ⟨c, _, rfl, hdigit c hall.1⟩
    · exact ⟨'-', _, rfl, by decide, by decide⟩
  | string h => exact ⟨'"', _, rfl, by decide, by decide⟩
  | emptyList hw => exact ⟨'[', _, rfl, by decide, by decide⟩
  | list h => exact ⟨'[', _, rfl, by decide, by decide⟩
  | emptyObject hw => exact ⟨'\x7b', _, rfl, by decide, by decide⟩
  | object h => exact ⟨'\x7b', _, rfl, by decide, by decide⟩
  | literal h =>
    simp only [List.mem_cons, List.not_mem_nil, or_false] at h
    rcases h with rfl | rfl | rfl <;> exact ⟨_, _, rfl, by decide, by decide⟩

theorem Blanks.delimits {w : Text} (hw : Blanks w) {c : Char} (hc : c = ',' ∨ c = ']' ∨ c = '\x7d')
    (s : Text) : Delimits (w ++ c :: s) := by
  cases w with
  | nil =>
    rintro _ ⟨⟩
    exact Or.inr hc
  | cons b w =>
    rw [Blanks, List.all_cons, Bool.and_eq_true] at hw
    rintro _ ⟨⟩
    exact Or.inl hw.1

section

variable (frames : List Frame) (s : Text)

theorem resume_cons (frame : Frame) :
    resume (frame :: frames) s = skipFrom (frame :: frames) .passed s := rfl

/-- In a list that is just opened, a value is read as behind a comma. -/
theorem skipFrom_opened {v : Text} (h : BeginsValue v) :
    skipFrom (.list :: frames) .opened (v ++ s) = skipFrom (.list :: frames) .value (v ++ s) := by
  obtain ⟨c, u, rfl, hblank, hclose⟩ := h
  have hopened : ∀ rest, advance (.list :: frames) .opened c rest =
      advance (.list :: frames) .value c rest := by
    intro rest
    simp [advance, goIn, hblank, Frame.closes, hclose, beginIn]
  rw [List.cons_append, skipFrom, skipFrom, hopened]

/-- What is read of a value in a frame, up to the next comma or the end of the frame. -/
theorem skipFrom_value (frame : Frame) {v w' : Text} (h : Skips .value v) (hw' : Blanks w') {c : Char}
    (hc : c = ',' ∨ c = ']' ∨ c = '\x7d') :
    skipFrom (frame :: frames) .value (v ++ (w' ++ c :: s)) =
      skipFrom (frame :: frames) .passed (c :: s) := by
  rw [h _ _ (hw'.delimits hc s), resume_cons, (waits_passed frame).skipFrom_blanks _ hw']

theorem skipFrom_item {w v w' : Text} (hw : Blanks w) (hbegins : BeginsValue v) (h : Skips .value v)
    (hw' : Blanks w') {c : Char} (hc : c = ',' ∨ c = ']' ∨ c = '\x7d') :
    ∀ spot ∈ [Spot.opened, .value], skipFrom (.list :: frames) spot (w ++ (v ++ (w' ++ c :: s))) =
      skipFrom (.list :: frames) .passed (c :: s) := by
  rw [List.forall_mem_cons, List.forall_mem_singleton]
  constructor
  · rw [(waits_opened .list).skipFrom_blanks _ hw, skipFrom_opened _ _ hbegins,
      skipFrom_value _ _ _ h hw' hc]
  · rw [waits_value.skipFrom_blanks _ hw, skipFrom_value _ _ _ h hw' hc]

theorem skipFrom_member {w body w₁ w₂ v w' : Text} (hw : Blanks w) (hkey : StringBody body)
    (hw₁ : Blanks w₁) (hw₂ : Blanks w₂) (h : Skips .value v) (hw' : Blanks w') {c : Char}
    (hc : c = ',' ∨ c = ']' ∨ c = '\x7d') : ∀ spot ∈ [Spot.opened, .key],
      skipFrom (.object :: frames) spot
          (w ++ '"' :: (body ++ '"' :: (w₁ ++ ':' :: (w₂ ++ (v ++ (w' ++ c :: s)))))) =
        skipFrom (.object :: frames) .passed (c :: s) := by
  have hbehind : skipFrom (.object :: frames) (.string true)
      (body ++ '"' :: (w₁ ++ ':' :: (w₂ ++ (v ++ (w' ++ c :: s))))) =
        skipFrom (.object :: frames) .passed (c :: s) := by
    have hquote : ∀ rest, advance (.object :: frames) (.string true) '"' rest =
        .go (.object :: frames) .colon := fun _ => rfl
    have hcolon : ∀ rest, advance (.object :: frames) .colon ':' rest =
        .go (.object :: frames) .value := fun _ => rfl
    rw [hkey.skips, skipFrom_go (hquote _), waits_colon.skipFrom_blanks _ hw₁,
      skipFrom_go (hcolon _), waits_value.skipFrom_blanks _ hw₂, skipFrom_value _ _ _ h hw' hc]
  rw [List.forall_mem_cons, List.forall_mem_singleton]
  constructor
  · have hopen : ∀ rest, advance (.object :: frames) .opened '"' rest =
        .go (.object :: frames) (.string true) := fun _ => rfl
    rw [(waits_opened .object).skipFrom_blanks _ hw, skipFrom_go (hopen _), hbehind]
  · have hopen : ∀ rest, advance (.object :: frames) .key '"' rest =
        .go (.object :: frames) (.string true) := fun _ => rfl
    rw [waits_key.skipFrom_blanks _ hw, skipFrom_go (hopen _), hbehind]

end

/-- What is well formed is passed over. -/
theorem WellFormed.skips {phrase : Phrase} {t : Text} (h : WellFormed phrase t) : Skips phrase t := by
  have hcomma : (',' = ',' ∨ ',' = ']' ∨ ',' = '\x7d') := Or.inl rfl
  have hbracket : (']' = ',' ∨ ']' = ']' ∨ ']' = '\x7d') := Or.inr (Or.inl rfl)
  have hbrace : ('\x7d' = ',' ∨ '\x7d' = ']' ∨ '\x7d' = '\x7d') := Or.inr (Or.inr rfl)
  induction h with
  | literal h =>
    intro frames s _
    simp only [List.mem_cons, List.not_mem_nil, or_false] at h
    rcases h with rfl | rfl | rfl <;>
      exact (skipFrom_go rfl).trans (skipFrom_literal frames s (by decide))
  | number h => exact fun frames s hs => h.skips hs
  | string h =>
    intro frames s _
    have hclose : ∀ rest, advance frames (.string false) '"' rest = completed frames := fun _ => rfl
    rw [List.cons_append, List.append_assoc, skipFrom_go rfl, h.skips, List.singleton_append,
      skipFrom_completed (hclose _)]
  | emptyList hw =>
    intro frames s _
    have hclose : ∀ rest, advance (.list :: frames) .opened ']' rest = completed frames := fun _ => rfl
    rw [List.cons_append, List.append_assoc, skipFrom_go rfl,
      (waits_opened .list).skipFrom_blanks _ hw, List.singleton_append, skipFrom_completed (hclose _)]
  | list h ih =>
    intro frames s _
    rw [List.cons_append, List.append_assoc, skipFrom_go rfl]
    exact ih frames s .opened (by simp)
  | emptyObject hw =>
    intro frames s _
    have hclose : ∀ rest, advance (.object :: frames) .opened '\x7d' rest = completed frames :=
      fun _ => rfl
    rw [List.cons_append, List.append_assoc, skipFrom_go rfl,
      (waits_opened .object).skipFrom_blanks _ hw, List.singleton_append, skipFrom_completed (hclose _)]
  | object h ih =>
    intro frames s _
    rw [List.cons_append, List.append_assoc, skipFrom_go rfl]
    exact ih frames s .opened (by simp)
  | item hw h hw' ih =>
    intro frames s spot hspot
    have hclose : ∀ rest, advance (.list :: frames) .passed ']' rest = completed frames := fun _ => rfl
    simp only [List.append_assoc]
    rw [skipFrom_item frames s hw h.beginsValue ih hw' hbracket spot hspot,
      skipFrom_completed (hclose _)]
  | items hw h hw' ht ih iht =>
    intro frames s spot hspot
    have hgo : ∀ rest, advance (.list :: frames) .passed ',' rest = .go (.list :: frames) .value :=
      fun _ => rfl
    simp only [List.append_assoc, List.cons_append]
    rw [skipFrom_item frames _ hw h.beginsValue ih hw' hcomma spot hspot, skipFrom_go (hgo _)]
    exact iht frames s .value (by simp)
  | member hw hkey hw₁ hw₂ h hw' ih =>
    intro frames s spot hspot
    have hclose : ∀ rest, advance (.object :: frames) .passed '\x7d' rest = completed frames :=
      fun _ => rfl
    simp only [List.append_assoc, List.cons_append]
    rw [skipFrom_member frames s hw hkey hw₁ hw₂ ih hw' hbrace spot hspot,
      skipFrom_completed (hclose _)]
  | members hw hkey hw₁ hw₂ h hw' ht ih iht =>
    intro frames s spot hspot
    have hgo : ∀ rest, advance (.object :: frames) .passed ',' rest = .go (.object :: frames) .key :=
      fun _ => rfl
    simp only [List.append_assoc, List.cons_append]
    rw [skipFrom_member frames _ hw hkey hw₁ hw₂ ih hw' hcomma spot hspot, skipFrom_go (hgo _)]
    exact iht frames s .key (by simp)

/-- A well-formed value that nobody asks for is passed over to its end. -/
theorem WellFormed.skipValue {v : Text} (h : WellFormed .value v) {w s : Text} (hw : Blanks w)
    (hs : Delimits s) : skipValue (w ++ (v ++ s)) = .ok s := by
  rw [Json.skipValue, waits_value.skipFrom_blanks _ hw]
  exact h.skips [] s hs

end Shading.Json
