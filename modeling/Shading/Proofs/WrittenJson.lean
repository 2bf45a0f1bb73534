import Shading.Json.Value
import Shading.Proofs.SpelledJson

/-!
    Reading back written JSON.

    The compact text of a value says by itself where it ends, so a reader can take it back from the front
    of any text. A written string is one spelling of it, escaped just where it has to be
    (`quotedAs_quote`), and a written list is one without blanks (`readsBack_list`), so both are read as
    any spelling is. -/

namespace Shading.Json

/-! ### Strings -/

theorem hexValue?_hexDigit : ∀ n < 16, hexValue? (hexDigit n) = some n := by decide

/-- A character is escaped by a letter or by its code, or it stands for itself. -/
theorem escapeChar_cases (c : Char) :
    (∃ letter, escapeChar c = ['\\', letter] ∧ unescapeChar? letter = some c) ∨
    (c.toNat < 0x20 ∧
      escapeChar c = ['\\', 'u', '0', '0', hexDigit (c.toNat / 16), hexDigit (c.toNat % 16)]) ∨
    (c ≠ '"' ∧ c ≠ '\\' ∧ ¬ c.toNat < 0x20 ∧ escapeChar c = [c]) := by
  unfold escapeChar
  split
  next h => exact Or.inl ⟨'"', rfl, by rw [h]; rfl⟩
  split
  next h => exact Or.inl ⟨'\\', rfl, by rw [h]; rfl⟩
  split
  next h => exact Or.inl ⟨'n', rfl, by rw [h]; rfl⟩
  split
  next h => exact Or.inl ⟨'r', rfl, by rw [h]; rfl⟩
  split
  next h => exact Or.inl ⟨'t', rfl, by rw [h]; rfl⟩
  split
  next h => exact Or.inl ⟨'b', rfl, by rw [h]; rfl⟩
  split
  next h => exact Or.inl ⟨'f', rfl, by rw [h]; rfl⟩
  split
  next h => exact Or.inr (Or.inl ⟨h, rfl⟩)
  next hquote hbackslash _ _ _ _ _ hcontrol =>
    exact Or.inr (Or.inr ⟨hquote, hbackslash, hcontrol, rfl⟩)

/-- The written form of a string is one of its spellings. -/
theorem escapedAs_flatMap : ∀ s : Text, EscapedAs s (s.flatMap escapeChar)
  | [] => .nil
  | c :: s => by
    have ih := escapedAs_flatMap s
    rw [List.flatMap_cons]
    rcases escapeChar_cases c with ⟨letter, hescape, hletter⟩ | ⟨hcontrol, hescape⟩ |
      ⟨hquote, hbackslash, hcontrol, hescape⟩
    · rw [hescape]
      exact .letter hletter ih
    · have hcode : ((0 * 16 + 0) * 16 + c.toNat / 16) * 16 + c.toNat % 16 = c.toNat := by omega
      have hdigits : CodedAs c.toNat ['0', '0', hexDigit (c.toNat / 16), hexDigit (c.toNat % 16)] := by
        have hzero : hexValue? '0' = some 0 := by decide
        have hcoded := CodedAs.digits hzero hzero (hexValue?_hexDigit (c.toNat / 16) (by omega))
          (hexValue?_hexDigit (c.toNat % 16) (by omega))
        rwa [hcode] at hcoded
      have hlead : isLead c.toNat = false := by simp [isLead]; omega
      have htrail : isTrail c.toNat = false := by simp [isTrail]; omega
      have hescaped := EscapedAs.code hdigits hlead htrail ih
      rw [Char.ofNat_toNat] at hescaped
      rw [hescape]
      exact hescaped
    · rw [hescape]
      exact .plain c hquote hbackslash hcontrol ih

theorem quotedAs_quote (s : Text) : QuotedAs s (quote s) :=
  ⟨_, escapedAs_flatMap s, rfl⟩

/-- An escaped text in front of a quote is read as the text. -/
theorem readQuoted_flatMap (rest s : Text) :
    readQuoted (s.flatMap escapeChar ++ '"' :: rest) = .ok (s, rest) :=
  (escapedAs_flatMap s).readQuoted rest

theorem readsBack_string (expected : String) (s : Text) :
    ReadsBack (readString expected) (quote s) s :=
  (quotedAs_quote s).readsBack expected

theorem beginsValue_quote (s : Text) : BeginsValue (quote s) := (quotedAs_quote s).beginsValue

/-- A present value is read by its own reader. -/
theorem readsBack_some {value : Reader α} {s : Text} {a : α} (h : ReadsBack value (quote s) a) :
    ReadsBack (readOptional value) (quote s) (some a) :=
  (quotedAs_quote s).readsBack_some h

/-- A name is read as what the choices give it. -/
theorem readsBack_choice {choices : List (String × α)} {name : Text} {a : α}
    (h : choose choices name = .ok a) : ReadsBack (readChoice choices) (quote name) a :=
  (quotedAs_quote name).readsBack_choice h

/-! ### Lists -/

theorem commaSeparated_cons (text : Text) : ∀ texts : List Text,
    commaSeparated (text :: texts) = text ++ texts.flatMap (',' :: ·)
  | [] => by simp [commaSeparated]
  | other :: texts => by
    rw [commaSeparated, commaSeparated_cons other texts, List.flatMap_cons, List.cons_append]
    exact List.cons_ne_nil _ _

/-- Every item takes a character at least, its comma. -/
theorem length_le_flatMap_comma : ∀ texts : List Text,
    texts.length ≤ (texts.flatMap (',' :: ·)).length
  | [] => Nat.le_refl 0
  | text :: texts => by
    have ih := length_le_flatMap_comma texts
    rw [List.flatMap_cons, List.length_append, List.length_cons, List.length_cons]
    omega

/-- The first item does without a comma. -/
theorem length_le_commaSeparated (texts : List Text) :
    texts.length ≤ (commaSeparated texts).length + 1 := by
  cases texts with
  | nil => exact Nat.zero_le _
  | cons text texts =>
    have hcommas := length_le_flatMap_comma texts
    rw [commaSeparated_cons, List.length_append, List.length_cons]
    omega

section

variable {spelled : α → Text → Prop} {write : α → Text}

/-- Written items, each behind a comma. -/
theorem behind_flatMap_comma : ∀ {as : List α}, (∀ a ∈ as, spelled a (write a)) →
    Behind spelled as ((as.map write).flatMap (',' :: ·))
  | [], _ => .nil rfl
  | a :: as, h => by
    have hnone : Blanks [] := rfl
    rw [List.forall_mem_cons] at h
    exact .cons hnone hnone h.1 (behind_flatMap_comma h.2)

/-- A written list has no blanks in it. -/
theorem bracketed_commaSeparated {as : List α} (h : ∀ a ∈ as, spelled a (write a)) :
    Bracketed spelled as ('[' :: commaSeparated (as.map write) ++ [']']) := by
  have hnone : Blanks [] := rfl
  cases as with
  | nil => exact .empty hnone
  | cons a as =>
    rw [List.forall_mem_cons] at h
    rw [List.map_cons, commaSeparated_cons]
    exact .items (.cons hnone h.1 (behind_flatMap_comma h.2))

end

/-- A list is read back if its items are. -/
theorem readsBack_list (item : Reader α) (write : α → Text) (as : List α)
    (h : ∀ a ∈ as, ReadsBack item (write a) a ∧ BeginsValue (write a)) :
    ReadsBack (readList item) ('[' :: commaSeparated (as.map write) ++ [']']) as := by
  have hlist : Bracketed (fun a t => ReadsBack item t a ∧ BeginsValue t) as _ :=
    bracketed_commaSeparated h
  exact hlist.readsBack fun _ _ h => h

end Shading.Json
