import Shading.Proofs.Lookahead

/-!
    Reading a text chunk by chunk.

    A newline is read alike whatever follows it, and no token and no comment delimiter reaches over it.
    So behind a newline the machine stands in code or in a block comment, and a text that is cut behind
    newlines may be read chunk by chunk: each chunk needs to know only whether the one before ended in
    an open comment, and its tokens are those of the whole, counted from the beginning of the chunk. -/

namespace Shading

/-- The token as it stands with `n` more bytes in front. -/
def Token.shift (n : Nat) (t : Token) : Token := { t with start := n + t.start }

@[simp] theorem Token.stop_shift (n : Nat) (t : Token) : (t.shift n).stop = n + t.stop := by
  rw [Token.stop, Token.stop, Token.shift, Nat.add_assoc]

theorem Token.shift_zero : Token.shift 0 = id := by
  funext t
  rw [shift, Nat.zero_add]
  rfl

/-! ### The machine at a newline -/

/-- The machine does not stand in the middle of a comment delimiter. -/
def Place.isWhole : Place → Bool
  | .opening => false
  | .closing => false
  | _ => true

theorem isWhole_start (inComment : Bool) : (Place.start inComment).isWhole = true := by
  cases inComment <;> rfl

/-- Only in front of a slash or a star does the machine step into a delimiter. -/
theorem isWhole_step {next : Option Char} (hslash : next ≠ some '/') (hstar : next ≠ some '*')
    (place : Place) (c : Char) : (step place c next).2.isWhole = true := by
  have henter : (enter c next).2.isWhole = true := by
    rcases enter_cases c next with ⟨-, he⟩ | ⟨-, hn, -⟩ | ⟨-, he⟩ | ⟨-, he⟩ | he
    · rw [he]; rfl
    · rcases hn with hn | hn
      · exact absurd hn hslash
      · exact absurd hn hstar
    all_goals rw [he]; rfl
  cases place with
  | code => exact henter
  | word =>
    rw [step]
    split
    · rfl
    · exact henter
  | number sign =>
    rw [step]
    split
    · rfl
    · split
      · rfl
      · exact henter
  | opening => rw [step]; split <;> rfl
  | lineComment => rw [step]; split <;> rfl
  | blockComment => simp [step, hslash, Place.isWhole]
  | closing => rfl

/-- A delimiter is read to its end as soon as one more character is read. -/
theorem isWhole_partPlace {next : Option Char} (hslash : next ≠ some '/') (hstar : next ≠ some '*') :
    ∀ (place : Place) (s : Text), (place.isWhole = true ∨ s ≠ []) →
      (partPlace place s next).isWhole = true
  | _, [], h => h.resolve_right fun hne => hne rfl
  | place, c :: s, _ => by
    rw [partPlace]
    refine isWhole_partPlace hslash hstar _ s ?_
    cases s with
    | nil => exact Or.inl (isWhole_step hslash hstar place c)
    | cons d s => exact Or.inr (List.cons_ne_nil d s)

/-- In front of a newline every delimiter is read to its end. -/
theorem isWhole_before_newline (inComment : Bool) (l : Text) :
    (partPlace (.start inComment) l (some '\n')).isWhole = true :=
  isWhole_partPlace (by decide) (by decide) _ l (Or.inl (isWhole_start inComment))

theorem enter_newline (next : Option Char) : enter '\n' next = (.blank, .code) := by
  rw [enter, if_pos (by decide)]

/-- What is read at a newline between delimiters. -/
theorem step_newline {place : Place} (h : place.isWhole = true) (next : Option Char) :
    step place '\n' next =
      if place = .blockComment then (.comment, .blockComment) else (.blank, .code) := by
  cases place with
  | code => exact enter_newline next
  | word => exact enter_newline next
  | number sign =>
    rw [step, enter_newline, if_neg (by decide), if_neg (by simp), if_neg Place.noConfusion]
  | lineComment => rfl
  | blockComment => rfl
  | _ => exact Bool.noConfusion h

/-- A newline does not look ahead. -/
theorem step_newline_congr (place : Place) (next next' : Option Char) :
    step place '\n' next = step place '\n' next' := by
  cases place <;> simp [step, enter_newline]

theorem partRoles_newline (place : Place) (l : Text) (next : Option Char) :
    partRoles place (l ++ ['\n']) next = roles place (l ++ ['\n']) := by
  rw [← partRoles_none, partRoles_append, partRoles_append]
  simp [partRoles, step_newline_congr _ next none]

theorem partPlace_newline (place : Place) (l : Text) (next : Option Char) :
    partPlace place (l ++ ['\n']) next = placeAfter place (l ++ ['\n']) := by
  rw [← partPlace_none, partPlace_append, partPlace_append]
  simp [partPlace, step_newline_congr _ next none]

/-- Behind a newline the machine stands in code or in a block comment. -/
theorem placeAfter_newline (inComment : Bool) (l : Text) :
    placeAfter (.start inComment) (l ++ ['\n'])
      = .start (endsInComment inComment (l ++ ['\n'])) := by
  have hw := isWhole_before_newline inComment l
  have h : placeAfter (.start inComment) (l ++ ['\n']) =
      if partPlace (.start inComment) l (some '\n') = .blockComment then .blockComment else .code := by
    rw [placeAfter_append, List.head?_cons, placeAfter, placeAfter, step_newline hw, apply_ite Prod.snd]
  rw [endsInComment, h]
  split <;> rfl

/-- A text cut behind a newline is read in two parts that do not see each other. -/
theorem roles_newline_append (inComment : Bool) (l s : Text) :
    roles (.start inComment) ((l ++ ['\n']) ++ s) =
      roles (.start inComment) (l ++ ['\n']) ++
        roles (.start (endsInComment inComment (l ++ ['\n']))) s := by
  rw [roles_append, partRoles_newline, partPlace_newline, placeAfter_newline]

theorem endsInComment_newline_append (inComment : Bool) (l s : Text) :
    endsInComment inComment ((l ++ ['\n']) ++ s) =
      endsInComment (endsInComment inComment (l ++ ['\n'])) s := by
  rw [endsInComment, placeAfter_append, partPlace_newline, placeAfter_newline, ← endsInComment]

/-- The newline at the end of a chunk belongs to no token. -/
theorem roles_newline (inComment : Bool) (l : Text) :
    ∃ R role, roles (.start inComment) (l ++ ['\n']) = R ++ [('\n', role)] ∧ role.isIdle = true := by
  have hw := isWhole_before_newline inComment l
  refine ⟨_, _, roles_append _ l ['\n'], ?_⟩
  rw [List.head?_cons, step_newline hw]
  split <;> rfl

/-! ### Gathering tokens part by part -/

theorem tailOf_append {R' : List (Char × Role)} (h : tailOf R' = []) :
    ∀ R : List (Char × Role), tailOf (R ++ R') = tailOf R
  | [] => h
  | (c, .tail) :: R => by rw [List.cons_append, tailOf, tailOf, tailOf_append h R]
  | (_, .blank) :: _ => rfl
  | (_, .comment) :: _ => rfl
  | (_, .head _) :: _ => rfl

/-- Outside words and numbers, what comes next continues no token. -/
theorem tailOf_roles {place : Place} (h : place.isIdle = true) (s : Text) :
    tailOf (roles place s) = [] := by
  cases s with
  | nil => rfl
  | cons c s =>
    rw [roles]
    rcases step_of_isIdle h c s.head? with ⟨hr, -⟩ | ⟨rfl, kind, hk⟩
    · cases hrole : (step place c s.head?).1 with
      | tail => rw [hrole] at hr; exact Bool.noConfusion hr
      | _ => rfl
    · rw [step, hk]; rfl

theorem isIdle_start (inComment : Bool) : (Place.start inComment).isIdle = true := by
  cases inComment <;> rfl

/-- No token has been met on the present line, after characters with these roles. -/
def freshAfter : Bool → List (Char × Role) → Bool
  | fresh, [] => fresh
  | fresh, (c, role) :: s =>
    match role with
    | .head _ => freshAfter false s
    | .tail => freshAfter fresh s
    | _ => freshAfter (fresh || c == '\n') s

theorem freshAfter_newline {role : Role} (h : role.isIdle = true) :
    ∀ (fresh : Bool) (R : List (Char × Role)), freshAfter fresh (R ++ [('\n', role)]) = true
  | fresh, [] => by cases role <;> first | exact Bool.noConfusion h | exact Bool.or_true fresh
  | fresh, (c, .head _) :: R => freshAfter_newline h false R
  | fresh, (c, .tail) :: R => freshAfter_newline h fresh R
  | fresh, (c, .blank) :: R => freshAfter_newline h (fresh || c == '\n') R
  | fresh, (c, .comment) :: R => freshAfter_newline h (fresh || c == '\n') R

/-- Tokens are gathered part by part where no token reaches over the cut. -/
theorem gather_append {R' : List (Char × Role)} (h : tailOf R' = []) :
    ∀ (n : Nat) (fresh : Bool) (R : List (Char × Role)),
      gather n fresh (R ++ R') =
        gather n fresh R ++ gather (n + Text.byteSize (R.map (·.1))) (freshAfter fresh R) R'
  | _, _, [] => rfl
  | n, fresh, (c, .head kind) :: R => by
    simp only [List.cons_append, gather, freshAfter, List.map_cons, Text.byteSize_cons]
    rw [gather_append h, tailOf_append h, Nat.add_assoc]
  | n, fresh, (c, .tail) :: R => by
    simp only [List.cons_append, gather, freshAfter, List.map_cons, Text.byteSize_cons]
    rw [gather_append h, Nat.add_assoc]
  | n, fresh, (c, .blank) :: R => by
    simp only [List.cons_append, gather, freshAfter, List.map_cons, Text.byteSize_cons]
    rw [gather_append h, Nat.add_assoc]
  | n, fresh, (c, .comment) :: R => by
    simp only [List.cons_append, gather, freshAfter, List.map_cons, Text.byteSize_cons]
    rw [gather_append h, Nat.add_assoc]

/-- Where counting begins only shifts the tokens. -/
theorem gather_shift (k : Nat) : ∀ (n : Nat) (fresh : Bool) (R : List (Char × Role)),
    gather (k + n) fresh R = (gather n fresh R).map (·.shift k)
  | _, _, [] => rfl
  | n, fresh, (c, .head kind) :: R => by
    simp only [gather, List.map_cons, Nat.add_assoc, gather_shift k]
    rfl
  | n, fresh, (c, .tail) :: R => by simp only [gather, Nat.add_assoc, gather_shift k]
  | n, fresh, (c, .blank) :: R => by simp only [gather, Nat.add_assoc, gather_shift k]
  | n, fresh, (c, .comment) :: R => by simp only [gather, Nat.add_assoc, gather_shift k]

/-- The tokens of a text cut behind a newline. -/
theorem tokensFrom_newline_append (inComment : Bool) (l s : Text) :
    tokensFrom inComment ((l ++ ['\n']) ++ s) =
      tokensFrom inComment (l ++ ['\n']) ++
        (tokensFrom (endsInComment inComment (l ++ ['\n'])) s).map
          (·.shift (Text.byteSize (l ++ ['\n']))) := by
  obtain ⟨R, role, hR, hrole⟩ := roles_newline inComment l
  have hfresh : freshAfter true (roles (.start inComment) (l ++ ['\n'])) = true := by
    rw [hR, freshAfter_newline hrole]
  rw [tokensFrom, roles_newline_append, gather_append (tailOf_roles (isIdle_start _) s), hfresh,
    map_fst_roles, Nat.zero_add, ← Nat.add_zero (Text.byteSize _), gather_shift]
  rfl

/-- Reading chunk by chunk: a text cut behind a newline, or in front of everything, has the tokens of
    its two chunks, those of the second shifted by the size of the first, and ends as the second chunk
    does. The second chunk continues a comment if the first one leaves it open. -/
theorem tokensFrom_append (inComment : Bool) (a b : Text) (h : a = [] ∨ a.getLast? = some '\n') :
    let inComment' := if a = [] then inComment else endsInComment inComment a
    tokensFrom inComment (a ++ b) =
        tokensFrom inComment a ++ (tokensFrom inComment' b).map (·.shift a.byteSize) ∧
      endsInComment inComment (a ++ b) = endsInComment inComment' b := by
  rcases h with rfl | h
  · have hshift : (fun t : Token => t.shift 0) = id := by
      funext t; rw [Token.shift, Nat.zero_add]; rfl
    refine ⟨?_, rfl⟩
    rw [Text.byteSize_nil, hshift, List.map_id, if_pos rfl]
    rfl
  · obtain ⟨l, rfl⟩ := List.getLast?_eq_some_iff.mp h
    have hne : l ++ ['\n'] ≠ [] := List.append_ne_nil_of_right_ne_nil l (List.cons_ne_nil _ _)
    simp only [if_neg hne]
    exact ⟨tokensFrom_newline_append inComment l b, endsInComment_newline_append inComment l b⟩

/-- A comment that the first chunk opens behind a word is closed on the second, in front of one. -/
theorem tokensFrom_append_open_comment :
    ("a /*\n".toList = [] ∨ "a /*\n".toList.getLast? = some '\n') ∧
      tokensFrom false ("a /*\n".toList ++ "*/ b".toList) =
        [⟨.word, ['a'], 0, true⟩, ⟨.word, ['b'], 8, true⟩] :=
  ⟨by decide, (tokensFrom_append false "a /*\n".toList "*/ b".toList (by decide)).1.trans (by decide)⟩

end Shading
