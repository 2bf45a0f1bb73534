import Shading.Proofs.ChangedGaps
import Shading.Proofs.PrunedLines
import Shading.Proofs.Rematching
import Shading.Proofs.Tiling

/-!
    Line endings.

    A text may end its lines with a newline or with a carriage return and a newline (`crlf`). In front of
    a newline a carriage return changes nothing for the machine: it is a blank in code, where the newline
    would end a word or a number as well, and belongs to a comment in a comment (`step_return`). So both
    texts have the same tokens, and only their gaps differ (`of_crlf`). Each pass makes the same of both,
    up to the line endings, and each question that the tokens answer has the same answer. -/

namespace Shading

/-- The text with a carriage return in front of every newline. -/
def crlf (s : Text) : Text := s.flatMap fun c => if c = '\n' then ['\r', '\n'] else [c]

/-! ### Texts with other line endings -/

theorem crlf_append (a b : Text) : crlf (a ++ b) = crlf a ++ crlf b := List.flatMap_append

/-- A text without newlines has no line endings. -/
theorem crlf_of_not_mem : ∀ {l : Text}, '\n' ∉ l → crlf l = l
  | [], _ => rfl
  | c :: l, h => by
    have hc : c ≠ '\n' := (List.ne_of_not_mem_cons h).symm
    have ih := crlf_of_not_mem (List.not_mem_of_not_mem_cons h)
    rw [crlf] at ih ⊢
    simp [hc, ih]

theorem crlf_newline {l : Text} (h : '\n' ∉ l) : crlf (l ++ ['\n']) = (l ++ ['\r']) ++ ['\n'] := by
  rw [crlf_append, crlf_of_not_mem h, List.append_assoc]
  rfl

theorem keepsLines_crlf : KeepsLines crlf := by
  intro gap
  rw [Bool.eq_iff_iff, List.contains_iff_mem, List.contains_iff_mem, crlf, List.mem_flatMap]
  constructor
  · rintro ⟨c, hc, h⟩
    by_cases hn : c = '\n'
    · rwa [← hn]
    · rw [if_neg hn, List.mem_singleton] at h
      rwa [h]
  · exact fun h => ⟨'\n', h, by simp⟩

/-- Other line endings are line endings in the gaps, where no token holds one. -/
theorem crlf_text {r : Reading} (h : ∀ p ∈ r.pieces, '\n' ∉ p.text) :
    crlf r.text = (r.regap crlf).text := by
  obtain ⟨ps, rest⟩ := r
  induction ps with
  | nil => rfl
  | cons p ps ih =>
    rw [List.forall_mem_cons] at h
    rw [Reading.text_pieces, crlf_append, crlf_append, crlf_of_not_mem h.1, ih h.2]
    exact (Reading.text_pieces (p.regap crlf) (ps.map (Piece.regap crlf)) (crlf rest)).symm

/-! ### The machine at a line ending -/

theorem enter_return (next : Option Char) : enter '\r' next = (.blank, .code) := by
  rw [enter, if_pos (by decide)]

/-- Between delimiters a carriage return is idle, and a newline is read behind it as in its place. -/
theorem step_return {place : Place} (h : place.isWhole = true) (next : Option Char) :
    (step place '\r' next).1.isIdle = true ∧
      step (step place '\r' next).2 '\n' none = step place '\n' none := by
  have hword : continuesWord '\r' = false := by decide
  have hnumber : continuesNumber '\r' = false := by decide
  rw [step_newline h]
  cases place with
  | code => simp [step, enter_return, enter_newline, Role.isIdle]
  | word => simp [step, enter_return, enter_newline, Role.isIdle, hword]
  | number sign => simp [step, enter_return, enter_newline, Role.isIdle, hnumber]
  | lineComment => simp [step, Role.isIdle]
  | blockComment => simp [step, Role.isIdle]
  | _ => exact Bool.noConfusion h

/-- The two ways to end a line are read alike, but for the carriage return. -/
theorem exists_roles_newline (inComment : Bool) (l : Text) :
    ∃ R role role', role.isIdle = true ∧ role'.isIdle = true ∧ R.map (·.1) = l ∧
      roles (.start inComment) (l ++ ['\n']) = R ++ [('\n', role)] ∧
      roles (.start inComment) ((l ++ ['\r']) ++ ['\n']) = R ++ [('\r', role'), ('\n', role)] := by
  -- the line in front sees no more of a carriage return than of a newline
  have hsight : sight (some '\r') = sight (some '\n') := rfl
  have hwhole := isWhole_before_newline inComment l
  obtain ⟨hidle', hstep⟩ := step_return hwhole (some '\n')
  have hidle : (step (partPlace (.start inComment) l (some '\n')) '\n' none).1.isIdle = true := by
    rw [step_newline hwhole]
    split <;> rfl
  refine ⟨partRoles (.start inComment) l (some '\n'), _, _, hidle, hidle', map_fst_partRoles _ _ _,
    roles_append _ l ['\n'], ?_⟩
  rw [List.append_assoc, roles_append, List.singleton_append, List.head?_cons,
    partRoles_congr hsight, partPlace_congr hsight, roles, roles, roles, List.head?_cons,
    List.head?_nil, hstep]

theorem placeAfter_return (inComment : Bool) (l : Text) :
    placeAfter (.start inComment) ((l ++ ['\r']) ++ ['\n']) =
      placeAfter (.start inComment) (l ++ ['\n']) := by
  have hsight : sight (some '\r') = sight (some '\n') := rfl
  have hwhole := isWhole_before_newline inComment l
  obtain ⟨-, hstep⟩ := step_return hwhole (some '\n')
  rw [List.append_assoc, List.singleton_append, placeAfter_append _ l ['\r', '\n'],
    placeAfter_append _ l ['\n'], List.head?_cons, List.head?_cons, partPlace_congr hsight]
  simp only [placeAfter, List.head?_cons, List.head?_nil, hstep]

/-- A comment is open behind a line whichever way the line ends. -/
theorem endsInComment_return (inComment : Bool) (l : Text) :
    endsInComment inComment ((l ++ ['\r']) ++ ['\n']) = endsInComment inComment (l ++ ['\n']) := by
  rw [endsInComment, placeAfter_return, endsInComment]

/-! ### The reading of a text with other line endings -/

theorem tailOf_idle (R' : List (Char × Role)) : ∀ {R : List (Char × Role)}, R ≠ [] →
    (∀ x ∈ R, x.2.isIdle = true) → tailOf (R ++ R') = []
  | [], hne, _ => absurd rfl hne
  | (_, .blank) :: _, _, _ => rfl
  | (_, .comment) :: _, _, _ => rfl
  | (_, .head _) :: _, _, _ => rfl
  | (_, .tail) :: _, _, h => Bool.noConfusion (h _ List.mem_cons_self)

namespace Reading

theorem regap_behind_crlf (gap : Text) (r : Reading) :
    (r.behind gap).regap crlf = (r.regap crlf).behind (crlf gap) := by
  obtain ⟨_ | ⟨p, ps⟩, rest⟩ := r <;> simp [behind, regap, Piece.regap, crlf_append]

theorem regap_append_crlf (r q : Reading) :
    (r ++ q).regap crlf = r.regap crlf ++ q.regap crlf := by
  have hbehind := regap_behind_crlf r.rest q
  rw [append_def, append_def]
  simp only [regap] at hbehind ⊢
  rw [← hbehind, List.map_append]

/-- Without newlines there is nothing to change in the gaps. -/
theorem regap_crlf_ofRoles {R : List (Char × Role)} (h : '\n' ∉ R.map (·.1)) :
    (ofRoles R).regap crlf = ofRoles R := by
  induction R with
  | nil => rfl
  | cons x R ih =>
    obtain ⟨c, role⟩ := x
    have hc : crlf [c] = [c] := crlf_of_not_mem (by
      rw [List.mem_singleton]
      exact List.ne_of_not_mem_cons h)
    have hR := ih (List.not_mem_of_not_mem_cons h)
    cases role with
    | head kind => exact congrArg (cons ⟨[], kind, c :: tailOf R⟩) hR
    | tail => exact hR
    | blank => simp only [ofRoles, regap_behind_crlf, hR, hc]
    | comment => simp only [ofRoles, regap_behind_crlf, hR, hc]

/-- With other line endings only the gaps are others. -/
theorem ofRoles_crlf (s : Text) : ∀ inComment,
    ofRoles (roles (.start inComment) (crlf s)) =
      (ofRoles (roles (.start inComment) s)).regap crlf := by
  induction s using Text.line_induction with
  | nil => intro inComment; rfl
  | last l hne h =>
    intro inComment
    have hroles : '\n' ∉ (roles (.start inComment) l).map (·.1) := by rwa [map_fst_roles]
    rw [crlf_of_not_mem h, regap_crlf_ofRoles hroles]
  | line l s h ih =>
    intro inComment
    obtain ⟨R, role, role', hrole, hrole', hR, hroles, hroles'⟩ := exists_roles_newline inComment l
    have hline : '\n' ∉ R.map (·.1) := by rwa [hR]
    have hidle : ∀ x ∈ [('\n', role)], x.2.isIdle = true := by simp [hrole]
    have hidle' : ∀ x ∈ [('\r', role'), ('\n', role)], x.2.isIdle = true := by simp [hrole, hrole']
    rw [crlf_append, crlf_newline h, roles_newline_append, roles_newline_append, hroles, hroles',
      endsInComment_return, List.append_assoc, List.append_assoc,
      ofRoles_append (tailOf_idle _ (List.cons_ne_nil _ _) hidle'),
      ofRoles_append (tailOf_idle _ (List.cons_ne_nil _ _) hidle),
      ofRoles_idle _ _ hidle', ofRoles_idle _ _ hidle, ih, regap_append_crlf, regap_behind_crlf,
      regap_crlf_ofRoles hline]
    rfl

end Reading

theorem of_crlf (s : Text) : Reading.of (crlf s) = (Reading.of s).regap crlf :=
  Reading.ofRoles_crlf s false

/-! ### Passes along the pieces -/

section

variable {renames : List Rename}

/-- Words without newlines in place of words leave all words without newlines. -/
theorem Reworded.newline_not_mem {ps qs : List Piece} (h : Reworded ('\n' ∉ ·) ps qs)
    (hps : ∀ p ∈ ps, '\n' ∉ p.text) : ∀ q ∈ qs, '\n' ∉ q.text := by
  induction h with
  | nil => exact hps
  | keep p h ih =>
    rw [List.forall_mem_cons] at hps ⊢
    exact ⟨hps.1, ih hps.2⟩
  | reword gap old new hnew h ih =>
    rw [List.forall_mem_cons] at hps ⊢
    exact ⟨hnew, ih hps.2⟩

theorem newline_not_mem_pieces (s : Text) : ∀ p ∈ (Reading.of s).pieces, '\n' ∉ p.text :=
  fun p hp => (forall_pieces_of_reads (reads_of s) p hp).2

/-- A pass that respells words by a list makes the same of both texts. -/
theorem FollowsList.commutes_crlf {f : Piece → List Piece → Option String}
    (hf : FollowsList renames f) (h : ∀ r ∈ renames, '\n' ∉ r.target.toList)
    (hregap : ∀ p ps, f (p.regap crlf) (ps.map (Piece.regap crlf)) = f p ps) {pass : Text → Text}
    (hpass : ∀ s, pass s = ((Reading.of s).respell f).text) : Function.Commute pass crlf := by
  intro s
  have hpieces : ((Reading.of s).regap crlf).respell f = ((Reading.of s).respell f).regap crlf :=
    congrArg (Reading.mk · (crlf (Reading.of s).rest)) (respell_regap hregap (Reading.of s).pieces)
  have hreworded : Reworded ('\n' ∉ ·) (Reading.of s).pieces (respell f (Reading.of s).pieces) :=
    reworded_respell (fun p ps new hnew => by
      obtain ⟨r, hr, hword, rfl⟩ := hf.listed p ps new hnew
      exact ⟨isWord_kind hword, h r hr⟩) _
  rw [hpass, hpass, of_crlf, hpieces, crlf_text]
  exact hreworded.newline_not_mem (newline_not_mem_pieces s)

theorem renameWords_commutes_crlf (h : ∀ r ∈ renames, '\n' ∉ r.target.toList) :
    Function.Commute (renameWords renames) crlf :=
  (followsList_newSpelling? renames).commutes_crlf h (fun p _ => newSpelling?_regap renames p)
    (renameWords_eq_text renames)

theorem renameCalls_commutes_crlf (h : ∀ r ∈ renames, '\n' ∉ r.target.toList) :
    Function.Commute (renameCalls renames) crlf :=
  (followsList_calledSpelling? renames).commutes_crlf h (calledSpelling?_regap renames)
    (renameCalls_eq_text renames)

end

theorem Rules.adaptDeclarations_commutes_crlf {rules : Rules} {stage : Stage}
    (h : ∀ new ∈ [rules.attributeKeyword, rules.varyingKeyword stage], '\n' ∉ new.toList)
    (name : String) : Function.Commute ((Dialect.ruled name rules).adaptDeclarations stage) crlf := by
  intro s
  have hpieces := keepsLines_crlf.redeclare_regap rules stage .first (Reading.of s).pieces
  have hreworded : Reworded ('\n' ∉ ·) (Reading.of s).pieces
      (rules.redeclare stage .first (Reading.of s).pieces) := rules.reworded_redeclare h .first _
  rw [rules.adaptDeclarations_eq_text stage, rules.adaptDeclarations_eq_text stage, of_crlf,
    crlf_text (hreworded.newline_not_mem (newline_not_mem_pieces s)), Reading.regap, hpieces]
  rfl

/-- The built-in dialects adapt declarations alike whichever way the lines end. -/
theorem Dialect.adaptDeclarations_commutes_crlf {dialect : Dialect} (h : dialect ∈ builtin)
    (stage : Stage) : Function.Commute (dialect.adaptDeclarations stage) crlf := by
  simp only [builtin, List.mem_cons, List.not_mem_nil, or_false] at h
  rcases h with rfl | rfl | rfl
  · intro s
    rw [glsl100, adaptDeclarations_neutral, adaptDeclarations_neutral]
  · exact Rules.adaptDeclarations_commutes_crlf (by cases stage <;> decide) _
  · exact Rules.adaptDeclarations_commutes_crlf (by cases stage <;> decide) _

/-! ### Pruning -/

theorem gather_eq_nil {R : List (Char × Role)} (h : ∀ x ∈ R, x.2.isIdle = true) (n : Nat)
    (fresh : Bool) : gather n fresh R = [] := by
  have hidle := gather_idle [] n fresh R h
  rwa [List.append_nil] at hidle

/-- A line has the same tokens in the same places whichever way it ends. -/
theorem tokensFrom_return (inComment : Bool) (l : Text) :
    tokensFrom inComment ((l ++ ['\r']) ++ ['\n']) = tokensFrom inComment (l ++ ['\n']) ∧
      ∀ t ∈ tokensFrom inComment (l ++ ['\n']), t.start < l.byteSize := by
  obtain ⟨R, role, role', hrole, hrole', hR, hroles, hroles'⟩ := exists_roles_newline inComment l
  have hgather : ∀ {I : List (Char × Role)}, I ≠ [] → (∀ x ∈ I, x.2.isIdle = true) →
      gather 0 true (R ++ I) = gather 0 true R := by
    intro I hne hidle
    have htail := tailOf_idle [] hne hidle
    rw [List.append_nil] at htail
    rw [gather_append htail, gather_eq_nil hidle, List.append_nil]
  have htokens : tokensFrom inComment (l ++ ['\n']) = gather 0 true R := by
    rw [tokensFrom, hroles, hgather (List.cons_ne_nil _ _) (by simp [hrole])]
  refine ⟨?_, fun t ht => ?_⟩
  · rw [htokens, tokensFrom, hroles', hgather (List.cons_ne_nil _ _) (by simp [hrole, hrole'])]
  · rw [htokens] at ht
    have hlt := start_lt_of_mem_gather ht
    rwa [hR, Nat.zero_add] at hlt

section

variable (extensions : List String) (inComment : Bool)

/-- What is left of a line stood in it. -/
theorem pruneLine_subset (line : Text) : pruneLine extensions inComment line ⊆ line := by
  rw [pruneLine]
  split
  · exact List.Subset.refl line
  · split
    · dsimp only
      split
      · exact List.nil_subset line
      · exact Text.takeBytes_subset _ line
    · exact List.Subset.refl line

theorem pruneLine_return {l : Text} (h : '\n' ∉ l) :
    pruneLine extensions inComment ((l ++ ['\r']) ++ ['\n']) =
      crlf (pruneLine extensions inComment (l ++ ['\n'])) := by
  obtain ⟨htokens, hstart⟩ := tokensFrom_return inComment l
  rw [pruneLine, pruneLine, htokens]
  cases hts : tokensFrom inComment (l ++ ['\n']) with
  | nil => exact (crlf_newline h).symm
  | cons t ts =>
    have hle : t.start ≤ l.byteSize := Nat.le_of_lt (hstart t (by simp [hts]))
    have hlead : '\n' ∉ l.takeBytes t.start := fun hmem => h (Text.takeBytes_subset _ l hmem)
    simp only [List.append_assoc, Text.takeBytes_append_of_le _ hle]
    cases switchesOn extensions (t :: ts) with
    | true =>
      rw [if_pos rfl, if_pos rfl]
      split
      · rfl
      · exact (crlf_of_not_mem hlead).symm
    | false =>
      rw [if_neg Bool.false_ne_true, if_neg Bool.false_ne_true, crlf_newline h, List.append_assoc]

end

/-- The pass over lines leaves the same of both texts. -/
theorem pruneLines_crlf (extensions : List String) (s : Text) : ∀ inComment,
    pruneLines extensions inComment (crlf s).lines =
      crlf (pruneLines extensions inComment s.lines) := by
  induction s using Text.line_induction with
  | nil => intro inComment; rfl
  | last l hne h =>
    intro inComment
    have hline : '\n' ∉ pruneLine extensions inComment l := fun hmem =>
      h (pruneLine_subset extensions inComment l hmem)
    rw [crlf_of_not_mem h, Text.lines_last hne h, pruneLines, pruneLines, List.append_nil,
      crlf_of_not_mem hline]
  | line l s h ih =>
    intro inComment
    have hreturn : '\n' ∉ l ++ ['\r'] := by simp [h]
    rw [crlf_append, crlf_newline h, Text.lines_line_append _ hreturn, Text.lines_line_append _ h,
      pruneLines, pruneLines, pruneLine_return extensions inComment h, endsInComment_return, ih,
      crlf_append]

theorem pruneExtensions_commutes_crlf (extensions : List String) :
    Function.Commute (pruneExtensions extensions) crlf := fun s =>
  calc pruneExtensions extensions (crlf s)
      = pruneLines extensions false (crlf s).lines := pruneFrom_eq_pruneLines extensions _ false
    _ = crlf (pruneLines extensions false s.lines) := pruneLines_crlf extensions s false
    _ = crlf (pruneExtensions extensions s) :=
      congrArg crlf (pruneFrom_eq_pruneLines extensions s false).symm

/-! ### Questions that the tokens answer -/

theorem unplaced_tokens_crlf (s : Text) :
    (tokens (crlf s)).map Token.unplaced = (tokens s).map Token.unplaced :=
  keepsLines_crlf.unplaced_tokens (of_crlf s)

theorem statements_crlf (s : Text) :
    (pragmas (crlf s)).map Pragma.statement = (pragmas s).map Pragma.statement :=
  Pragma.statement_among_congr (unplaced_tokens_crlf s) (crlf s) s

/-- Line endings do not count: a text that ends its lines with a carriage return and a newline has the
    same extension directives, with the same names and behaviors, and the same answers about extensions
    and outputs, and it comes to the same to write the other line endings before or after the
    declarations of a built-in dialect are adapted, extensions are pruned, or words or calls are renamed
    by names without a newline. -/
theorem line_endings_do_not_count (s : Text) :
    (∀ dialect ∈ Dialect.builtin, ∀ stage,
      dialect.adaptDeclarations stage (crlf s) = crlf (dialect.adaptDeclarations stage s)) ∧
    (∀ extensions, pruneExtensions extensions (crlf s) = crlf (pruneExtensions extensions s)) ∧
    (∀ renames : List Rename, (∀ r ∈ renames, '\n' ∉ r.target.toList) →
      renameCalls renames (crlf s) = crlf (renameCalls renames s) ∧
      renameWords renames (crlf s) = crlf (renameWords renames s)) ∧
    (∀ extension behaviors,
      hasExtension extension behaviors (crlf s) = hasExtension extension behaviors s) ∧
    hasOutputDeclaration (crlf s) = hasOutputDeclaration s ∧
    (pragmas (crlf s)).map (fun p => (p.name, p.behavior)) =
      (pragmas s).map fun p => (p.name, p.behavior) :=
  ⟨fun _ h stage => Dialect.adaptDeclarations_commutes_crlf h stage s,
    fun extensions => pruneExtensions_commutes_crlf extensions s,
    fun _ h => ⟨renameCalls_commutes_crlf h s, renameWords_commutes_crlf h s⟩,
    hasExtension_congr (statements_crlf s), hasOutputDeclaration_congr (unplaced_tokens_crlf s),
    statements_crlf s⟩

/-- A varying behind a line comment, a directive behind the end of a comment, and a call whose
    parenthesis stands on the next line. -/
theorem line_endings_do_not_count_glsl300es :
    Dialect.glsl300es ∈ Dialect.builtin ∧
    (∀ r ∈ [(⟨"texture2D", "texture"⟩ : Rename)], '\n' ∉ r.target.toList) ∧
    Dialect.glsl300es.adaptDeclarations .fragment (crlf "//\nvarying v;\n".toList) =
      "//\x0d\nin v;\x0d\n".toList ∧
    pruneExtensions ["E"] (crlf "/*\n*/ #extension E : enable\nf".toList) =
      "/*\x0d\n*/ f".toList ∧
    renameCalls [⟨"texture2D", "texture"⟩] (crlf "texture2D\n(t)".toList) =
      "texture\x0d\n(t)".toList := by
  have hdialect : Dialect.glsl300es ∈ Dialect.builtin := by simp [Dialect.builtin]
  have htargets : ∀ r ∈ [(⟨"texture2D", "texture"⟩ : Rename)], '\n' ∉ r.target.toList := by decide
  obtain ⟨hdeclarations, -⟩ := line_endings_do_not_count "//\nvarying v;\n".toList
  obtain ⟨-, hprune, -⟩ := line_endings_do_not_count "/*\n*/ #extension E : enable\nf".toList
  obtain ⟨-, -, hrename, -⟩ := line_endings_do_not_count "texture2D\n(t)".toList
  exact ⟨hdialect, htargets, (hdeclarations _ hdialect .fragment).trans (by decide),
    (hprune ["E"]).trans (by decide), (hrename _ htargets).1.trans (by decide)⟩

end Shading
