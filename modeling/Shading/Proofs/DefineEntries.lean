import Mathlib.Data.List.Basic
import Mathlib.Data.List.TakeWhile
import Shading.Dialect

/-!
    What an entry of a define set stands for.

    A name can be written in many ways: bare or as a directive, with blanks around it, with the
    parameters of a macro or a value behind it. `StandsFor` lists them, and an entry is read as a name
    exactly when it is written so (`symbolOf?_eq_some_iff`). A set built from entries contains the names
    they stand for, whatever their order and number, and of all names a dialect only asks for one. -/

namespace Shading

/-- Nothing that could continue a name: the end of the text, a blank or an opening parenthesis. -/
def EndsName (rest : Text) : Prop := ∀ c ∈ rest.head?, isBlank c = true ∨ c = '('

/-- The ways to write a name as an entry: bare, or as a directive. -/
inductive StandsFor (name : Text) : Text → Prop
  | bare (lead rest : Text) (hlead : lead.all isBlank = true) (hhash : name.head? ≠ some '#')
      (hrest : EndsName rest) : StandsFor name (lead ++ (name ++ rest))
  | directive (lead gap gap' rest : Text) (hlead : lead.all isBlank = true)
      (hgap : gap.all isBlank = true) (hgap' : gap'.all isBlank = true) (hrest : EndsName rest) :
      StandsFor name (lead ++ '#' :: (gap ++ ("define".toList ++ (gap' ++ (name ++ rest)))))

/-! ### Trimming -/

namespace Text

theorem trimStart_append {lead : Text} (h : lead.all isBlank = true) (s : Text) :
    trimStart (lead ++ s) = trimStart s := by
  rw [List.all_eq_true] at h
  exact List.dropWhile_append_of_pos h

theorem trimStart_cons {c : Char} (h : isBlank c = false) (s : Text) :
    trimStart (c :: s) = c :: s :=
  List.dropWhile_cons_of_neg (by rw [h]; exact Bool.false_ne_true)

/-- A text is blanks in front of what is left when its beginning is trimmed. -/
theorem exists_trimStart (s : Text) : ∃ lead : Text, s = lead ++ s.trimStart ∧
    lead.all isBlank = true :=
  ⟨s.takeWhile isBlank, List.takeWhile_append_dropWhile.symm, List.all_takeWhile⟩

/-- A text is what is left when its end is trimmed in front of blanks. -/
theorem exists_trimEnd (s : Text) : ∃ trail : Text, s = s.trimEnd ++ trail ∧
    trail.all isBlank = true := by
  obtain ⟨lead, hcut, hlead⟩ := exists_trimStart s.reverse
  refine ⟨lead.reverse, ?_, by rwa [List.all_reverse]⟩
  have hreverse := congrArg List.reverse hcut
  rwa [List.reverse_reverse, List.reverse_append] at hreverse

theorem trimEnd_append {s : Text} {c : Char} (h : isBlank c = false) (rest : Text) :
    trimEnd ((s ++ [c]) ++ rest) = (s ++ [c]) ++ trimEnd rest := by
  have hkeep : (s ++ [c]).reverse.dropWhile isBlank = (s ++ [c]).reverse := by
    rw [List.reverse_append, List.reverse_singleton, List.singleton_append]
    exact trimStart_cons h s.reverse
  rw [trimEnd, List.reverse_append, List.dropWhile_append, hkeep, trimEnd]
  split
  next hnil => simp [List.isEmpty_iff.mp hnil]
  next => rw [List.reverse_append, List.reverse_reverse]

/-- What is trimmed does not begin with a blank. -/
theorem head_trimStart {s r : Text} {c : Char} (h : s.trimStart = c :: r) : isBlank c = false := by
  have hhead := List.head?_dropWhile_not isBlank s
  rw [← trimStart, h] at hhead
  exact hhead

end Text

/-! ### The name in front -/

/-- The characters that a name is made of. -/
def continuesName (c : Char) : Bool := !isBlank c && c ≠ '('

theorem continuesName_iff {c : Char} :
    continuesName c = true ↔ isBlank c = false ∧ c ≠ '(' := by
  simp [continuesName]

theorem takeWhile_continuesName {rest : Text} (h : EndsName rest) :
    rest.takeWhile continuesName = [] := by
  cases rest with
  | nil => rfl
  | cons c rest => rcases h c rfl with hc | rfl <;> simp [continuesName, *]

theorem endsName_dropWhile (s : Text) : EndsName (s.dropWhile continuesName) := by
  intro c hc
  have hhead := List.head?_dropWhile_not continuesName s
  rw [Option.mem_def] at hc
  rw [hc] at hhead
  have hnot : ¬(isBlank c = false ∧ c ≠ '(') := by
    rw [← continuesName_iff, hhead]
    exact Bool.false_ne_true
  rw [not_and_or, Bool.not_eq_false, not_not] at hnot
  exact hnot

/-- The first name of a text, whatever stands behind it. -/
theorem firstName_eq_iff {body name : Text} (hne : name ≠ []) :
    body.firstWord.takeWhile (· ≠ '(') = name ↔
      IsName name ∧ ∃ lead rest : Text, body = lead ++ (name ++ rest) ∧ lead.all isBlank = true ∧
        EndsName rest := by
  have hjoin : body.firstWord.takeWhile (· ≠ '(') = body.trimStart.takeWhile continuesName := by
    rw [Text.firstWord, List.takeWhile_takeWhile]
    refine congrArg (body.trimStart.takeWhile ·) (funext fun c => ?_)
    rw [Bool.eq_iff_iff, continuesName_iff]
    simp [and_comm]
  rw [hjoin]
  constructor
  · intro hname
    obtain ⟨lead, hcut, hlead⟩ := body.exists_trimStart
    have hrest := List.takeWhile_append_dropWhile (p := continuesName) (l := body.trimStart)
    rw [hname] at hrest
    refine ⟨⟨hne, fun c hc => ?_⟩, lead, body.trimStart.dropWhile continuesName, ?_, hlead, ?_⟩
    · rw [← hname] at hc
      exact continuesName_iff.mp (List.mem_takeWhile_imp hc)
    · rwa [hrest]
    · exact endsName_dropWhile _
  · rintro ⟨hname, lead, rest, rfl, hlead, hrest⟩
    obtain ⟨c, name, rfl⟩ := List.exists_cons_of_ne_nil hne
    have hblank := (hname.plain c List.mem_cons_self).1
    rw [Text.trimStart_append hlead, List.cons_append, Text.trimStart_cons hblank,
      ← List.cons_append, List.takeWhile_append_of_pos, takeWhile_continuesName hrest, List.append_nil]
    exact fun d hd => continuesName_iff.mpr (hname.plain d hd)

theorem EndsName.append {rest trail : Text} (h : EndsName rest) (htrail : trail.all isBlank = true) :
    EndsName (rest ++ trail) := by
  intro c hc
  cases rest with
  | nil =>
    rw [List.all_eq_true] at htrail
    exact Or.inl (htrail c (List.mem_of_mem_head? hc))
  | cons d rest => exact h c hc

theorem EndsName.of_append {rest trail : Text} (h : EndsName (rest ++ trail)) : EndsName rest := by
  intro c hc
  cases rest with
  | nil => exact absurd hc (by simp)
  | cons d rest => exact h c hc

/-- Trimming the end of an entry leaves its name. -/
theorem IsName.trimEnd_append {name : Text} (h : IsName name) (front rest : Text) :
    Text.trimEnd (front ++ (name ++ rest)) = front ++ (name ++ rest.trimEnd) := by
  have hblank := (h.plain _ (List.getLast_mem h.ne_nil)).1
  have htrim := Text.trimEnd_append (s := front ++ name.dropLast) hblank rest
  rwa [List.append_assoc front, List.dropLast_concat_getLast, List.append_assoc,
    List.append_assoc] at htrim

theorem IsName.trimStart_append {name : Text} (h : IsName name) (rest : Text) :
    Text.trimStart (name ++ rest) = name ++ rest := by
  obtain ⟨c, name, rfl⟩ := List.exists_cons_of_ne_nil h.ne_nil
  exact Text.trimStart_cons (h.plain c List.mem_cons_self).1 (name ++ rest)

theorem IsName.head?_append {name : Text} (h : IsName name) (rest : Text) :
    (name ++ rest).head? = name.head? := by
  obtain ⟨c, name, rfl⟩ := List.exists_cons_of_ne_nil h.ne_nil
  rfl

/-! ### Reading an entry -/

/-- The name of an entry is the first name of its body. -/
theorem symbolOf?_eq_some {entry name : Text} : DefineSet.symbolOf? entry = some name ↔
    name ≠ [] ∧ ∃ body, DefineSet.bodyOf? entry = some body ∧
      body.firstWord.takeWhile (· ≠ '(') = name := by
  unfold DefineSet.symbolOf?
  constructor
  · intro h
    split at h
    · contradiction
    next body hbody =>
      split at h
      · contradiction
      next hne =>
        cases h
        exact ⟨hne, body, hbody, rfl⟩
  · rintro ⟨hne, body, hbody, rfl⟩
    rw [hbody]
    dsimp only
    split
    next hnil => exact absurd hnil hne
    next => rfl

/-- The body of an entry is all of it, or what stands behind `#define`. -/
theorem bodyOf?_eq_some {entry body : Text} : DefineSet.bodyOf? entry = some body ↔
    entry.trim = body ∧ body.head? ≠ some '#' ∨
      ∃ r : Text, entry.trim = '#' :: r ∧ r.trimStart = "define".toList ++ body := by
  rw [DefineSet.bodyOf?]
  split
  next r h =>
    constructor
    · exact fun hbody => Or.inr ⟨r, h, (List.append_eq_of_isPrefixOf?_eq_some hbody).symm⟩
    · rintro (⟨rfl, hhash⟩ | ⟨r', hr', hdefine⟩)
      · exact absurd (congrArg List.head? h) hhash
      · rw [(List.cons.inj (h.symm.trans hr')).2, List.isPrefixOf?_eq_some_iff_append_eq, hdefine]
  next h =>
    constructor
    · intro hbody
      refine Or.inl ⟨Option.some.inj hbody, fun hhash => ?_⟩
      obtain ⟨r, hr⟩ := List.head?_eq_some_iff.mp hhash
      exact h r ((Option.some.inj hbody).trans hr)
    · rintro (⟨rfl, -⟩ | ⟨r, hr, -⟩)
      · rfl
      · exact absurd hr (h r)

/-- An entry is read as a name exactly when it is written for it. -/
theorem symbolOf?_eq_some_iff {entry name : Text} :
    DefineSet.symbolOf? entry = some name ↔ IsName name ∧ StandsFor name entry := by
  rw [symbolOf?_eq_some]
  constructor
  · rintro ⟨hne, body, hbody, hfirst⟩
    obtain ⟨hname, gap', rest, rfl, hgap', hrest⟩ := (firstName_eq_iff hne).mp hfirst
    obtain ⟨lead, hlead, hleadBlank⟩ := entry.exists_trimStart
    obtain ⟨trail, htrail, htrailBlank⟩ := entry.trimStart.exists_trimEnd
    rw [← Text.trim] at htrail
    refine ⟨hname, ?_⟩
    rcases bodyOf?_eq_some.mp hbody with ⟨htrim, hhash⟩ | ⟨r, htrim, hdefine⟩
    · -- a trimmed entry does not begin with a blank
      have hgapNil : gap' = [] := by
        cases gap' with
        | nil => rfl
        | cons c gap' =>
          rw [htrim] at htrail
          rw [List.all_cons, Text.head_trimStart htrail] at hgap'
          exact Bool.noConfusion hgap'
      subst hgapNil
      have hentry : entry = lead ++ (name ++ (rest ++ trail)) := by
        rw [List.nil_append] at htrim
        rw [← List.append_assoc name, ← htrim, ← htrail]
        exact hlead
      rw [hentry]
      refine StandsFor.bare lead (rest ++ trail) hleadBlank ?_ (hrest.append htrailBlank)
      rwa [List.nil_append, hname.head?_append] at hhash
    · obtain ⟨gap, hgap, hgapBlank⟩ := r.exists_trimStart
      have hentry : entry = lead ++ '#' :: (gap ++ ("define".toList ++ (gap' ++
          (name ++ (rest ++ trail))))) := by
        rw [hlead, htrail, htrim, hgap, hdefine]
        simp only [List.append_assoc, List.cons_append]
      rw [hentry]
      exact StandsFor.directive lead gap gap' (rest ++ trail) hleadBlank hgapBlank hgap'
        (hrest.append htrailBlank)
  · rintro ⟨hname, hentry⟩
    refine ⟨hname.ne_nil, ?_⟩
    cases hentry with
    | bare lead rest hlead hhash hrest =>
      obtain ⟨trail, htrail, -⟩ := rest.exists_trimEnd
      rw [htrail] at hrest
      refine ⟨name ++ rest.trimEnd, bodyOf?_eq_some.mpr (Or.inl ⟨?_, ?_⟩), ?_⟩
      · rw [Text.trim, Text.trimStart_append hlead, hname.trimStart_append]
        exact hname.trimEnd_append [] rest
      · rwa [hname.head?_append]
      · exact (firstName_eq_iff hname.ne_nil).mpr
          ⟨hname, [], rest.trimEnd, rfl, rfl, hrest.of_append⟩
    | directive lead gap gap' rest hlead hgap hgap' hrest =>
      obtain ⟨trail, htrail, -⟩ := rest.exists_trimEnd
      rw [htrail] at hrest
      have htrim := hname.trimEnd_append ('#' :: (gap ++ ("define".toList ++ gap'))) rest
      simp only [List.cons_append, List.append_assoc] at htrim
      refine ⟨gap' ++ (name ++ rest.trimEnd), bodyOf?_eq_some.mpr (Or.inr
        ⟨gap ++ ("define".toList ++ (gap' ++ (name ++ rest.trimEnd))), ?_, ?_⟩), ?_⟩
      · rw [Text.trim, Text.trimStart_append hlead, Text.trimStart_cons (by decide)]
        exact htrim
      · rw [Text.trimStart_append hgap]
        exact Text.trimStart_cons (by decide) _
      · exact (firstName_eq_iff hname.ne_nil).mpr
          ⟨hname, gap', rest.trimEnd, rfl, hgap', hrest.of_append⟩

/-! ### Sets built from entries -/

namespace DefineSet

theorem contains_insert (set : DefineSet) (entry name : Text) :
    (set.insert entry).contains name = true ↔
      set.contains name = true ∨ symbolOf? entry = some name := by
  simp only [contains_iff_mem]
  cases hsymbol : symbolOf? entry with
  | none => simp [insert_of_eq_none hsymbol]
  | some new =>
    rw [Option.some.injEq]
    by_cases hold : new ∈ set.names
    · rw [insert_of_mem hsymbol hold]
      exact (or_iff_left_of_imp fun heq => heq ▸ hold).symm
    · rw [insert_of_not_mem hsymbol hold, List.mem_append, List.mem_singleton, eq_comm]

/-- A set contains the names it had and those of the entries added to it. -/
theorem contains_insertAll (name : Text) : ∀ (entries : List Text) (set : DefineSet),
    (set.insertAll entries).contains name = true ↔
      set.contains name = true ∨ ∃ entry ∈ entries, symbolOf? entry = some name
  | [], set => by simp [insertAll]
  | entry :: entries, set => by
    have ih := contains_insertAll name entries (set.insert entry)
    rw [insertAll, List.foldl_cons, ← insertAll, ih, contains_insert, or_assoc]
    simp

/-- A set built from entries contains the names that they stand for, in whatever order they come. -/
theorem contains_ofEntries {name : Text} (hname : IsName name) (entries : List Text) :
    (ofEntries entries).contains name = true ↔ ∃ entry ∈ entries, StandsFor name entry := by
  rw [ofEntries, contains_insertAll]
  simp [contains_iff_mem, empty, symbolOf?_eq_some_iff, hname]

end DefineSet

/-! ### What a dialect asks of the defines -/

/-- An entry of the list stands for the symbol of multiview. -/
def AsksMultiview (entries : List Text) : Prop :=
  ∃ entry ∈ entries, StandsFor "MULTIVIEW".toList entry

theorem contains_multiview_iff (entries : List Text) :
    (DefineSet.ofEntries entries).contains "MULTIVIEW".toList = true ↔ AsksMultiview entries :=
  DefineSet.contains_ofEntries (by decide) entries

/-- The vertex stage asks for one symbol, and puts a header in front where it is defined. -/
theorem Rules.finish_vertex (rules : Rules) (defines : DefineSet) (s : Text) :
    rules.finish defines .vertex s =
      (if defines.contains rules.multiviewSymbol.toList then rules.multiviewHeader.toList else []) ++
        rules.common s := by
  rw [finish]
  split <;> rfl

/-- The defines count only by the symbol of multiview, and only for a vertex shader in a dialect with
    rules: two lists of entries give the same text unless only one of them asks for multiview there, and
    then the one text is the header in front of the other. -/
theorem adapt_ofEntries {dialect : Dialect} (h : dialect ∈ Dialect.builtin) (stage : Stage)
    (s : Text) (entries entries' : List Text) :
    ((stage = .vertex → dialect ≠ .glsl100 → (AsksMultiview entries ↔ AsksMultiview entries')) →
      dialect.adapt (.ofEntries entries) stage s = dialect.adapt (.ofEntries entries') stage s) ∧
    ∀ name rules, dialect = .ruled name rules → stage = .vertex →
      AsksMultiview entries → ¬ AsksMultiview entries' →
        dialect.adapt (.ofEntries entries) stage s =
          rules.multiviewHeader.toList ++ dialect.adapt (.ofEntries entries') stage s := by
  have hsymbol : ∀ name rules, dialect = .ruled name rules →
      rules.multiviewSymbol = "MULTIVIEW" := by
    rintro name rules rfl
    simp only [Dialect.builtin, Dialect.glsl100, Dialect.glsl300es, Dialect.glsl450, List.mem_cons,
      Dialect.ruled.injEq, List.not_mem_nil, or_false, reduceCtorEq, false_or] at h
    rcases h with ⟨-, rfl⟩ | ⟨-, rfl⟩ <;> rfl
  have hvertex : ∀ name rules, dialect = .ruled name rules → ∀ defines,
      dialect.adapt defines .vertex s =
        (if defines.contains "MULTIVIEW".toList then rules.multiviewHeader.toList else []) ++
          rules.common (dialect.adaptDeclarations .vertex s) := by
    rintro name rules rfl defines
    rw [← hsymbol name rules rfl, ← Rules.finish_vertex]
    rfl
  constructor
  · intro hasks
    cases dialect with
    | neutral => rfl
    | ruled name rules =>
      cases stage with
      | fragment => rfl
      | vertex =>
        have hsame := hasks rfl Dialect.noConfusion
        rw [← contains_multiview_iff, ← contains_multiview_iff, ← Bool.eq_iff_iff] at hsame
        rw [hvertex name rules rfl, hvertex name rules rfl, hsame]
  · rintro name rules hdialect rfl hasks hnot
    rw [← contains_multiview_iff] at hasks hnot
    rw [hvertex name rules hdialect, hvertex name rules hdialect, if_pos hasks, if_neg hnot,
      List.nil_append]

/-- Of two lists only the second asks for multiview, by a padded directive behind an entry that is none;
    the neutral dialect does not mind. -/
theorem adapt_ofEntries_multiview :
    Dialect.glsl300es ∈ Dialect.builtin ∧
      AsksMultiview ["#undef X".toList, " # define MULTIVIEW(n) n ".toList] ∧
      ¬ AsksMultiview ["FOG MULTIVIEW".toList, "FOG".toList] ∧
      Dialect.glsl300es.adapt
          (.ofEntries ["#undef X".toList, " # define MULTIVIEW(n) n ".toList]) .vertex
          "attribute vec3 p;".toList =
        ("#extension GL_OVR_multiview2 : require\nlayout (num_views = 2) in;\n" ++
          "in vec3 p;").toList := by
  have h : Dialect.glsl300es ∈ Dialect.builtin := by decide
  have hasks : AsksMultiview ["#undef X".toList, " # define MULTIVIEW(n) n ".toList] := by
    rw [← contains_multiview_iff]
    decide
  have hnot : ¬ AsksMultiview ["FOG MULTIVIEW".toList, "FOG".toList] := by
    rw [← contains_multiview_iff]
    decide
  have hheader := (adapt_ofEntries h .vertex "attribute vec3 p;".toList _ _).2 "glsl300es" .glsl300es
    rfl rfl hasks hnot
  exact ⟨h, hasks, hnot, hheader.trans (by decide)⟩

end Shading
