import PklBindings.Proofs.Docstrings

/-!
# Comments in generated code

The documentation of a type alias or of a property is put behind number signs, one for each of its
lines, and lines are cut at line feeds. Python also cuts lines at carriage returns
(`physicalLines`), so what stands behind one is no part of the comment any more. The documentation
stays a comment exactly when everything behind a carriage return begins another comment or is
blank up to the next line feed (`DocComment.StaysComment`, `Member.comments_stay_iff`).
-/

namespace PklBindings

/-! ## Lines of source text -/

/-- Puts a character in front of the first line. -/
def consFirst (c : Char) : List (List Char) → List (List Char)
  | [] => [[c]]
  | line :: lines => (c :: line) :: lines

/-- The lines of a source text as Python cuts them: at a line feed, at a carriage return, and at
both together once. -/
def physicalLines : List Char → List (List Char)
  | [] => []
  | '\r' :: '\n' :: cs => [] :: physicalLines cs
  | '\r' :: cs => [] :: physicalLines cs
  | '\n' :: cs => [] :: physicalLines cs
  | c :: cs => consFirst c (physicalLines cs)

/-- What Python skips at the start of a line. -/
def isIndentation (c : Char) : Bool :=
  c = ' ' || c = '\t' || c = '\x0c'

/-- The first character behind the indentation is a number sign. -/
def StartsComment (line : List Char) : Prop :=
  ['#'] <+: line.dropWhile isIndentation

instance (line : List Char) : Decidable (StartsComment line) :=
  inferInstanceAs (Decidable (_ <+: _))

theorem physicalLines_return_cons {c : Char} (hc : c ≠ '\n') (cs : List Char) :
    physicalLines ('\r' :: c :: cs) = [] :: physicalLines (c :: cs) := by
  rw [physicalLines]
  rintro rest ⟨⟩
  exact hc rfl

theorem physicalLines_cons {c : Char} (hreturn : c ≠ '\r') (hfeed : c ≠ '\n') (cs : List Char) :
    physicalLines (c :: cs) = consFirst c (physicalLines cs) := by
  rw [physicalLines]
  · rintro rest rfl
    exact absurd rfl hreturn
  · exact hreturn
  · exact hfeed

theorem consFirst_append {c : Char} {lines : List (List Char)} (h : lines ≠ [])
    (others : List (List Char)) : consFirst c (lines ++ others) = consFirst c lines ++ others := by
  cases lines with
  | nil => exact absurd rfl h
  | cons line lines => rfl

theorem physicalLines_ne_nil {cs : List Char} (h : cs ≠ []) : physicalLines cs ≠ [] := by
  fun_cases physicalLines cs with
  | case1 => exact absurd rfl h
  | case2 cs => exact List.cons_ne_nil _ _
  | case3 cs _ => exact List.cons_ne_nil _ _
  | case4 cs => exact List.cons_ne_nil _ _
  | case5 c cs _ _ _ => cases physicalLines cs <;> exact List.cons_ne_nil _ _

/-- A line feed ends a line, whatever stands in front of it. -/
theorem physicalLines_append_newline (front behind : List Char) :
    physicalLines (front ++ '\n' :: behind) =
      physicalLines (front ++ ['\n']) ++ physicalLines behind := by
  fun_induction physicalLines front with
  | case1 => rfl
  | case2 cs ih => exact congrArg ([] :: ·) ih
  | case3 cs hcs ih =>
      cases cs with
      | nil => rfl
      | cons c cs =>
          have hc : c ≠ '\n' := by
            rintro rfl
            exact hcs cs rfl
          simp only [List.cons_append, physicalLines_return_cons hc] at ih ⊢
          rw [ih]
  | case4 cs ih => exact congrArg ([] :: ·) ih
  | case5 c cs _ hreturn hfeed ih =>
      simp only [List.cons_append, physicalLines_cons hreturn hfeed]
      rw [ih, consFirst_append (physicalLines_ne_nil (by simp))]

/-- Lines that end with line feeds are cut one by one. -/
theorem physicalLines_flatMap_append (rows : List (List Char)) (behind : List Char) :
    physicalLines (rows.flatMap (· ++ ['\n']) ++ behind) =
      rows.flatMap (fun row => physicalLines (row ++ ['\n'])) ++ physicalLines behind := by
  induction rows with
  | nil => rfl
  | cons row rows ih =>
      rw [List.flatMap_cons, List.flatMap_cons, List.append_assoc, List.append_assoc,
        List.append_assoc, List.singleton_append, physicalLines_append_newline, ih]

/-! ## Behind carriage returns -/

/-- What stands behind each carriage return of the text. -/
def BehindReturns (p : List Char → Prop) (cs : List Char) : Prop :=
  ∀ front behind, cs = front ++ '\r' :: behind → p behind

theorem behindReturns_nil (p : List Char → Prop) : BehindReturns p [] := by
  intro front behind h
  simp at h

theorem behindReturns_cons {p : List Char → Prop} {c : Char} {cs : List Char} :
    BehindReturns p (c :: cs) ↔ (c = '\r' → p cs) ∧ BehindReturns p cs := by
  constructor
  · intro h
    refine ⟨?_, fun front behind heq => h (c :: front) behind (by rw [heq, List.cons_append])⟩
    rintro rfl
    exact h [] cs rfl
  · rintro ⟨hfirst, hrest⟩ front behind heq
    cases front with
    | nil =>
        cases heq
        exact hfirst rfl
    | cons d front =>
        cases heq
        exact hrest front behind rfl

theorem behindReturns_append {p : List Char → Prop} {front : List Char} (h : '\r' ∉ front)
    (cs : List Char) : BehindReturns p (front ++ cs) ↔ BehindReturns p cs := by
  induction front with
  | nil => rfl
  | cons c front ih =>
      rw [List.mem_cons, not_or] at h
      rw [List.cons_append, behindReturns_cons, ih h.2]
      simp [Ne.symm h.1]

/-! ## Comments on one line of documentation -/

theorem startsComment_append {front behind : List Char} (h : ¬ StartsComment behind) :
    StartsComment (front ++ behind) ↔ StartsComment front := by
  rw [StartsComment, StartsComment, List.dropWhile_append]
  rw [StartsComment] at h
  cases hfront : front.dropWhile isIndentation with
  | nil => simp [h]
  | cons c cs => simp

/-- Whether a text starts a comment is seen on its first line. -/
theorem startsComment_takeWhile {stop : Char} (hindentation : isIndentation stop = false)
    (hsign : stop ≠ '#') (cs : List Char) :
    StartsComment (cs.takeWhile (· ≠ stop)) ↔ StartsComment cs := by
  have hbehind : ¬ StartsComment (cs.dropWhile (· ≠ stop)) := by
    cases hdrop : cs.dropWhile (· ≠ stop) with
    | nil => decide
    | cons c behind =>
        have hne : cs.dropWhile (· ≠ stop) ≠ [] := hdrop ▸ List.cons_ne_nil c behind
        have hc := List.head_dropWhile_not (· ≠ stop) hne
        simp only [hdrop, List.head_cons, decide_eq_false_iff_not, not_not] at hc
        rw [hc, StartsComment, List.dropWhile_cons_of_neg (by simp [hindentation]),
          List.cons_prefix_cons]
        exact fun hcomment => hsign hcomment.1.symm
  rw [← startsComment_append hbehind, List.takeWhile_append_dropWhile]

/-- The first of the lines that a line of text is cut into ends at its first carriage return. All
others begin behind one, and one at the end of the text is part of the line feed. -/
theorem exists_physicalLines_eq {cs : List Char} (h : '\n' ∉ cs) :
    ∃ others, physicalLines (cs ++ ['\n']) = cs.takeWhile (· ≠ '\r') :: others ∧
      ((∀ line ∈ others, StartsComment line) ↔
        BehindReturns (fun behind => behind ≠ [] → StartsComment behind) cs) := by
  induction cs with
  | nil => exact ⟨[], rfl, by simp [behindReturns_nil]⟩
  | cons c cs ih =>
      rw [List.mem_cons, not_or] at h
      obtain ⟨others, hothers, hcomments⟩ := ih h.2
      rw [behindReturns_cons, ← hcomments]
      by_cases hreturn : c = '\r'
      · subst hreturn
        cases cs with
        | nil =>
            have hnone := hcomments.2 (behindReturns_nil _)
            exact ⟨[], rfl, by simpa using hnone⟩
        | cons d cs =>
            have hd : d ≠ '\n' := by
              rintro rfl
              exact h.2 (List.mem_cons_self ..)
            refine ⟨(d :: cs).takeWhile (· ≠ '\r') :: others, ?_, ?_⟩
            · rw [List.cons_append, List.cons_append, physicalLines_return_cons hd,
                ← List.cons_append, hothers]
              rfl
            · rw [List.forall_mem_cons, startsComment_takeWhile (by decide) (by decide)]
              simp
      · refine ⟨others, ?_, by simp [hreturn]⟩
        rw [List.cons_append, physicalLines_cons hreturn (Ne.symm h.1), hothers,
          List.takeWhile_cons_of_pos (by simpa using hreturn)]
        rfl

/-! ## Comments on a whole documentation -/

namespace DocComment

/-- What stands behind a carriage return, up to the next line feed, begins a comment or is blank. -/
def GoesOnAsComment (behind : List Char) : Prop :=
  (∃ c ∈ behind.takeWhile (· ≠ '\n'), Text.isBlank c = false) → StartsComment behind

/-- Everything that the documentation puts behind carriage returns stays a comment. -/
def StaysComment (doc : String) : Prop :=
  BehindReturns GoesOnAsComment doc.toList

theorem behindReturns_of_isBlank {cs : List Char} (h : ∀ c ∈ cs, Text.isBlank c = true) :
    BehindReturns GoesOnAsComment cs := by
  rintro front behind rfl ⟨c, hc, hvisible⟩
  have hmem : c ∈ behind := (List.takeWhile_prefix _).subset hc
  rw [h c (by simp [hmem])] at hvisible
  cases hvisible

/-- Of the text behind a carriage return only the part up to the next line feed counts. -/
theorem goesOnAsComment_takeWhile (behind : List Char) :
    GoesOnAsComment (behind.takeWhile (· ≠ '\n')) ↔ GoesOnAsComment behind := by
  rw [GoesOnAsComment, GoesOnAsComment, List.takeWhile_idem,
    startsComment_takeWhile (by decide) (by decide)]

theorem goesOnAsComment_iff_of_visible {behind : List Char} (hfeed : '\n' ∉ behind)
    (hvisible : ∃ c ∈ behind, Text.isBlank c = false) :
    GoesOnAsComment behind ↔ StartsComment behind := by
  have hline : behind.takeWhile (· ≠ '\n') = behind := by
    rw [List.takeWhile_eq_self_iff]
    intro c hc
    rw [decide_eq_true_eq]
    rintro rfl
    exact hfeed hc
  rw [GoesOnAsComment, hline]
  exact ⟨fun h => h hvisible, fun h _ => h⟩

theorem exists_splitLines_eq (cs : List Char) :
    ∃ pieces, Text.splitLines cs = cs.takeWhile (· ≠ '\n') :: pieces := by
  induction cs with
  | nil => exact ⟨[], rfl⟩
  | cons c cs ih =>
      obtain ⟨pieces, hpieces⟩ := ih
      rw [Text.splitLines, hpieces]
      by_cases hc : c = '\n'
      · exact ⟨cs.takeWhile (· ≠ '\n') :: pieces, by simp [hc]⟩
      · exact ⟨pieces, by simp [hc]⟩

/-- A documentation stays a comment when each of its lines does. -/
theorem forall_splitLines_iff (cs : List Char) :
    (∀ piece ∈ Text.splitLines cs, BehindReturns GoesOnAsComment piece) ↔
      BehindReturns GoesOnAsComment cs := by
  induction cs with
  | nil => simp [Text.splitLines]
  | cons c cs ih =>
      rw [behindReturns_cons, ← ih, Text.splitLines]
      by_cases hc : c = '\n'
      · simp [hc, behindReturns_nil]
      · obtain ⟨pieces, hpieces⟩ := exists_splitLines_eq cs
        rw [if_neg hc, hpieces]
        simp only [List.forall_mem_cons, behindReturns_cons, goesOnAsComment_takeWhile, and_assoc]

theorem not_startsComment_of_isBlank {cs : List Char} (h : ∀ c ∈ cs, Text.isBlank c = true) :
    ¬ StartsComment cs := by
  intro hcomment
  have hmem : '#' ∈ cs :=
    (List.dropWhile_suffix _).subset (hcomment.subset (List.mem_singleton_self _))
  exact absurd (h _ hmem) (by decide)

/-- The blanks at the end of a line do not matter: without them, what stands behind a carriage
return is a comment or nothing. -/
theorem behindReturns_append_blanks {text blanks : List Char}
    (hlast : ∀ last, text.getLast? = some last → Text.isBlank last = false)
    (hblanks : ∀ c ∈ blanks, Text.isBlank c = true) (hfeed : '\n' ∉ text ++ blanks) :
    BehindReturns GoesOnAsComment (text ++ blanks) ↔
      BehindReturns (fun behind => behind ≠ [] → StartsComment behind) text := by
  induction text with
  | nil => exact iff_of_true (behindReturns_of_isBlank hblanks) (behindReturns_nil _)
  | cons c text ih =>
      rw [List.cons_append, List.mem_cons, not_or] at hfeed
      cases text with
      | nil =>
          -- The last character is visible, so it is no carriage return.
          have hc : c ≠ '\r' := by
            rintro rfl
            exact absurd (hlast _ rfl) (by decide)
          rw [List.singleton_append, behindReturns_cons, behindReturns_cons]
          simp [hc, behindReturns_nil, behindReturns_of_isBlank hblanks]
      | cons d text =>
          have hlast' : ∀ last, (d :: text).getLast? = some last → Text.isBlank last = false := by
            intro last h
            exact hlast last (by rwa [List.getLast?_cons_cons])
          have hvisible : ∃ e ∈ d :: text ++ blanks, Text.isBlank e = false :=
            ⟨_, List.mem_append_left _ (List.getLast_mem (List.cons_ne_nil d text)),
              hlast' _ (List.getLast?_eq_some_getLast _)⟩
          have hrest := ih hlast' hfeed.2
          rw [List.cons_append, behindReturns_cons, behindReturns_cons, hrest,
            goesOnAsComment_iff_of_visible hfeed.2 hvisible,
            startsComment_append (not_startsComment_of_isBlank hblanks)]
          simp

/-! ## Comments in a block -/

theorem startsComment_of_isIndentation {front : List Char}
    (h : ∀ c ∈ front, isIndentation c = true) (behind : List Char) :
    StartsComment (front ++ '#' :: behind) := by
  rw [StartsComment, List.dropWhile_append_of_pos h]
  exact ⟨behind, rfl⟩

/-- Behind its number sign a comment line has the line of documentation. -/
theorem exists_toList_commentLine (line : String) :
    ∃ behind, (commentLine line).toList = '#' :: behind ∧
      (∀ c ∈ behind, c = ' ' ∨ c ∈ line.toList) ∧
      ∀ p, BehindReturns p behind ↔ BehindReturns p line.toList := by
  rw [toList_commentLine]
  split
  · rename_i hempty
    exact ⟨[], rfl, by simp, fun p => by rw [hempty]; rfl⟩
  · refine ⟨' ' :: line.toList, rfl, by simp, ?_⟩
    intro p
    rw [behindReturns_cons]
    simp

theorem newline_notMem_of_mem_splitLines {cs piece : List Char} (h : piece ∈ Text.splitLines cs) :
    '\n' ∉ piece := by
  rw [Text.splitLines_eq_splitOn] at h
  exact Text.notMem_of_mem_splitOn h

theorem newline_notMem_trimmed {piece : List Char} (h : '\n' ∉ piece) :
    '\n' ∉ (String.ofList (Text.trimRightChars piece)).toList := by
  rw [String.toList_ofList]
  exact fun hmem => h ((List.rdropWhile_prefix _ _).subset hmem)

/-- A comment line is one line of the block. -/
theorem newline_notMem_of_mem_commentLines {doc line : String} (h : line ∈ commentLines doc) :
    '\n' ∉ line.toList := by
  obtain ⟨text, htext, rfl⟩ := List.mem_map.1 h
  obtain ⟨piece, hpiece, rfl⟩ := List.mem_map.1 htext
  obtain ⟨behind, hchars, hbehind, -⟩ := exists_toList_commentLine
    (.ofList (Text.trimRightChars piece))
  rw [hchars, List.mem_cons]
  rintro (hsign | hmem)
  · cases hsign
  rcases hbehind _ hmem with hblank | hmem
  · cases hblank
  · exact newline_notMem_trimmed (newline_notMem_of_mem_splitLines hpiece) hmem

/-- The lines that Python cuts a comment line into. -/
theorem forall_physicalLines_commentLine {indentation : List Char}
    (hindentation : ∀ c ∈ indentation, c = ' ' ∨ c = '\t') {line : String}
    (hline : '\n' ∉ line.toList) :
    (∀ physical ∈ physicalLines (indented indentation (commentLine line).toList ++ ['\n']),
      StartsComment physical) ↔
      BehindReturns (fun behind => behind ≠ [] → StartsComment behind) line.toList := by
  obtain ⟨behind, hchars, hbehind, hreturns⟩ := exists_toList_commentLine line
  have hfeed : '\n' ∉ indentation ++ '#' :: behind := by
    rw [List.mem_append, List.mem_cons]
    rintro (hmem | hmem | hmem)
    · simpa using hindentation _ hmem
    · cases hmem
    · rcases hbehind _ hmem with hblank | hmem
      · cases hblank
      · exact hline hmem
  have hreturn : '\r' ∉ indentation := by
    intro hmem
    simpa using hindentation _ hmem
  have hskipped : ∀ c ∈ indentation, isIndentation c = true := by
    intro c hc
    obtain rfl | rfl := hindentation c hc <;> rfl
  obtain ⟨others, hlines, hothers⟩ := exists_physicalLines_eq hfeed
  rw [indented, hchars, if_neg (List.cons_ne_nil _ _), hlines, List.forall_mem_cons, hothers,
    startsComment_takeWhile (by decide) (by decide), behindReturns_append hreturn,
    behindReturns_cons, hreturns]
  simp [startsComment_of_isIndentation hskipped]

/-- All lines that Python cuts the comment lines of a documentation into. -/
theorem forall_physicalLines_commentLines {indentation : List Char}
    (hindentation : ∀ c ∈ indentation, c = ' ' ∨ c = '\t') (doc : String) :
    (∀ physical ∈ physicalLines ((commentLines doc).flatMap fun text =>
        indented indentation text.toList ++ ['\n']), StartsComment physical) ↔
      StaysComment doc := by
  have hrows := physicalLines_flatMap_append
    ((commentLines doc).map fun text => indented indentation text.toList) []
  rw [List.flatMap_map, List.flatMap_map, List.append_nil, physicalLines, List.append_nil] at hrows
  rw [hrows, List.forall_mem_flatMap, StaysComment, ← forall_splitLines_iff, commentLines,
    Text.trimmedLines, List.forall_mem_map, List.forall_mem_map]
  apply forall₂_congr
  intro piece hpiece
  have hfeed := newline_notMem_of_mem_splitLines hpiece
  have hsplit : piece.rdropWhile Text.isBlank ++ piece.rtakeWhile Text.isBlank = piece :=
    List.rdropWhile_append_rtakeWhile ..
  have hlast : ∀ last, (piece.rdropWhile Text.isBlank).getLast? = some last →
      Text.isBlank last = false := by
    intro last hlast
    have hne : piece.rdropWhile Text.isBlank ≠ [] := by
      intro hempty
      rw [hempty] at hlast
      cases hlast
    rw [List.getLast?_eq_some_getLast hne] at hlast
    cases hlast
    simpa using List.rdropWhile_last_not Text.isBlank piece hne
  have htrimmed := behindReturns_append_blanks hlast (fun _ => List.mem_rtakeWhile_imp)
    (by rwa [hsplit])
  rw [hsplit] at htrimmed
  rw [htrimmed, forall_physicalLines_commentLine hindentation (newline_notMem_trimmed hfeed),
    String.toList_ofList]
  rfl

theorem exists_row_render (line : BlockLine) (indentUnit : String) :
    ∃ row, (line.render indentUnit).toList = row ++ ['\n'] := by
  rw [BlockLine.render]
  split
  · exact ⟨[], rfl⟩
  · exact ⟨_, String.toList_append⟩

/-- The text of a block ends with a line feed, if there is any. -/
theorem exists_rows_render (lines : List BlockLine) (indentUnit : String) :
    ∃ rows : List (List Char),
      (String.join (lines.map (·.render indentUnit))).toList = rows.flatMap (· ++ ['\n']) := by
  induction lines with
  | nil => exact ⟨[], rfl⟩
  | cons line lines ih =>
      obtain ⟨row, hrow⟩ := exists_row_render line indentUnit
      obtain ⟨rows, hrows⟩ := ih
      refine ⟨row :: rows, ?_⟩
      rw [String.toList_join] at hrows ⊢
      rw [List.map_cons, List.flatMap_cons, hrow, hrows, List.flatMap_cons]

/-- The comment lines of `doc`, added to a block, are rendered as `text` behind the text of the
block. Python cuts the two into lines apart, and all lines of `text` are comments exactly when the
documentation stays a comment. -/
structure IsCommentText (indentUnit : String) (block : Block) (doc : String) (text : List Char) :
    Prop where
  render_eq : ((block.addLines (commentLines doc)).render indentUnit).toList =
    (block.render indentUnit).toList ++ text
  lines_eq : physicalLines ((block.addLines (commentLines doc)).render indentUnit).toList =
    physicalLines (block.render indentUnit).toList ++ physicalLines text
  comments_iff : (∀ line ∈ physicalLines text, StartsComment line) ↔ StaysComment doc

theorem exists_isCommentText {indentUnit : String}
    (hunit : ∀ c ∈ indentUnit.toList, c = ' ' ∨ c = '\t') (block : Block) (doc : String) :
    ∃ text, IsCommentText indentUnit block doc text := by
  have hrender := toList_render_addLines block (commentLines doc) indentUnit
  refine ⟨_, hrender, ?_, forall_physicalLines_commentLines ?_ doc⟩
  · obtain ⟨rows, hrows⟩ := exists_rows_render block.lines.toList indentUnit
    have hblock := physicalLines_flatMap_append rows []
    rw [List.append_nil, physicalLines, List.append_nil] at hblock
    rw [hrender, Block.render, hrows, physicalLines_flatMap_append, hblock]
  · exact fun c => mem_indentation hunit

end DocComment

/-! ## The comments of a member -/

namespace Member

variable {d : Declaration} {position : Nat} {target : Target} {member : Member} {doc : String}

/-- The documentation of a type alias stands as comment lines at the start of its member. -/
theorem exists_alias_comment (h : ofDeclaration d position target = .ok member)
    (hkind : d.kind = .typeAlias) (hdoc : d.doc = some doc) :
    ∃ rest, member.body.lines.toList =
      (Block.empty.addLines (DocComment.commentLines doc)).lines.toList ++ rest := by
  obtain ⟨outer, inner, hlayers, hlines⟩ := exists_layers_of_ofDeclaration h
  cases hlayers with
  | @typeAlias s _ _ =>
      refine ⟨[.atLevel 0 (member.name ++ " = " ++ s)], ?_⟩
      rw [hlines, hdoc, Block.lines_addLines]
      simp [Block.layers, Block.empty]
  | enumeration hd =>
      rw [hd] at hkind
      cases hkind
  | dataclass hd _ => rcases hd with hd | hd <;> rw [hd] at hkind <;> cases hkind

/-- The documentation of a visible property stands as comment lines in front of its field. -/
theorem exists_property_comment (h : ofDeclaration d position target = .ok member)
    (hkind : d.kind.mayInherit = true) {p : Property} (hp : p ∈ d.visibleProperties)
    (hdoc : p.doc = some doc) :
    ∃ (front : Block) (rest : List BlockLine), front.level = 1 ∧
      member.body.lines.toList =
        (front.addLines (DocComment.commentLines doc)).lines.toList ++ rest := by
  obtain ⟨outer, inner, hlayers, hlines⟩ := exists_layers_of_ofDeclaration h
  cases hlayers with
  | typeAlias hd _ =>
      rw [hd] at hkind
      cases hkind
  | enumeration hd =>
      rw [hd] at hkind
      cases hkind
  | @dataclass superclass fields _ htext =>
      obtain ⟨field, hzip, hshows⟩ :=
        exists_mem_zip_of_mem_left (DataField.shows_of_ofProperties htext.fields_eq) hp
      have hfield : field.lines =
          DocComment.commentLines doc ++ [field.name ++ ": " ++ field.annotation] := by
        rw [DataField.lines, hshows.property_eq, hdoc]
        rfl
      obtain ⟨earlier, later, hfields⟩ := List.append_of_mem (List.of_mem_zip hzip).2
      obtain ⟨behind, hinner⟩ : ∃ behind, dataclassLines d.qualifiedName d.doc fields =
          (DocComment.classLines d.doc ++ earlier.flatMap DataField.lines) ++
            (DocComment.commentLines doc ++ behind) := by
        rw [dataclassLines_eq, dataclassStatements, hfields, List.flatMap_append,
          List.flatMap_cons, hfield]
        simp only [List.append_assoc]
        exact ⟨_, rfl⟩
      obtain ⟨front, hlevel, hfront⟩ := Block.exists_layers_eq
        ["@dataclass", "class " ++ member.name ++ superclassClause target superclass ++ ":"]
        (DocComment.classLines d.doc ++ earlier.flatMap DataField.lines)
        (DocComment.commentLines doc) behind
      exact ⟨front, _, hlevel, by rw [hlines, hinner, hfront]⟩

/-- At every level and with every indentation of spaces and tabs, the comment lines of a
documentation are comments for Python exactly when the documentation stays a comment. The
documentations of type aliases and of visible properties are added as such lines. -/
theorem comments_stay_iff {indentUnit : String}
    (hunit : ∀ c ∈ indentUnit.toList, c = ' ' ∨ c = '\t') :
    (∀ (block : Block) (doc : String),
      ∃ text, DocComment.IsCommentText indentUnit block doc text) ∧
    ∀ (d : Declaration) (position : Nat) (target : Target) (member : Member) (doc : String),
      ofDeclaration d position target = .ok member →
      (d.kind = .typeAlias → d.doc = some doc → ∃ rest, member.body.lines.toList =
        (Block.empty.addLines (DocComment.commentLines doc)).lines.toList ++ rest) ∧
      (d.kind.mayInherit = true → ∀ p ∈ d.visibleProperties, p.doc = some doc →
        ∃ (front : Block) (rest : List BlockLine), front.level = 1 ∧
          member.body.lines.toList =
            (front.addLines (DocComment.commentLines doc)).lines.toList ++ rest) := by
  refine ⟨DocComment.exists_isCommentText hunit, ?_⟩
  intro d position target member doc hmade
  refine ⟨exists_alias_comment hmade, ?_⟩
  intro hkind p hp hdoc
  exact exists_property_comment hmade hkind hp hdoc

/-- A class with a property whose documentation has lines of three kinds of ends, and behind its
lone carriage return another comment. -/
def commentedClass : Declaration where
  kind := .ordinaryClass
  name := "C"
  moduleName := "m"
  properties := [{ name := "p", type := .primitive {} .int, doc := some "one\r\ntwo\r\t# three\n" }]

/-- The namespace of that class, with a tab for each level. -/
def commentedTarget : Target where
  space := "m"
  bindings := ⟨[
    { kind := .ordinaryClass, source := "m#C", space := "m", name := "C" },
    { kind := .typeAlias, source := "m#A", space := "m", name := "A" }]⟩
  indentUnit := "\t"

theorem comments_stay_iff_commentedClass :
    ∃ member p doc, ofDeclaration commentedClass 0 commentedTarget = .ok member ∧
      p ∈ commentedClass.visibleProperties ∧ p.doc = some doc ∧
      ∃ (front : Block) (rest : List BlockLine) (text : List Char), front.level = 1 ∧
        member.body.lines.toList =
          (front.addLines (DocComment.commentLines doc)).lines.toList ++ rest ∧
        DocComment.IsCommentText commentedTarget.indentUnit front doc text := by
  have hunit : ∀ c ∈ commentedTarget.indentUnit.toList, c = ' ' ∨ c = '\t' := by
    simp [commentedTarget]
  obtain ⟨hblock, hmember⟩ := comments_stay_iff hunit
  have hmade : ∃ member, ofDeclaration commentedClass 0 commentedTarget = .ok member := ⟨_, rfl⟩
  obtain ⟨member, hmade⟩ := hmade
  obtain ⟨-, hproperty⟩ := hmember commentedClass 0 commentedTarget member _ hmade
  obtain ⟨front, rest, hlevel, hlines⟩ := hproperty rfl _ (List.mem_cons_self ..) rfl
  obtain ⟨text, htext⟩ := hblock front _
  exact ⟨member, _, _, hmade, List.mem_cons_self .., rfl, front, rest, text, hlevel, hlines, htext⟩

/-- A type alias whose documentation has a carriage return in front of a statement. -/
def brokenAlias : Declaration where
  kind := .typeAlias
  name := "A"
  moduleName := "m"
  doc := some "a\rimport os"
  aliasedType := .primitive {} .int

/-- A statement in a documentation can become a statement of the generated code. -/
theorem exists_line_not_comment :
    ∃ member doc rest, ofDeclaration brokenAlias 0 commentedTarget = .ok member ∧
      brokenAlias.doc = some doc ∧
      member.body.lines.toList =
        (Block.empty.addLines (DocComment.commentLines doc)).lines.toList ++ rest ∧
      ∃ line ∈ physicalLines ((Block.empty.addLines (DocComment.commentLines doc)).render
        commentedTarget.indentUnit).toList, line = "import os".toList ∧ ¬ StartsComment line := by
  refine ⟨_, _, [.atLevel 0 "A = int"], rfl, rfl, rfl, "import os".toList, ?_, rfl, by decide⟩
  decide

end Member

end PklBindings
