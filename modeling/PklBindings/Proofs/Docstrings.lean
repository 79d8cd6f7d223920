import PklBindings.Proofs.ClassAttributes
import Mathlib.Data.List.DropRight

/-!
# Reading docstrings

The docstring of a class, read back from the generated code. Behind the triple quote in front, the
first triple quote that no backslash escapes is the one at the end of the docstring
(`untilTripleQuote`). The lines between the two, without their indentation (`enclosedLines?`) and
without their escapes (`unescape?`), are the lines of the documentation (`docLines`). This holds at
every level and with every indentation of spaces and tabs (`docstring_reads_back`).
-/

namespace PklBindings

/-! ## Pieces of a text -/

theorem Text.splitLines_eq_splitOn (cs : List Char) : splitLines cs = cs.splitOn '\n' := by
  induction cs with
  | nil => rfl
  | cons c cs ih =>
      rw [splitLines, List.splitOn_cons_eq_if_modifyHead, ih]
      obtain ⟨piece, pieces, hpieces⟩ := List.exists_cons_of_ne_nil (List.splitOn_ne_nil '\n' cs)
      rw [hpieces]
      simp

theorem Text.notMem_of_mem_splitOn {cs piece : List Char} (h : piece ∈ cs.splitOn '\n') :
    '\n' ∉ piece := by
  induction cs generalizing piece with
  | nil => simp_all
  | cons c cs ih =>
      obtain ⟨first, pieces, hpieces⟩ := List.exists_cons_of_ne_nil (List.splitOn_ne_nil '\n' cs)
      rw [List.splitOn_cons_eq_if_modifyHead] at h
      rw [hpieces] at h ih
      by_cases hc : c = '\n'
      · simp only [hc, BEq.rfl, if_true, List.mem_cons] at h
        rcases h with rfl | h
        · simp
        · exact ih (List.mem_cons.2 h)
      · simp only [beq_iff_eq, hc, if_false, List.modifyHead_cons, List.mem_cons] at h
        rcases h with rfl | h
        · simp [Ne.symm hc, ih (List.mem_cons_self ..)]
        · exact ih (List.mem_cons_of_mem _ h)

/-- A text with a line feed has more than one piece. -/
theorem Text.splitOn_ne_singleton {cs : List Char} (h : '\n' ∈ cs) (piece : List Char) :
    cs.splitOn '\n' ≠ [piece] := by
  intro hsingleton
  have hmem : piece ∈ cs.splitOn '\n' := by
    rw [hsingleton]
    exact List.mem_singleton_self piece
  have hjoin : ['\n'].intercalate (cs.splitOn '\n') = cs := List.intercalate_splitOn '\n'
  rw [hsingleton, List.intercalate_singleton] at hjoin
  rw [hjoin] at hmem
  exact notMem_of_mem_splitOn hmem h

theorem Text.map_ne_singleton {pieces : List (List Char)} (h : ∀ piece, pieces ≠ [piece])
    (f : List Char → List Char) (piece : List Char) : pieces.map f ≠ [piece] := by
  intro hsingleton
  obtain ⟨raw, hraw, -⟩ := List.map_eq_singleton_iff.1 hsingleton
  exact h raw hraw

namespace DocComment

/-! ## What a reader does -/

/-- Reads up to the first triple quote that no backslash escapes: what stands in front of it and
what stands behind it. -/
def untilTripleQuote : List Char → Option (List Char × List Char)
  | [] => none
  | '"' :: '"' :: '"' :: rest => some ([], rest)
  | '\\' :: c :: cs => (untilTripleQuote cs).map fun (inside, rest) => ('\\' :: c :: inside, rest)
  | c :: cs => (untilTripleQuote cs).map fun (inside, rest) => (c :: inside, rest)

/-- Undoes the escapes of a backslash and of a quote, and fails at any other. -/
def unescape? : List Char → Option (List Char)
  | [] => some []
  | '\\' :: '\\' :: cs => (unescape? cs).map ('\\' :: ·)
  | '\\' :: '"' :: cs => (unescape? cs).map ('"' :: ·)
  | '\\' :: _ => none
  | c :: cs => (unescape? cs).map (c :: ·)

/-- A line without the indentation in front of it. A line that does not start with it is left as it
is. -/
def outdent (indentation line : List Char) : List Char :=
  (line.dropPrefix? indentation).getD line

/-- The lines that a docstring encloses: one line between the triple quotes, or the lines between
that of the triple quote in front and that of the indented triple quote at the end. -/
def enclosedLines? (indentation inside : List Char) : Option (List (List Char)) :=
  match inside.splitOn '\n' with
  | [line] => some [line]
  | [] :: lines =>
    if lines.getLast? = some indentation then some (lines.dropLast.map (outdent indentation))
    else none
  | _ => none

/-- The lines of a documentation: without the blanks at its end, and each without the blanks at
its own end. -/
def docLines (doc : String) : List (List Char) :=
  ((doc.toList.rdropWhile Text.isBlank).splitOn '\n').map (·.rdropWhile Text.isBlank)

/-! ## Escapes -/

theorem escapeChar_cases (c : Char) :
    ((c = '\\' ∨ c = '"') ∧ escapeChar c = ['\\', c]) ∨
      (c ≠ '\\' ∧ c ≠ '"' ∧ escapeChar c = [c]) := by
  by_cases hbackslash : c = '\\'
  · exact .inl ⟨.inl hbackslash, by rw [hbackslash]; rfl⟩
  by_cases hquote : c = '"'
  · exact .inl ⟨.inr hquote, by rw [hquote]; rfl⟩
  · exact .inr ⟨hbackslash, hquote, by rw [escapeChar, if_neg hbackslash, if_neg hquote]⟩

theorem escapeChar_of_isBlank {c : Char} (h : Text.isBlank c = true) : escapeChar c = [c] := by
  obtain ⟨rfl | rfl, -⟩ | ⟨-, -, hself⟩ := escapeChar_cases c
  · exact absurd h (by decide)
  · exact absurd h (by decide)
  · exact hself

theorem flatMap_escapeChar_of_isBlank {cs : List Char} (h : ∀ c ∈ cs, Text.isBlank c = true) :
    cs.flatMap escapeChar = cs := by
  rw [List.flatMap_congr fun c hc => escapeChar_of_isBlank (h c hc), List.flatMap_singleton']

/-- An escape ends with the character that it stands for. -/
theorem escapeChar_eq_append (c : Char) : ∃ front, escapeChar c = front ++ [c] := by
  obtain ⟨-, hpair⟩ | ⟨-, -, hself⟩ := escapeChar_cases c
  · exact ⟨['\\'], hpair⟩
  · exact ⟨[], hself⟩

theorem newline_mem_flatMap_escapeChar {cs : List Char} :
    '\n' ∈ cs.flatMap escapeChar ↔ '\n' ∈ cs := by
  rw [List.mem_flatMap]
  constructor
  · rintro ⟨c, hc, hmem⟩
    have hself : '\n' = c := by
      obtain ⟨-, hpair⟩ | ⟨-, -, hself⟩ := escapeChar_cases c
      · simpa [hpair] using hmem
      · simpa [hself] using hmem
    rwa [hself]
  · intro h
    exact ⟨'\n', h, by decide⟩

/-- The escapes hide every triple quote of the text. -/
theorem untilTripleQuote_escape (cs rest : List Char) :
    untilTripleQuote (cs.flatMap escapeChar ++ tripleQuote.toList ++ rest) =
      some (cs.flatMap escapeChar, rest) := by
  induction cs with
  | nil => rfl
  | cons c cs ih =>
      rw [List.append_assoc] at ih
      rw [List.flatMap_cons, List.append_assoc, List.append_assoc]
      -- A pair is read in one step, whatever comes second. A character of its own is no quote.
      obtain ⟨-, hpair⟩ | ⟨hbackslash, hquote, hself⟩ := escapeChar_cases c
      · rw [hpair]
        simp [untilTripleQuote, ih]
      · rw [hself]
        simp [untilTripleQuote, hbackslash, hquote, ih]

theorem unescape?_escape (cs : List Char) : unescape? (cs.flatMap escapeChar) = some cs := by
  induction cs with
  | nil => rfl
  | cons c cs ih =>
      rw [List.flatMap_cons]
      obtain ⟨rfl | rfl, hpair⟩ | ⟨hbackslash, -, hself⟩ := escapeChar_cases c
      · rw [hpair]
        simp [unescape?, ih]
      · rw [hpair]
        simp [unescape?, ih]
      · rw [hself]
        simp [unescape?, hbackslash, ih]

theorem mapM_unescape?_escape (lines : List (List Char)) :
    (lines.map (·.flatMap escapeChar)).mapM unescape? = some lines := by
  induction lines with
  | nil => rfl
  | cons line lines ih => simp [unescape?_escape, ih]

/-- Blanks have no escapes, so it does not matter whether a text is trimmed before or after its
characters are escaped: no escape is cut in two. -/
theorem rdropWhile_escape (cs : List Char) :
    (cs.flatMap escapeChar).rdropWhile Text.isBlank =
      (cs.rdropWhile Text.isBlank).flatMap escapeChar := by
  induction cs using List.reverseRecOn with
  | nil => rfl
  | append_singleton cs c ih =>
      rw [List.flatMap_append, List.flatMap_singleton]
      by_cases hblank : Text.isBlank c = true
      · rw [escapeChar_of_isBlank hblank, List.rdropWhile_concat_pos _ _ _ hblank,
          List.rdropWhile_concat_pos _ _ _ hblank, ih]
      · obtain ⟨front, hfront⟩ := escapeChar_eq_append c
        rw [List.rdropWhile_concat_neg _ _ _ hblank, hfront, ← List.append_assoc,
          List.rdropWhile_concat_neg _ _ _ hblank, List.flatMap_append, List.flatMap_singleton,
          hfront, List.append_assoc]

theorem intercalate_escape (pieces : List (List Char)) :
    ['\n'].intercalate (pieces.map (·.flatMap escapeChar)) =
      (['\n'].intercalate pieces).flatMap escapeChar := by
  induction pieces with
  | nil => rfl
  | cons piece pieces ih =>
      cases pieces with
      | nil => simp
      | cons second pieces =>
          rw [List.intercalate_cons_cons, List.flatMap_append, List.flatMap_append, ← ih,
            List.map_cons, List.map_cons, List.intercalate_cons_cons]
          rfl

theorem splitOn_escape (cs : List Char) :
    (cs.flatMap escapeChar).splitOn '\n' = (cs.splitOn '\n').map (·.flatMap escapeChar) := by
  -- A text is its pieces with line feeds between them, and a line feed is its own escape.
  have hjoin : ['\n'].intercalate (cs.splitOn '\n') = cs := List.intercalate_splitOn '\n'
  conv_lhs => rw [← hjoin]
  rw [← intercalate_escape]
  apply List.splitOn_intercalate
  · intro piece hpiece
    obtain ⟨raw, hraw, rfl⟩ := List.mem_map.1 hpiece
    rw [newline_mem_flatMap_escapeChar]
    exact Text.notMem_of_mem_splitOn hraw
  · rw [Ne, List.map_eq_nil_iff]
    exact List.splitOn_ne_nil '\n' cs

/-! ## The lines of a documentation -/

theorem newline_notMem_of_mem_docLines {doc : String} {line : List Char}
    (h : line ∈ docLines doc) : '\n' ∉ line := by
  obtain ⟨piece, hpiece, rfl⟩ := List.mem_map.1 h
  intro hmem
  exact Text.notMem_of_mem_splitOn hpiece ((List.rdropWhile_prefix _ _).subset hmem)

theorem docLines_eq_singleton {doc : String} (h : '\n' ∉ doc.toList.rdropWhile Text.isBlank) :
    docLines doc = [doc.toList.rdropWhile Text.isBlank] := by
  rw [docLines, List.splitOn_eq_singleton h, List.map_singleton, List.rdropWhile_idempotent]

theorem docLines_ne_singleton {doc : String} (h : '\n' ∈ doc.toList.rdropWhile Text.isBlank)
    (line : List Char) : docLines doc ≠ [line] :=
  Text.map_ne_singleton (Text.splitOn_ne_singleton h) _ line

theorem toList_escape (doc : String) :
    (escape doc).toList = (doc.toList.rdropWhile Text.isBlank).flatMap escapeChar := by
  rw [escape, String.toList_ofList]
  rfl

/-- The escaped documentation has the lines of the documentation, each escaped. -/
theorem trimmedLines_escape (doc : String) :
    Text.trimmedLines (escape doc) =
      (docLines doc).map fun line => .ofList (line.flatMap escapeChar) := by
  rw [Text.trimmedLines, Text.splitLines_eq_splitOn, toList_escape, splitOn_escape, docLines,
    List.map_map, List.map_map]
  exact List.map_congr_left fun piece _ => congrArg String.ofList (rdropWhile_escape piece)

/-! ## Lines between triple quotes -/

/-- A line behind its indentation. On an empty line there is none. -/
def indented (indentation line : List Char) : List Char :=
  if line = [] then [] else indentation ++ line

/-- What stands between two triple quotes, from line feed to line feed: one line, or all the lines
on their own, with nothing behind the triple quote in front and the indentation of the one at the
end. -/
def layout (indentation : List Char) : List (List Char) → List (List Char)
  | [line] => [line]
  | lines => [] :: (lines.map (indented indentation) ++ [indentation])

theorem layout_of_ne_singleton {lines : List (List Char)} (h : ∀ line, lines ≠ [line])
    (indentation : List Char) :
    layout indentation lines = [] :: (lines.map (indented indentation) ++ [indentation]) := by
  rw [layout]
  exact h

theorem layout_ne_nil (indentation : List Char) (lines : List (List Char)) :
    layout indentation lines ≠ [] := by
  rw [layout.eq_def]
  split <;> simp

theorem newline_notMem_of_mem_layout {indentation : List Char} (hindentation : '\n' ∉ indentation)
    {lines : List (List Char)} (hlines : ∀ line ∈ lines, '\n' ∉ line) :
    ∀ piece ∈ layout indentation lines, '\n' ∉ piece := by
  rw [layout.eq_def]
  split
  · exact hlines
  · simp only [List.mem_cons, List.mem_append, List.mem_map, List.not_mem_nil, or_false]
    rintro piece (rfl | ⟨line, hline, rfl⟩ | rfl)
    · simp
    · rw [indented]
      split_ifs
      · simp
      · simp [hindentation, hlines line hline]
    · exact hindentation

/-- Escapes do not touch the layout, which adds blanks only. -/
theorem layout_escape {indentation : List Char} (hindentation : ∀ c ∈ indentation, Text.isBlank c)
    (lines : List (List Char)) :
    layout indentation (lines.map (·.flatMap escapeChar)) =
      (layout indentation lines).map (·.flatMap escapeChar) := by
  have hself := flatMap_escapeChar_of_isBlank hindentation
  have hindented : ∀ line : List Char, indented indentation (line.flatMap escapeChar) =
      (indented indentation line).flatMap escapeChar := by
    intro line
    cases line with
    | nil => rfl
    | cons c cs =>
        obtain ⟨front, hfront⟩ := escapeChar_eq_append c
        rw [indented, indented, if_neg (by simp [hfront]), if_neg (by simp), List.flatMap_append,
          hself]
  by_cases hone : ∃ line, lines = [line]
  · obtain ⟨line, rfl⟩ := hone
    rfl
  · have hne := not_exists.1 hone
    rw [layout_of_ne_singleton hne, layout_of_ne_singleton (Text.map_ne_singleton hne _)]
    simp [hself, hindented]

theorem outdent_indented (indentation line : List Char) :
    outdent indentation (indented indentation line) = line := by
  rw [indented]
  split_ifs with hempty
  · rw [hempty]
    cases indentation <;> rfl
  · rw [outdent, List.dropPrefix?_append_of_beq _ BEq.rfl, Option.getD_some]

/-- The lines are those that the layout was made from. -/
theorem enclosedLines?_layout {indentation : List Char} (hindentation : '\n' ∉ indentation)
    {lines : List (List Char)} (hlines : ∀ line ∈ lines, '\n' ∉ line) :
    enclosedLines? indentation (['\n'].intercalate (layout indentation lines)) = some lines := by
  have hsplit := List.splitOn_intercalate '\n' (newline_notMem_of_mem_layout hindentation hlines)
    (layout_ne_nil indentation lines)
  rw [enclosedLines?, hsplit]
  by_cases hone : ∃ line, lines = [line]
  · obtain ⟨line, rfl⟩ := hone
    rfl
  · rw [layout_of_ne_singleton (not_exists.1 hone)]
    have houtdent : (lines.map (indented indentation)).map (outdent indentation) = lines := by
      rw [List.map_map]
      exact List.map_id'' (outdent_indented indentation) lines
    simp [houtdent]

/-! ## The docstring in a block -/

/-- The characters in front of a line at a level. -/
def indentation (indentUnit : String) (level : UInt32) : List Char :=
  (List.replicate level.toNat indentUnit.toList).flatten

theorem mem_indentation {indentUnit : String}
    (hunit : ∀ c ∈ indentUnit.toList, c = ' ' ∨ c = '\t') {level : UInt32} {c : Char}
    (hc : c ∈ indentation indentUnit level) : c = ' ' ∨ c = '\t' := by
  obtain ⟨unit, hmem, hc⟩ := List.mem_flatten.1 hc
  rw [List.eq_of_mem_replicate hmem] at hc
  exact hunit c hc

theorem toList_render_atLevel (indentUnit text : String) (level : UInt32) :
    ((BlockLine.atLevel level text).render indentUnit).toList =
      indented (indentation indentUnit level) text.toList ++ ['\n'] := by
  by_cases hempty : text = ""
  · subst hempty
    simp [BlockLine.atLevel, BlockLine.render, BlockLine.blank, indented]
  · have hne : text.toList ≠ [] := by simpa using hempty
    rw [BlockLine.atLevel, if_neg hempty, BlockLine.render, if_neg hempty, indented, if_neg hne,
      indentation]
    simp [String.toList_join, List.flatMap_def]

theorem toList_render_addLines (block : Block) (texts : List String) (indentUnit : String) :
    ((block.addLines texts).render indentUnit).toList = (block.render indentUnit).toList ++
      texts.flatMap fun text =>
        indented (indentation indentUnit block.level) text.toList ++ ['\n'] := by
  rw [Block.render, Block.render, Block.lines_addLines, List.map_append, String.toList_join,
    String.toList_join, List.flatMap_append, List.map_map, List.flatMap_map (l := texts)]
  congr 1
  exact List.flatMap_congr fun text _ => toList_render_atLevel indentUnit text block.level

theorem intercalate_concat (rows : List (List Char)) (last : List Char) :
    ['\n'].intercalate (rows ++ [last]) = rows.flatMap (· ++ ['\n']) ++ last := by
  induction rows with
  | nil => simp
  | cons row rows ih =>
      rw [List.cons_append, List.intercalate_cons_of_ne_nil (by simp), ih]
      simp

/-- What stands between the triple quotes of a docstring. -/
def enclosed (indentation : List Char) (doc : String) : List Char :=
  ['\n'].intercalate (layout indentation ((docLines doc).map (·.flatMap escapeChar)))

/-- The lines of a docstring, each with its indentation and its line feed. -/
theorem flatMap_docstringLines (doc : String) (indentation : List Char) :
    ((docstringLines doc).flatMap fun text => indented indentation text.toList ++ ['\n']) =
      indentation ++ tripleQuote.toList ++ enclosed indentation doc ++ tripleQuote.toList ++
        ['\n'] := by
  have hquotes : indented indentation tripleQuote.toList = indentation ++ tripleQuote.toList :=
    if_neg (by decide)
  have hescape : '\n' ∈ (escape doc).toList ↔ '\n' ∈ doc.toList.rdropWhile Text.isBlank := by
    rw [toList_escape, newline_mem_flatMap_escapeChar]
  by_cases hnewline : '\n' ∈ doc.toList.rdropWhile Text.isBlank
  · have hne := Text.map_ne_singleton (docLines_ne_singleton hnewline) (·.flatMap escapeChar)
    rw [docstringLines, if_pos (hescape.2 hnewline), trimmedLines_escape, enclosed,
      layout_of_ne_singleton hne, ← List.cons_append, intercalate_concat]
    simp [hquotes, List.flatMap_map]
  · rw [docstringLines, if_neg (mt hescape.1 hnewline), enclosed, docLines_eq_singleton hnewline,
      List.map_singleton, layout, List.intercalate_singleton]
    simp [indented, tripleQuote, toList_escape]

/-- The docstring of `doc`, added to a block with `inside` between the triple quotes: whatever
follows, the triple quote that ends it is the first that is not escaped, and the lines it encloses
are those of `doc`. -/
structure ReadsBack (indentUnit : String) (block : Block) (doc : String) (inside : List Char) :
    Prop where
  render_eq : ((block.addLines (docstringLines doc)).render indentUnit).toList =
    (block.render indentUnit).toList ++ (indentation indentUnit block.level ++
      tripleQuote.toList ++ inside ++ tripleQuote.toList ++ ['\n'])
  ends_first : ∀ rest,
    untilTripleQuote (inside ++ tripleQuote.toList ++ rest) = some (inside, rest)
  lines_eq : (enclosedLines? (indentation indentUnit block.level) inside).bind
    (·.mapM unescape?) = some (docLines doc)

theorem readsBack_enclosed {indentUnit : String}
    (hunit : ∀ c ∈ indentUnit.toList, c = ' ' ∨ c = '\t') (block : Block) (doc : String) :
    ReadsBack indentUnit block doc (enclosed (indentation indentUnit block.level) doc) := by
  have hchars : ∀ c ∈ indentation indentUnit block.level, c = ' ' ∨ c = '\t' :=
    fun c => mem_indentation hunit
  -- The indentation holds no line feed, so it does not cut lines, and nothing that is escaped.
  have hblank : ∀ c ∈ indentation indentUnit block.level, Text.isBlank c := by
    intro c hc
    obtain rfl | rfl := hchars c hc <;> rfl
  have hnewline : '\n' ∉ indentation indentUnit block.level := by
    intro hmem
    simpa using hchars _ hmem
  constructor
  · rw [toList_render_addLines, flatMap_docstringLines]
  · -- With its line feeds and its indentation, all that is enclosed is one escaped text.
    intro rest
    rw [enclosed, layout_escape hblank, intercalate_escape]
    exact untilTripleQuote_escape _ rest
  · have hlines : ∀ line ∈ (docLines doc).map (·.flatMap escapeChar), '\n' ∉ line := by
      intro line hline
      obtain ⟨raw, hraw, rfl⟩ := List.mem_map.1 hline
      rw [newline_mem_flatMap_escapeChar]
      exact newline_notMem_of_mem_docLines hraw
    rw [enclosed, enclosedLines?_layout hnewline hlines, Option.bind_some]
    exact mapM_unescape?_escape (docLines doc)

end DocComment

/-! ## The docstring of a class -/

namespace Member

variable {d : Declaration} {position : Nat} {target : Target} {member : Member}

theorem exists_docstring (h : ofDeclaration d position target = .ok member)
    (hkind : d.kind ≠ .typeAlias) {doc : String} (hdoc : d.doc = some doc) :
    ∃ (header : Block) (statements : List BlockLine), header.level = 1 ∧
      member.body.lines.toList =
        (header.addLines (DocComment.docstringLines doc)).lines.toList ++ statements := by
  obtain ⟨outer, inner, hlayers, hlines⟩ := exists_layers_of_ofDeclaration h
  have hclassLines : DocComment.classLines d.doc = DocComment.docstringLines doc := by
    rw [hdoc, DocComment.classLines, Option.map_some, Option.getD_some]
  have hinner : ∃ statements, inner = DocComment.docstringLines doc ++ statements := by
    cases hlayers with
    | typeAlias hd _ => exact absurd hd hkind
    | enumeration _ =>
        refine ⟨enumerationStatements d.doc d.values, ?_⟩
        rw [enumerationLines_eq, hclassLines]
    | @dataclass _ fields _ _ =>
        refine ⟨dataclassStatements d.qualifiedName d.doc fields, ?_⟩
        rw [dataclassLines_eq, hclassLines]
  obtain ⟨statements, hstatements⟩ := hinner
  obtain ⟨header, hlevel, hlayers⟩ :=
    Block.exists_layers_eq outer [] (DocComment.docstringLines doc) statements
  exact ⟨header, _, hlevel, by rw [hlines, hstatements, ← hlayers, List.nil_append]⟩

/-- At every level and with every indentation of spaces and tabs, a docstring is one literal that
ends with its last triple quote and gives back the lines of the documentation. That of a class
stands one level deep behind its header. -/
theorem docstring_reads_back {indentUnit : String}
    (hunit : ∀ c ∈ indentUnit.toList, c = ' ' ∨ c = '\t') :
    (∀ (block : Block) (doc : String),
      ∃ inside, DocComment.ReadsBack indentUnit block doc inside) ∧
    ∀ (d : Declaration) (position : Nat) (target : Target) (member : Member) (doc : String),
      ofDeclaration d position target = .ok member → d.kind ≠ .typeAlias → d.doc = some doc →
      ∃ (header : Block) (statements : List BlockLine), header.level = 1 ∧
        member.body.lines.toList =
          (header.addLines (DocComment.docstringLines doc)).lines.toList ++ statements := by
  constructor
  · intro block doc
    exact ⟨_, DocComment.readsBack_enclosed hunit block doc⟩
  · intro d position target member doc hmade hkind hdoc
    exact exists_docstring hmade hkind hdoc

/-- An enumeration whose documentation has quotes and backslashes at the ends of its lines. -/
def quotedEnumeration : Declaration where
  kind := .enumeration
  name := "E"
  moduleName := "m"
  doc := some "\"say\" \\ \n\t\n  \"\"\"\\\"\n\n"

/-- The namespace of that enumeration, with a tab for each level. -/
def quotedTarget : Target where
  space := "m"
  bindings := ⟨[{ kind := .enumeration, source := "m#E", space := "m", name := "E" }]⟩
  indentUnit := "\t"

theorem docstring_reads_back_quotedEnumeration :
    ∃ member doc, ofDeclaration quotedEnumeration 0 quotedTarget = .ok member ∧
      quotedEnumeration.doc = some doc ∧
      DocComment.docLines doc =
        ["\"say\" \\".toList, [], "  \"\"\"\\\"".toList] ∧
      ∃ (header : Block) (statements : List BlockLine) (inside : List Char),
        header.level = 1 ∧
        member.body.lines.toList =
          (header.addLines (DocComment.docstringLines doc)).lines.toList ++ statements ∧
        DocComment.ReadsBack quotedTarget.indentUnit header doc inside := by
  have hunit : ∀ c ∈ quotedTarget.indentUnit.toList, c = ' ' ∨ c = '\t' := by simp [quotedTarget]
  obtain ⟨hblock, hmember⟩ := docstring_reads_back hunit
  obtain ⟨header, statements, hlevel, hlines⟩ :=
    hmember quotedEnumeration 0 quotedTarget _ _ rfl (by decide) rfl
  obtain ⟨inside, hinside⟩ := hblock header _
  exact ⟨_, _, rfl, rfl, by decide, header, statements, inside, hlevel, hlines, hinside⟩

end Member

end PklBindings
