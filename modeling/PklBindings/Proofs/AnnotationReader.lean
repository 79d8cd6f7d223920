import PklBindings.Annotation
import PklBindings.Proofs.QuotedText

/-!
# Reading annotations

What an annotation says is a type in canonical form (`CanonicalType`): built-in types and names of
declarations, put together by brackets. The reader goes through an annotation character by
character, with the brackets that are still open on a stack (`AnnotationReader.step`). A text that
it reads as one type where a type may begin (`AnnotationReader.Reads`) is read so inside every
annotation, and there is one law for each way in which annotations are put together.
-/

namespace PklBindings

/-- A type as an annotation says it. -/
inductive CanonicalType where
  | primitive (type : Primitive)
  /-- A declared name, behind the module that it is imported from. -/
  | named (module : Option String) (name : String)
  | literal (value : String)
  | optional (inner : CanonicalType)
  | union (members : List CanonicalType)
  | generic (base : CanonicalType) (arguments : List CanonicalType)
  | callable (parameters : List CanonicalType) (result : CanonicalType)

namespace Primitive

/-- The first of the built-in types that have the same annotation. -/
def canonical : Primitive → Primitive
  | number => float
  | dynamic => any
  | type => type

/-- The built-in type of an annotation. -/
def ofAnnotation? (word : String) : Option Primitive :=
  [string, int, float, boolean, any, null, duration, dataSize, regex, list, set, map, pair].find?
    fun type => type.annotation = word

theorem annotation_of_ofAnnotation? {word : String} {type : Primitive}
    (h : ofAnnotation? word = some type) : type.annotation = word := by
  simpa using List.find?_some h

end Primitive

namespace CanonicalType

/-- The words that open a bracket of their own. -/
def heads : List String :=
  ["Optional", "Union", "Literal", "Callable"]

/-- A declared name; what stands before the first dot is its module. -/
def ofName (word : List Char) : CanonicalType :=
  match word.dropWhile (· ≠ '.') with
  | [] => .named none (.ofList word)
  | _ :: name => .named (some (.ofList (word.takeWhile (· ≠ '.')))) (.ofList name)

/-- The type that a word stands for: a built-in type or a declared name. -/
def ofWord? (word : List Char) : Option CanonicalType :=
  if word = [] ∨ .ofList word ∈ heads then none
  else some (((Primitive.ofAnnotation? (.ofList word)).map primitive).getD (ofName word))

end CanonicalType

namespace AnnotationReader

open CanonicalType

/-- What an open bracket belongs to. -/
inductive Bracket where
  | optional
  | union
  | generic (base : CanonicalType)
  /-- The inner bracket of a function type. -/
  | parameters
  /-- Its outer bracket, behind the parameters. -/
  | result (parameters : List CanonicalType)

/-- An open bracket and the types that are complete in it. -/
structure Frame where
  bracket : Bracket
  items : List CanonicalType

/-- What has been read since the last bracket or comma. -/
inductive Phase where
  /-- The beginning of a word, which may be empty. -/
  | word (read : List Char)
  /-- A type that ends with a bracket. -/
  | complete (type : CanonicalType)
  /-- The beginning of a literal. -/
  | literal (scan : Quoted.Scan)
  /-- The outer bracket of a function type. -/
  | callable
  /-- The inner bracket of a function type with its parameters. -/
  | parameters (types : List CanonicalType)
  /-- Nothing: a blank comes next. -/
  | comma

/-- The brackets that are open, innermost first, and what has been read behind the last one. -/
structure State where
  frames : List Frame
  phase : Phase

/-- The type that has been read, if the text may end it here. -/
def Phase.type? : Phase → Option CanonicalType
  | word read => ofWord? read
  | complete type => some type
  | _ => none

/-- What has been read when a bracket closes behind types. -/
def Bracket.close? : Bracket → List CanonicalType → Option Phase
  | optional, [type] => some (.complete (.optional type))
  | union, type :: types => some (.complete (.union (type :: types)))
  | generic base, type :: types => some (.complete (.generic base (type :: types)))
  | parameters, types => some (.parameters types)
  | result before, [type] => some (.complete (.callable before type))
  | _, _ => none

/-- Whether the character ends a word. -/
def isSeparator (c : Char) : Bool :=
  c = '[' || c = ']' || c = ','

/-- Reads a separator behind a type. -/
def behindType (type : CanonicalType) (c : Char) (frames : List Frame) : Option State :=
  if c = '[' then some ⟨⟨.generic type, []⟩ :: frames, .word []⟩
  else
    match frames with
    | [] => none
    | ⟨bracket, items⟩ :: frames =>
      if c = ']' then (bracket.close? (items ++ [type])).map (⟨frames, ·⟩)
      else if c = ',' then some ⟨⟨bracket, items ++ [type]⟩ :: frames, .comma⟩
      else none

/-- Reads a separator behind a word that is no type: a word that opens a bracket, or nothing in the
bracket of a function without parameters. -/
def behindHead (word : String) (c : Char) (frames : List Frame) : Option State :=
  if c = '[' then
    if word = "Optional" then some ⟨⟨.optional, []⟩ :: frames, .word []⟩
    else if word = "Union" then some ⟨⟨.union, []⟩ :: frames, .word []⟩
    else if word = "Literal" then some ⟨frames, .literal .start⟩
    else if word = "Callable" then some ⟨frames, .callable⟩
    else none
  else
    match c, word, frames with
    | ']', "", ⟨bracket, []⟩ :: frames => (bracket.close? []).map (⟨frames, ·⟩)
    | _, _, _ => none

/-- Reads one more character. -/
def step (s : State) (c : Char) : Option State :=
  match s.phase with
  | .word read =>
    if isSeparator c then
      match ofWord? read with
      | some type => behindType type c s.frames
      | none => behindHead (.ofList read) c s.frames
    else some ⟨s.frames, .word (read ++ [c])⟩
  | .complete type => behindType type c s.frames
  | .literal (.closed value) =>
    if c = ']' then some ⟨s.frames, .complete (.literal (.ofList value))⟩ else none
  | .literal scan => (scan.step c).map fun scan => ⟨s.frames, .literal scan⟩
  | .callable => if c = '[' then some ⟨⟨.parameters, []⟩ :: s.frames, .word []⟩ else none
  | .parameters types =>
    if c = ',' then some ⟨⟨.result types, []⟩ :: s.frames, .comma⟩ else none
  | .comma => if c = ' ' then some ⟨s.frames, .word []⟩ else none

/-- Reads characters. -/
def run (s : State) (cs : List Char) : Option State :=
  cs.foldlM step s

end AnnotationReader

/-- The type that an annotation says. -/
def CanonicalType.read? (text : String) : Option CanonicalType :=
  match AnnotationReader.run ⟨[], .word []⟩ text.toList with
  | some ⟨[], phase⟩ => phase.type?
  | _ => none

namespace AnnotationReader

open CanonicalType

/-- What has been read may be left out of a run. -/
theorem run_append {s s' : State} {cs : List Char} (h : run s cs = some s') (rest : List Char) :
    run s (cs ++ rest) = run s' rest := by
  have hbind : run s (cs ++ rest) = (run s cs).bind (run · rest) := List.foldlM_append
  rw [hbind, h, Option.bind_some]

theorem run_cons (s : State) (c : Char) (cs : List Char) :
    run s (c :: cs) = (step s c).bind (run · cs) := by
  rw [run, List.foldlM_cons]
  rfl

/-- Where a type may begin, the characters are read as that type, whatever brackets are open. -/
def Reads (cs : List Char) (type : CanonicalType) : Prop :=
  ∀ frames, ∃ phase, run ⟨frames, .word []⟩ cs = some ⟨frames, phase⟩ ∧ phase.type? = some type

/-! ## Separators -/

variable {cs : List Char} {type : CanonicalType} {frames : List Frame}

theorem step_of_type? {phase : Phase} (h : phase.type? = some type) {c : Char}
    (hc : isSeparator c = true) : step ⟨frames, phase⟩ c = behindType type c frames := by
  cases phase with
  | word read =>
      rw [Phase.type?] at h
      simp only [step, hc, if_true, h]
  | complete type' =>
      cases h
      rfl
  | literal | callable | parameters | comma => cases h

theorem Reads.run_open (h : Reads cs type) (rest : List Char) :
    run ⟨frames, .word []⟩ (cs ++ '[' :: rest) =
      run ⟨⟨.generic type, []⟩ :: frames, .word []⟩ rest := by
  obtain ⟨phase, hrun, htype⟩ := h frames
  rw [run_append hrun, run_cons, step_of_type? htype rfl]
  rfl

theorem Reads.run_comma (h : Reads cs type) (bracket : Bracket) (items : List CanonicalType)
    (rest : List Char) :
    run ⟨⟨bracket, items⟩ :: frames, .word []⟩ (cs ++ ',' :: ' ' :: rest) =
      run ⟨⟨bracket, items ++ [type]⟩ :: frames, .word []⟩ rest := by
  obtain ⟨phase, hrun, htype⟩ := h (⟨bracket, items⟩ :: frames)
  rw [run_append hrun, run_cons, step_of_type? htype rfl]
  rfl

theorem Reads.run_close (h : Reads cs type) (bracket : Bracket) (items : List CanonicalType)
    (rest : List Char) :
    run ⟨⟨bracket, items⟩ :: frames, .word []⟩ (cs ++ ']' :: rest) =
      (bracket.close? (items ++ [type])).bind fun phase => run ⟨frames, phase⟩ rest := by
  obtain ⟨phase, hrun, htype⟩ := h (⟨bracket, items⟩ :: frames)
  rw [run_append hrun, run_cons, step_of_type? htype rfl]
  exact Option.bind_map

/-- Types with commas between them are the items of the bracket in which they stand. -/
theorem run_items {css : List (List Char)} {types : List CanonicalType}
    (h : List.Forall₂ Reads css types) (hne : types ≠ []) (bracket : Bracket)
    (items : List CanonicalType) (rest : List Char) :
    run ⟨⟨bracket, items⟩ :: frames, .word []⟩ ([',', ' '].intercalate css ++ ']' :: rest) =
      (bracket.close? (items ++ types)).bind fun phase => run ⟨frames, phase⟩ rest := by
  induction h generalizing items with
  | nil => exact absurd rfl hne
  | @cons cs type css types hfirst hothers ih =>
      cases hothers with
      | nil =>
          rw [List.intercalate_singleton]
          exact hfirst.run_close bracket items rest
      | @cons cs' type' css types hsecond hothers =>
          have hsplit : [',', ' '].intercalate (cs :: cs' :: css) ++ ']' :: rest =
              cs ++ ',' :: ' ' :: ([',', ' '].intercalate (cs' :: css) ++ ']' :: rest) := by
            simp [List.intercalate_cons_cons]
          rw [hsplit, hfirst.run_comma, ih (List.cons_ne_nil _ _), List.append_assoc]
          rfl

/-! ## One law for each kind of annotation -/

theorem run_word {word : List Char} (hword : ∀ c ∈ word, isSeparator c = false)
    (read : List Char) :
    run ⟨frames, .word read⟩ word = some ⟨frames, .word (read ++ word)⟩ := by
  induction word generalizing read with
  | nil =>
      rw [List.append_nil]
      rfl
  | cons c word ih =>
      rw [List.forall_mem_cons] at hword
      obtain ⟨hc, hrest⟩ := hword
      rw [run_cons, step]
      simpa [hc] using ih hrest (read ++ [c])

theorem reads_word {word : List Char} (hword : ∀ c ∈ word, isSeparator c = false)
    (htype : ofWord? word = some type) : Reads word type := by
  intro frames
  have hrun : run ⟨frames, .word []⟩ word = some ⟨frames, .word ([] ++ word)⟩ := run_word hword []
  exact ⟨.word word, hrun, htype⟩

theorem reads_optional (h : Reads cs type) :
    Reads ("Optional[".toList ++ cs ++ [']']) (.optional type) := by
  intro frames
  refine ⟨.complete (.optional type), ?_, rfl⟩
  have hopen : run ⟨frames, .word []⟩ "Optional[".toList =
      some ⟨⟨.optional, []⟩ :: frames, .word []⟩ := rfl
  rw [List.append_assoc, run_append hopen, h.run_close]
  rfl

theorem reads_union {css : List (List Char)} {types : List CanonicalType}
    (h : List.Forall₂ Reads css types) (hne : types ≠ []) :
    Reads ("Union[".toList ++ [',', ' '].intercalate css ++ [']']) (.union types) := by
  intro frames
  refine ⟨.complete (.union types), ?_, rfl⟩
  have hopen : run ⟨frames, .word []⟩ "Union[".toList =
      some ⟨⟨.union, []⟩ :: frames, .word []⟩ := rfl
  rw [List.append_assoc, run_append hopen, run_items h hne]
  obtain ⟨first, others, rfl⟩ := List.exists_cons_of_ne_nil hne
  rfl

theorem reads_generic {css : List (List Char)} {types : List CanonicalType} (hbase : Reads cs type)
    (h : List.Forall₂ Reads css types) (hne : types ≠ []) :
    Reads (cs ++ '[' :: ([',', ' '].intercalate css ++ [']'])) (.generic type types) := by
  intro frames
  refine ⟨.complete (.generic type types), ?_, rfl⟩
  rw [hbase.run_open, run_items h hne]
  obtain ⟨first, others, rfl⟩ := List.exists_cons_of_ne_nil hne
  rfl

/-- A bracket of parameters may be empty. -/
theorem run_parameters {css : List (List Char)} {types : List CanonicalType}
    (h : List.Forall₂ Reads css types) (rest : List Char) :
    run ⟨⟨.parameters, []⟩ :: frames, .word []⟩ ([',', ' '].intercalate css ++ ']' :: rest) =
      run ⟨frames, .parameters types⟩ rest := by
  cases h with
  | nil => rfl
  | cons hfirst hothers =>
      rw [run_items (.cons hfirst hothers) (List.cons_ne_nil _ _)]
      rfl

theorem reads_callable {css : List (List Char)} {types : List CanonicalType}
    (h : List.Forall₂ Reads css types) (hresult : Reads cs type) :
    Reads ("Callable[[".toList ++ [',', ' '].intercalate css ++ ("], ".toList ++ cs ++ [']']))
      (.callable types type) := by
  intro frames
  refine ⟨.complete (.callable types type), ?_, rfl⟩
  have hopen : run ⟨frames, .word []⟩ "Callable[[".toList =
      some ⟨⟨.parameters, []⟩ :: frames, .word []⟩ := rfl
  have hbetween : "], ".toList ++ cs ++ [']'] = ']' :: ',' :: ' ' :: (cs ++ [']']) := rfl
  have hcomma : run ⟨frames, .parameters types⟩ (',' :: ' ' :: (cs ++ [']'])) =
      run ⟨⟨.result types, []⟩ :: frames, .word []⟩ (cs ++ [']']) := rfl
  rw [List.append_assoc, run_append hopen, hbetween, run_parameters h, hcomma,
    hresult.run_close]
  rfl

/-- Inside a literal the brackets stay as they are. -/
theorem run_literal {scan scan' : Quoted.Scan} (h : cs.foldlM Quoted.Scan.step scan = some scan') :
    run ⟨frames, .literal scan⟩ cs = some ⟨frames, .literal scan'⟩ := by
  induction cs generalizing scan with
  | nil =>
      cases h
      rfl
  | cons c cs ih =>
      rw [List.foldlM_cons] at h
      obtain ⟨next, hnext, hrest⟩ := Option.bind_eq_some_iff.1 h
      have hstep : step ⟨frames, .literal scan⟩ c = some ⟨frames, .literal next⟩ := by
        cases scan with
        | closed => cases hnext
        | start | inside | escape | hex | secondHex => exact congrArg (Option.map _) hnext
      rw [run_cons, hstep]
      exact ih hrest

theorem reads_literal (value : String) :
    Reads ("Literal[".toList ++ Quoted.encodeChars value.toList ++ [']']) (.literal value) := by
  intro frames
  refine ⟨.complete (.literal value), ?_, rfl⟩
  have hopen : run ⟨frames, .word []⟩ "Literal[".toList = some ⟨frames, .literal .start⟩ := rfl
  rw [List.append_assoc, run_append hopen,
    run_append (run_literal (Quoted.scan_encodeChars value.toList)), run_cons]
  simp [step, run]

/-- A whole text is read as the type that it would be read as inside an annotation. -/
theorem read?_of_reads {text : String} (h : Reads text.toList type) :
    CanonicalType.read? text = some type := by
  obtain ⟨phase, hrun, htype⟩ := h []
  rw [CanonicalType.read?, hrun]
  exact htype

end AnnotationReader

end PklBindings
