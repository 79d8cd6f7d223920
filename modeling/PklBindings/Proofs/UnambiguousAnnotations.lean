import Mathlib.Data.List.TakeWhile
import PklBindings.Proofs.AnnotationReader
import PklBindings.Proofs.ModuleNames
import PklBindings.Proofs.Results

/-!
# Annotations are unambiguous

The canonical form of a type expression (`PklType.canonical?`) leaves out where things stand, takes
built-in types with the same annotation for one, gives no brackets to a generic type without
arguments, and has the name of a declaration and the module that it is imported from in place of
the reference. When the names of declarations cannot be taken for the syntax of annotations
(`Target.IsReadable`), the canonical form is read off an annotation, and so expressions with one
annotation have one canonical form (`PklType.annotation_unambiguous`).
-/

namespace PklBindings

namespace PklType

mutual

/-- The canonical form of an expression; without a Python counterpart there is none. -/
def canonical? (target : Target) : PklType → Option CanonicalType
  | missing | unsupported .. => none
  | primitive _ type => some (.primitive type.canonical)
  | nullable _ inner => (canonical? target inner).map .optional
  | union _ members => (canonicalAll? target members).map .union
  | declared _ ref =>
    (target.bindings.find? ref).map fun b =>
      .named (if b.space = target.space then none else some (target.importName b.space)) b.name
  | literal _ value => some (.literal value)
  | generic _ base arguments => do
    let base' ← canonical? target base
    let arguments' ← canonicalAll? target arguments
    return if arguments.isEmpty then base' else .generic base' arguments'
  | function _ parameters result => do
    let parameters' ← canonicalAll? target parameters
    let result' ← canonical? target result
    return .callable parameters' result'

/-- The canonical forms of the expressions of a list. -/
def canonicalAll? (target : Target) : List PklType → Option (List CanonicalType)
  | [] => some []
  | e :: es => do
    let first ← canonical? target e
    let others ← canonicalAll? target es
    return first :: others

end

end PklType

open AnnotationReader

/-- Whether annotations have a meaning for the character. Identifiers have no such character. -/
def isMark (c : Char) : Bool :=
  isSeparator c || c = '.'

/-- A declared name that cannot be taken for syntax: every identifier is one, apart from the words
that open brackets and the built-in types that are written without a module. -/
structure IsTypeName (name : String) : Prop where
  ne_empty : name ≠ ""
  no_mark : ∀ c ∈ name.toList, isMark c = false
  not_head : name ∉ CanonicalType.heads
  not_primitive : ∀ type : Primitive, name ≠ type.annotation

/-- The names of modules have a suffix, which is of characters of identifiers, and the names of
declarations cannot be taken for syntax. -/
structure Target.IsReadable (target : Target) : Prop where
  suffix_ne_empty : target.fileSuffix ≠ ""
  suffix_chars : ∀ c ∈ target.fileSuffix.toList, isMark c = false
  names : ∀ b ∈ target.bindings.entries, IsTypeName b.name

/-! ## Words are read as what they stand for -/

theorem isSeparator_of_isMark {c : Char} (h : isMark c = false) : isSeparator c = false := by
  rw [isMark, Bool.or_eq_false_iff] at h
  exact h.1

theorem ne_dot_of_isMark {c : Char} (h : isMark c = false) : c ≠ '.' := by
  rintro rfl
  cases h

/-- The characters of an identifier are no marks. -/
theorem isMark_of_isNameChar {c : Char} (h : Identifier.isNameChar c = true) :
    isMark c = false := by
  rw [Bool.eq_false_iff]
  intro hmark
  simp only [isMark, isSeparator, Bool.or_eq_true, decide_eq_true_eq] at hmark
  rcases hmark with ((rfl | rfl) | rfl) | rfl <;> exact absurd h (by decide)

/-- An identifier cannot be taken for syntax unless it is a word of the syntax: the built-in types
of a module are written with a dot, which no identifier has. -/
theorem isTypeName_of_isNameChar {name : String} (hne : name ≠ "")
    (hchars : ∀ c ∈ name.toList, Identifier.isNameChar c = true)
    (hhead : name ∉ CanonicalType.heads)
    (hprimitive : ∀ type : Primitive, '.' ∉ type.annotation.toList → name ≠ type.annotation) :
    IsTypeName name where
  ne_empty := hne
  no_mark c hc := isMark_of_isNameChar (hchars c hc)
  not_head := hhead
  not_primitive type := by
    intro heq
    apply hprimitive type _ heq
    rw [← heq]
    intro hdot
    exact absurd (hchars '.' hdot) (by decide)

namespace CanonicalType

theorem ofWord?_primitive (type : Primitive) :
    ofWord? type.annotation.toList = some (.primitive type.canonical) := by
  cases type <;> rfl

theorem ofWord?_eq_ofName {word : String} (hne : word ≠ "") (hhead : word ∉ heads)
    (hprimitive : ∀ type : Primitive, word ≠ type.annotation) :
    ofWord? word.toList = some (ofName word.toList) := by
  have hnone : Primitive.ofAnnotation? word = none := by
    rw [Option.eq_none_iff_forall_ne_some]
    intro type htype
    exact hprimitive type (Primitive.annotation_of_ofAnnotation? htype).symm
  have hguard : ¬ (word.toList = [] ∨ word ∈ heads) := by
    simp [hne, hhead]
  rw [ofWord?, String.ofList_toList, if_neg hguard, hnone]
  rfl

/-- The name of a declaration stands for itself. -/
theorem ofWord?_name {name : String} (h : IsTypeName name) :
    ofWord? name.toList = some (.named none name) := by
  have hdots : name.toList.dropWhile (· ≠ '.') = [] := by
    rw [List.dropWhile_eq_nil_iff]
    intro c hc
    exact decide_eq_true (ne_dot_of_isMark (h.no_mark c hc))
  rw [ofWord?_eq_ofName h.ne_empty h.not_head h.not_primitive, ofName, hdots, String.ofList_toList]

/-- A name behind a module stands for itself: there is an underscore in the name of a module, and in
no word of the syntax. -/
theorem ofWord?_qualified {module : String} (hunderscore : '_' ∈ module.toList)
    (hdots : ∀ c ∈ module.toList, c ≠ '.') (name : String) :
    ofWord? (module ++ "." ++ name).toList = some (.named (some module) name) := by
  have hchars : (module ++ "." ++ name).toList = module.toList ++ '.' :: name.toList := by simp
  have hmem : '_' ∈ (module ++ "." ++ name).toList := by
    rw [hchars]
    exact List.mem_append_left _ hunderscore
  have hne : module ++ "." ++ name ≠ "" := by
    intro heq
    rw [heq] at hmem
    cases hmem
  have hhead : module ++ "." ++ name ∉ heads := fun h =>
    (by decide : ∀ head ∈ heads, '_' ∉ head.toList) _ h hmem
  have hprimitive : ∀ type : Primitive, module ++ "." ++ name ≠ type.annotation := by
    intro type heq
    rw [heq] at hmem
    cases type <;> exact absurd hmem (by decide)
  have hall : ∀ c ∈ module.toList, decide (c ≠ '.') = true := fun c hc =>
    decide_eq_true (hdots c hc)
  rw [ofWord?_eq_ofName hne hhead hprimitive, hchars, ofName, List.takeWhile_append_of_pos hall,
    List.dropWhile_append_of_pos hall]
  simp

end CanonicalType

namespace Target.IsReadable

variable {target : Target}

theorem isMark_of_mem_importName (h : target.IsReadable) {space : String} {c : Char}
    (hc : c ∈ (target.importName space).toList) : isMark c = false := by
  rcases ModuleName.mem_importName hc with hname | hsuffix
  · exact isMark_of_isNameChar hname
  · exact h.suffix_chars c hsuffix

/-- An underscore stands in front of the suffix of a module. -/
theorem underscore_mem_importName (h : target.IsReadable) (space : String) :
    '_' ∈ (target.importName space).toList := by
  rw [Target.importName, ModuleName.importName, if_neg h.suffix_ne_empty]
  simp

/-- A bound name is read as it is, with its module if it is a foreign one. -/
theorem reads_spelling (h : target.IsReadable) {b : Binding} (hb : b ∈ target.bindings.entries) :
    Reads (target.spelling b).toList
      (.named (if b.space = target.space then none else some (target.importName b.space))
        b.name) := by
  have hname := h.names b hb
  rw [Target.spelling]
  by_cases hspace : b.space = target.space
  · rw [if_pos hspace, if_neg (by simp [Target.isForeign, hspace])]
    exact reads_word (fun c hc => isSeparator_of_isMark (hname.no_mark c hc))
      (CanonicalType.ofWord?_name hname)
  · rw [if_neg hspace, if_pos (by simp [Target.isForeign, hspace])]
    refine reads_word (fun c hc => ?_) (CanonicalType.ofWord?_qualified
      (h.underscore_mem_importName b.space) (fun c hc =>
        ne_dot_of_isMark (h.isMark_of_mem_importName hc)) b.name)
    rw [String.toList_append, String.toList_append] at hc
    rcases List.mem_append.1 hc with hc | hc
    · rcases List.mem_append.1 hc with hc | hc
      · exact isSeparator_of_isMark (h.isMark_of_mem_importName hc)
      · rw [List.mem_singleton.1 hc]
        rfl
    · exact isSeparator_of_isMark (hname.no_mark c hc)

end Target.IsReadable

/-! ## Annotations are read as canonical forms -/

namespace PklType

section Reading

variable {target : Target}

theorem ne_nil_of_canonicalAll? {e : PklType} {es : List PklType} {types : List CanonicalType}
    (h : canonicalAll? target (e :: es) = some types) : types ≠ [] := by
  rw [canonicalAll?] at h
  obtain ⟨first, -, h⟩ := Option.bind_eq_some_iff.1 h
  obtain ⟨others, -, h⟩ := Option.bind_eq_some_iff.1 h
  cases h
  exact List.cons_ne_nil first others

-- The cases are those of `annotate`; each has its law of reading.
mutual

/-- An annotation is read as the canonical form of its expression. -/
theorem reads_annotate (h : target.IsReadable) : ∀ {owner e : PklType} {s : String},
    annotate target owner e = .ok s →
      ∃ type, canonical? target e = some type ∧ Reads s.toList type
  | _, missing, _, hs => by cases hs
  | _, unsupported _ _, _, hs => by cases hs
  | _, union _ [], _, hs => by cases hs
  | _, primitive _ type, _, hs => by
      cases hs
      refine ⟨_, rfl, reads_word ?_ (CanonicalType.ofWord?_primitive type)⟩
      cases type <;> simp [Primitive.annotation, isSeparator]
  | _, literal _ value, _, hs => by
      cases hs
      refine ⟨_, rfl, ?_⟩
      simpa [Quoted.encode] using reads_literal value
  | _, declared _ ref, _, hs => by
      rw [annotate] at hs
      split at hs
      · cases hs
      · rename_i b hfind
        cases hs
        rw [canonical?, hfind]
        exact ⟨_, rfl, h.reads_spelling (List.mem_of_find?_eq_some hfind)⟩
  | _, nullable _ inner, _, hs => by
      rw [annotate] at hs
      obtain ⟨s, hinner, hs⟩ := bind_eq_ok_iff.1 hs
      cases hs
      obtain ⟨type, htype, hreads⟩ := reads_annotate h hinner
      rw [canonical?, htype]
      refine ⟨_, rfl, ?_⟩
      simpa using reads_optional hreads
  | _, union _ (e :: es), _, hs => by
      rw [annotate] at hs
      obtain ⟨first, hfirst, hs⟩ := bind_eq_ok_iff.1 hs
      obtain ⟨others, hothers, hs⟩ := bind_eq_ok_iff.1 hs
      cases hs
      obtain ⟨type, htype, hreads⟩ := reads_annotate h hfirst
      obtain ⟨types, htypes, hreadsAll⟩ := reads_annotateAll h hothers
      rw [canonical?, canonicalAll?, htype, htypes]
      refine ⟨_, rfl, ?_⟩
      simpa [String.toList_intercalate] using
        reads_union (.cons hreads hreadsAll) (List.cons_ne_nil _ _)
  | _, generic _ base [], _, hs => by
      rw [annotate] at hs
      obtain ⟨s, hbase, hs⟩ := bind_eq_ok_iff.1 hs
      cases hs
      obtain ⟨type, htype, hreads⟩ := reads_annotate h hbase
      rw [canonical?, htype]
      exact ⟨_, rfl, hreads⟩
  | _, generic _ base (e :: es), _, hs => by
      rw [annotate] at hs
      obtain ⟨s, hbase, hs⟩ := bind_eq_ok_iff.1 hs
      obtain ⟨arguments, harguments, hs⟩ := bind_eq_ok_iff.1 hs
      cases hs
      obtain ⟨type, htype, hreads⟩ := reads_annotate h hbase
      obtain ⟨types, htypes, hreadsAll⟩ := reads_annotateAll h harguments
      rw [canonical?, htype, htypes]
      refine ⟨_, rfl, ?_⟩
      simpa [String.toList_intercalate] using
        reads_generic hreads hreadsAll (ne_nil_of_canonicalAll? htypes)
  | _, function _ parameters result, _, hs => by
      rw [annotate] at hs
      obtain ⟨arguments, harguments, hs⟩ := bind_eq_ok_iff.1 hs
      obtain ⟨s, hresult, hs⟩ := bind_eq_ok_iff.1 hs
      cases hs
      obtain ⟨types, htypes, hreadsAll⟩ := reads_annotateAll h harguments
      obtain ⟨type, htype, hreads⟩ := reads_annotate h hresult
      rw [canonical?, htypes, htype]
      refine ⟨_, rfl, ?_⟩
      simpa [String.toList_intercalate] using reads_callable hreadsAll hreads

theorem reads_annotateAll (h : target.IsReadable) : ∀ {owner : PklType} {es : List PklType}
    {ss : List String}, annotateAll target owner es = .ok ss →
      ∃ types, canonicalAll? target es = some types ∧
        List.Forall₂ Reads (ss.map String.toList) types
  | _, [], _, hs => by
      cases hs
      exact ⟨[], rfl, .nil⟩
  | _, e :: es, _, hs => by
      rw [annotateAll] at hs
      obtain ⟨first, hfirst, hs⟩ := bind_eq_ok_iff.1 hs
      obtain ⟨others, hothers, hs⟩ := bind_eq_ok_iff.1 hs
      cases hs
      obtain ⟨type, htype, hreads⟩ := reads_annotate h hfirst
      obtain ⟨types, htypes, hreadsAll⟩ := reads_annotateAll h hothers
      rw [canonicalAll?, htype, htypes]
      exact ⟨_, rfl, .cons hreads hreadsAll⟩

end

end Reading

/-- When names cannot be taken for syntax, the canonical form of an expression is read off its
annotation, and so expressions with the same annotation have the same canonical form. -/
theorem annotation_unambiguous {target : Target} (h : target.IsReadable) :
    (∀ (e : PklType) (s : String), e.annotation target = .ok s →
      ∃ type, e.canonical? target = some type ∧ CanonicalType.read? s = some type) ∧
    ∀ (a b : PklType) (s : String), a.annotation target = .ok s → b.annotation target = .ok s →
      a.canonical? target = b.canonical? target := by
  have hread : ∀ (e : PklType) (s : String), e.annotation target = .ok s →
      ∃ type, e.canonical? target = some type ∧ CanonicalType.read? s = some type := by
    intro e s hs
    obtain ⟨type, htype, hreads⟩ := reads_annotate h hs
    exact ⟨type, htype, read?_of_reads hreads⟩
  refine ⟨hread, fun a b s ha hb => ?_⟩
  obtain ⟨type, htype, hs⟩ := hread a s ha
  obtain ⟨type', htype', hs'⟩ := hread b s hb
  -- Reading gives one type for one text.
  rw [htype, htype', ← hs, hs']

/-- A namespace `m` besides `a.b`. -/
def birdTarget : Target where
  space := "m"
  bindings := ⟨[
    { kind := .ordinaryClass, source := "m#Nest", space := "m", name := "Nest" },
    { kind := .ordinaryClass, source := "a.b#Bird", space := "a.b", name := "Bird" }]⟩

theorem birdTarget_isReadable : birdTarget.IsReadable where
  suffix_ne_empty := by decide
  suffix_chars c hc := isMark_of_isNameChar (List.all_eq_true.1 rfl c hc)
  names := by
    have hbird : IsTypeName "Bird" := isTypeName_of_isNameChar (by decide)
      (List.all_eq_true.1 rfl) (by decide) fun type _ => by cases type <;> decide
    have hnest : IsTypeName "Nest" := isTypeName_of_isNameChar (by decide)
      (List.all_eq_true.1 rfl) (by decide) fun type _ => by cases type <;> decide
    simp [birdTarget, hbird, hnest]

/-- A generic type that is applied twice, to a literal that looks like syntax first. -/
def nestedType (last : Primitive) : PklType :=
  .generic {} (.generic {} (.primitive {} .list) [.literal {} "\"], [x"])
    [.function {} [] (.declared {} "a.b#Bird"),
      .union {} [.nullable {} (.declared {} "m#Nest"), .generic {} (.primitive {} last) []]]

/-- The annotation of that type. -/
def nestedText : String :=
  "List[Literal[\"\\\"], [x\"]][Callable[[], a_b_pkl.Bird], Union[Optional[Nest], float]]"

/-- Two expressions that differ in a built-in type have one annotation, which is read as the
canonical form of both. -/
theorem annotation_unambiguous_nestedType :
    PklType.annotation (nestedType .float) birdTarget = .ok nestedText ∧
      PklType.annotation (nestedType .number) birdTarget = .ok nestedText ∧
      (∃ type, (nestedType .number).canonical? birdTarget = some type ∧
        CanonicalType.read? nestedText = some type) ∧
      (nestedType .float).canonical? birdTarget = (nestedType .number).canonical? birdTarget :=
  ⟨rfl, rfl, (annotation_unambiguous birdTarget_isReadable).1 _ _ rfl,
    (annotation_unambiguous birdTarget_isReadable).2 _ _ _ rfl rfl⟩

end PklType

end PklBindings
