import PklBindings.Proofs.DocumentLayout
import PklBindings.Proofs.EnumConstants
import PklBindings.Reflection.Decoder

/-!
# The attributes of a generated class

Which names the statements of a class bind, read off its lines (`attributeOf?`). In the class of a
declaration these are `Declaration.attributes`: a field for each visible property and the attribute
that registers the class, or else the constants of an enumeration; and in the module class also the
method that loads a module. A property may not take the field that registers the class, and no two
properties may share a field. A property of the module class may however take the name of that
method, so the attributes of a class are distinct exactly when none does
(`Module.attributes_nodup_iff`).
-/

namespace PklBindings

/-! ## Statements -/

/-- The name that a statement binds: a field, an attribute with a value or a method. Comments,
decorators and `pass` bind none. -/
def boundName? (text : String) : Option String :=
  let (name, rest) := text.toList.span Identifier.isNameChar
  if [':', ' '].isPrefixOf rest || [' ', '=', ' '].isPrefixOf rest then some (.ofList name)
  else if ['d', 'e', 'f', ' '].isPrefixOf text.toList then
    some (.ofList ((text.toList.drop 4).takeWhile Identifier.isNameChar))
  else none

/-- The attribute that a line of a class binds. Statements of the class stand one level deep, and
those of its methods are deeper. -/
def attributeOf? (line : BlockLine) : Option String :=
  if line.indent = 1 then boundName? line.text else none

/-- The name of the method that loads a module. -/
def Document.loaderName : String := "load_pkl"

theorem span_name {name : List Char} (hname : ∀ c ∈ name, Identifier.isNameChar c = true)
    {c : Char} (hc : Identifier.isNameChar c = false) (rest : List Char) :
    (name ++ c :: rest).span Identifier.isNameChar = (name, c :: rest) := by
  rw [List.span_eq_takeWhile_dropWhile, List.takeWhile_append_of_pos hname,
    List.dropWhile_append_of_pos hname, List.takeWhile_cons_of_neg (by simp [hc]),
    List.dropWhile_cons_of_neg (by simp [hc]), List.append_nil]

theorem boundName?_field {name : String} (hname : ∀ c ∈ name.toList, Identifier.isNameChar c = true)
    (type : String) : boundName? (name ++ ": " ++ type) = some name := by
  have hchars : (name ++ ": " ++ type).toList =
      name.toList ++ ':' :: ' ' :: type.toList := by simp
  rw [boundName?, hchars, span_name hname (by decide)]
  simp

theorem boundName?_attribute {name : String}
    (hname : ∀ c ∈ name.toList, Identifier.isNameChar c = true) (value : String) :
    boundName? (name ++ " = " ++ value) = some name := by
  have hchars : (name ++ " = " ++ value).toList =
      name.toList ++ ' ' :: '=' :: ' ' :: value.toList := by simp
  rw [boundName?, hchars, span_name hname (by decide)]
  simp

theorem boundName?_commentLine (line : String) :
    boundName? (DocComment.commentLine line) = none := by
  rw [boundName?, DocComment.toList_commentLine, ← List.nil_append ('#' :: _),
    span_name (by simp) (by decide)]
  simp

@[simp] theorem attributeOf?_atLevel_one (text : String) :
    attributeOf? (.atLevel 1 text) = boundName? text := by
  rw [BlockLine.atLevel]
  split
  · rename_i hempty
    rw [hempty]
    rfl
  · rfl

/-! ## The attributes of declarations -/

/-- The attributes of the class of a declaration, in order. -/
def Declaration.attributes (d : Declaration) : List String :=
  let fields := d.visibleProperties.map (Identifier.ofText ·.name)
  match d.kind with
  | .moduleClass => fields ++ [DataField.registration, Document.loaderName]
  | .ordinaryClass => fields ++ [DataField.registration]
  | .enumeration => EnumConstant.names d.values
  | .typeAlias => []

/-- A visible property of the module class has the name of the method that loads a module. -/
def Declaration.HidesLoader (d : Declaration) : Prop :=
  d.kind = .moduleClass ∧ ∃ p ∈ d.visibleProperties, Identifier.ofText p.name = Document.loaderName

namespace DataField

variable {key : String} {target : Target}

theorem name_of_ofProperty {earlier : List DataField} {p : Property} {field : DataField}
    (h : ofProperty key target earlier p = .ok field) :
    field.name = Identifier.ofText p.name ∧ field.name ≠ registration ∧
      ∀ other ∈ earlier, other.name ≠ field.name := by
  have hname := (shows_of_ofProperty h).name_eq
  refine ⟨hname, ?_⟩
  rw [hname]
  rw [ofProperty] at h
  split at h
  · cases h
  · rename_i hreserved
    split at h
    · cases h
    · rename_i hfree
      exact ⟨hreserved, by simpa using hfree⟩

/-- The names of fields are distinct, and none is that of the attribute that registers the
class. -/
theorem names_of_ofProperties {earlier fields : List DataField} {ps : List Property}
    (h : ofProperties key target earlier ps = .ok fields) :
    fields.map (·.name) = ps.map (Identifier.ofText ·.name) ∧
      (fields.map (·.name)).Nodup ∧ registration ∉ fields.map (·.name) ∧
      ∀ other ∈ earlier, other.name ∉ fields.map (·.name) := by
  induction ps generalizing earlier fields with
  | nil =>
      cases h
      simp
  | cons p ps ih =>
      obtain ⟨field, hfield, h⟩ := bind_eq_ok_iff.1 h
      obtain ⟨fields, hfields, h⟩ := bind_eq_ok_iff.1 h
      cases h
      obtain ⟨hname, hreserved, hfree⟩ := name_of_ofProperty hfield
      obtain ⟨hnames, hnodup, hregistration, hearlier⟩ := ih hfields
      simp only [List.map_cons, List.nodup_cons, List.mem_cons, not_or]
      refine ⟨by rw [hname, hnames], ⟨hearlier field (by simp), hnodup⟩,
        ⟨hreserved.symm, hregistration⟩, fun other hother => ⟨hfree other hother, ?_⟩⟩
      exact hearlier other (List.mem_append_left _ hother)

theorem filterMap_boundName?_lines {field : DataField}
    (hname : ∀ c ∈ field.name.toList, Identifier.isNameChar c = true) :
    field.lines.filterMap boundName? = [field.name] := by
  rw [lines, List.filterMap_append]
  have hcomments : ((field.property.doc.map DocComment.commentLines).getD []).filterMap
      boundName? = [] := by
    cases field.property.doc with
    | none => rfl
    | some doc =>
        rw [List.filterMap_eq_nil_iff]
        intro text htext
        obtain ⟨line, -, rfl⟩ := List.mem_map.1 htext
        exact boundName?_commentLine line
  rw [hcomments, List.nil_append, List.filterMap_cons_some (boundName?_field hname _),
    List.filterMap_nil]

/-- The lines of fields bind their names. -/
theorem filterMap_boundName?_flatMap_lines {fields : List DataField}
    (hnames : ∀ field ∈ fields, ∀ c ∈ field.name.toList, Identifier.isNameChar c = true) :
    (fields.flatMap lines).filterMap boundName? = fields.map (·.name) := by
  induction fields with
  | nil => rfl
  | cons field fields ih =>
      rw [List.forall_mem_cons] at hnames
      rw [List.flatMap_cons, List.filterMap_append, filterMap_boundName?_lines hnames.1,
        ih hnames.2]
      rfl

end DataField

theorem EnumConstant.filterMap_boundName?_lines (values : List String) :
    (List.zipWith line (names values) values).filterMap boundName? = names values := by
  have hbound : ∀ e ∈ (names values).zip values, boundName? (line e.1 e.2) = some e.1 := by
    intro e he
    exact boundName?_attribute (isNameChar_of_mem_namesFrom (List.of_mem_zip he).1) _
  rw [← List.map_uncurry_zip_eq_zipWith, List.filterMap_map]
  calc ((names values).zip values).filterMap (boundName? ∘ Function.uncurry line)
      = ((names values).zip values).filterMap (some ∘ Prod.fst) :=
        List.filterMap_congr hbound
    _ = ((names values).zip values).map Prod.fst := by rw [List.filterMap_eq_map]
    _ = names values := List.map_fst_zip (length_namesFrom [] values).le

/-- Fields that are distinct and leave the registration alone are distinct from all else in the
class, unless one of them hides the method that loads a module. -/
theorem Declaration.nodup_attributes_iff {d : Declaration} (hkind : d.kind.mayInherit = true)
    (hnodup : (d.visibleProperties.map (Identifier.ofText ·.name)).Nodup)
    (hregistration : DataField.registration ∉ d.visibleProperties.map (Identifier.ofText ·.name)) :
    d.attributes.Nodup ↔ ¬ d.HidesLoader := by
  have hhides : (∃ p ∈ d.visibleProperties, Identifier.ofText p.name = Document.loaderName) ↔
      Document.loaderName ∈ d.visibleProperties.map (Identifier.ofText ·.name) := by
    rw [List.mem_map]
  rw [attributes, HidesLoader, hhides]
  generalize d.visibleProperties.map (Identifier.ofText ·.name) = fields at hnodup hregistration
  cases hd : d.kind with
  | moduleClass =>
      have hapart : [DataField.registration, Document.loaderName].Nodup := by decide
      simp only [true_and, List.nodup_append, hnodup, hapart]
      constructor
      · intro hdisjoint hmem
        exact hdisjoint _ hmem Document.loaderName (by simp) rfl
      · rintro hfree a ha b hb rfl
        rcases List.mem_pair.1 hb with rfl | rfl
        · exact hregistration ha
        · exact hfree ha
  | ordinaryClass =>
      have hconcat : (fields ++ [DataField.registration]).Nodup :=
        List.nodup_append.2 ⟨hnodup, by simp, fun a ha b hb heq =>
          hregistration (List.mem_singleton.1 hb ▸ heq ▸ ha)⟩
      simpa using hconcat
  | enumeration | typeAlias =>
      rw [hd] at hkind
      cases hkind

/-! ## The lines of classes -/

namespace Document

/-- The lines of a class at its place in a document: its body, and behind the body of the module
class the method that loads a module. -/
def classLines (typeName : String) (member : Member) : List BlockLine :=
  member.body.lines.toList ++
    if member.isModuleClass then .blank :: loaderLines typeName else []

end Document

/-- The lines of a documentation in a class. -/
def DocComment.classLines (doc : Option String) : List String :=
  (doc.map docstringLines).getD []

/-- What stands in a class behind its header and its documentation. -/
def AreStatements (doc : Option String) (lines statements : List BlockLine) : Prop :=
  ∃ header : List String, lines =
    header.map (.atLevel 0) ++ (DocComment.classLines doc).map (.atLevel 1) ++ statements

theorem filterMap_attributeOf?_map (texts : List String) :
    (texts.map (.atLevel 1)).filterMap attributeOf? = texts.filterMap boundName? := by
  rw [List.filterMap_map]
  exact congrArg (List.filterMap · texts) (funext attributeOf?_atLevel_one)

theorem filterMap_attributeOf?_loaderLines (typeName : String) :
    (.blank :: Document.loaderLines typeName).filterMap attributeOf? = [Document.loaderName] :=
  rfl

namespace Member

variable {d : Declaration} {position : Nat} {target : Target} {member : Member}

/-- What stands in the class of an enumeration behind its documentation. -/
def enumerationStatements (doc : Option String) (values : List String) : List String :=
  (if values.isEmpty && doc.isNone then ["pass"] else []) ++
    List.zipWith EnumConstant.line (EnumConstant.names values) values

/-- What stands in a dataclass behind its documentation. -/
def dataclassStatements (key : String) (doc : Option String) (fields : List DataField) :
    List String :=
  fields.flatMap DataField.lines ++ (if fields.isEmpty && doc.isNone then [] else [""]) ++
    [DataField.registration ++ " = " ++ Quoted.encode key]

theorem enumerationLines_eq (doc : Option String) (values : List String) :
    enumerationLines doc values = DocComment.classLines doc ++ enumerationStatements doc values :=
  List.append_assoc _ _ _

theorem dataclassLines_eq (key : String) (doc : Option String) (fields : List DataField) :
    dataclassLines key doc fields =
      DocComment.classLines doc ++ dataclassStatements key doc fields := by
  rw [dataclassStatements, ← List.append_assoc, ← List.append_assoc]
  rfl

theorem filterMap_boundName?_enumerationStatements (doc : Option String) (values : List String) :
    (enumerationStatements doc values).filterMap boundName? = EnumConstant.names values := by
  have hpass : (if values.isEmpty && doc.isNone then ["pass"] else []).filterMap boundName? =
      [] := by
    split <;> rfl
  rw [enumerationStatements, List.filterMap_append, hpass, List.nil_append,
    EnumConstant.filterMap_boundName?_lines]

theorem filterMap_boundName?_dataclassStatements {superclass : Option Binding}
    {fields : List DataField} (h : ClassText d target superclass fields member) :
    (dataclassStatements d.qualifiedName d.doc fields).filterMap boundName? =
      d.visibleProperties.map (Identifier.ofText ·.name) ++ [DataField.registration] := by
  have hnames := (DataField.names_of_ofProperties h.fields_eq).1
  have hchars : ∀ field ∈ fields, ∀ c ∈ field.name.toList, Identifier.isNameChar c = true := by
    intro field hfield c hc
    have hmem : field.name ∈ d.visibleProperties.map (Identifier.ofText ·.name) :=
      hnames ▸ List.mem_map_of_mem hfield
    obtain ⟨p, -, hp⟩ := List.mem_map.1 hmem
    rw [← hp] at hc
    exact Identifier.isNameChar_of_mem_ofText hc
  have hgap : (if fields.isEmpty && d.doc.isNone then [] else [""]).filterMap boundName? = [] := by
    split <;> rfl
  have hregistration : ∀ c ∈ DataField.registration.toList, Identifier.isNameChar c = true :=
    List.all_eq_true.1 rfl
  rw [dataclassStatements, List.filterMap_append, List.filterMap_append, hgap, List.append_nil,
    DataField.filterMap_boundName?_flatMap_lines hchars, hnames,
    List.filterMap_cons_some (boundName?_attribute hregistration _), List.filterMap_nil]

/-- The statements of a class bind the attributes of its declaration. -/
theorem exists_statements (h : ofDeclaration d position target = .ok member)
    (hclass : member.isTypeAlias = false) (typeName : String) :
    ∃ statements, AreStatements d.doc (Document.classLines typeName member) statements ∧
      statements.filterMap attributeOf? = d.attributes ∧
      (d.attributes.Nodup ↔ ¬ d.HidesLoader) := by
  have hkind := (stems_of_ofDeclaration h).kind_eq
  obtain ⟨outer, inner, hlayers, hlines⟩ := exists_layers_of_ofDeclaration h
  rw [Document.classLines, hlines]
  cases hlayers with
  | typeAlias hd _ => simp [isTypeAlias, hkind, hd] at hclass
  | enumeration hd =>
      have hnot : member.isModuleClass = false := by simp [isModuleClass, hkind, hd]
      refine ⟨(enumerationStatements d.doc d.values).map (.atLevel 1),
        ⟨["class " ++ member.name ++ "(str, Enum):"], ?_⟩, ?_, ?_⟩
      · rw [hnot, Block.layers, enumerationLines_eq, List.map_append, ← List.append_assoc]
        exact List.append_nil _
      · rw [filterMap_attributeOf?_map, filterMap_boundName?_enumerationStatements,
          Declaration.attributes, hd]
      · simp [Declaration.attributes, Declaration.HidesLoader, hd, EnumConstant.names_nodup]
  | @dataclass superclass fields hd htext =>
      obtain ⟨hnames, hnodup, hregistration, -⟩ := DataField.names_of_ofProperties htext.fields_eq
      rw [hnames] at hnodup hregistration
      refine ⟨(dataclassStatements d.qualifiedName d.doc fields).map (.atLevel 1) ++
          if member.isModuleClass then .blank :: Document.loaderLines typeName else [],
        ⟨["@dataclass", "class " ++ member.name ++ superclassClause target superclass ++ ":"], ?_⟩,
        ?_, Declaration.nodup_attributes_iff ?_ hnodup hregistration⟩
      · rw [Block.layers, dataclassLines_eq, List.map_append, ← List.append_assoc,
          List.append_assoc]
      · rw [List.filterMap_append, filterMap_attributeOf?_map,
          filterMap_boundName?_dataclassStatements htext]
        rcases hd with hd | hd
        · rw [if_pos (by simp [isModuleClass, hkind, hd]), filterMap_attributeOf?_loaderLines]
          simp [Declaration.attributes, hd]
        · rw [if_neg (by simp [isModuleClass, hkind, hd])]
          simp [Declaration.attributes, hd]
      · rcases hd with hd | hd <;> rw [hd] <;> rfl

end Member

/-! ## The classes of a document -/

namespace Document

/-- The body of the last member ends the bodies. -/
theorem bodyLines_suffix_bodies (others : List Member) (last : Member) :
    bodyLines last <:+ bodies (others ++ [last]) := by
  cases others with
  | nil => simp [bodies]
  | cons first others =>
      rw [List.cons_append, bodies, List.flatMap_append, List.flatMap_singleton,
        ← List.append_assoc]
      exact List.suffix_append_of_suffix (List.suffix_cons _ _)

/-- Every class stands in its document in one piece, the module class with the method that loads a
module. -/
theorem classLines_infix_block (header : List String) (typeName : String) {others : List Member}
    {root : Member} (hroot : root.isModuleClass = true)
    (hothers : ∀ member ∈ others, member.isModuleClass = false)
    (hbodies : ∀ member ∈ others ++ [root], bodyLines member = member.body.lines.toList) :
    ∀ member ∈ others ++ [root],
      classLines typeName member <:+: (block header typeName (others ++ [root])).lines.toList := by
  intro member hmember
  rw [classLines, ← hbodies member hmember]
  rcases List.mem_append.1 hmember with hother | hlast
  · rw [hothers member hother, if_neg Bool.false_ne_true, List.append_nil]
    exact body_infix_block header typeName hmember
  · obtain rfl := List.mem_singleton.1 hlast
    obtain ⟨front, hfront⟩ := bodyLines_suffix_bodies others member
    rw [if_pos hroot, lines_block, lines_loader, ← hfront, ← List.append_assoc,
      List.append_assoc _ (bodyLines member)]
    exact (List.suffix_append _ _).isInfix

end Document

/-- The member of the declaration `d` is a class that stands among the lines of a document in one
piece, with these statements, and they bind the attributes of `d`. -/
structure ClassIn (lines : List BlockLine) (typeName : String) (member : Member) (d : Declaration)
    (statements : List BlockLine) : Prop where
  key_eq : member.key = d.qualifiedName
  kind_eq : member.kind = d.kind
  infix_lines : Document.classLines typeName member <:+: lines
  areStatements : AreStatements d.doc (Document.classLines typeName member) statements
  attributes_eq : statements.filterMap attributeOf? = d.attributes

namespace Module

variable {m : Module} {target : Target}

/-- Every class of a document binds the attributes of its declaration. -/
theorem Arranged.exists_classIn {members : List Member} (h : m.Arranged target members)
    (header : List String) (typeName : String) {member : Member} (hmember : member ∈ members)
    (hclass : member.isTypeAlias = false) :
    ∃ d statements, m.declarations[member.position]? = some d ∧
      ClassIn (Document.block header typeName members).lines.toList typeName member d statements ∧
      (d.attributes.Nodup ↔ ¬ d.HidesLoader) := by
  obtain ⟨others, root, -, rfl, hroot, hothers, -⟩ := h.exists_root
  have hbodies := fun member hmember => (bodyLines_of_mem h member hmember).1
  obtain ⟨d, hd, hmade⟩ := h.ofDeclaration_of_mem member hmember
  obtain ⟨statements, hstatements, hattributes, hnodup⟩ :=
    Member.exists_statements hmade hclass typeName
  have hstems := Member.stems_of_ofDeclaration hmade
  have hinfix :=
    Document.classLines_infix_block header typeName hroot hothers hbodies member hmember
  exact ⟨d, statements, hd, ⟨hstems.key_eq, hstems.kind_eq, hinfix, hstatements, hattributes⟩,
    hnodup⟩

/-! ## A property in the place of the loader -/

/-- A module whose class has a property `load_pkl`. -/
def hidingModule : Module where
  name := "m"
  declarations := [
    { kind := .moduleClass, name := "M", moduleName := "m", location := ⟨"s", 1, 1⟩
      properties := [
        { name := "load_pkl", location := ⟨"s", 1, 1⟩
          type := .primitive ⟨"s", 1, 1⟩ .string }] }]

/-- The schema with that module. -/
def hidingSchema : Schema where
  modules := [hidingModule]
  bindings := ⟨[
    { kind := .moduleClass, source := "m", location := ⟨"s", 1, 1⟩, space := "m",
      name := "ModuleClass" }]⟩

/-- The document of `hidingSchema`. -/
def hidingDocument : Json :=
  .object [("modules", .array [.object [("name", .string "m"), ("declarations", .array [
    .object [("kind", .string "module"), ("name", .string "M"), ("properties", .array [
      .object [("name", .string "load_pkl"), ("type", .object [
        ("kind", .string "primitive"), ("name", .string "String")])]])]])]])]

theorem generate_hidingSchema : ∃ document ds root,
    (hidingSchema.generate {}).run.run [] = (.ok [document], ds) ∧ document.space = "m" ∧
      Written hidingSchema.bindings {} hidingModule document [root] ∧
      root.isModuleClass = true ∧ root.position = 0 := by
  obtain ⟨root, harranged, hroot, hposition⟩ : ∃ root,
      hidingModule.Arranged (Module.target hidingSchema.bindings {} "m") [root] ∧
        root.isModuleClass = true ∧ root.position = 0 := by
    refine ⟨_, ⟨?_, rfl, (Collision.all_eq_nil_iff _).2 (by decide), _, rfl,
      (Member.ordered_of_sorted (by decide)).trans rfl⟩, rfl, rfl⟩
    simp only [hidingModule, List.forall_mem_singleton]
    exact ⟨_, rfl, rfl⟩
  obtain ⟨document, hspace, hwritten⟩ :=
    Written.exists_of_arranged rfl harranged harranged.endsWithModuleClass
  have hrun : (Schema.documentsFrom hidingSchema.bindings {} [] hidingSchema.modules).run.run [] =
      (.ok [document], hidingModule.hiddenWarnings ++ [hidingModule.generatedNote document]) :=
    Schema.run_documentsFrom_cons_eq_ok_iff.2
      ⟨⟨"m", _, "m"⟩, document, [], [root], rfl, rfl, hspace, hwritten, rfl⟩
  exact ⟨document, _, root, Schema.run_generate_eq_ok_iff.2 ⟨by decide, hrun⟩, hspace, hwritten,
    hroot, hposition⟩

/-! ## Distinct attributes -/

/-- In every class of a document the statements bind the attributes of its declaration, and these
are distinct exactly when the class is not the module class or none of its visible properties takes
the name of the method that loads a module. -/
theorem attributes_nodup_iff {header : List String} {document : Document}
    (h : m.document target header = .ok document) :
    ∃ members typeName lines, m.orderedMembers target = .ok members ∧
      document.text = String.join (lines.map (·.render target.indentUnit)) ∧
      ∀ member ∈ members, member.isTypeAlias = false → ∃ d statements,
        m.declarations[member.position]? = some d ∧
        ClassIn lines typeName member d statements ∧
        ((statements.filterMap attributeOf?).Nodup ↔ ¬ d.HidesLoader) := by
  obtain ⟨members, hordered, hof⟩ := document_eq_ok_iff.1 h
  have harranged := orderedMembers_eq_ok_iff.1 hordered
  refine ⟨members, m.name ++ "." ++ (m.moduleClass?.map (·.name)).getD "", _, hordered,
    by rw [(Document.ofMembers_eq_ok_iff.1 hof).2]; rfl, ?_⟩
  intro member hmember hclass
  obtain ⟨d, statements, hd, hin, hnodup⟩ := harranged.exists_classIn header _ hmember hclass
  exact ⟨d, statements, hd, hin, by rw [hin.attributes_eq, hnodup]⟩

/-- The property `load_pkl` hides the loader, and the class of the module has both. -/
theorem attributes_nodup_iff_hidingModule : ∃ document,
    hidingModule.document (Module.target hidingSchema.bindings {} "m") (hidingModule.header {}) =
        .ok document ∧
      ∃ members typeName lines,
        hidingModule.orderedMembers (Module.target hidingSchema.bindings {} "m") = .ok members ∧
        document.text = String.join (lines.map (·.render ({} : Options).indentUnit)) ∧
        ∀ member ∈ members, member.isTypeAlias = false → ∃ d statements,
          hidingModule.declarations[member.position]? = some d ∧
          ClassIn lines typeName member d statements ∧
          ((statements.filterMap attributeOf?).Nodup ↔ ¬ d.HidesLoader) := by
  obtain ⟨document, -, root, -, hspace, hwritten, -⟩ := generate_hidingSchema
  have hordered := hwritten.members_eq
  have hof := hwritten.document_eq
  rw [hspace] at hordered hof
  have hdocument := document_eq_ok_iff.2 ⟨_, hordered, hof⟩
  exact ⟨document, hdocument, attributes_nodup_iff hdocument⟩

/-- A document that is read and generated without error can bind an attribute of a class twice. -/
theorem exists_attributes_not_nodup : Schema.ofJson "s" hidingDocument = .ok hidingSchema ∧
    ∃ document ds lines typeName member d statements,
      (hidingSchema.generate {}).run.run [] = (.ok [document], ds) ∧
        document.text = String.join (lines.map (·.render ({} : Options).indentUnit)) ∧
        ClassIn lines typeName member d statements ∧
        statements.filterMap attributeOf? = ["load_pkl", "_registered_identifier", "load_pkl"] ∧
        ¬ (statements.filterMap attributeOf?).Nodup := by
  refine ⟨rfl, ?_⟩
  obtain ⟨document, ds, root, hgenerate, -, hwritten, hroot, hposition⟩ := generate_hidingSchema
  have hclass : root.isTypeAlias = false := by
    simp only [Member.isModuleClass, decide_eq_true_eq] at hroot
    simp [Member.isTypeAlias, hroot]
  have htext := congrArg Document.text (Document.ofMembers_eq_ok_iff.1 hwritten.document_eq).2
  obtain ⟨d, statements, hd, hin, -⟩ :=
    (orderedMembers_eq_ok_iff.1 hwritten.members_eq).exists_classIn (hidingModule.header {})
      ("m" ++ "." ++ "M") (List.mem_singleton_self root) hclass
  rw [hposition] at hd
  cases hd
  have hattributes : statements.filterMap attributeOf? =
      ["load_pkl", "_registered_identifier", "load_pkl"] := hin.attributes_eq
  refine ⟨document, ds, _, _, root, _, statements, hgenerate, htext, hin, hattributes, ?_⟩
  rw [hattributes]
  decide

end Module

end PklBindings
