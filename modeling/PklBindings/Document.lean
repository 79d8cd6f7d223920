import PklBindings.Member.OfDeclaration
import PklBindings.Schema

/-!
# Documents

The text of one Python module: header, fixed imports, the units that its members need, the
members, and the method that loads a module of the schema. That method belongs to the module
class, so the module class has to be the last member.
-/

namespace PklBindings

/-- A generated module and the file that it goes to. -/
structure Document where
  space : String
  fileName : String
  text : String
  deriving DecidableEq, Repr

namespace Document

/-- The header of a document if the options name no other. -/
def defaultHeader (moduleName : String) : List String :=
  ["# Code generated from Pkl module `" ++ moduleName ++ "`. DO NOT EDIT."]

/-- The imports of every document. -/
def preamble : List String :=
  ["from __future__ import annotations",
   "from typing import Any, Callable, Dict, List, Literal, Optional, Set, Tuple, Union",
   "from dataclasses import dataclass",
   "import re",
   "import pkl"]

/-- The method that loads a module of the schema, one level deep. -/
def loader (typeName : String) : Block :=
  (Block.empty.indent.addLines ["@classmethod", "def load_pkl(cls, source):"]).indent.addLines
    ["# Load the Pkl module at the given source and evaluate it into `" ++ typeName ++ "`.",
     "# - Parameter source: The source of the Pkl module.",
     "config = pkl.load(source, parser=pkl.Parser(namespace = globals()))",
     "return config"]

/-- The units that members need, each once, in order of first occurrence. -/
def units (members : List Member) : List String :=
  (members.flatMap (·.units)).eraseDups

/-- Adds the bodies of members, with a blank line between two. -/
def addBodies (block : Block) : List Member → Block
  | [] => block
  | m :: ms => ms.foldl (fun b n => b.addBlank.addBlock n.body) (block.addBlock m.body)

/-- All of a document as one block. -/
def block (header : List String) (typeName : String) (members : List Member) : Block :=
  let head := (units members).foldl Block.addText (Block.empty.addLines (header ++ preamble))
  (addBodies head.addBlank.addBlank members).addBlank.addBlock (loader typeName)

/-- Whether the last member is the module class. -/
def endsWithModuleClass (members : List Member) : Bool :=
  members.getLast?.any (·.isModuleClass)

/-- The document of members in their order. -/
def ofMembers (target : Target) (header : List String) (moduleName className : String)
    (members : List Member) : Except GenerationError Document :=
  if endsWithModuleClass members then
    .ok {
      space := target.space
      fileName := ModuleName.fileName target.space target.fileSuffix
      text := (block header (moduleName ++ "." ++ className) members).render target.indentUnit }
  else .error (.moduleClassNotLast moduleName)

end Document

namespace Module

/-- Refuses a declaration that is not bound, or bound outside the namespace of the target. -/
def checkPlace (m : Module) (target : Target) (d : Declaration) : Except GenerationError Unit := do
  let binding ← d.bindingFor target
  if target.isForeign binding then
    .error (.misplaced d.location d.qualifiedName binding.space m.name target.space)
  else .ok ()

/-- Refuses a module with no module class or with several. -/
def checkModuleClass (m : Module) : Except GenerationError Unit :=
  let count := m.declarations.countP (·.kind = .moduleClass)
  if count = 1 then .ok () else .error (.moduleClassCount m.name count)

/-- Refuses a target in which names collide. -/
def checkCollisions (target : Target) : Except GenerationError Unit :=
  match Collision.inSpace target.bindings target.space with
  | [] => .ok ()
  | collisions => .error (.collisions collisions)

/-- The members of the module, by declaration. -/
def members (m : Module) (target : Target) : Except GenerationError (List Member) :=
  m.declarations.zipIdx.mapM fun (d, position) => Member.ofDeclaration d position target

/-- The members of the module in the order of its document. -/
def orderedMembers (m : Module) (target : Target) : Except GenerationError (List Member) := do
  m.declarations.forM (m.checkPlace target)
  m.checkModuleClass
  checkCollisions target
  let members ← m.members target
  (Member.ordered members).mapError .unordered

/-- The document of a module. -/
def document (m : Module) (target : Target) (header : List String) :
    Except GenerationError Document := do
  let members ← m.orderedMembers target
  let className := (m.moduleClass?.map (·.name)).getD ""
  Document.ofMembers target header m.name className members

end Module

end PklBindings
