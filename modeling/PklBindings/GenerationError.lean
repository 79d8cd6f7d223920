import PklBindings.Annotation
import PklBindings.Collision
import PklBindings.Member.Order

/-!
# Errors of generation

Every reason for which a schema has no generated modules. A message shows a quoted text up to its
first NUL, except in the reports of unsupported types and of collisions, which show all of it.
-/

namespace PklBindings

/-- A reason for which nothing is generated. -/
inductive GenerationError where
  /-- A declaration has no Python name. -/
  | unbound (location : Location) (kind : Declaration.Kind) (source : String)
  /-- A type alias has no aliased type. -/
  | untypedAlias (location : Location) (name : String)
  /-- A visible property has no type. -/
  | untypedProperty (location : Location) (name : String)
  /-- A type has no annotation. -/
  | unsupported (type : UnsupportedType)
  /-- A superclass has no Python name. -/
  | unboundSuperclass (location : Location) (superclass source : String)
  /-- A property takes the field that registers its class. -/
  | reservedField (location : Location) (property source field : String)
  /-- Two properties of a class have the same field; `earlier` had it first. -/
  | sharedField (location : Location) (property source field earlier : String)
      (earlierLocation : Location)
  /-- The members of a module have no order. -/
  | unordered (reason : OrderError)
  /-- The members of a document do not end with the module class. -/
  | moduleClassNotLast (moduleName : String)
  /-- A declaration is bound outside the namespace of its module. -/
  | misplaced (location : Location) (source boundSpace moduleName space : String)
  /-- A module has no module class, or several. -/
  | moduleClassCount (moduleName : String) (count : Nat)
  /-- Names collide. -/
  | collisions (all : List Collision)
  /-- The suffix of file names is empty. -/
  | emptySuffix
  /-- A module of the schema has no module class. -/
  | noModuleClass (moduleName : String)
  /-- The module class has no Python name. -/
  | unboundModule (location : Location) (moduleName : String)
  /-- Two modules have one namespace. -/
  | sharedNamespace (earlier moduleName space : String)
  /-- Two modules have one output file. -/
  | sharedFile (earlier moduleName file : String)
  deriving DecidableEq, Repr

/-- The reason in words. -/
def GenerationError.message : GenerationError → String
  | unbound location kind source =>
    shownAt location ++ ": no mapping for " ++ kind.name ++ " " ++ quoted source
  | untypedAlias location name =>
    shownAt location ++ ": " ++ Text.untilNul ("typealias " ++ name) ++ " has no type"
  | untypedProperty location name =>
    shownAt location ++ ": " ++ Text.untilNul ("property " ++ name) ++ " has no type"
  | unsupported type => type.message
  | unboundSuperclass location superclass source =>
    shownAt location ++ ": superclass " ++ quoted superclass ++ " of " ++ quoted source ++
      " has no mapping"
  | reservedField location property source field =>
    shownAt location ++ ": property " ++ quoted property ++ " of " ++ quoted source ++
      " maps to reserved Python field " ++ quoted field
  | sharedField location property source field earlier earlierLocation =>
    shownAt location ++ ": property " ++ quoted property ++ " of " ++ quoted source ++
      " maps to Python field " ++ quoted field ++ " already used by property " ++
      quoted earlier ++ " (" ++ shownAt earlierLocation ++ ")"
  | unordered reason => reason.message
  | moduleClassNotLast moduleName =>
    "internal error: module class of " ++ quoted moduleName ++ " is not the last emitted member"
  | misplaced location source boundSpace moduleName space =>
    shownAt location ++ ": " ++ quoted source ++ " maps to namespace " ++ quoted boundSpace ++
      " but module " ++ quoted moduleName ++ " generates namespace " ++ quoted space
  | moduleClassCount moduleName count =>
    "module " ++ quoted moduleName ++ " must declare exactly one module class, found " ++
      toString count
  | collisions all => "\n".intercalate (all.map (·.message))
  | emptySuffix => "output file suffix must not be empty"
  | noModuleClass moduleName => "module " ++ quoted moduleName ++ " has no module class"
  | unboundModule location moduleName =>
    shownAt location ++ ": no mapping for module " ++ quoted moduleName
  | sharedNamespace earlier moduleName space =>
    "modules " ++ quoted earlier ++ " and " ++ quoted moduleName ++
      " both generate namespace " ++ quoted space
  | sharedFile earlier moduleName file =>
    "modules " ++ quoted earlier ++ " and " ++ quoted moduleName ++
      " both generate output file " ++ quoted file
where
  /-- A text between quotes, up to its first NUL. -/
  quoted (s : String) : String := "'" ++ Text.untilNul s ++ "'"
  /-- A location, up to the first NUL in its written form. -/
  shownAt (location : Location) : String := Text.untilNul location.render

end PklBindings
