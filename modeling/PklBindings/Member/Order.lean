import PklBindings.Graph
import PklBindings.Member.Basic
import PklBindings.Text

/-!
# The order of members

A Python class has to stand after its superclass, and the module class after all other classes.
Type aliases come first; of the classes that may stand next, the one declared first is next. No
order exists when two classes have one key, or when classes wait for each other in a circle.
-/

namespace PklBindings

/-- Why members have no order. -/
inductive OrderError where
  /-- Two classes have the same key. -/
  | duplicate (key : String)
  /-- These classes wait for each other, or for one that does. -/
  | cycle (keys : List String)
  deriving DecidableEq, Repr

namespace OrderError

/-- Keys with commas between them. A comma is put behind text only, so empty keys at the start leave
no trace. -/
def keyList (keys : List String) : String :=
  keys.foldl (fun text key => (if text = "" then text else text ++ ", ") ++ key) ""

/-- The reason in words. -/
def message : OrderError → String
  | duplicate key => "internal error: duplicate generated member '" ++ Text.untilNul key ++ "'"
  | cycle keys =>
    "internal error: declaration dependency cycle among: " ++ Text.untilNul (keyList keys)

end OrderError

namespace Member

/-- Members by the position of their declarations; of equal positions, in the given order. -/
def byPosition (members : List Member) : List Member :=
  members.mergeSort fun a b => a.position ≤ b.position

/-- The first text that occurs earlier in the list. -/
def firstRepeated (seen : List String) : List String → Option String
  | [] => none
  | s :: rest => if seen.contains s then some s else firstRepeated (s :: seen) rest

/-- An edge from each superclass that is among the classes to its subclass. -/
def superclassEdges (classes : List Member) :
    List (Fin classes.length × Fin classes.length) :=
  (List.finRange classes.length).filterMap fun i => do
    let superclass ← (classes.get i).superclass
    let above ← classes.findFinIdx? (·.key = superclass)
    return (above, i)

/-- An edge from each class that is no module class to each module class. -/
def moduleEdges (classes : List Member) : List (Fin classes.length × Fin classes.length) :=
  ((List.finRange classes.length).filter fun root => (classes.get root).isModuleClass).flatMap
    fun root => ((List.finRange classes.length).filter fun i => !(classes.get i).isModuleClass).map
      fun i => (i, root)

/-- The classes sorted, superclasses before subclasses and module classes at the end. -/
def sortClasses (classes : List Member) : Graph.Sorting classes.length :=
  (Graph.ofEdges (superclassEdges classes ++ moduleEdges classes)).sort

/-- The members in the order in which their module shows them. -/
def ordered (members : List Member) : Except OrderError (List Member) :=
  let aliases := byPosition (members.filter (·.isTypeAlias))
  let classes := byPosition (members.filter (!·.isTypeAlias))
  match firstRepeated [] (classes.map (·.key)) with
  | some key => .error (.duplicate key)
  | none =>
    let sorted := sortClasses classes
    let out := aliases ++ sorted.placed.map classes.get
    -- Whoever has no place waits on a circle or behind one.
    if out.length = members.length then .ok out
    else .error (.cycle (sorted.blocked.map fun i => (classes.get i).key))

end Member

end PklBindings
