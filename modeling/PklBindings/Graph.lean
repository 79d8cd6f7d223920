/-!
# Graphs

Nodes are numbered, and an edge leads from a node to one that has to come behind it. A graph is
sorted by placing nodes one after another: of the nodes to which no edge is left the least one is
next, and with it the edges go that leave it. Nodes to which edges are left in the end have no
place.
-/

namespace PklBindings

/-- The edges between `n` nodes: where those of each node lead, and how many lead to it. There may
be several edges from one node to another. -/
structure Graph (n : Nat) where
  successors : Vector (List (Fin n)) n
  inDegree : Vector Nat n

namespace Graph

/-- No edges. -/
def empty (n : Nat) : Graph n where
  successors := .replicate n []
  inDegree := .replicate n 0

/-- One more edge. -/
def addEdge (g : Graph n) (edge : Fin n × Fin n) : Graph n where
  successors := g.successors.set edge.1 (g.successors.get edge.1 ++ [edge.2]) edge.1.isLt
  inDegree := g.inDegree.set edge.2 (g.inDegree.get edge.2 + 1) edge.2.isLt

/-- The graph of a list of edges. -/
def ofEdges (edges : List (Fin n × Fin n)) : Graph n :=
  edges.foldl addEdge (empty n)

/-- A state in the course of sorting. -/
structure Sorting (n : Nat) where
  /-- The nodes that have their place, in order. -/
  placed : List (Fin n) := []
  /-- How many edges to each node are left. -/
  inDegree : Vector Nat n
  /-- The nodes that may be placed next, the least one first. -/
  ready : List (Fin n) := []

namespace Sorting

/-- Puts a node into a queue that has the least one first. -/
def enqueue (i : Fin n) : List (Fin n) → List (Fin n)
  | [] => [i]
  | j :: queue => if i ≤ j then i :: j :: queue else j :: enqueue i queue

/-- Takes an edge to `i` away; with the last one the node gets ready. -/
def release (s : Sorting n) (i : Fin n) : Sorting n :=
  { s with
    inDegree := s.inDegree.set i (s.inDegree.get i - 1) i.isLt
    -- The count is that of before, so one means that none is left.
    ready := if s.inDegree.get i = 1 then enqueue i s.ready else s.ready }

/-- The nodes to which edges are left. -/
def blocked (s : Sorting n) : List (Fin n) :=
  (List.finRange n).filter (s.inDegree.get · ≠ 0)

end Sorting

/-- Nothing is placed, and the nodes are ready to which no edge leads. -/
def start (g : Graph n) : Sorting n where
  inDegree := g.inDegree
  ready := ((List.finRange n).filter (g.inDegree.get · = 0)).foldl
    (fun ready i => Sorting.enqueue i ready) []

/-- Places the least node that is ready, and takes the edges away that leave it. -/
def step (g : Graph n) (s : Sorting n) : Sorting n :=
  match s.ready with
  | [] => s
  | i :: ready => (g.successors.get i).foldl .release { s with placed := s.placed ++ [i], ready }

/-- A number of steps. -/
def run (g : Graph n) : (steps : Nat) → Sorting n → Sorting n
  | 0, s => s
  | steps + 1, s => g.run steps (g.step s)

/-- The graph sorted. A step places a node, so there are no more steps than nodes. -/
def sort (g : Graph n) : Sorting n :=
  g.run n g.start

end Graph

end PklBindings
