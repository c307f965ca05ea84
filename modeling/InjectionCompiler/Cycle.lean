import InjectionCompiler.Search

/-!
# Cycles of a relation

A finite relation is a list of edges.  A cycle is a greatest set of nodes that all lead to one
another by at least one edge.  Nodes are ordered by their first mention, the source of an edge
before its target, and cycles by their first node.
-/

namespace InjectionCompiler.Cycle

variable {α : Type} [DecidableEq α]

def nodes (edges : List (α × α)) : List α :=
  firsts id (edges.flatMap fun edge => [edge.1, edge.2])

def successors (edges : List (α × α)) (node : α) : List α :=
  (edges.filter fun edge => edge.1 = node).map Prod.snd

def space (edges : List (α × α)) : SearchSpace α where
  next := successors edges
  bound := edges.map Prod.snd
  closed := by
    intro node successor h
    obtain ⟨edge, hedge, rfl⟩ := List.mem_map.1 h
    exact List.mem_map.2 ⟨edge, (List.mem_filter.1 hedge).1, rfl⟩

def below (edges : List (α × α)) (node : α) : List α :=
  (space edges).descend node

abbrev Closure (α : Type) := List (α × List α)

def closure (edges : List (α × α)) : Closure α :=
  (nodes edges).map fun node => (node, below edges node)

def Closure.leads (closure : Closure α) (source target : α) : Bool :=
  ((closure.lookup source).getD []).contains target

/-- The nodes that lead to `node` and to which `node` leads. -/
def Closure.component (closure : Closure α) (node : α) : List α :=
  (closure.map Prod.fst).filter fun other =>
    closure.leads node other && closure.leads other node

/-- The cycles of a relation. -/
def cycles (edges : List (α × α)) : List (List α) :=
  let closure := closure edges
  (nodes edges).filterMap fun node =>
    let component := closure.component node
    if component.head? = some node then some component else none

end InjectionCompiler.Cycle
