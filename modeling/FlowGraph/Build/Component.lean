import FlowGraph.Build

/-!
Expressions for the edges that the main expression never reached. They are
grouped into components by shared endpoints, and every component is built on its
own: from its roots first, and then from whatever is still left of it.
-/

namespace FlowGraph

/-! ### Grouping edges -/

/-- The edges of a component with their ids, in document order. -/
abbrev Component := List (EdgeId × Edge)

namespace Component

def touches (idents : List IdentId) (entry : EdgeId × Edge) : Bool :=
  idents.contains entry.2.sourceNode || idents.contains entry.2.targetNode

def ends (entry : EdgeId × Edge) : List IdentId := [entry.2.sourceNode, entry.2.targetNode]

def touching (idents : List IdentId) (edges : List (EdgeId × Edge)) : List (EdgeId × Edge) :=
  edges.filter (touches idents)

def apart (idents : List IdentId) (edges : List (EdgeId × Edge)) : List (EdgeId × Edge) :=
  edges.filter fun entry => !touches idents entry

private theorem apart_length_lt {idents : List IdentId} {edges rest : List (EdgeId × Edge)}
    {entry : EdgeId × Edge} (found : touching idents edges = entry :: rest) :
    (apart idents edges).length < edges.length := by
  have member : entry ∈ touching idents edges := found ▸ List.mem_cons_self
  have inside := List.mem_filter.mp member
  exact List.length_filter_lt_length_iff_exists.mpr ⟨entry, inside.1, by simp [inside.2]⟩

/-- The ends that can be reached from the given ones along edges in any direction. -/
def closure (idents : List IdentId) (edges : List (EdgeId × Edge)) : List IdentId :=
  match _ : touching idents edges with
  | [] => idents
  | first :: rest => closure (idents ++ (first :: rest).flatMap ends) (apart idents edges)
termination_by edges.length
decreasing_by
  rename_i found
  exact apart_length_lt found

/-- Groups edges that are connected by shared ends. The groups come in the order
of their first edges, and each keeps the order of its edges. -/
def partition : List (EdgeId × Edge) → List Component
  | [] => []
  | first :: rest =>
      let idents := closure (ends first) rest
      (first :: touching idents rest) :: partition (apart idents rest)
termination_by edges => edges.length
decreasing_by
  exact Nat.lt_succ_of_le (List.length_filter_le _ _)

/-- The sources that no edge of the component points at, each once and in order
of appearance; the first edge's source if there is none. -/
def roots (component : Component) : List IdentId :=
  let targets := component.map fun entry => entry.2.targetNode
  let sources := component.map fun entry => entry.2.sourceNode
  match (sources.filter fun source => !targets.contains source).eraseDups with
  | [] => sources.take 1
  | found => found

def rootEdges (component : Component) : Component :=
  let roots := component.roots
  component.filter fun entry => roots.contains entry.2.sourceNode

end Component

/-! ### Building a component -/

namespace Build

/-- Whether an expression holds what an ident stands for as a source. -/
def holdsSource (workflow : Workflow) (expr : Expr) (ident : IdentId) : Bool :=
  match workflow.origin? ident with
  | none => false
  | some .entrypoint => true
  | some (.trigger trigger) => expr.contains (.trigger trigger)
  | some (.node node) => expr.contains (.node node)

/-- The leaf from which an edge starts, with a record of an edge that dangles. -/
def seed (workflow : Workflow) (edge : EdgeId) (progress : Progress) : Option Expr × Progress :=
  match workflow.resolveEdge edge with
  | .error cause => (none, progress.record (.dropped edge cause))
  | .ok resolved => (resolved.source.map fun source => .ofReference source.owner, progress)

def seeds (workflow : Workflow) (progress : Progress) : List EdgeId → List Expr × Progress
  | [] => ([], progress)
  | edge :: edges =>
      let (first, progress) := seed workflow edge progress
      let (rest, progress) := seeds workflow progress edges
      (first.toList ++ rest, progress)

def ofRoots (workflow : Workflow) (component : Component) (progress : Progress) : Build :=
  let rootEdges := component.rootEdges.map Prod.fst
  let (leaves, progress) := seeds workflow progress rootEdges
  { expr := Expr.flatten workflow.hasDefaultExit leaves
    queue := ⟨rootEdges, (component.map Prod.fst).filter fun edge => !rootEdges.contains edge⟩
    progress := progress.record (.componentStarted component.length component.roots.length) }

def canAttach (workflow : Workflow) (expr : Expr) (edge : EdgeId) : Bool :=
  (workflow.edge? edge).any fun entry => holdsSource workflow expr entry.sourceNode

/-- Starts again at an edge that the expression does not reach: its source
becomes a new branch, or the edge is set aside if there is none. -/
def restart (workflow : Workflow) (edge : EdgeId) (fresh : List EdgeId) (build : Build) : Build :=
  match seed workflow edge build.progress with
  | (some leaf, progress) =>
      { expr := Expr.flatten workflow.hasDefaultExit [build.expr, leaf]
        queue := ⟨build.queue.pending ++ [edge], fresh⟩
        progress := progress }
  | (none, progress) =>
      { expr := build.expr
        queue := ⟨build.queue.pending, fresh⟩
        progress := (progress.process edge).record (.skipped edge) }

/-- Queues the fresh edges that can be attached or, if there is none, starts
again at the first fresh edge. -/
def refill (workflow : Workflow) (first : EdgeId) (rest : List EdgeId) (build : Build) : Build :=
  let attach := canAttach workflow build.expr
  if (first :: rest).any attach then
    { build with queue := EdgeQueue.enqueueWhere ⟨build.queue.pending, first :: rest⟩ attach }
  else
    build.restart workflow first rest

theorem fresh_refill_length_lt (workflow : Workflow) (first : EdgeId)
    (rest : List EdgeId) (build : Build) :
    (build.refill workflow first rest).queue.fresh.length < (first :: rest).length := by
  unfold refill
  dsimp only
  split
  · rename_i some_attach
    obtain ⟨edge, member, attach⟩ := List.any_eq_true.mp some_attach
    exact List.length_filter_lt_length_iff_exists.mpr ⟨edge, member, by simp [attach]⟩
  · unfold restart
    split <;> exact Nat.lt_succ_self _

/-- Works on a component until no edge of it is fresh. -/
def exhaust (workflow : Workflow) (build : Build) : Build :=
  match _ : build.queue with
  | ⟨_, []⟩ => build
  | ⟨_, first :: rest⟩ => exhaust workflow ((build.refill workflow first rest).drain workflow)
termination_by build.queue.fresh.length
decreasing_by
  rename_i queueIs
  rw [queueIs]
  exact Nat.lt_of_le_of_lt (fresh_drain_length_le _ _) (fresh_refill_length_lt _ _ _ _)

def component (workflow : Workflow) (component : Component) (progress : Progress) : Build :=
  ((ofRoots workflow component progress).drain workflow).exhaust workflow

/-- The expressions of several components, without those that are empty. The
components are numbered from the given index on. -/
def componentsFrom (workflow : Workflow) (progress : Progress) (index : Nat) :
    List Component → List Expr × Progress
  | [] => ([], progress)
  | first :: rest =>
      let built := component workflow first progress
      if built.expr.isEmpty then
        componentsFrom workflow (built.progress.record (.componentOmitted index)) (index + 1) rest
      else
        let (exprs, progress) := componentsFrom workflow built.progress (index + 1) rest
        (built.expr :: exprs, progress)

def leftover (workflow : Workflow) (progress : Progress) : List (EdgeId × Edge) :=
  workflow.edges.enumerate.filter fun entry => !progress.isProcessed entry.1

/-- One expression for every component of the edges that still need work. -/
def components (workflow : Workflow) (progress : Progress) : List Expr × Progress :=
  match leftover workflow progress with
  | [] => ([], progress)
  | edges =>
      let groups := Component.partition edges
      componentsFrom workflow (progress.record (.leftOver edges.length groups.length)) 0 groups

end Build

end FlowGraph
