import FlowGraph.Build.Queue
import FlowGraph.Event
import FlowGraph.Fold
import FlowGraph.Workflow.Adjacency

/-!
Breadth-first building of one expression: edges are taken from a queue, folded,
and followed to the edges that leave their targets. Progress records the edges
processed over all expressions, so that later passes see what is left over.
-/

namespace FlowGraph

structure Progress where
  /-- The edges that need no more work, the latest first. -/
  processed : List EdgeId
  events : Array Event

namespace Progress

def start : Progress := ⟨[], #[]⟩

def isProcessed (progress : Progress) (edge : EdgeId) : Bool := progress.processed.contains edge

def record (progress : Progress) (event : Event) : Progress :=
  { progress with events := progress.events.push event }

def process (progress : Progress) (edge : EdgeId) : Progress :=
  { progress with processed := edge :: progress.processed }

end Progress

def Workflow.surroundings (workflow : Workflow) : Surroundings :=
  { hasDefaultExit := workflow.hasDefaultExit, hasLink := workflow.hasLink }

structure Build where
  expr : Expr
  queue : EdgeQueue
  progress : Progress

namespace Build

def record (build : Build) (event : Event) : Build :=
  { build with progress := build.progress.record event }

/-- Folds a resolved edge into the expression, or records that it has no place. -/
def place (workflow : Workflow) (edge : EdgeId) (resolved : ResolvedEdge) (build : Build) : Build :=
  match workflow.surroundings.foldAtTop resolved.source resolved.target build.expr with
  | some expr => { build with expr := expr }.record (.placed edge expr)
  | none => build.record (.unplaced edge)

def follow (workflow : Workflow) (node : NodeId) (build : Build) : Build :=
  { build with queue := build.queue.enqueueAll (workflow.outgoing node) }

/-- Works on one edge: it is processed and, if it resolves, folded and followed. -/
def step (workflow : Workflow) (edge : EdgeId) (build : Build) : Build :=
  let build := { build with progress := (build.progress.process edge).record (.taken edge) }
  match workflow.resolveEdge edge with
  | .error cause => build.record (.dropped edge cause)
  | .ok resolved => (build.place workflow edge resolved).follow workflow resolved.target

private theorem queue_place (workflow : Workflow) (edge : EdgeId) (resolved : ResolvedEdge)
    (build : Build) : (build.place workflow edge resolved).queue = build.queue := by
  unfold place
  split <;> rfl

theorem size_step (workflow : Workflow) (edge : EdgeId) (build : Build) :
    (build.step workflow edge).queue.size = build.queue.size := by
  unfold step
  split
  · rfl
  · rw [follow, EdgeQueue.size_enqueueAll, queue_place]

theorem fresh_step_length_le (workflow : Workflow) (edge : EdgeId) (build : Build) :
    (build.step workflow edge).queue.fresh.length ≤ build.queue.fresh.length := by
  unfold step
  split
  · exact Nat.le_refl _
  · refine Nat.le_trans (EdgeQueue.fresh_enqueueAll_length_le _ _) (Nat.le_of_eq ?_)
    rw [queue_place]

def drain (workflow : Workflow) (build : Build) : Build :=
  match _ : build.queue with
  | ⟨[], _⟩ => build
  | ⟨edge :: pending, fresh⟩ =>
      drain workflow ({ build with queue := ⟨pending, fresh⟩ }.step workflow edge)
termination_by build.queue.size
decreasing_by
  rename_i queueIs
  rw [size_step, queueIs]
  simp only [EdgeQueue.size, List.length_cons]
  omega

theorem fresh_drain_length_le (workflow : Workflow) (build : Build) :
    (build.drain workflow).queue.fresh.length ≤ build.queue.fresh.length := by
  fun_induction drain workflow build with
  | case1 build fresh queueIs => exact Nat.le_refl _
  | case2 build edge pending fresh queueIs ih =>
      have sameFresh : fresh = build.queue.fresh := by rw [queueIs]
      exact Nat.le_trans ih (sameFresh ▸ fresh_step_length_le _ _ _)

/-- The main expression: what can be reached from the entry edges. It starts from
the triggers that they leave. -/
def main (workflow : Workflow) (progress : Progress) : Build :=
  let entryEdges := workflow.entryEdges
  let seeds := entryEdges.filterMap fun edge =>
    ((workflow.edge? edge).bind fun entry => workflow.lookupTrigger? entry.sourceNode).map
      Expr.trigger
  let fresh := workflow.edges.ids.filter fun edge =>
    !progress.isProcessed edge && !entryEdges.contains edge
  drain workflow
    { expr := Expr.flatten workflow.hasDefaultExit seeds
      queue := ⟨entryEdges, fresh⟩
      progress := progress.record (.mainStarted entryEdges.length) }

end Build

end FlowGraph
