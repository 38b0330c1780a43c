import FlowGraph.Build.Component

/-!
Compilation of a workflow: the main expression, which starts at the entry edges,
and one expression for every component of the edges that it does not reach.
-/

namespace FlowGraph

structure Compilation where
  /-- What can be reached from the entry; empty if there is nothing. -/
  main : Expr
  /-- One expression for every leftover component that is not empty. -/
  components : List Expr
  progress : Progress

namespace Workflow

def loadEvents (workflow : Workflow) : Array Event :=
  #[.loaded workflow.nodes.size workflow.ports.size workflow.triggers.size workflow.edges.size,
    .interned workflow.idents.size workflow.idents.byteSize workflow.names.size
      workflow.names.byteSize]

/-- The build of the main expression, before which nothing is processed. -/
def mainBuild (workflow : Workflow) : Build :=
  let indexed : Event :=
    .indexed workflow.edges.size workflow.entryEdges.length workflow.hasTriggers
  Build.main workflow (Progress.start.record indexed)

def compile (workflow : Workflow) : Compilation :=
  let main := workflow.mainBuild
  let (components, progress) := Build.components workflow main.progress
  let compiled : Event :=
    .compiled workflow.edges.size main.expr.isEmpty components.length
  { main := main.expr, components := components, progress := progress.record compiled }

end Workflow

end FlowGraph
