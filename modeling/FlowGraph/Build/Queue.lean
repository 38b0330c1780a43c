import FlowGraph.Workflow.Id

/-!
The work queue of one expression. Every edge in its scope is fresh until it is
queued, and is queued at most once, so a queue of a given scope runs dry.
-/

namespace FlowGraph

/-- Edges waiting to be folded, and those that can still be queued. -/
structure EdgeQueue where
  /-- The edges that wait, the next one first. -/
  pending : List EdgeId
  /-- The edges in scope that have not been queued. -/
  fresh : List EdgeId

namespace EdgeQueue

def size (queue : EdgeQueue) : Nat := queue.pending.length + queue.fresh.length

/-- Queues an edge behind all others if it is fresh. -/
def enqueue (queue : EdgeQueue) (edge : EdgeId) : EdgeQueue :=
  if edge ∈ queue.fresh then
    { pending := queue.pending ++ [edge], fresh := queue.fresh.erase edge }
  else
    queue

def enqueueAll (queue : EdgeQueue) (edges : List EdgeId) : EdgeQueue :=
  edges.foldl enqueue queue

def enqueueWhere (queue : EdgeQueue) (test : EdgeId → Bool) : EdgeQueue :=
  { pending := queue.pending ++ queue.fresh.filter test
    fresh := queue.fresh.filter fun edge => !test edge }

theorem size_enqueue (queue : EdgeQueue) (edge : EdgeId) :
    (queue.enqueue edge).size = queue.size := by
  unfold enqueue size
  by_cases member : edge ∈ queue.fresh
  · have positive := List.length_pos_of_mem member
    simp only [if_pos member, List.length_append, List.length_cons, List.length_nil,
      List.length_erase_of_mem member]
    omega
  · rw [if_neg member]

theorem size_enqueueAll (queue : EdgeQueue) (edges : List EdgeId) :
    (queue.enqueueAll edges).size = queue.size := by
  unfold enqueueAll
  induction edges generalizing queue with
  | nil => rfl
  | cons edge edges ih => rw [List.foldl_cons, ih, size_enqueue]

theorem fresh_enqueue_length_le (queue : EdgeQueue) (edge : EdgeId) :
    (queue.enqueue edge).fresh.length ≤ queue.fresh.length := by
  unfold enqueue
  split
  · exact List.length_erase_le
  · exact Nat.le_refl _

theorem fresh_enqueueAll_length_le (queue : EdgeQueue) (edges : List EdgeId) :
    (queue.enqueueAll edges).fresh.length ≤ queue.fresh.length := by
  unfold enqueueAll
  induction edges generalizing queue with
  | nil => exact Nat.le_refl _
  | cons edge edges ih =>
      exact Nat.le_trans (ih (queue.enqueue edge)) (fresh_enqueue_length_le queue edge)

end EdgeQueue

end FlowGraph
