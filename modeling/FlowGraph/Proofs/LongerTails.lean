import FlowGraph.Proofs.AddedEdge
import FlowGraph.Proofs.GraphRewrites

/-!
Extending a tail by a link adds this link and nothing else, if the expression ends in the
owner of the link's source. Every leaf that the extension then comes to belongs to this
owner, so the target is never put behind a leaf that the link does not leave.
-/

namespace FlowGraph

open FlowGraph.Expr

namespace Expr

/-! ### Extending leaves of the owner alone -/

mutual

/-- Puts a node behind the given source as `continueFrom` does, but gives nothing at all if
this comes to a leaf of another owner or to the empty expression. -/
def continueOwned? (hasDefaultExit : NodeId → Bool) (source : Reference) (target : NodeId) :
    Expr → Option Expr
  | .sequence first second =>
      (second.continueOwned? hasDefaultExit source target).map first.andThen
  | .set members =>
      (continueOwnedMembers? hasDefaultExit source target members).map (flatten hasDefaultExit)
  | leaf =>
      if leaf.owner? = some source.owner then
        some (continueLeaf hasDefaultExit leaf source target)
      else
        none

def continueOwnedMembers? (hasDefaultExit : NodeId → Bool) (source : Reference)
    (target : NodeId) : List Expr → Option (List Expr)
  | [] => some []
  | member :: members =>
      let continued? :=
        if member.endings.contains source.owner then
          member.continueOwned? hasDefaultExit source target
        else
          some member
      continued?.bind fun continued =>
        (continueOwnedMembers? hasDefaultExit source target members).map (continued :: ·)

end

variable {hasDefaultExit : NodeId → Bool} {source : Reference} {target : NodeId}

private theorem continueOwned?_ofReference {leaf : Reference}
    (sameOwner : leaf.owner = source.owner) :
    (ofReference leaf).continueOwned? hasDefaultExit source target =
      some ((ofReference leaf).continueFrom hasDefaultExit source target) := by
  have ownerIs : (ofReference leaf).owner? = some source.owner := by
    rw [owner?_ofReference, sameOwner]
  cases leaf with
  | node nodeId => exact if_pos ownerIs
  | port nodeId portId => exact if_pos ownerIs
  | trigger triggerId => exact if_pos ownerIs

private theorem continueOwnedMembers?_eq_some {members : List Expr}
    (extended : ∀ member ∈ members, source.owner ∈ member.endings →
      member.continueOwned? hasDefaultExit source target =
        some (member.continueFrom hasDefaultExit source target)) :
    continueOwnedMembers? hasDefaultExit source target members =
      some (continueMembers hasDefaultExit source target members) := by
  induction members with
  | nil => rfl
  | cons member members ih =>
      have others := ih fun other present => extended other (List.mem_cons_of_mem member present)
      rw [continueOwnedMembers?, continueMembers, others]
      by_cases ending : member.endings.contains source.owner = true
      · rw [if_pos ending, if_pos ending,
          extended member List.mem_cons_self (List.contains_iff_mem.mp ending)]
        rfl
      · -- Such a member is left as it is, whatever its leaves are.
        rw [if_neg ending, if_neg ending]
        rfl

private theorem continueOwned?_eq_some {expr : Expr} (solid : expr.Solid)
    (ends : source.owner ∈ expr.endings) :
    expr.continueOwned? hasDefaultExit source target =
      some (expr.continueFrom hasDefaultExit source target) := by
  have exit := mem_endings.mp ends
  induction solid with
  | sequence _ _ _ ihSecond =>
      rw [continueOwned?, continueFrom, ihSecond ends exit]
      rfl
  | set _ _ ih =>
      have members := continueOwnedMembers?_eq_some fun member present ending =>
        ih member present ending (mem_endings.mp ending)
      rw [continueOwned?, continueFrom, members]
      rfl
  | node nodeId => exact continueOwned?_ofReference (sameOwner_of_exits (.node nodeId) exit)
  | port nodeId portId =>
      exact continueOwned?_ofReference (sameOwner_of_exits (.port nodeId portId) exit)
  | trigger triggerId =>
      exact continueOwned?_ofReference (sameOwner_of_exits (.trigger triggerId) exit)

end Expr

/-! ### Main result -/

/-- Extending the tail of an expression that ends in the owner of the source keeps the heads,
adds the link from the source to the target and no other one, leaves nothing empty behind, and
comes to no leaf of another owner. -/
theorem continueFrom_adds_link (workflow : Workflow) (source : Reference) (target : NodeId)
    {expr : Expr} (solid : expr.Solid) (ends : source.owner ∈ expr.endings) :
    (∀ head, head ∈ (expr.continueFrom workflow.hasDefaultExit source target).heads ↔
        head ∈ expr.heads) ∧
      (∀ link, link ∈ (expr.continueFrom workflow.hasDefaultExit source target).links ↔
        link ∈ expr.links ∨ link = (source, .node target)) ∧
      (expr.continueFrom workflow.hasDefaultExit source target).Solid ∧
      expr.continueOwned? workflow.hasDefaultExit source target =
        some (expr.continueFrom workflow.hasDefaultExit source target) := by
  have adds : Adds (some source) target expr
      (expr.continueFrom workflow.hasDefaultExit source target) :=
    adds_continueFrom solid (mem_endings.mp ends)
  refine ⟨?_, ?_, adds.solid, continueOwned?_eq_some solid ends⟩
  · intro head
    rw [adds.heads]
    simp only [reduceCtorEq, false_and, or_false]
  · intro link
    rw [adds.links, Prod.ext_iff, Option.some.injEq, eq_comm]

def endingAtGate : Expr :=
  .set [.sequence (.node ⟨1⟩) (.set [.port ⟨0⟩ ⟨0⟩, .node ⟨2⟩]), .node ⟨0⟩, .node ⟨2⟩]

def continuedAtGate : Expr :=
  .set [.sequence (.node ⟨1⟩)
      (.set [.port ⟨0⟩ ⟨0⟩, .sequence (.port ⟨0⟩ ⟨1⟩) (.node ⟨2⟩), .node ⟨2⟩]),
    .sequence (.port ⟨0⟩ ⟨1⟩) (.node ⟨2⟩), .node ⟨2⟩]

theorem continueFrom_adds_link_gated :
    ∃ workflow, Workflow.load gated = .ok workflow ∧ endingAtGate.Solid ∧
      Reference.node ⟨0⟩ ∈ endingAtGate.endings ∧
      endingAtGate.continueFrom workflow.hasDefaultExit (.port ⟨0⟩ ⟨1⟩) ⟨2⟩ = continuedAtGate ∧
      (∀ head, head ∈ continuedAtGate.heads ↔ head ∈ endingAtGate.heads) ∧
      (∀ link, link ∈ continuedAtGate.links ↔
        link ∈ endingAtGate.links ∨ link = (.port ⟨0⟩ ⟨1⟩, .node ⟨2⟩)) ∧
      endingAtGate.continueOwned? workflow.hasDefaultExit (.port ⟨0⟩ ⟨1⟩) ⟨2⟩ =
        some continuedAtGate := by
  have evaluated : ((Workflow.load gated).toOption.map fun workflow =>
      endingAtGate.continueFrom workflow.hasDefaultExit (.port ⟨0⟩ ⟨1⟩) ⟨2⟩) =
      some continuedAtGate := by
    decide +kernel
  obtain ⟨workflow, loaded, continued⟩ := Workflow.exists_load_of_map_toOption evaluated
  have solid : endingAtGate.Solid := by
    apply Solid.set (by decide)
    simp only [List.forall_mem_cons]
    refine ⟨.sequence (.node _) (.set (by decide) ?_), .node _, .node _,
      fun _ impossible => nomatch impossible⟩
    simp only [List.forall_mem_cons]
    exact ⟨.port _ _, .node _, fun _ impossible => nomatch impossible⟩
  have ends : Reference.node ⟨0⟩ ∈ endingAtGate.endings := by decide
  obtain ⟨heads, links, _, owned⟩ :=
    continueFrom_adds_link workflow (.port ⟨0⟩ ⟨1⟩) ⟨2⟩ solid ends
  rw [continued] at heads links owned
  exact ⟨workflow, loaded, solid, ends, continued, heads, links, owned⟩

end FlowGraph
