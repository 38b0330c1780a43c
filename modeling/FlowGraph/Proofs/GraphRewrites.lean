import FlowGraph.Proofs.LoadedDocument
import FlowGraph.Proofs.Sharing

/-!
What the rewrites of a set do to the graph that it denotes. A flat set keeps the heads
and the links of its members, and so does a set whose members share what they begin or
end with. The set of branches keeps the exits as well, so that something may follow it.
-/

namespace FlowGraph

open FlowGraph.Expr

/-! ### Flat sets -/

private theorem sameGraph_branching_andThen {hasDefaultExit : NodeId → Bool} {members : List Expr}
    {set continuation : Expr} (solid : ∀ member ∈ members, member ≠ .empty → member.Solid)
    (formed : branching? hasDefaultExit members = some set) (occupied : set ≠ .empty)
    (ofContinuation : continuation.Solid) :
    SameGraph (set.andThen continuation) (.sequence (.set members) continuation) :=
  calc set.andThen continuation
    SameGraph _ (.sequence set continuation) :=
      sameGraph_andThen (solid_branching_of_ne_empty solid formed occupied) ofContinuation
    SameGraph _ (.sequence (.set members) continuation) :=
      (sameGraph_branching formed).sequence (.refl _)

/-- Flattening keeps the union of the heads and that of the links, whatever leaves it leaves
out. The set of branches keeps the union of the exits as well, and with a continuation behind
it the links into the continuation are those from the members. -/
theorem flatten_denotes_union (workflow : Workflow) (members : List Expr) :
    (∀ head, head ∈ (flatten workflow.hasDefaultExit members).heads ↔
        ∃ member ∈ members, head ∈ member.heads) ∧
      (∀ link, link ∈ (flatten workflow.hasDefaultExit members).links ↔
        ∃ member ∈ members, link ∈ member.links) ∧
      ∀ set, branching? workflow.hasDefaultExit members = some set →
        (∀ head, head ∈ set.heads ↔ ∃ member ∈ members, head ∈ member.heads) ∧
        (∀ link, link ∈ set.links ↔ ∃ member ∈ members, link ∈ member.links) ∧
        (∀ leaving, leaving ∈ set.exits ↔ ∃ member ∈ members, leaving ∈ member.exits) ∧
        ∀ continuation, continuation.Solid → set ≠ .empty →
          (∀ member ∈ members, member ≠ .empty → member.Solid) →
            SameGraph (set.andThen continuation) (.sequence (.set members) continuation) := by
  have flat := sameOutline_flatten workflow.hasDefaultExit members
  refine ⟨fun head => (flat.heads head).trans mem_heads_set,
    fun link => (flat.links link).trans mem_links_set, ?_⟩
  intro set formed
  have same := sameGraph_branching formed
  refine ⟨fun head => (same.heads head).trans mem_heads_set,
    fun link => (same.links link).trans mem_links_set,
    fun leaving => (same.exits leaving).trans mem_exits_set, ?_⟩
  intro continuation ofContinuation occupied solid
  exact sameGraph_branching_andThen solid formed occupied ofContinuation

def gated : Document :=
  { nodes :=
      [{ id := "gate", ports := [{ id := "on", name := "on" }, { id := "off", name := "off" }] },
        { id := "a" }, { id := "b" }] }

def gatedLeaves : List Expr :=
  [.node ⟨0⟩, .empty, .set [.sequence (.port ⟨0⟩ ⟨0⟩) (.node ⟨1⟩), .port ⟨0⟩ ⟨0⟩]]

def gatedBranches : List Expr :=
  [.empty, .sequence (.node ⟨0⟩) (.node ⟨1⟩), .set [.node ⟨0⟩, .port ⟨0⟩ ⟨1⟩]]

/-- The port gives way to the branch behind it, so there is no set of branches, and its link
is kept. The gate is no entry point and gives way to nothing: all three branches go on. -/
theorem flatten_denotes_union_gated :
    ∃ workflow, Workflow.load gated = .ok workflow ∧
      flatten workflow.hasDefaultExit gatedLeaves =
        .set [.node ⟨0⟩, .sequence (.port ⟨0⟩ ⟨0⟩) (.node ⟨1⟩)] ∧
      (.port ⟨0⟩ ⟨0⟩, .node ⟨1⟩) ∈ (flatten workflow.hasDefaultExit gatedLeaves).links ∧
      branching? workflow.hasDefaultExit gatedLeaves = none ∧
      branching? workflow.hasDefaultExit gatedBranches =
        some (.set [.sequence (.node ⟨0⟩) (.node ⟨1⟩), .node ⟨0⟩, .port ⟨0⟩ ⟨1⟩]) ∧
      SameGraph
        ((Expr.set [.sequence (.node ⟨0⟩) (.node ⟨1⟩), .node ⟨0⟩, .port ⟨0⟩ ⟨1⟩]).andThen
          (.node ⟨2⟩))
        (.sequence (.set gatedBranches) (.node ⟨2⟩)) := by
  have evaluated : ((Workflow.load gated).toOption.map fun workflow =>
      (flatten workflow.hasDefaultExit gatedLeaves, branching? workflow.hasDefaultExit gatedLeaves,
        branching? workflow.hasDefaultExit gatedBranches)) =
      some (.set [.node ⟨0⟩, .sequence (.port ⟨0⟩ ⟨0⟩) (.node ⟨1⟩)], none,
        some (.set [.sequence (.node ⟨0⟩) (.node ⟨1⟩), .node ⟨0⟩, .port ⟨0⟩ ⟨1⟩])) := by
    decide +kernel
  obtain ⟨workflow, loaded, views⟩ := Workflow.exists_load_of_map_toOption evaluated
  simp only [Prod.mk.injEq] at views
  obtain ⟨flat, refused, formed⟩ := views
  have solid : ∀ member ∈ gatedBranches, member ≠ .empty → member.Solid := by
    simp only [gatedBranches, List.forall_mem_cons]
    refine ⟨absurd rfl, fun _ => .sequence (.node _) (.node _), fun _ => .set (by decide) ?_, ?_⟩
    · simp only [List.forall_mem_cons]
      exact ⟨.node _, .port _ _, fun _ impossible => nomatch impossible⟩
    · exact fun _ impossible => nomatch impossible
  obtain ⟨_, links, _⟩ := flatten_denotes_union workflow gatedLeaves
  obtain ⟨_, _, _, continued⟩ := (flatten_denotes_union workflow gatedBranches).2.2 _ formed
  exact ⟨workflow, loaded, flat, (links _).mpr (by decide), refused, formed,
    continued _ (.node _) (by decide) solid⟩

/-! ### Shared beginnings and endings -/

/-- Taking out of a set what its members end with from some node on, or what they begin
with, keeps its heads and its links and leaves nothing empty behind. -/
theorem sharing_keeps_outline (workflow : Workflow) (node : NodeId) {members : List Expr}
    (solid : ∀ member ∈ members, member.Solid) :
    (∀ expr, shareEnding? workflow.hasDefaultExit node members = some expr →
        expr.Solid ∧ (∀ head, head ∈ expr.heads ↔ head ∈ (Expr.set members).heads) ∧
          ∀ link, link ∈ expr.links ↔ link ∈ (Expr.set members).links) ∧
      ∀ expr, shareBeginning? workflow.hasDefaultExit members = some expr →
        expr.Solid ∧ (∀ head, head ∈ expr.heads ↔ head ∈ (Expr.set members).heads) ∧
          ∀ link, link ∈ expr.links ↔ link ∈ (Expr.set members).links := by
  constructor
  · intro expr formed
    obtain ⟨exprSolid, same⟩ := solid_and_sameOutline_shareEnding solid formed
    exact ⟨exprSolid, same.heads, same.links⟩
  · intro expr formed
    have same := sameOutline_shareBeginning solid formed
    exact ⟨solid_shareBeginning solid formed, same.heads, same.links⟩

def meetingAtGate : List Expr :=
  [.sequence (.node ⟨1⟩) (.node ⟨0⟩), .sequence (.node ⟨0⟩) (.node ⟨2⟩)]

def nestedBranches : List Expr :=
  [.sequence (.port ⟨0⟩ ⟨0⟩) (.node ⟨1⟩),
    .sequence (.sequence (.port ⟨0⟩ ⟨0⟩) (.node ⟨1⟩)) (.node ⟨2⟩)]

/-- The gate stays in both branches and what follows it is shared, though it follows it in one
of them only. Of the shorter branch nothing is left behind the shared beginning. -/
theorem sharing_keeps_outline_gated :
    ∃ workflow, Workflow.load gated = .ok workflow ∧
      (∀ member ∈ meetingAtGate, member.Solid) ∧ (∀ member ∈ nestedBranches, member.Solid) ∧
      shareEnding? workflow.hasDefaultExit ⟨0⟩ meetingAtGate =
        some (.sequence (.set [.sequence (.node ⟨1⟩) (.node ⟨0⟩), .node ⟨0⟩]) (.node ⟨2⟩)) ∧
      (∀ link, link ∈ (Expr.sequence (.set [.sequence (.node ⟨1⟩) (.node ⟨0⟩), .node ⟨0⟩])
          (.node ⟨2⟩)).links ↔ link ∈ (Expr.set meetingAtGate).links) ∧
      shareBeginning? workflow.hasDefaultExit nestedBranches =
        some (.sequence (.sequence (.port ⟨0⟩ ⟨0⟩) (.node ⟨1⟩)) (.node ⟨2⟩)) ∧
      ∀ link, link ∈ (Expr.sequence (.sequence (.port ⟨0⟩ ⟨0⟩) (.node ⟨1⟩)) (.node ⟨2⟩)).links ↔
        link ∈ (Expr.set nestedBranches).links := by
  have evaluated : ((Workflow.load gated).toOption.map fun workflow =>
      (shareEnding? workflow.hasDefaultExit ⟨0⟩ meetingAtGate,
        shareBeginning? workflow.hasDefaultExit nestedBranches)) =
      some (some (.sequence (.set [.sequence (.node ⟨1⟩) (.node ⟨0⟩), .node ⟨0⟩]) (.node ⟨2⟩)),
        some (.sequence (.sequence (.port ⟨0⟩ ⟨0⟩) (.node ⟨1⟩)) (.node ⟨2⟩))) := by
    decide +kernel
  obtain ⟨workflow, loaded, views⟩ := Workflow.exists_load_of_map_toOption evaluated
  obtain ⟨ending, beginning⟩ := Prod.mk.inj views
  have meetingSolid : ∀ member ∈ meetingAtGate, member.Solid := by
    simp only [meetingAtGate, List.forall_mem_cons]
    exact ⟨.sequence (.node _) (.node _), .sequence (.node _) (.node _),
      fun _ impossible => nomatch impossible⟩
  have nestedSolid : ∀ member ∈ nestedBranches, member.Solid := by
    simp only [nestedBranches, List.forall_mem_cons]
    exact ⟨.sequence (.port _ _) (.node _),
      .sequence (.sequence (.port _ _) (.node _)) (.node _), fun _ impossible => nomatch impossible⟩
  obtain ⟨_, _, sameEnding⟩ := (sharing_keeps_outline workflow ⟨0⟩ meetingSolid).1 _ ending
  obtain ⟨_, _, sameBeginning⟩ := (sharing_keeps_outline workflow ⟨0⟩ nestedSolid).2 _ beginning
  exact ⟨workflow, loaded, meetingSolid, nestedSolid, ending, sameEnding, beginning, sameBeginning⟩

end FlowGraph
