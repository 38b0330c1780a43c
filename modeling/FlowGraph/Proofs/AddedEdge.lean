import FlowGraph.Proofs.Flattening

/-!
Expressions that hold one edge more than another one: an edge from a reference is one
more link, and an edge from the structural entry is one more head. The exits are left
open, as they change with the place of the edge.

Extending a tail adds an edge in this sense.
-/

namespace FlowGraph.Expr

variable {hasDefaultExit : NodeId → Bool} {source : Option Reference} {target : NodeId}

/-- The new expression is solid and holds what the old one holds, and the edge. -/
structure Adds (source : Option Reference) (target : NodeId) (old new : Expr) : Prop where
  solid : new.Solid
  heads : ∀ head, head ∈ new.heads ↔ head ∈ old.heads ∨ source = none ∧ head = .node target
  links : ∀ link, link ∈ new.links ↔
    link ∈ old.links ∨ source = some link.1 ∧ link.2 = .node target

namespace Adds

theorem of_sameOutline_new {old new other : Expr} (adds : Adds source target old new)
    (solid : other.Solid) (same : SameOutline other new) : Adds source target old other where
  solid := solid
  heads := fun head => (same.heads head).trans (adds.heads head)
  links := fun link => (same.links link).trans (adds.links link)

private theorem of_sameOutline_old {old new other : Expr} (adds : Adds source target old new)
    (same : SameOutline old other) : Adds source target other new where
  solid := adds.solid
  heads := by
    intro head
    rw [adds.heads, same.heads]
  links := by
    intro link
    rw [adds.links, same.links]

/-- An edge is added to a sequence by adding it to the second operand, unless it is
one from the structural entry. -/
theorem sequence {leaving : Reference} {first second new : Expr} (ofFirst : first.Solid)
    (adds : Adds (some leaving) target second new) :
    Adds (some leaving) target (.sequence first second) (.sequence first new) where
  solid := .sequence ofFirst adds.solid
  heads := by
    intro head
    rw [heads_sequence, heads_sequence]
    simp only [reduceCtorEq, false_and, or_false]
  links := by
    intro link
    have sameHeads := adds.heads link.2
    simp only [reduceCtorEq, false_and, or_false] at sameHeads
    rw [mem_links_sequence, mem_links_sequence, adds.links, sameHeads]
    constructor
    · intro inside
      rcases inside with inFirst | (inSecond | edge) | joint
      · exact Or.inl (Or.inl inFirst)
      · exact Or.inl (Or.inr (Or.inl inSecond))
      · exact Or.inr edge
      · exact Or.inl (Or.inr (Or.inr joint))
    · intro inside
      rcases inside with (inFirst | inSecond | joint) | edge
      · exact Or.inl inFirst
      · exact Or.inr (Or.inl (Or.inl inSecond))
      · exact Or.inr (Or.inr joint)
      · exact Or.inr (Or.inl (Or.inr edge))

theorem set {members newMembers : List Expr}
    (ofNew : ∀ new ∈ newMembers, new ∈ members ∧ new.Solid ∨
      ∃ old ∈ members, Adds source target old new)
    (ofOld : ∀ old ∈ members, old ∈ newMembers ∨
      ∃ new ∈ newMembers, Adds source target old new)
    (added : ∃ old ∈ members, ∃ new ∈ newMembers, Adds source target old new) :
    Adds source target (.set members) (.set newMembers) := by
  obtain ⟨someOld, someInOld, someNew, someInNew, someAdds⟩ := added
  refine ⟨.set (List.ne_nil_of_mem someInNew) ?_, fun head => ?_, fun link => ?_⟩
  · intro new inNew
    rcases ofNew new inNew with kept | ⟨old, _, adds⟩
    · exact kept.2
    · exact adds.solid
  · rw [mem_heads_set, mem_heads_set]
    constructor
    · intro inside
      obtain ⟨new, inNew, start⟩ := inside
      rcases ofNew new inNew with kept | ⟨old, inOld, adds⟩
      · exact Or.inl ⟨new, kept.1, start⟩
      · exact ((adds.heads head).mp start).imp_left fun before => ⟨old, inOld, before⟩
    · intro inside
      rcases inside with ⟨old, inOld, start⟩ | edge
      · rcases ofOld old inOld with kept | ⟨new, inNew, adds⟩
        · exact ⟨old, kept, start⟩
        · exact ⟨new, inNew, (adds.heads head).mpr (Or.inl start)⟩
      · exact ⟨someNew, someInNew, (someAdds.heads head).mpr (Or.inr edge)⟩
  · rw [mem_links_set, mem_links_set]
    constructor
    · intro inside
      obtain ⟨new, inNew, within⟩ := inside
      rcases ofNew new inNew with kept | ⟨old, inOld, adds⟩
      · exact Or.inl ⟨new, kept.1, within⟩
      · exact ((adds.links link).mp within).imp_left fun before => ⟨old, inOld, before⟩
    · intro inside
      rcases inside with ⟨old, inOld, within⟩ | edge
      · rcases ofOld old inOld with kept | ⟨new, inNew, adds⟩
        · exact ⟨old, kept, within⟩
        · exact ⟨new, inNew, (adds.links link).mpr (Or.inl within)⟩
      · exact ⟨someNew, someInNew, (someAdds.links link).mpr (Or.inr edge)⟩

theorem replace {front back : List Expr} {old new : Expr}
    (solid : ∀ member ∈ front ++ old :: back, member.Solid) (adds : Adds source target old new) :
    Adds source target (.set (front ++ old :: back)) (.set (front ++ new :: back)) := by
  have oldInside : old ∈ front ++ old :: back := List.mem_append_right front List.mem_cons_self
  have newInside : new ∈ front ++ new :: back := List.mem_append_right front List.mem_cons_self
  apply Adds.set
  · intro member present
    rcases List.mem_append.mp present with inFront | inRest
    · have kept := List.mem_append_left (old :: back) inFront
      exact Or.inl ⟨kept, solid member kept⟩
    · rcases List.mem_cons.mp inRest with rfl | inBack
      · exact Or.inr ⟨old, oldInside, adds⟩
      · have kept := List.mem_append_right front (List.mem_cons_of_mem old inBack)
        exact Or.inl ⟨kept, solid member kept⟩
  · intro member present
    rcases List.mem_append.mp present with inFront | inRest
    · exact Or.inl (List.mem_append_left (new :: back) inFront)
    · rcases List.mem_cons.mp inRest with rfl | inBack
      · exact Or.inr ⟨new, newInside, adds⟩
      · exact Or.inl (List.mem_append_right front (List.mem_cons_of_mem new inBack))
  · exact ⟨old, oldInside, new, newInside, adds⟩

theorem flatten {old : Expr} {newMembers : List Expr}
    (adds : Adds source target old (.set newMembers)) :
    Adds source target old (Expr.flatten hasDefaultExit newMembers) := by
  apply adds.of_sameOutline_new _ (sameOutline_flatten hasDefaultExit newMembers)
  cases adds.solid with
  | set inhabited ofMembers => exact solid_flatten inhabited ofMembers

end Adds

/-! ### The branch that an edge makes on its own -/

private theorem link_eq_sequence (leaving : Reference) (target : NodeId) :
    link leaving target = .sequence (ofReference leaving) (.node target) := by
  cases leaving <;> rfl

def branchOf (source : Option Reference) (target : NodeId) : Expr :=
  match source with
  | none => .node target
  | some leaving => link leaving target

private theorem solid_branchOf (source : Option Reference) (target : NodeId) :
    (branchOf source target).Solid := by
  cases source with
  | none => exact .node target
  | some leaving =>
      rw [branchOf, link_eq_sequence]
      exact .sequence (solid_ofReference leaving) (.node target)

theorem heads_ofReference (reference : Reference) :
    (ofReference reference).heads = [reference.owner] := by
  cases reference <;> rfl

private theorem exits_ofReference (reference : Reference) :
    (ofReference reference).exits = [reference] := by
  cases reference <;> rfl

theorem owner?_ofReference (reference : Reference) :
    (ofReference reference).owner? = some reference.owner := by
  cases reference <;> rfl

theorem links_ofReference (reference : Reference) : (ofReference reference).links = [] := by
  cases reference <;> rfl

private theorem mem_heads_branchOf {head : Reference} :
    head ∈ (branchOf source target).heads ↔
      source.map Reference.owner = some head ∨ source = none ∧ head = .node target := by
  cases source with
  | none => simp [branchOf, heads]
  | some leaving =>
      rw [branchOf, link_eq_sequence, heads_sequence, heads_ofReference]
      simp [eq_comm]

private theorem mem_links_branchOf {link : Reference × Reference} :
    link ∈ (branchOf source target).links ↔ source = some link.1 ∧ link.2 = .node target := by
  cases source with
  | none => simp [branchOf, links]
  | some leaving =>
      rw [branchOf, link_eq_sequence, mem_links_sequence, links_ofReference, exits_ofReference]
      simp [links, heads, eq_comm]

theorem adds_append_branchOf {members : List Expr} (solid : ∀ member ∈ members, member.Solid)
    (starts : ∀ leaving, source = some leaving → leaving.owner ∈ (Expr.set members).heads) :
    Adds source target (.set members) (.set (members ++ [branchOf source target])) := by
  refine ⟨.set (List.append_ne_nil_of_right_ne_nil _ (List.cons_ne_nil _ _)) ?_, ?_, ?_⟩
  · intro member present
    rcases List.mem_append.mp present with old | new
    · exact solid member old
    · rw [List.mem_singleton.mp new]
      exact solid_branchOf source target
  · intro head
    rw [mem_heads_set_append, (sameGraph_set_singleton _).heads, mem_heads_branchOf]
    constructor
    · intro start
      rcases start with inMembers | owner | edge
      · exact Or.inl inMembers
      · obtain ⟨leaving, isSource, rfl⟩ := Option.map_eq_some_iff.mp owner
        exact Or.inl (starts leaving isSource)
      · exact Or.inr edge
    · intro start
      rcases start with inMembers | edge
      · exact Or.inl inMembers
      · exact Or.inr (Or.inr edge)
  · intro link
    rw [mem_links_set_append, (sameGraph_set_singleton _).links, mem_links_branchOf]

theorem adds_link {leaf leaving : Reference} (sameOwner : leaf.owner = leaving.owner) :
    Adds (some leaving) target (ofReference leaf) (link leaving target) where
  solid := solid_branchOf (some leaving) target
  heads := by
    intro head
    rw [link_eq_sequence, heads_sequence, heads_ofReference, heads_ofReference, sameOwner]
    simp only [reduceCtorEq, false_and, or_false]
  links := by
    intro link
    rw [← mem_links_branchOf, links_ofReference]
    simp only [List.not_mem_nil, false_or]
    rfl

theorem adds_flatten_branchOf {leaf : Reference}
    (starts : ∀ leaving, source = some leaving → leaf.owner = leaving.owner) :
    Adds source target (ofReference leaf)
      (Expr.flatten hasDefaultExit [ofReference leaf, branchOf source target]) := by
  have appended : Adds source target (.set [ofReference leaf])
      (.set ([ofReference leaf] ++ [branchOf source target])) := by
    apply adds_append_branchOf
    · intro member present
      rw [List.mem_singleton.mp present]
      exact solid_ofReference leaf
    · intro leaving isSource
      rw [(sameGraph_set_singleton _).heads, heads_ofReference, starts leaving isSource]
      exact List.mem_singleton.mpr rfl
  exact appended.flatten.of_sameOutline_old (sameGraph_set_singleton _).toSameOutline

/-! ### Longer tails -/

def continueMember (hasDefaultExit : NodeId → Bool) (source : Reference) (target : NodeId)
    (member : Expr) : Expr :=
  if member.endings.contains source.owner then
    member.continueFrom hasDefaultExit source target
  else
    member

theorem continueMembers_eq_map (source : Reference) (members : List Expr) :
    continueMembers hasDefaultExit source target members =
      members.map (continueMember hasDefaultExit source target) := by
  induction members with
  | nil => rfl
  | cons member members ih =>
      rw [continueMembers, ih, List.map_cons]
      rfl

theorem endings_contains_owner {source : Reference} {expr : Expr} :
    expr.endings.contains source.owner = true ↔
      ∃ leaving ∈ expr.exits, leaving.owner = source.owner := by
  rw [List.contains_eq_mem, decide_eq_true_eq, mem_endings]

private theorem adds_continueLeaf {leaf source : Reference}
    (sameOwner : leaf.owner = source.owner) :
    Adds (some source) target (ofReference leaf)
      (continueLeaf hasDefaultExit (ofReference leaf) source target) := by
  have ownerIs : (ofReference leaf).owner? = some source.owner := by
    rw [owner?_ofReference, sameOwner]
  unfold continueLeaf
  by_cases replaced : (ofReference leaf).reference? = some source ∨
      (ofReference leaf).reference? = some source.owner
  · rw [if_pos replaced]
    exact adds_link sameOwner
  · rw [if_neg replaced, if_pos ownerIs]
    have starts : ∀ leaving, some source = some leaving → leaf.owner = leaving.owner := by
      intro leaving same
      cases same
      exact sameOwner
    exact adds_flatten_branchOf starts

theorem sameOwner_of_exits (leaf : Reference) {source : Reference}
    (ends : ∃ leaving ∈ (ofReference leaf).exits, leaving.owner = source.owner) :
    leaf.owner = source.owner := by
  obtain ⟨leaving, exit, sameOwner⟩ := ends
  rw [exits_ofReference] at exit
  rw [← List.mem_singleton.mp exit]
  exact sameOwner

/-- Extending an expression that ends in the owner of the source adds the edge. -/
theorem adds_continueFrom {source : Reference} {expr : Expr} (solid : expr.Solid)
    (ends : ∃ leaving ∈ expr.exits, leaving.owner = source.owner) :
    Adds (some source) target expr (expr.continueFrom hasDefaultExit source target) := by
  induction solid with
  | sequence ofFirst ofSecond _ ihSecond =>
      rw [continueFrom]
      have adds := ihSecond ends
      exact (adds.sequence ofFirst).of_sameOutline_new (ofFirst.andThen adds.solid)
        (sameGraph_andThen ofFirst adds.solid).toSameOutline
  | @set members inhabited ofMembers ih =>
      rw [continueFrom, continueMembers_eq_map]
      apply Adds.flatten
      have extended : ∀ member ∈ members, member.endings.contains source.owner = true →
          Adds (some source) target member
            (continueMember hasDefaultExit source target member) := by
        intro member present ending
        rw [continueMember, if_pos ending]
        exact ih member present (endings_contains_owner.mp ending)
      have untouched : ∀ member ∈ members, ¬ member.endings.contains source.owner = true →
          continueMember hasDefaultExit source target member = member := by
        intro member present other
        rw [continueMember, if_neg other]
      apply Adds.set
      · intro new image
        obtain ⟨old, present, rfl⟩ := List.mem_map.mp image
        by_cases ending : old.endings.contains source.owner = true
        · exact Or.inr ⟨old, present, extended old present ending⟩
        · rw [untouched old present ending]
          exact Or.inl ⟨present, ofMembers old present⟩
      · intro old present
        have image := List.mem_map_of_mem (f := continueMember hasDefaultExit source target) present
        by_cases ending : old.endings.contains source.owner = true
        · exact Or.inr ⟨_, image, extended old present ending⟩
        · rw [untouched old present ending] at image
          exact Or.inl image
      · obtain ⟨leaving, exit, sameOwner⟩ := ends
        obtain ⟨old, present, inOld⟩ := mem_exits_set.mp exit
        have ending := endings_contains_owner.mpr ⟨leaving, inOld, sameOwner⟩
        exact ⟨old, present, _, List.mem_map_of_mem present, extended old present ending⟩
  | node nodeId => exact adds_continueLeaf (sameOwner_of_exits (.node nodeId) ends)
  | port nodeId portId => exact adds_continueLeaf (sameOwner_of_exits (.port nodeId portId) ends)
  | trigger triggerId => exact adds_continueLeaf (sameOwner_of_exits (.trigger triggerId) ends)

end FlowGraph.Expr
