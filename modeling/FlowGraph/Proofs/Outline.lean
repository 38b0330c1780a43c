import FlowGraph.Proofs.Solid

/-!
Equality of denoted graphs. Two expressions have the same graph if they agree on
heads, exits and links. Rewrites at the end of an expression may change its exits,
which nothing follows yet: what they keep is the outline, the heads and the links.
-/

namespace FlowGraph.Expr

/-- Two expressions start at the same nodes and triggers and hold the same links. -/
structure SameOutline (left right : Expr) : Prop where
  heads : ∀ head, head ∈ left.heads ↔ head ∈ right.heads
  links : ∀ link, link ∈ left.links ↔ link ∈ right.links

/-- Two expressions denote the same graph. -/
structure SameGraph (left right : Expr) : Prop extends SameOutline left right where
  exits : ∀ leaving, leaving ∈ left.exits ↔ leaving ∈ right.exits

namespace SameOutline

variable {left middle right : Expr}

theorem refl (expr : Expr) : SameOutline expr expr :=
  ⟨fun _ => Iff.rfl, fun _ => Iff.rfl⟩

theorem symm (same : SameOutline left right) : SameOutline right left :=
  ⟨fun head => (same.heads head).symm, fun link => (same.links link).symm⟩

theorem trans (first : SameOutline left middle) (second : SameOutline middle right) :
    SameOutline left right :=
  ⟨fun head => (first.heads head).trans (second.heads head),
    fun link => (first.links link).trans (second.links link)⟩

end SameOutline

namespace SameGraph

variable {left middle right : Expr}

theorem refl (expr : Expr) : SameGraph expr expr :=
  ⟨.refl expr, fun _ => Iff.rfl⟩

theorem symm (same : SameGraph left right) : SameGraph right left :=
  ⟨same.toSameOutline.symm, fun leaving => (same.exits leaving).symm⟩

theorem trans (first : SameGraph left middle) (second : SameGraph middle right) :
    SameGraph left right :=
  ⟨first.toSameOutline.trans second.toSameOutline,
    fun leaving => (first.exits leaving).trans (second.exits leaving)⟩

end SameGraph

instance : Trans SameOutline SameOutline SameOutline := ⟨SameOutline.trans⟩

instance : Trans SameGraph SameGraph SameGraph := ⟨SameGraph.trans⟩

instance : Trans SameGraph SameOutline SameOutline :=
  ⟨fun first second => first.toSameOutline.trans second⟩

instance : Trans SameOutline SameGraph SameOutline :=
  ⟨fun first second => first.trans second.toSameOutline⟩

/-! ### Graphs of sequences and sets -/

theorem mem_heads_set {head : Reference} {members : List Expr} :
    head ∈ (Expr.set members).heads ↔ ∃ member ∈ members, head ∈ member.heads :=
  mem_headsOfAll

theorem mem_exits_set {leaving : Reference} {members : List Expr} :
    leaving ∈ (Expr.set members).exits ↔ ∃ member ∈ members, leaving ∈ member.exits :=
  mem_exitsOfAll

theorem mem_links_set {link : Reference × Reference} {members : List Expr} :
    link ∈ (Expr.set members).links ↔ ∃ member ∈ members, link ∈ member.links :=
  mem_linksOfAll

theorem mem_heads_set_append {head : Reference} {members others : List Expr} :
    head ∈ (Expr.set (members ++ others)).heads ↔
      head ∈ (Expr.set members).heads ∨ head ∈ (Expr.set others).heads := by
  simp only [mem_heads_set, List.mem_append, or_and_right, exists_or]

theorem mem_links_set_append {link : Reference × Reference} {members others : List Expr} :
    link ∈ (Expr.set (members ++ others)).links ↔
      link ∈ (Expr.set members).links ∨ link ∈ (Expr.set others).links := by
  simp only [mem_links_set, List.mem_append, or_and_right, exists_or]

theorem heads_sequence (first second : Expr) : (Expr.sequence first second).heads = first.heads :=
  rfl

private theorem exits_sequence (first second : Expr) :
    (Expr.sequence first second).exits = second.exits :=
  rfl

theorem mem_links_sequence {link : Reference × Reference} {first second : Expr} :
    link ∈ (Expr.sequence first second).links ↔
      link ∈ first.links ∨ link ∈ second.links ∨ link.1 ∈ first.exits ∧ link.2 ∈ second.heads := by
  rw [links, List.mem_append, List.mem_append, mem_joints, or_assoc]

/-- Only the exits of the first operand and the heads of the second one are joined. -/
theorem SameGraph.sequence {first newFirst second newSecond : Expr}
    (sameFirst : SameGraph first newFirst) (sameSecond : SameGraph second newSecond) :
    SameGraph (.sequence first second) (.sequence newFirst newSecond) where
  heads := sameFirst.heads
  exits := sameSecond.exits
  links := by
    intro link
    rw [mem_links_sequence, mem_links_sequence, sameFirst.links, sameSecond.links,
      sameFirst.exits, sameSecond.heads]

theorem SameOutline.sequence {first newFirst second newSecond : Expr}
    (sameFirst : SameGraph first newFirst) (sameSecond : SameOutline second newSecond) :
    SameOutline (.sequence first second) (.sequence newFirst newSecond) where
  heads := sameFirst.heads
  links := by
    intro link
    rw [mem_links_sequence, mem_links_sequence, sameFirst.links, sameSecond.links,
      sameFirst.exits, sameSecond.heads]

theorem sameGraph_set_nil : SameGraph (.set []) .empty :=
  ⟨⟨fun _ => Iff.rfl, fun _ => Iff.rfl⟩, fun _ => Iff.rfl⟩

theorem sameGraph_set_singleton (expr : Expr) : SameGraph (.set [expr]) expr where
  heads := by simp [mem_heads_set]
  exits := by simp [mem_exits_set]
  links := by simp [mem_links_set]

section Images

variable {Item : Type} {items : List Item} {left right : Item → Expr}

theorem mem_heads_set_map {head : Reference} :
    head ∈ (Expr.set (items.map left)).heads ↔ ∃ item ∈ items, head ∈ (left item).heads := by
  rw [mem_heads_set]
  constructor
  · intro found
    obtain ⟨_, image, start⟩ := found
    obtain ⟨item, present, rfl⟩ := List.mem_map.mp image
    exact ⟨item, present, start⟩
  · intro found
    obtain ⟨item, present, start⟩ := found
    exact ⟨left item, List.mem_map_of_mem present, start⟩

private theorem mem_exits_set_map {leaving : Reference} :
    leaving ∈ (Expr.set (items.map left)).exits ↔ ∃ item ∈ items, leaving ∈ (left item).exits := by
  rw [mem_exits_set]
  constructor
  · intro found
    obtain ⟨_, image, exit⟩ := found
    obtain ⟨item, present, rfl⟩ := List.mem_map.mp image
    exact ⟨item, present, exit⟩
  · intro found
    obtain ⟨item, present, exit⟩ := found
    exact ⟨left item, List.mem_map_of_mem present, exit⟩

theorem mem_links_set_map {link : Reference × Reference} :
    link ∈ (Expr.set (items.map left)).links ↔ ∃ item ∈ items, link ∈ (left item).links := by
  rw [mem_links_set]
  constructor
  · intro found
    obtain ⟨_, image, inside⟩ := found
    obtain ⟨item, present, rfl⟩ := List.mem_map.mp image
    exact ⟨item, present, inside⟩
  · intro found
    obtain ⟨item, present, inside⟩ := found
    exact ⟨left item, List.mem_map_of_mem present, inside⟩

theorem SameOutline.set_map (same : ∀ item ∈ items, SameOutline (left item) (right item)) :
    SameOutline (.set (items.map left)) (.set (items.map right)) where
  heads := by
    intro head
    rw [mem_heads_set_map, mem_heads_set_map]
    exact exists_congr fun item => and_congr_right fun present => (same item present).heads head
  links := by
    intro link
    rw [mem_links_set_map, mem_links_set_map]
    exact exists_congr fun item => and_congr_right fun present => (same item present).links link

theorem SameGraph.set_map (same : ∀ item ∈ items, SameGraph (left item) (right item)) :
    SameGraph (.set (items.map left)) (.set (items.map right)) where
  toSameOutline := SameOutline.set_map fun item present => (same item present).toSameOutline
  exits := by
    intro leaving
    rw [mem_exits_set_map, mem_exits_set_map]
    exact exists_congr fun item => and_congr_right fun present => (same item present).exits leaving

end Images

theorem sameGraph_sequence_set (first : Expr) {seconds : List Expr} (inhabited : seconds ≠ []) :
    SameGraph (.sequence first (.set seconds)) (.set (seconds.map (.sequence first))) := by
  obtain ⟨some, present⟩ := List.exists_mem_of_ne_nil seconds inhabited
  refine ⟨⟨fun head => ?_, fun link => ?_⟩, fun leaving => ?_⟩
  · rw [mem_heads_set_map, heads_sequence]
    constructor
    · intro start
      exact ⟨some, present, start⟩
    · intro found
      obtain ⟨_, _, start⟩ := found
      exact start
  · rw [mem_links_set_map]
    simp only [mem_links_sequence, mem_links_set, mem_heads_set]
    constructor
    · intro found
      rcases found with inFirst | ⟨member, inMembers, inside⟩ | ⟨exit, member, inMembers, start⟩
      · exact ⟨some, present, Or.inl inFirst⟩
      · exact ⟨member, inMembers, Or.inr (Or.inl inside)⟩
      · exact ⟨member, inMembers, Or.inr (Or.inr ⟨exit, start⟩)⟩
    · intro found
      rcases found with ⟨member, inMembers, inFirst | inside | ⟨exit, start⟩⟩
      · exact Or.inl inFirst
      · exact Or.inr (Or.inl ⟨member, inMembers, inside⟩)
      · exact Or.inr (Or.inr ⟨exit, member, inMembers, start⟩)
  · rw [mem_exits_set_map, exits_sequence, mem_exits_set]
    rfl

theorem sameGraph_set_sequence (second : Expr) {firsts : List Expr} (inhabited : firsts ≠ []) :
    SameGraph (.sequence (.set firsts) second)
      (.set (firsts.map fun first => .sequence first second)) := by
  obtain ⟨some, present⟩ := List.exists_mem_of_ne_nil firsts inhabited
  refine ⟨⟨fun head => ?_, fun link => ?_⟩, fun leaving => ?_⟩
  · rw [mem_heads_set_map, heads_sequence, mem_heads_set]
    rfl
  · rw [mem_links_set_map]
    simp only [mem_links_sequence, mem_links_set, mem_exits_set]
    constructor
    · intro found
      rcases found with ⟨member, inMembers, inside⟩ | inSecond | ⟨⟨member, inMembers, exit⟩, start⟩
      · exact ⟨member, inMembers, Or.inl inside⟩
      · exact ⟨some, present, Or.inr (Or.inl inSecond)⟩
      · exact ⟨member, inMembers, Or.inr (Or.inr ⟨exit, start⟩)⟩
    · intro found
      rcases found with ⟨member, inMembers, inside | inSecond | ⟨exit, start⟩⟩
      · exact Or.inl ⟨member, inMembers, inside⟩
      · exact Or.inr (Or.inl inSecond)
      · exact Or.inr (Or.inr ⟨⟨member, inMembers, exit⟩, start⟩)
  · rw [mem_exits_set_map, exits_sequence]
    constructor
    · intro exit
      exact ⟨some, present, exit⟩
    · intro found
      obtain ⟨_, _, exit⟩ := found
      exact exit

/-! ### Graphs of chains -/

/-- Putting one expression behind another only regroups a sequence of the two. -/
theorem sameGraph_andThen {first second : Expr} (ofFirst : first.Solid)
    (ofSecond : second.Solid) : SameGraph (first.andThen second) (.sequence first second) := by
  induction ofSecond generalizing first with
  | @sequence second third ofSecond ofThird ihSecond ihThird =>
      rw [andThen_sequence second third ofFirst.ne_empty]
      calc (first.andThen second).andThen third
        SameGraph _ (.sequence (first.andThen second) third) := ihThird (ofFirst.andThen ofSecond)
        SameGraph _ (.sequence (.sequence first second) third) :=
          (ihSecond ofFirst).sequence (.refl third)
        SameGraph _ (.sequence first (.sequence second third)) := by
          refine ⟨⟨fun head => Iff.rfl, fun link => ?_⟩, fun leaving => Iff.rfl⟩
          simp only [mem_links_sequence, heads, exits]
          constructor
          · intro found
            rcases found with (inFirst | inSecond | joint) | inThird | lateJoint
            · exact Or.inl inFirst
            · exact Or.inr (Or.inl (Or.inl inSecond))
            · exact Or.inr (Or.inr joint)
            · exact Or.inr (Or.inl (Or.inr (Or.inl inThird)))
            · exact Or.inr (Or.inl (Or.inr (Or.inr lateJoint)))
          · intro found
            rcases found with inFirst | (inSecond | inThird | lateJoint) | joint
            · exact Or.inl (Or.inl inFirst)
            · exact Or.inl (Or.inr (Or.inl inSecond))
            · exact Or.inr (Or.inl inThird)
            · exact Or.inr (Or.inr lateJoint)
            · exact Or.inl (Or.inr (Or.inr joint))
  | _ =>
      rw [andThen_of_isStep ofFirst.ne_empty ⟨Expr.noConfusion, rfl⟩]
      exact .refl _

theorem sameOutline_andThen {first second : Expr} (ofFirst : first.Solid)
    (ofSecond : second ≠ .empty → second.Solid) :
    SameOutline (first.andThen second) (.sequence first second) := by
  by_cases vacant : second = .empty
  · subst vacant
    refine ⟨fun head => Iff.rfl, fun link => ?_⟩
    rw [andThen_empty, mem_links_sequence]
    simp only [links, heads, List.not_mem_nil, and_false, or_false]
  · exact (sameGraph_andThen ofFirst (ofSecond vacant)).toSameOutline

/-- A solid expression denotes the same graph as the chain of its steps. -/
theorem sameGraph_chain_steps {expr : Expr} (solid : expr.Solid) :
    SameGraph (chain expr.steps) expr := by
  induction solid with
  | @sequence first second ofFirst ofSecond ihFirst ihSecond =>
      rw [steps, chain_append]
      have frontSolid := solid_chain ofFirst.steps_ne_nil ofFirst.of_mem_steps
      have backSolid := solid_chain ofSecond.steps_ne_nil ofSecond.of_mem_steps
      exact (sameGraph_andThen frontSolid backSolid).trans (ihFirst.sequence ihSecond)
  | _ => exact .refl _

theorem sameGraph_chain_append {front back : List Expr} (ofFront : front ≠ [])
    (ofBack : back ≠ []) (solid : ∀ step ∈ front ++ back, step.Solid) :
    SameGraph (chain (front ++ back)) (.sequence (chain front) (chain back)) := by
  rw [chain_append]
  apply sameGraph_andThen
  · exact solid_chain ofFront fun step member => solid step (List.mem_append_left back member)
  · exact solid_chain ofBack fun step member => solid step (List.mem_append_right front member)

theorem sameOutline_chain_append {front back : List Expr} (ofFront : front ≠ [])
    (solid : ∀ step ∈ front ++ back, step.Solid) :
    SameOutline (chain (front ++ back)) (.sequence (chain front) (chain back)) := by
  rw [chain_append]
  apply sameOutline_andThen
  · exact solid_chain ofFront fun step member => solid step (List.mem_append_left back member)
  · intro occupied
    have ofBack : back ≠ [] := by
      intro none
      exact occupied (by rw [none]; rfl)
    exact solid_chain ofBack fun step member => solid step (List.mem_append_right front member)

/-! ### Leaves and where they are entered -/

theorem Solid.exists_mem_exits {expr : Expr} (solid : expr.Solid) :
    ∃ leaving, leaving ∈ expr.exits := by
  induction solid with
  | sequence _ _ _ ihSecond => exact ihSecond
  | @set members inhabited _ ih =>
      obtain ⟨member, present⟩ := List.exists_mem_of_ne_nil members inhabited
      obtain ⟨leaving, left⟩ := ih member present
      exact ⟨leaving, mem_exits_set.mpr ⟨member, present, left⟩⟩
  | _ => simp [exits]

private theorem anyContains_eq_any (reference : Reference) (members : List Expr) :
    anyContains reference members = members.any (contains reference) := by
  induction members with
  | nil => rfl
  | cons member members ih => rw [anyContains, ih, List.any_cons]

theorem contains_set {reference : Reference} {members : List Expr} :
    (Expr.set members).contains reference = true ↔
      ∃ member ∈ members, member.contains reference = true := by
  rw [contains, anyContains_eq_any, List.any_eq_true]

theorem contains_sequence {reference : Reference} {first second : Expr} :
    (Expr.sequence first second).contains reference = true ↔
      first.contains reference = true ∨ second.contains reference = true := by
  rw [contains, Bool.or_eq_true]

theorem contains_of_mem_exits {reference leaving : Reference} {expr : Expr}
    (exit : leaving ∈ expr.exits) (sameOwner : leaving.owner = reference.owner) :
    expr.contains reference = true := by
  induction expr with
  | empty => cases exit
  | sequence first second _ ihSecond => exact contains_sequence.mpr (Or.inr (ihSecond exit))
  | set members ih =>
      obtain ⟨member, present, left⟩ := mem_exits_set.mp exit
      exact contains_set.mpr ⟨member, present, ih member present left⟩
  | _ =>
      rw [exits, List.mem_singleton] at exit
      subst exit
      simpa [contains, Reference.owner] using sameOwner

theorem contains_of_mem_links {link : Reference × Reference} {expr : Expr}
    (inLinks : link ∈ expr.links) : expr.contains link.1 = true := by
  induction expr with
  | sequence first second ihFirst ihSecond =>
      rcases mem_links_sequence.mp inLinks with inFirst | inSecond | joint
      · exact contains_sequence.mpr (Or.inl (ihFirst inFirst))
      · exact contains_sequence.mpr (Or.inr (ihSecond inSecond))
      · exact contains_sequence.mpr (Or.inl (contains_of_mem_exits joint.1 rfl))
  | set members ih =>
      obtain ⟨member, present, inMember⟩ := mem_links_set.mp inLinks
      exact contains_set.mpr ⟨member, present, ih member present inMember⟩
  | _ => cases inLinks

/-- The leaves of a solid expression are its heads and the ends of its links. -/
theorem Solid.contains_iff {expr : Expr} (solid : expr.Solid) (reference : Reference) :
    expr.contains reference = true ↔
      reference.owner ∈ expr.heads ∨ ∃ leaving, (leaving, reference.owner) ∈ expr.links := by
  induction solid with
  | @sequence first second ofFirst ofSecond ihFirst ihSecond =>
      obtain ⟨leaving, exit⟩ := ofFirst.exists_mem_exits
      rw [contains_sequence, ihFirst, ihSecond]
      simp only [mem_links_sequence, heads]
      constructor
      · intro found
        rcases found with (isHead | ⟨other, inFirst⟩) | isLater | ⟨other, inSecond⟩
        · exact Or.inl isHead
        · exact Or.inr ⟨other, Or.inl inFirst⟩
        · exact Or.inr ⟨leaving, Or.inr (Or.inr ⟨exit, isLater⟩)⟩
        · exact Or.inr ⟨other, Or.inr (Or.inl inSecond)⟩
      · intro found
        rcases found with isHead | ⟨other, inFirst | inSecond | ⟨_, isLater⟩⟩
        · exact Or.inl (Or.inl isHead)
        · exact Or.inl (Or.inr ⟨other, inFirst⟩)
        · exact Or.inr (Or.inr ⟨other, inSecond⟩)
        · exact Or.inr (Or.inl isLater)
  | @set members _ _ ih =>
      simp only [contains_set, mem_heads_set, mem_links_set]
      constructor
      · intro found
        obtain ⟨member, present, inside⟩ := found
        rcases (ih member present).mp inside with isHead | ⟨leaving, inLinks⟩
        · exact Or.inl ⟨member, present, isHead⟩
        · exact Or.inr ⟨leaving, member, present, inLinks⟩
      · intro found
        rcases found with ⟨member, present, isHead⟩ | ⟨leaving, member, present, inLinks⟩
        · exact ⟨member, present, (ih member present).mpr (Or.inl isHead)⟩
        · exact ⟨member, present, (ih member present).mpr (Or.inr ⟨leaving, inLinks⟩)⟩
  | _ =>
      simp only [contains, heads, links, beq_iff_eq, List.mem_singleton, List.not_mem_nil,
        exists_false, or_false]
      exact eq_comm

end FlowGraph.Expr
