import FlowGraph.Proofs.Outline

/-!
Flat sets denote what their members denote. Leaving out a leaf that another member
begins with changes the exits of a set, but neither its heads nor its links; the set
of branches, which leaves nothing out, keeps its exits as well.
-/

namespace FlowGraph.Expr

/-! ### Inlined members -/

theorem mem_spreadAll {piece : Expr} {members : List Expr} :
    piece ∈ spreadAll members ↔ ∃ member ∈ members, piece ∈ member.spread := by
  induction members with
  | nil => simp [spreadAll]
  | cons member members ih => simp [spreadAll, ih]

theorem spreadAll_of_pieces {pieces : List Expr}
    (alone : ∀ piece ∈ pieces, piece.spread = [piece]) : spreadAll pieces = pieces := by
  induction pieces with
  | nil => rfl
  | cons piece pieces ih =>
      rw [spreadAll, alone piece List.mem_cons_self,
        ih fun other present => alone other (List.mem_cons_of_mem piece present)]
      rfl

theorem mem_inlined {piece : Expr} {members : List Expr} :
    piece ∈ inlined members ↔ ∃ member ∈ members, piece ∈ member.spread := by
  rw [inlined, List.mem_eraseDups, mem_spreadAll]

private theorem sameGraph_set_of_pieces {pieces members : List Expr}
    (brought : ∀ piece, piece ∈ pieces ↔ ∃ member ∈ members, piece ∈ member.spread)
    (same : ∀ member ∈ members, SameGraph (.set member.spread) member) :
    SameGraph (.set pieces) (.set members) := by
  have regroup : ∀ holds : Expr → Prop, (∃ piece ∈ pieces, holds piece) ↔
      ∃ member ∈ members, ∃ piece ∈ member.spread, holds piece := by
    intro holds
    constructor
    · intro found
      obtain ⟨piece, present, held⟩ := found
      obtain ⟨member, inMembers, inSpread⟩ := (brought piece).mp present
      exact ⟨member, inMembers, piece, inSpread, held⟩
    · intro found
      obtain ⟨member, inMembers, piece, inSpread, held⟩ := found
      exact ⟨piece, (brought piece).mpr ⟨member, inMembers, inSpread⟩, held⟩
  refine ⟨⟨fun head => ?_, fun link => ?_⟩, fun leaving => ?_⟩
  · rw [mem_heads_set, mem_heads_set, regroup]
    refine exists_congr fun member => and_congr_right fun present => ?_
    rw [← mem_heads_set]
    exact (same member present).heads head
  · rw [mem_links_set, mem_links_set, regroup]
    refine exists_congr fun member => and_congr_right fun present => ?_
    rw [← mem_links_set]
    exact (same member present).links link
  · rw [mem_exits_set, mem_exits_set, regroup]
    refine exists_congr fun member => and_congr_right fun present => ?_
    rw [← mem_exits_set]
    exact (same member present).exits leaving

private theorem sameGraph_spread (expr : Expr) : SameGraph (.set expr.spread) expr := by
  induction expr with
  | empty => exact sameGraph_set_nil
  | set members ih => exact sameGraph_set_of_pieces (fun _ => mem_spreadAll) ih
  | _ => exact sameGraph_set_singleton _

private theorem sameGraph_inlined (members : List Expr) :
    SameGraph (.set (inlined members)) (.set members) :=
  sameGraph_set_of_pieces (fun _ => mem_inlined) fun member _ => sameGraph_spread member

private theorem sameGraph_ofMembers (members : List Expr) :
    SameGraph (ofMembers members) (.set members) := by
  match members with
  | [] => exact sameGraph_set_nil.symm
  | [member] => exact (sameGraph_set_singleton member).symm
  | first :: second :: rest => exact .refl _

private theorem Solid.spread_ne_nil {expr : Expr} (solid : expr.Solid) : expr.spread ≠ [] := by
  induction solid with
  | @set members inhabited _ ih =>
      obtain ⟨member, present⟩ := List.exists_mem_of_ne_nil members inhabited
      obtain ⟨piece, inMember⟩ := List.exists_mem_of_ne_nil _ (ih member present)
      exact List.ne_nil_of_mem (mem_spreadAll.mpr ⟨member, present, inMember⟩)
  | _ => simp [spread]

theorem Solid.of_mem_spread {expr : Expr} (solid : expr.Solid) :
    ∀ piece ∈ expr.spread, piece.Solid := by
  induction solid with
  | @set members _ _ ih =>
      intro piece inMembers
      obtain ⟨member, present, inMember⟩ := mem_spreadAll.mp inMembers
      exact ih member present piece inMember
  | sequence ofFirst ofSecond _ _ =>
      intro piece alone
      rw [List.mem_singleton.mp alone]
      exact .sequence ofFirst ofSecond
  | _ =>
      intro piece alone
      rw [List.mem_singleton.mp alone]
      constructor

private theorem inlined_ne_nil {members : List Expr} {member : Expr} (present : member ∈ members)
    (solid : member.Solid) : inlined members ≠ [] := by
  obtain ⟨piece, inMember⟩ := List.exists_mem_of_ne_nil _ solid.spread_ne_nil
  exact List.ne_nil_of_mem (mem_inlined.mpr ⟨member, present, inMember⟩)

private theorem solid_of_mem_inlined {members : List Expr}
    (solid : ∀ member ∈ members, member ≠ .empty → member.Solid) :
    ∀ piece ∈ inlined members, piece.Solid := by
  intro piece present
  obtain ⟨member, inMembers, inMember⟩ := mem_inlined.mp present
  have occupied : member ≠ .empty := by
    intro vacant
    rw [vacant] at inMember
    cases inMember
  exact (solid member inMembers occupied).of_mem_spread piece inMember

private theorem solid_ofMembers {members : List Expr} (inhabited : members ≠ [])
    (solid : ∀ member ∈ members, member.Solid) : (ofMembers members).Solid := by
  match members with
  | [] => exact absurd rfl inhabited
  | [member] => exact solid member List.mem_cons_self
  | first :: second :: rest => exact .set inhabited solid

/-! ### Leaving out subsumed leaves -/

variable {hasDefaultExit : NodeId → Bool}

private theorem mem_entriesOfAll {reference : Reference} {members : List Expr} :
    reference ∈ entriesOfAll hasDefaultExit members ↔
      ∃ member ∈ members, reference ∈ member.entries hasDefaultExit := by
  induction members with
  | nil => simp [entriesOfAll]
  | cons member members ih => simp [entriesOfAll, ih]

private theorem owner_mem_heads_of_mem_entries {reference : Reference} {expr : Expr}
    (entry : reference ∈ expr.entries hasDefaultExit) : reference.owner ∈ expr.heads := by
  induction expr with
  | empty => cases entry
  | node nodeId =>
      rw [entries] at entry
      split at entry
      · rw [List.mem_singleton.mp entry]
        exact List.mem_singleton.mpr rfl
      · cases entry
  | sequence first second ihFirst _ => exact ihFirst entry
  | set members ih =>
      obtain ⟨member, present, inMember⟩ := mem_entriesOfAll.mp entry
      exact mem_heads_set.mpr ⟨member, present, ih member present inMember⟩
  | _ =>
      rw [List.mem_singleton.mp entry]
      exact List.mem_singleton.mpr rfl

theorem eq_ofReference_of_reference? {expr : Expr} {reference : Reference}
    (leaf : expr.reference? = some reference) : expr = ofReference reference := by
  cases expr <;> simp only [reference?, Option.some.injEq, reduceCtorEq] at leaf <;>
    rw [← leaf] <;> rfl

private theorem eq_of_mem_entries_of_reference? {expr : Expr} {reference entry : Reference}
    (leaf : expr.reference? = some reference) (member : entry ∈ expr.entries hasDefaultExit) :
    entry = reference := by
  rw [eq_ofReference_of_reference? leaf] at member
  cases reference with
  | node nodeId =>
      rw [ofReference, entries] at member
      split at member
      · exact List.mem_singleton.mp member
      · cases member
  | port nodeId portId => exact List.mem_singleton.mp member
  | trigger triggerId => exact List.mem_singleton.mp member

/-- What a subsumed member is: a leaf that a member other than a leaf begins with. -/
theorem subsumed_cases {members : List Expr} {member : Expr}
    (dropped : subsumed hasDefaultExit members member = true) :
    ∃ reference, member = ofReference reference ∧
      ∃ other ∈ members, other.reference? = none ∧
        reference ∈ other.entries hasDefaultExit := by
  unfold subsumed at dropped
  split at dropped
  · cases dropped
  · rename_i reference leaf
    obtain ⟨other, present, covers⟩ := List.any_eq_true.mp dropped
    simp only [Bool.and_eq_true, bne_iff_ne, ne_eq, List.contains_eq_mem,
      decide_eq_true_eq] at covers
    refine ⟨reference, eq_ofReference_of_reference? leaf, other, present, ?_, covers.2⟩
    cases otherLeaf : other.reference? with
    | none => rfl
    | some otherReference =>
        have same := eq_of_mem_entries_of_reference? otherLeaf covers.2
        refine absurd ?_ covers.1
        rw [eq_ofReference_of_reference? leaf, eq_ofReference_of_reference? otherLeaf, same]

theorem subsumed_eq_false_of_reference? {members : List Expr} {member : Expr}
    (composite : member.reference? = none) : subsumed hasDefaultExit members member = false := by
  rw [subsumed, composite]

def kept (hasDefaultExit : NodeId → Bool) (flat : List Expr) : List Expr :=
  flat.filter fun member => !subsumed hasDefaultExit flat member

theorem flatten_eq_ofMembers_kept (members : List Expr) :
    flatten hasDefaultExit members = ofMembers (kept hasDefaultExit (inlined members)) :=
  rfl

theorem mem_kept {flat : List Expr} {member : Expr} :
    member ∈ kept hasDefaultExit flat ↔
      member ∈ flat ∧ subsumed hasDefaultExit flat member = false := by
  rw [kept, List.mem_filter, Bool.not_eq_true']

/-- Every member is kept or is a leaf that gives way to a kept member, which starts
where the leaf does. -/
theorem mem_kept_or_covered (hasDefaultExit : NodeId → Bool) {flat : List Expr} {member : Expr}
    (present : member ∈ flat) :
    member ∈ kept hasDefaultExit flat ∨
      member.links = [] ∧
        ∃ other ∈ kept hasDefaultExit flat, ∀ head ∈ member.heads, head ∈ other.heads := by
  cases dropped : subsumed hasDefaultExit flat member with
  | false => exact Or.inl (mem_kept.mpr ⟨present, dropped⟩)
  | true =>
      obtain ⟨reference, isLeaf, other, inFlat, composite, entry⟩ := subsumed_cases dropped
      have otherKept : other ∈ kept hasDefaultExit flat :=
        mem_kept.mpr ⟨inFlat, subsumed_eq_false_of_reference? composite⟩
      have covered := owner_mem_heads_of_mem_entries entry
      refine Or.inr ⟨?_, other, otherKept, ?_⟩
      · rw [isLeaf]
        cases reference <;> rfl
      · intro head atLeaf
        have headIs : head = reference.owner := by
          rw [isLeaf] at atLeaf
          cases reference <;> exact List.mem_singleton.mp atLeaf
        rw [headIs]
        exact covered

private theorem sameOutline_kept (flat : List Expr) :
    SameOutline (.set (kept hasDefaultExit flat)) (.set flat) where
  heads := by
    intro head
    simp only [mem_heads_set]
    constructor
    · intro found
      obtain ⟨member, inKept, start⟩ := found
      exact ⟨member, (mem_kept.mp inKept).1, start⟩
    · intro found
      obtain ⟨member, present, start⟩ := found
      rcases mem_kept_or_covered hasDefaultExit present with inKept | ⟨_, other, inKept, covers⟩
      · exact ⟨member, inKept, start⟩
      · exact ⟨other, inKept, covers head start⟩
  links := by
    intro link
    simp only [mem_links_set]
    constructor
    · intro found
      obtain ⟨member, inKept, inside⟩ := found
      exact ⟨member, (mem_kept.mp inKept).1, inside⟩
    · intro found
      obtain ⟨member, present, inside⟩ := found
      rcases mem_kept_or_covered hasDefaultExit present with inKept | ⟨noLinks, _⟩
      · exact ⟨member, inKept, inside⟩
      · rw [noLinks] at inside
        cases inside

private theorem kept_ne_nil {flat : List Expr} (inhabited : flat ≠ []) :
    kept hasDefaultExit flat ≠ [] := by
  obtain ⟨member, present⟩ := List.exists_mem_of_ne_nil flat inhabited
  rcases mem_kept_or_covered hasDefaultExit present with inKept | ⟨_, other, inKept, _⟩
  · exact List.ne_nil_of_mem inKept
  · exact List.ne_nil_of_mem inKept

/-! ### Flat sets -/

/-- A flat set keeps the heads and the links of its members. -/
theorem sameOutline_flatten (hasDefaultExit : NodeId → Bool) (members : List Expr) :
    SameOutline (flatten hasDefaultExit members) (.set members) :=
  calc flatten hasDefaultExit members
    SameGraph _ (.set (kept hasDefaultExit (inlined members))) := sameGraph_ofMembers _
    SameOutline _ (.set (inlined members)) := sameOutline_kept _
    SameGraph _ (.set members) := sameGraph_inlined members

theorem solid_flatten_of_ne_empty {members : List Expr}
    (solid : ∀ member ∈ members, member ≠ .empty → member.Solid)
    (occupied : flatten hasDefaultExit members ≠ .empty) :
    (flatten hasDefaultExit members).Solid := by
  have flatSolid := solid_of_mem_inlined solid
  rw [flatten_eq_ofMembers_kept] at occupied ⊢
  apply solid_ofMembers
  · intro none
    rw [none] at occupied
    exact occupied rfl
  · exact fun piece inKept => flatSolid piece (mem_kept.mp inKept).1

private theorem solid_flatten_of_some {members : List Expr} {member : Expr}
    (present : member ∈ members)
    (ofMember : member.Solid) (solid : ∀ member ∈ members, member ≠ .empty → member.Solid) :
    (flatten hasDefaultExit members).Solid := by
  have flatSolid := solid_of_mem_inlined solid
  rw [flatten_eq_ofMembers_kept]
  exact solid_ofMembers (kept_ne_nil (inlined_ne_nil present ofMember))
    fun piece inKept => flatSolid piece (mem_kept.mp inKept).1

theorem solid_flatten {members : List Expr} (inhabited : members ≠ [])
    (solid : ∀ member ∈ members, member.Solid) : (flatten hasDefaultExit members).Solid := by
  obtain ⟨member, present⟩ := List.exists_mem_of_ne_nil members inhabited
  exact solid_flatten_of_some present (solid member present) fun other inMembers _ =>
    solid other inMembers

/-- What the set of branches is: all members, none of which another one begins with. -/
theorem branching?_cases {members : List Expr} {set : Expr}
    (formed : branching? hasDefaultExit members = some set) :
    (∀ piece ∈ inlined members, subsumed hasDefaultExit (inlined members) piece = false) ∧
      set = ofMembers (inlined members) := by
  simp only [branching?, Option.ite_none_left_eq_some, Option.some.injEq, Bool.not_eq_true,
    List.any_eq_false] at formed
  obtain ⟨noneSubsumed, same⟩ := formed
  exact ⟨noneSubsumed, same.symm⟩

/-- The set of branches denotes all that its members denote, exits included. -/
theorem sameGraph_branching {members : List Expr} {set : Expr}
    (formed : branching? hasDefaultExit members = some set) : SameGraph set (.set members) := by
  obtain ⟨_, rfl⟩ := branching?_cases formed
  exact (sameGraph_ofMembers _).trans (sameGraph_inlined members)

theorem solid_branching_of_ne_empty {members : List Expr} {set : Expr}
    (solid : ∀ member ∈ members, member ≠ .empty → member.Solid)
    (formed : branching? hasDefaultExit members = some set) (occupied : set ≠ .empty) :
    set.Solid := by
  obtain ⟨_, rfl⟩ := branching?_cases formed
  apply solid_ofMembers
  · intro none
    rw [none] at occupied
    exact occupied rfl
  · exact solid_of_mem_inlined solid

theorem solid_branching {members : List Expr} {set : Expr} (inhabited : members ≠ [])
    (solid : ∀ member ∈ members, member.Solid)
    (formed : branching? hasDefaultExit members = some set) : set.Solid := by
  obtain ⟨_, rfl⟩ := branching?_cases formed
  obtain ⟨member, present⟩ := List.exists_mem_of_ne_nil members inhabited
  exact solid_ofMembers (inlined_ne_nil present (solid member present))
    (solid_of_mem_inlined fun other inMembers _ => solid other inMembers)

/-! ### Leaves side by side -/

private theorem injective_ofReference : Function.Injective ofReference := by
  intro first second alike
  cases first <;> cases second <;> cases alike <;> rfl

private theorem eraseDups_map_ofReference (references : List Reference) :
    (references.map ofReference).eraseDups = references.eraseDups.map ofReference := by
  cases references with
  | nil => rfl
  | cons first rest =>
      rw [List.map_cons, List.eraseDups_cons, List.eraseDups_cons, List.map_cons, List.filter_map]
      have others : (fun expr => !expr == ofReference first) ∘ ofReference =
          fun reference => !reference == first := by
        funext reference
        rw [Function.comp_apply, Bool.eq_iff_iff]
        simp [injective_ofReference.eq_iff]
      rw [others, eraseDups_map_ofReference]
termination_by references.length
decreasing_by
  exact Nat.lt_succ_of_le (List.length_filter_le _ _)

private theorem inlined_map_ofReference (references : List Reference) :
    inlined (references.map ofReference) = references.eraseDups.map ofReference := by
  have alone : ∀ piece ∈ references.map ofReference, piece.spread = [piece] := by
    intro piece isImage
    obtain ⟨reference, _, rfl⟩ := List.mem_map.mp isImage
    cases reference <;> rfl
  rw [inlined, spreadAll_of_pieces alone, eraseDups_map_ofReference]

theorem flatten_ofReference_congr (hasDefaultExit : NodeId → Bool)
    {references others : List Reference} (same : references.eraseDups = others.eraseDups) :
    flatten hasDefaultExit (references.map ofReference) =
      flatten hasDefaultExit (others.map ofReference) := by
  rw [flatten, flatten, inlined_map_ofReference, inlined_map_ofReference, same]

end FlowGraph.Expr
