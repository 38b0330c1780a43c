import FlowGraph.Proofs.Flattening
import FlowGraph.Workflow

/-!
Flat sets inside other ones. A flat set that becomes a member of another one brings the
members that it has kept. Those that it has left out would be left out of the larger set as
well, and each of the others ends up where it would have been, so sets may be made flat
from the inside or all at once.
-/

namespace FlowGraph

namespace Expr

/-! ### First occurrences -/

section FirstOccurrences

variable {Item : Type} [BEq Item] [LawfulBEq Item]

private theorem filter_eraseDups (keep : Item → Bool) (items : List Item) :
    items.eraseDups.filter keep = (items.filter keep).eraseDups := by
  cases items with
  | nil => rfl
  | cons item rest =>
      by_cases isKept : keep item = true
      · rw [List.eraseDups_cons, List.filter_cons_of_pos isKept, List.filter_cons_of_pos isKept,
          List.eraseDups_cons, filter_eraseDups keep, List.filter_filter, List.filter_filter]
        simp only [Bool.and_comm]
      · rw [List.eraseDups_cons, List.filter_cons_of_neg isKept, List.filter_cons_of_neg isKept,
          filter_eraseDups keep, List.filter_filter]
        -- Whatever is kept differs from this item anyway.
        congr 1
        apply List.filter_congr
        intro other _
        by_cases same : other = item
        · rw [same]
          simp [isKept]
        · simp [same]
termination_by items.length
decreasing_by
  all_goals exact Nat.lt_succ_of_le (List.length_filter_le _ _)

theorem eraseDups_eraseDups (items : List Item) : items.eraseDups.eraseDups = items.eraseDups := by
  cases items with
  | nil => rfl
  | cons item rest =>
      rw [List.eraseDups_cons, List.eraseDups_cons, filter_eraseDups, List.filter_filter]
      simp only [Bool.and_self]
      rw [eraseDups_eraseDups]
termination_by items.length
decreasing_by
  exact Nat.lt_succ_of_le (List.length_filter_le _ _)

private theorem eraseDups_append_eraseDups_append (front items back : List Item) :
    (front ++ items.eraseDups ++ back).eraseDups = (front ++ items ++ back).eraseDups := by
  have sameItems : back.removeAll items.eraseDups = back.removeAll items := by
    apply List.filter_congr
    intro item _
    rw [Bool.eq_iff_iff]
    simp
  have behind : (items.eraseDups ++ back).eraseDups = (items ++ back).eraseDups := by
    rw [List.eraseDups_append, List.eraseDups_append, eraseDups_eraseDups, sameItems]
  rw [List.append_assoc, List.append_assoc, List.eraseDups_append, List.eraseDups_append]
  simp only [List.removeAll]
  rw [← filter_eraseDups, ← filter_eraseDups, behind]

end FirstOccurrences

/-! ### What a flat set brings to another one -/

private theorem spread_of_mem_spread {expr piece : Expr} (present : piece ∈ expr.spread) :
    piece.spread = [piece] := by
  induction expr with
  | empty => cases present
  | set members ih =>
      obtain ⟨member, inMembers, inMember⟩ := mem_spreadAll.mp present
      exact ih member inMembers inMember
  | _ =>
      rw [List.mem_singleton.mp present]
      rfl

private theorem spread_of_mem_inlined {members : List Expr} {piece : Expr}
    (present : piece ∈ inlined members) : piece.spread = [piece] := by
  obtain ⟨_, _, inMember⟩ := mem_inlined.mp present
  exact spread_of_mem_spread inMember

theorem spreadAll_append (members others : List Expr) :
    spreadAll (members ++ others) = spreadAll members ++ spreadAll others := by
  induction members with
  | nil => rfl
  | cons member members ih =>
      rw [List.cons_append, spreadAll, spreadAll, ih, List.append_assoc]

theorem spread_ofMembers {pieces : List Expr}
    (alone : ∀ piece ∈ pieces, piece.spread = [piece]) : (ofMembers pieces).spread = pieces := by
  match pieces with
  | [] => rfl
  | [piece] => exact alone piece List.mem_cons_self
  | first :: second :: rest => exact spreadAll_of_pieces alone

variable {hasDefaultExit : NodeId → Bool}

private theorem spread_flatten (members : List Expr) :
    (flatten hasDefaultExit members).spread = kept hasDefaultExit (inlined members) := by
  rw [flatten_eq_ofMembers_kept]
  apply spread_ofMembers
  intro piece isKept
  exact spread_of_mem_inlined (mem_kept.mp isKept).1

/-! ### Which leaves are left out -/

private theorem subsumed_iff {members : List Expr} {member : Expr} :
    subsumed hasDefaultExit members member = true ↔
      ∃ reference, member.reference? = some reference ∧
        ∃ other ∈ members, other.reference? = none ∧
          reference ∈ other.entries hasDefaultExit := by
  constructor
  · intro dropped
    obtain ⟨reference, rfl, covered⟩ := subsumed_cases dropped
    exact ⟨reference, by cases reference <;> rfl, covered⟩
  · intro covered
    obtain ⟨reference, leaf, other, present, composite, entry⟩ := covered
    have different : other ≠ member := by
      intro same
      rw [same, leaf] at composite
      cases composite
    rw [subsumed, leaf]
    apply List.any_eq_true.mpr
    exact ⟨other, present, by simp [different, entry]⟩

private theorem subsumed_mono {members others : List Expr} {member : Expr}
    (more : ∀ other ∈ members, other.reference? = none → other ∈ others)
    (dropped : subsumed hasDefaultExit members member = true) :
    subsumed hasDefaultExit others member = true := by
  obtain ⟨reference, leaf, other, present, composite, entry⟩ := subsumed_iff.mp dropped
  exact subsumed_iff.mpr ⟨reference, leaf, other, more other present composite, composite, entry⟩

theorem subsumed_congr {members others : List Expr}
    (same : ∀ other, other.reference? = none → (other ∈ members ↔ other ∈ others)) :
    subsumed hasDefaultExit members = subsumed hasDefaultExit others := by
  funext member
  rw [Bool.eq_iff_iff]
  constructor
  · exact subsumed_mono fun other present composite => (same other composite).mp present
  · exact subsumed_mono fun other present composite => (same other composite).mpr present

private theorem kept_eraseDups (pieces : List Expr) :
    kept hasDefaultExit pieces.eraseDups =
      (pieces.filter fun piece => !subsumed hasDefaultExit pieces piece).eraseDups := by
  have sameSubsumed :
      subsumed hasDefaultExit pieces.eraseDups = subsumed hasDefaultExit pieces :=
    subsumed_congr fun _ _ => List.mem_eraseDups
  rw [kept, sameSubsumed, filter_eraseDups]

/-- The same leaves are left out of the whole if a part has left out its own ones. -/
theorem subsumed_append_kept_append (front pieces back : List Expr) :
    subsumed hasDefaultExit (front ++ kept hasDefaultExit pieces.eraseDups ++ back) =
      subsumed hasDefaultExit (front ++ pieces ++ back) := by
  apply subsumed_congr
  intro other composite
  have stays : other ∈ kept hasDefaultExit pieces.eraseDups ↔ other ∈ pieces := by
    rw [mem_kept, List.mem_eraseDups]
    exact and_iff_left (subsumed_eq_false_of_reference? composite)
  simp only [List.mem_append, stays]

private theorem kept_append_kept_append (front pieces back : List Expr) :
    kept hasDefaultExit (front ++ kept hasDefaultExit pieces.eraseDups ++ back).eraseDups =
      kept hasDefaultExit (front ++ pieces ++ back).eraseDups := by
  let survives (piece : Expr) := !subsumed hasDefaultExit (front ++ pieces ++ back) piece
  -- A leaf that the part leaves out does not survive in the whole, which has more members.
  have inPart : ∀ piece ∈ pieces,
      (survives piece && !subsumed hasDefaultExit pieces piece) = survives piece := by
    intro piece _
    rw [Bool.and_eq_left_iff_imp]
    intro survivor
    rw [Bool.not_eq_true', Bool.eq_false_iff] at survivor ⊢
    intro dropped
    apply survivor
    exact subsumed_mono (fun other present _ =>
      List.mem_append_left back (List.mem_append_right front present)) dropped
  have partSurvives : (kept hasDefaultExit pieces.eraseDups).filter survives =
      (pieces.filter survives).eraseDups := by
    rw [kept_eraseDups, filter_eraseDups, List.filter_filter, List.filter_congr inPart]
  calc kept hasDefaultExit (front ++ kept hasDefaultExit pieces.eraseDups ++ back).eraseDups
      = ((front ++ kept hasDefaultExit pieces.eraseDups ++ back).filter survives).eraseDups := by
        rw [kept_eraseDups, subsumed_append_kept_append]
    _ = (front.filter survives ++ (pieces.filter survives).eraseDups ++
          back.filter survives).eraseDups := by
        rw [List.filter_append, List.filter_append, partSurvives]
    _ = ((front ++ pieces ++ back).filter survives).eraseDups := by
        rw [eraseDups_append_eraseDups_append, List.filter_append, List.filter_append]
    _ = kept hasDefaultExit (front ++ pieces ++ back).eraseDups := (kept_eraseDups _).symm

/-! ### Flat sets as members -/

private theorem flatten_append_flatten_append (hasDefaultExit : NodeId → Bool)
    (front members back : List Expr) :
    flatten hasDefaultExit (front ++ [flatten hasDefaultExit members] ++ back) =
      flatten hasDefaultExit (front ++ members ++ back) := by
  have spreads : spreadAll (front ++ [flatten hasDefaultExit members] ++ back) =
      spreadAll front ++ kept hasDefaultExit (spreadAll members).eraseDups ++ spreadAll back := by
    rw [spreadAll_append, spreadAll_append, spreadAll, spread_flatten, spreadAll,
      List.append_nil]
    rfl
  calc flatten hasDefaultExit (front ++ [flatten hasDefaultExit members] ++ back)
      = ofMembers (kept hasDefaultExit (spreadAll front ++
          kept hasDefaultExit (spreadAll members).eraseDups ++ spreadAll back).eraseDups) := by
        rw [← spreads]
        rfl
    _ = ofMembers (kept hasDefaultExit
          (spreadAll front ++ spreadAll members ++ spreadAll back).eraseDups) := by
        rw [kept_append_kept_append]
    _ = flatten hasDefaultExit (front ++ members ++ back) := by
        rw [← spreadAll_append, ← spreadAll_append]
        rfl

/-- What a flat set brings to another one are the pieces of its members, but for the leaves
that another piece begins with. -/
theorem mem_spread_flatten {members : List Expr} {piece : Expr} :
    piece ∈ (flatten hasDefaultExit members).spread ↔
      (∃ member ∈ members, piece ∈ member.spread) ∧
        ¬ ∃ reference, piece.reference? = some reference ∧
          ∃ other, (∃ member ∈ members, other ∈ member.spread) ∧ other.reference? = none ∧
            reference ∈ other.entries hasDefaultExit := by
  rw [spread_flatten, mem_kept, mem_inlined, Bool.eq_false_iff, Ne, subsumed_iff]
  simp only [mem_inlined]

end Expr

open FlowGraph.Expr

/-! ### Main result -/

/-- Sets can be made flat from the inside or all at once, with the same members in the same
order, and once is enough. What stays are the pieces of the members, but for the leaves that
another piece begins with. -/
theorem flatten_is_associative (workflow : Workflow) (front members back : List Expr) :
    flatten workflow.hasDefaultExit
          (front ++ [flatten workflow.hasDefaultExit members] ++ back) =
        flatten workflow.hasDefaultExit (front ++ members ++ back) ∧
      flatten workflow.hasDefaultExit [flatten workflow.hasDefaultExit members] =
        flatten workflow.hasDefaultExit members ∧
      ∀ piece, piece ∈ (flatten workflow.hasDefaultExit members).spread ↔
        (∃ member ∈ members, piece ∈ member.spread) ∧
          ¬ ∃ reference, piece.reference? = some reference ∧
            ∃ other, (∃ member ∈ members, other ∈ member.spread) ∧ other.reference? = none ∧
              reference ∈ other.entries workflow.hasDefaultExit := by
  have inside := flatten_append_flatten_append workflow.hasDefaultExit
  refine ⟨inside front members back, ?_, fun _ => mem_spread_flatten⟩
  have alone := inside [] members []
  rwa [List.nil_append, List.nil_append, List.append_nil, List.append_nil] at alone

/-- The part leaves out a port, and a node of it only gives way in the whole. -/
example : flatten (fun _ => true) [.node ⟨2⟩, flatten (fun _ => true)
      [.port ⟨0⟩ ⟨0⟩, .node ⟨1⟩, .sequence (.port ⟨0⟩ ⟨0⟩) (.node ⟨2⟩)],
      .sequence (.node ⟨1⟩) (.node ⟨3⟩)] =
    .set [.node ⟨2⟩, .sequence (.port ⟨0⟩ ⟨0⟩) (.node ⟨2⟩), .sequence (.node ⟨1⟩) (.node ⟨3⟩)] := by
  decide

end FlowGraph
