import FlowGraph.Build.Component
import Mathlib.Logic.Relation

/-!
Grouping edges by shared ends. The groups are the classes of edges that are connected
over edges with a raw id in common, whether or not that id is declared.
-/

namespace FlowGraph.Component

variable {edges rest : List (EdgeId × Edge)} {idents : List IdentId}
  {first left right entry : EdgeId × Edge}

def SharesEnd (left right : EdgeId × Edge) : Prop := ∃ ident ∈ ends left, ident ∈ ends right

/-- One edge is connected with another one over edges of a list, each of which shares an
end with the next. -/
def Linked (edges : List (EdgeId × Edge)) : EdgeId × Edge → EdgeId × Edge → Prop :=
  Relation.ReflTransGen fun left right => left ∈ edges ∧ right ∈ edges ∧ SharesEnd left right

theorem Linked.symm (linked : Linked edges left right) : Linked edges right left := by
  induction linked with
  | refl => exact .refl
  | tail _ shares ih =>
      obtain ⟨isBefore, isAfter, ident, ofBefore, ofAfter⟩ := shares
      exact Relation.ReflTransGen.head ⟨isAfter, isBefore, ident, ofAfter, ofBefore⟩ ih

theorem Linked.mono {others : List (EdgeId × Edge)} (inside : edges ⊆ others)
    (linked : Linked edges left right) : Linked others left right := by
  induction linked with
  | refl => exact .refl
  | tail _ shares ih => exact ih.tail ⟨inside shares.1, inside shares.2.1, shares.2.2⟩

private theorem touches_eq_true :
    touches idents entry = true ↔ ∃ ident ∈ ends entry, ident ∈ idents := by
  simp [touches, ends]

private theorem mem_touching :
    entry ∈ touching idents edges ↔ entry ∈ edges ∧ ∃ ident ∈ ends entry, ident ∈ idents := by
  rw [touching, List.mem_filter, touches_eq_true]

private theorem mem_apart :
    entry ∈ apart idents edges ↔ entry ∈ edges ∧ ∀ ident ∈ ends entry, ident ∉ idents := by
  rw [apart, List.mem_filter, Bool.not_eq_true', ← Bool.not_eq_true, touches_eq_true]
  simp only [not_exists, not_and]

/-! ### The ends that can be reached -/

private theorem subset_closure (idents : List IdentId) (edges : List (EdgeId × Edge)) :
    idents ⊆ closure idents edges := by
  fun_induction closure idents edges with
  | case1 => exact List.Subset.refl _
  | case2 idents edges found others touched ih =>
      exact List.Subset.trans (List.subset_append_left _ _) ih

private theorem ends_subset_closure (inside : entry ∈ edges)
    (touched : ∃ ident ∈ ends entry, ident ∈ closure idents edges) :
    ends entry ⊆ closure idents edges := by
  fun_induction closure idents edges with
  | case1 idents edges nothing =>
      have isTouching := mem_touching.mpr ⟨inside, touched⟩
      rw [nothing] at isTouching
      cases isTouching
  | case2 idents edges found others touching ih =>
      by_cases atOnce : ∃ ident ∈ ends entry, ident ∈ idents
      · have isTouching := mem_touching.mpr ⟨inside, atOnce⟩
        rw [touching] at isTouching
        intro ident isEnd
        apply subset_closure
        exact List.mem_append_right _ (List.mem_flatMap.mpr ⟨entry, isTouching, isEnd⟩)
      · apply ih _ touched
        exact mem_apart.mpr ⟨inside, by simpa using atOnce⟩

private theorem of_mem_closure (holds : IdentId → Prop) (ofFirst : ∀ ident ∈ idents, holds ident)
    (passes : ∀ entry ∈ edges, (∃ ident ∈ ends entry, holds ident) →
      ∀ ident ∈ ends entry, holds ident) :
    ∀ ident ∈ closure idents edges, holds ident := by
  fun_induction closure idents edges with
  | case1 => exact ofFirst
  | case2 idents edges found others touching ih =>
      apply ih
      · intro ident present
        rcases List.mem_append.mp present with before | new
        · exact ofFirst ident before
        · obtain ⟨entry, isTouching, isEnd⟩ := List.mem_flatMap.mp new
          rw [← touching] at isTouching
          obtain ⟨inside, known, ofEntry, isKnown⟩ := mem_touching.mp isTouching
          exact passes entry inside ⟨known, ofEntry, ofFirst known isKnown⟩ ident isEnd
      · intro entry isApart
        exact passes entry (mem_apart.mp isApart).1

/-! ### One group -/

private theorem mem_cons_touching_closure :
    entry ∈ first :: touching (closure (ends first) rest) rest ↔
      entry ∈ first :: rest ∧ Linked (first :: rest) first entry := by
  have endsReached : ∀ member ∈ first :: touching (closure (ends first) rest) rest,
      ends member ⊆ closure (ends first) rest := by
    intro member present
    rcases List.mem_cons.mp present with rfl | isTouching
    · exact subset_closure _ _
    · obtain ⟨inside, touched⟩ := mem_touching.mp isTouching
      exact ends_subset_closure inside touched
  constructor
  · intro present
    rcases List.mem_cons.mp present with rfl | isTouching
    · exact ⟨List.mem_cons_self, .refl⟩
    · obtain ⟨inside, ident, isEnd, reached⟩ := mem_touching.mp isTouching
      have linkedEnd : ∀ known ∈ closure (ends first) rest, ∃ other ∈ first :: rest,
          Linked (first :: rest) first other ∧ known ∈ ends other := by
        apply of_mem_closure fun known => ∃ other ∈ first :: rest,
          Linked (first :: rest) first other ∧ known ∈ ends other
        · intro known isKnown
          exact ⟨first, List.mem_cons_self, .refl, isKnown⟩
        · rintro member inRest ⟨known, ofMember, other, isOther, linked, ofOther⟩ next isNext
          have inAll : member ∈ first :: rest := List.mem_cons_of_mem _ inRest
          exact ⟨member, inAll, linked.tail ⟨isOther, inAll, known, ofOther, ofMember⟩, isNext⟩
      obtain ⟨other, isOther, linked, ofOther⟩ := linkedEnd ident reached
      have inAll : entry ∈ first :: rest := List.mem_cons_of_mem _ inside
      exact ⟨inAll, linked.tail ⟨isOther, inAll, ident, ofOther, isEnd⟩⟩
  · rintro ⟨-, linked⟩
    induction linked with
    | refl => exact List.mem_cons_self
    | tail _ shares ih =>
        obtain ⟨_, inAll, ident, ofBefore, ofAfter⟩ := shares
        rcases List.mem_cons.mp inAll with rfl | inRest
        · exact List.mem_cons_self
        · exact List.mem_cons_of_mem _
            (mem_touching.mpr ⟨inRest, ident, ofAfter, endsReached _ ih ofBefore⟩)

/-- What is apart from the first group is connected as before, and with nothing else. -/
theorem linked_apart_iff (isApart : left ∈ apart (closure (ends first) rest) rest) :
    (right ∈ apart (closure (ends first) rest) rest ∧
        Linked (apart (closure (ends first) rest) rest) left right) ↔
      right ∈ first :: rest ∧ Linked (first :: rest) left right := by
  have inAll : apart (closure (ends first) rest) rest ⊆ first :: rest := by
    intro member isApart
    exact List.mem_cons_of_mem _ (mem_apart.mp isApart).1
  constructor
  · rintro ⟨alsoApart, linked⟩
    exact ⟨inAll alsoApart, linked.mono inAll⟩
  · rintro ⟨-, linked⟩
    induction linked with
    | refl => exact ⟨isApart, .refl⟩
    | @tail before after _ shares ih =>
        obtain ⟨beforeApart, linked⟩ := ih
        obtain ⟨_, isAfter, ident, ofBefore, ofAfter⟩ := shares
        -- If the next edge were in the first group, so would be the one before it.
        have notReached : ¬ ∃ known ∈ ends after, known ∈ closure (ends first) rest := by
          intro reached
          have isGrouped : ends after ⊆ closure (ends first) rest := by
            rcases List.mem_cons.mp isAfter with rfl | inRest
            · exact subset_closure _ _
            · exact ends_subset_closure inRest reached
          exact (mem_apart.mp beforeApart).2 ident ofBefore (isGrouped ofAfter)
        have afterApart : after ∈ apart (closure (ends first) rest) rest := by
          rcases List.mem_cons.mp isAfter with rfl | inRest
          · exact absurd ⟨ident, ofAfter, subset_closure _ _ ofAfter⟩ notReached
          · exact mem_apart.mpr ⟨inRest, by simpa using notReached⟩
        exact ⟨afterApart, linked.tail ⟨beforeApart, afterApart, ident, ofBefore, ofAfter⟩⟩

/-! ### All groups -/

/-- Groups of edges that are the classes of connected edges. -/
structure AreClasses (edges : List (EdgeId × Edge)) (groups : List Component) : Prop where
  /-- A group is all that is connected with any edge of it. -/
  whole : ∀ group ∈ groups, group ≠ [] ∧ ∀ first ∈ group, ∀ entry,
    entry ∈ group ↔ entry ∈ edges ∧ Linked edges first entry
  /-- Every edge is in one group, and there once. -/
  once : groups.flatten.Perm edges
  inOrder : ∀ group ∈ groups, group.Sublist edges
  byFirst : (groups.filterMap List.head?).Sublist edges

theorem AreClasses.mem_of_linked {groups : List Component} (classes : AreClasses edges groups)
    {group : Component} (isGroup : group ∈ groups) (inGroup : first ∈ group)
    (linked : Linked edges first entry) : entry ∈ group := by
  have isClass := (classes.whole group isGroup).2 first inGroup
  have inEdges : entry ∈ edges := by
    cases linked with
    | refl => exact ((isClass first).mp inGroup).1
    | tail _ shares => exact shares.2.1
  exact (isClass entry).mpr ⟨inEdges, linked⟩

theorem perm_partition (edges : List (EdgeId × Edge)) :
    (partition edges).flatten.Perm edges := by
  fun_induction partition edges with
  | case1 => exact List.Perm.refl _
  | case2 first rest idents ih =>
      rw [List.flatten_cons, List.cons_append]
      exact ((ih.append_left _).trans (List.filter_append_perm (touches idents) rest)).cons first

theorem areClasses_partition (edges : List (EdgeId × Edge)) :
    AreClasses edges (partition edges) where
  whole := by
    fun_induction partition edges with
    | case1 => exact fun group impossible => absurd impossible List.not_mem_nil
    | case2 first rest idents ih =>
        intro group present
        rcases List.mem_cons.mp present with rfl | later
        · refine ⟨List.cons_ne_nil _ _, ?_⟩
          intro start isStart entry
          have linked := (mem_cons_touching_closure.mp isStart).2
          rw [mem_cons_touching_closure]
          exact and_congr_right fun _ => ⟨linked.symm.trans, linked.trans⟩
        · obtain ⟨inhabited, isClass⟩ := ih group later
          refine ⟨inhabited, ?_⟩
          intro start isStart entry
          rw [isClass start isStart entry]
          exact linked_apart_iff ((isClass start isStart start).mp isStart).1
  once := perm_partition edges
  inOrder := by
    fun_induction partition edges with
    | case1 => exact fun group impossible => absurd impossible List.not_mem_nil
    | case2 first rest idents ih =>
        intro group present
        rcases List.mem_cons.mp present with rfl | later
        · exact List.filter_sublist.cons_cons first
        · exact ((ih group later).trans List.filter_sublist).cons first
  byFirst := by
    fun_induction partition edges with
    | case1 => exact List.Sublist.refl _
    | case2 first rest idents ih => exact (ih.trans List.filter_sublist).cons_cons first

/-- Edges that are all connected form one group. -/
theorem partition_of_linked (linked : ∀ entry ∈ rest, Linked (first :: rest) first entry) :
    partition (first :: rest) = [first :: rest] := by
  have touched : ∀ entry ∈ rest, touches (closure (ends first) rest) entry = true := by
    intro entry inside
    rw [touches_eq_true]
    have grouped := mem_cons_touching_closure.mpr
      ⟨List.mem_cons_of_mem first inside, linked entry inside⟩
    rcases List.mem_cons.mp grouped with rfl | isTouching
    · exact ⟨entry.2.sourceNode, List.mem_cons_self, subset_closure _ _ List.mem_cons_self⟩
    · exact (mem_touching.mp isTouching).2
  have noneApart : apart (closure (ends first) rest) rest = [] := by
    refine List.filter_eq_nil_iff.mpr ?_
    intro entry inside
    simp [touched entry inside]
  rw [partition, noneApart, partition, touching, List.filter_eq_self.mpr touched]

/-- Edges of different groups have no end in common. -/
theorem pairwise_partition (edges : List (EdgeId × Edge)) :
    (partition edges).Pairwise fun group other =>
      ∀ left ∈ group, ∀ right ∈ other, ¬ SharesEnd left right := by
  fun_induction partition edges with
  | case1 => exact List.Pairwise.nil
  | case2 first rest idents ih =>
      refine List.Pairwise.cons ?_ ih
      rintro other later left isGrouped right isOther ⟨ident, ofLeft, ofRight⟩
      have isApart : right ∈ apart idents rest :=
        ((areClasses_partition _).inOrder other later).subset isOther
      have reached : ident ∈ idents := by
        rcases List.mem_cons.mp isGrouped with rfl | isTouching
        · exact subset_closure _ _ ofLeft
        · obtain ⟨inside, touched⟩ := mem_touching.mp isTouching
          exact ends_subset_closure inside touched ofLeft
      exact (mem_apart.mp isApart).2 ident ofRight reached

end FlowGraph.Component
