import FlowGraph.Proofs.FaithfulLoading
import FlowGraph.Proofs.RenderedText
import Mathlib.Data.List.Induction

/-!
Graph text can be read in one way only. It is read from its end: the last step of a chain is a
display text or a set, and tells where the part of the chain before it ends. This is why
nothing is lost with the parentheses as long as sequences lean to the left.
-/

namespace FlowGraph

open FlowGraph.Expr

/-! ### Display texts that can be told apart -/

def isWordChar (char : Char) : Bool := char.isAlphanum || char == '_'

structure IsIdentifier (text : String) : Prop where
  occupied : text ≠ ""
  word : ∀ char ∈ text.toList, isWordChar char = true

/-- All display texts are identifiers. No two nodes or triggers have the same label, and no two
ports of one node have the same name. -/
structure Workflow.Legible (workflow : Workflow) : Prop where
  labels : ∀ {reference label}, GraphText.ownerLabel? workflow reference = some label →
    IsIdentifier label
  names : ∀ {port name}, workflow.portName? port = some name → IsIdentifier name
  labelsDiffer : ∀ {first second label}, GraphText.ownerLabel? workflow first = some label →
    GraphText.ownerLabel? workflow second = some label → first.owner = second.owner
  namesDiffer : ∀ {first second firstEntry secondEntry name},
    workflow.port? first = some firstEntry → workflow.port? second = some secondEntry →
      firstEntry.node = secondEntry.node → workflow.portName? first = some name →
        workflow.portName? second = some name → first = second

/-- A reference that names no port, or one of its own node. -/
def Workflow.NamesOwnPort (workflow : Workflow) : Reference → Prop
  | .port nodeId portId => (workflow.port? portId).map Port.node = some nodeId
  | _ => True

/-- An expression without an empty piece, in which every port is one of its node's own and no
second operand is a sequence. -/
inductive Workflow.Writable (workflow : Workflow) : Expr → Prop where
  | leaf {reference : Reference} (own : workflow.NamesOwnPort reference) :
      Writable workflow (ofReference reference)
  | sequence {first second : Expr} (ofFirst : Writable workflow first)
      (ofSecond : Writable workflow second) (isStep : second.isSequence = false) :
      Writable workflow (.sequence first second)
  | set {members : List Expr} (ofMembers : ∀ member ∈ members, Writable workflow member) :
      Writable workflow (.set members)

namespace GraphText

variable {workflow : Workflow}

/-! ### Places where expressions begin -/

/-- The characters before a whole expression: none, the brace of its set, or the comma behind
the member before it. -/
inductive OpensWhole : List Char → Prop where
  | start : OpensWhole []
  | first (before : List Char) : OpensWhole (before ++ ['\x7b'])
  | next (before : List Char) : OpensWhole (before ++ [',', ' '])

inductive OpensStep : List Char → Prop where
  | whole {before : List Char} (opens : OpensWhole before) : OpensStep before
  | behind (before : List Char) : OpensStep (before ++ [' ', '>', '>', ' '])

theorem OpensStep.getLast? {before : List Char} (opens : OpensStep before) {char : Char}
    (isLast : before.getLast? = some char) : char = '\x7b' ∨ char = ' ' := by
  rcases opens with ⟨_ | before | before⟩ | before
  · cases isLast
  · exact Or.inl (by simpa using isLast.symm)
  · exact Or.inr (by simpa using isLast.symm)
  · exact Or.inr (by simpa using isLast.symm)

private theorem not_opensWhole_behind (before : List Char) :
    ¬ OpensWhole (before ++ [' ', '>', '>', ' ']) := by
  intro opens
  generalize same : before ++ [' ', '>', '>', ' '] = chars at opens
  have ends := congrArg (List.take 2 ∘ List.reverse) same
  cases opens <;> simp at ends

private theorem eq_of_append_words {before other word otherWord : List Char}
    (isWord : ∀ char ∈ word, isWordChar char = true)
    (isOther : ∀ char ∈ otherWord, isWordChar char = true)
    (stops : ∀ char, before.getLast? = some char → isWordChar char = false)
    (otherStops : ∀ char, other.getLast? = some char → isWordChar char = false)
    (same : before ++ word = other ++ otherWord) : before = other ∧ word = otherWord := by
  have nothing : ∀ {front extra rest : List Char},
      (∀ char ∈ extra ++ rest, isWordChar char = true) →
        (∀ char, (front ++ extra).getLast? = some char → isWordChar char = false) →
          extra = [] := by
    intro front extra rest words stops
    rcases List.eq_nil_or_concat extra with vacant | ⟨init, last, rfl⟩
    · exact vacant
    · have isWordChar := words last (by simp)
      rw [stops last (by simp)] at isWordChar
      cases isWordChar
  rcases List.append_eq_append_iff.mp same with ⟨extra, rfl, rfl⟩ | ⟨extra, rfl, rfl⟩
  · cases nothing isWord otherStops
    simp
  · cases nothing isOther stops
    simp

private theorem forall₂_concat_iff {First Second : Type} {relation : First → Second → Prop}
    {firsts : List First} {last : First} {seconds : List Second} :
    List.Forall₂ relation (firsts ++ [last]) seconds ↔
      ∃ others second, List.Forall₂ relation firsts others ∧ relation last second ∧
        seconds = others ++ [second] := by
  rw [← List.forall₂_reverse_iff, List.reverse_append, List.reverse_singleton,
    List.singleton_append, List.forall₂_cons_left_iff]
  constructor
  · rintro ⟨second, others, ofLast, ofFirsts, isReverse⟩
    refine ⟨others.reverse, second, ?_, ofLast, ?_⟩
    · rwa [← List.forall₂_reverse_iff, List.reverse_reverse]
    · rw [← List.reverse_cons, ← isReverse, List.reverse_reverse]
  · rintro ⟨others, second, ofFirsts, ofLast, rfl⟩
    exact ⟨second, others.reverse, ofLast, List.forall₂_reverse_iff.mpr ofFirsts, by simp⟩

/-! ### Texts behind other characters -/

def EndsWith (workflow : Workflow) (followsSet : Bool) (expr : Expr) (before read : List Char) :
    Prop :=
  ∃ text, renderAfter workflow followsSet expr = .ok text ∧ read = before ++ text.toList

private theorem endsWith_ofReference {followsSet : Bool} {reference : Reference}
    {before read : List Char} :
    EndsWith workflow followsSet (ofReference reference) before read ↔
      ∃ text, leafText? workflow reference = some text ∧ read = before ++ text.toList := by
  simp only [EndsWith, renderAfter_ofReference_eq_ok]

private theorem endsWith_sequence {followsSet : Bool} {first second : Expr}
    {before read : List Char} : EndsWith workflow followsSet (.sequence first second) before read ↔
      ∃ middle, EndsWith workflow false first before middle ∧
        EndsWith workflow first.isSet second (middle ++ [' ', '>', '>', ' ']) read := by
  simp only [EndsWith, renderAfter_sequence_eq_ok]
  constructor
  · rintro ⟨_, ⟨firstText, secondText, ofFirst, ofSecond, rfl⟩, rfl⟩
    exact ⟨_, ⟨firstText, ofFirst, rfl⟩, secondText, ofSecond, by simp [sequenceText]⟩
  · rintro ⟨_, ⟨firstText, ofFirst, rfl⟩, secondText, ofSecond, rfl⟩
    exact ⟨_, ⟨firstText, secondText, ofFirst, ofSecond, rfl⟩, by simp [sequenceText]⟩

def MembersEnd (workflow : Workflow) (members : List Expr) (before read : List Char) : Prop :=
  ∃ texts, List.Forall₂ (fun member text => renderAfter workflow false member = .ok text)
    members texts ∧ read = before ++ (", ".intercalate texts).toList

def wrapperOf (wrapped : Bool) : List Char :=
  if wrapped then "Graph.from_set(".toList else []

def closingOf (wrapped : Bool) : List Char := if wrapped then ['\x7d', ')'] else ['\x7d']

private theorem endsWith_set {followsSet : Bool} {members : List Expr} {before read : List Char} :
    EndsWith workflow followsSet (.set members) before read ↔
      ∃ inside, MembersEnd workflow members (before ++ wrapperOf followsSet ++ ['\x7b']) inside ∧
        read = inside ++ closingOf followsSet := by
  have setText_toList : ∀ texts, (setText texts followsSet).toList =
      wrapperOf followsSet ++ ['\x7b'] ++ (", ".intercalate texts).toList ++
        closingOf followsSet := by
    intro texts
    cases followsSet <;> simp [setText, wrapperOf, closingOf]
  simp only [EndsWith, MembersEnd, renderAfter_set_eq_ok]
  constructor
  · rintro ⟨_, ⟨texts, ofMembers, rfl⟩, rfl⟩
    exact ⟨_, ⟨texts, ofMembers, rfl⟩, by simp [setText_toList]⟩
  · rintro ⟨_, ⟨texts, ofMembers, rfl⟩, rfl⟩
    exact ⟨_, ⟨texts, ofMembers, rfl⟩, by simp [setText_toList]⟩

private theorem membersEnd_nil {before read : List Char} :
    MembersEnd workflow [] before read ↔ read = before := by
  simp [MembersEnd]

private theorem membersEnd_concat {members : List Expr} {last : Expr} {before read : List Char} :
    MembersEnd workflow (members ++ [last]) before read ↔
      ∃ middle, MembersEnd workflow members before middle ∧
        EndsWith workflow false last (if members = [] then middle else middle ++ [',', ' '])
          read := by
  have joined : ∀ {texts : List String} (text : String),
      List.Forall₂ (fun member text => renderAfter workflow false member = .ok text)
        members texts →
      before ++ (", ".intercalate (texts ++ [text])).toList =
        (if members = [] then before ++ (", ".intercalate texts).toList
          else before ++ (", ".intercalate texts).toList ++ [',', ' ']) ++ text.toList := by
    intro texts text ofMembers
    cases ofMembers with
    | nil => simp
    | cons =>
        rw [String.intercalate_append_of_ne_nil (by simp) (by simp), if_neg (by simp)]
        simp
  simp only [MembersEnd, EndsWith, forall₂_concat_iff]
  constructor
  · rintro ⟨_, ⟨texts, text, ofMembers, ofLast, rfl⟩, rfl⟩
    exact ⟨_, ⟨texts, ofMembers, rfl⟩, text, ofLast, joined text ofMembers⟩
  · rintro ⟨_, ⟨texts, ofMembers, rfl⟩, text, ofLast, rfl⟩
    exact ⟨_, ⟨texts, text, ofMembers, ofLast, rfl⟩, (joined text ofMembers).symm⟩

/-! ### Reading leaves -/

private theorem leafText?_eq_some {reference : Reference} {text : String}
    (isText : leafText? workflow reference = some text) :
    (reference.owner = reference ∧ ownerLabel? workflow reference = some text) ∨
      ∃ nodeId portId label name, reference = .port nodeId portId ∧
        workflow.nodeLabel? nodeId = some label ∧ workflow.portName? portId = some name ∧
          ∀ before, before ++ text.toList =
            before ++ label.toList ++ ".Ports".toList ++ ['.'] ++ name.toList := by
  cases reference with
  | node nodeId => exact Or.inl ⟨rfl, isText⟩
  | trigger triggerId => exact Or.inl ⟨rfl, isText⟩
  | port nodeId portId =>
      obtain ⟨label, isLabel, isRest⟩ := Option.bind_eq_some_iff.mp isText
      obtain ⟨name, isName, rfl⟩ := Option.map_eq_some_iff.mp isRest
      exact Or.inr ⟨nodeId, portId, label, name, rfl, isLabel, isName, by simp [portText]⟩

private theorem OpensStep.stops {before : List Char} (opens : OpensStep before) {char : Char}
    (isLast : before.getLast? = some char) : isWordChar char = false := by
  rcases opens.getLast? isLast with rfl | rfl <;> decide

private theorem dot_stops {before : List Char} {char : Char}
    (isLast : (before ++ ['.']).getLast? = some char) : isWordChar char = false := by
  have isDot : char = '.' := by simpa using isLast.symm
  rw [isDot]
  decide

private theorem label_ne_port (legible : workflow.Legible) {reference : Reference}
    {portId : PortId} {label name : String} {before front : List Char}
    (isLabel : ownerLabel? workflow reference = some label)
    (isName : workflow.portName? portId = some name) (opens : OpensStep before)
    (same : before ++ label.toList = front ++ ['.'] ++ name.toList) : False := by
  obtain ⟨rfl, _⟩ := eq_of_append_words (legible.labels isLabel).word (legible.names isName).word
    (fun _ => opens.stops) (fun _ => dot_stops) same
  rcases opens.getLast? (List.getLast?_concat) with impossible | impossible <;> cases impossible

/-- Two leaves with the same text are the same, and the text begins at the same place. -/
theorem leaf_eq (legible : workflow.Legible) {reference other : Reference}
    {text otherText : String} {before otherBefore : List Char}
    (own : workflow.NamesOwnPort reference) (otherOwn : workflow.NamesOwnPort other)
    (isText : leafText? workflow reference = some text)
    (isOther : leafText? workflow other = some otherText)
    (opens : OpensStep before) (otherOpens : OpensStep otherBefore)
    (same : before ++ text.toList = otherBefore ++ otherText.toList) :
    reference = other ∧ before = otherBefore := by
  rcases leafText?_eq_some isText with
    ⟨isOwner, isLabel⟩ | ⟨nodeId, portId, label, name, rfl, isLabel, isName, chars⟩ <;>
  rcases leafText?_eq_some isOther with
    ⟨otherIsOwner, isOtherLabel⟩ | ⟨otherNode, otherPort, otherLabel, otherName, rfl, isOtherLabel,
      isOtherName, otherChars⟩
  · obtain ⟨begins, sameText⟩ := eq_of_append_words (legible.labels isLabel).word
      (legible.labels isOtherLabel).word (fun _ => opens.stops) (fun _ => otherOpens.stops) same
    cases String.toList_inj.mp sameText
    exact ⟨by rw [← isOwner, ← otherIsOwner, legible.labelsDiffer isLabel isOtherLabel], begins⟩
  -- The dot before a port's name is in no label.
  · rw [otherChars] at same
    exact (label_ne_port legible isLabel isOtherName opens same).elim
  · rw [chars] at same
    exact (label_ne_port legible isOtherLabel isName otherOpens same.symm).elim
  · rw [chars, otherChars] at same
    obtain ⟨sameFront, sameName⟩ := eq_of_append_words (legible.names isName).word
      (legible.names isOtherName).word (fun _ => dot_stops) (fun _ => dot_stops) same
    have sameStart := List.append_cancel_right (List.append_cancel_right sameFront)
    have ofNode : ownerLabel? workflow (.node nodeId) = some label := isLabel
    have ofOther : ownerLabel? workflow (.node otherNode) = some otherLabel := isOtherLabel
    obtain ⟨begins, sameLabel⟩ := eq_of_append_words (legible.labels ofNode).word
      (legible.labels ofOther).word (fun _ => opens.stops) (fun _ => otherOpens.stops) sameStart
    cases String.toList_inj.mp sameName
    cases String.toList_inj.mp sameLabel
    cases legible.labelsDiffer ofNode ofOther
    obtain ⟨entry, isEntry, owner⟩ := Option.map_eq_some_iff.mp own
    obtain ⟨otherEntry, isOtherEntry, otherOwner⟩ := Option.map_eq_some_iff.mp otherOwn
    cases legible.namesDiffer isEntry isOtherEntry (owner.trans otherOwner.symm) isName isOtherName
    exact ⟨rfl, begins⟩

/-! ### Reading steps and whole expressions -/

def ReadsAsStep (workflow : Workflow) (expr : Expr) : Prop :=
  ∀ ⦃followsSet otherFollows other before otherBefore read⦄, workflow.Writable other →
    other.isSequence = false → EndsWith workflow followsSet expr before read →
      EndsWith workflow otherFollows other otherBefore read → OpensStep before →
        OpensStep otherBefore → expr = other ∧ before = otherBefore

def ReadsAsWhole (workflow : Workflow) (expr : Expr) : Prop :=
  ∀ ⦃other before otherBefore read⦄, workflow.Writable other →
    EndsWith workflow false expr before read → EndsWith workflow false other otherBefore read →
      OpensWhole before → OpensWhole otherBefore → expr = other ∧ before = otherBefore

private theorem exists_last_of_leafText? (legible : workflow.Legible) {reference : Reference}
    {text : String} (isText : leafText? workflow reference = some text) (before : List Char) :
    ∃ char, (before ++ text.toList).getLast? = some char ∧ isWordChar char = true := by
  have ofWord : ∀ (front : List Char) {word : String}, IsIdentifier word →
      ∃ char, (front ++ word.toList).getLast? = some char ∧ isWordChar char = true := by
    intro front word identifier
    rcases List.eq_nil_or_concat word.toList with vacant | ⟨init, last, isConcat⟩
    · exact (identifier.occupied (String.toList_inj.mp vacant)).elim
    · refine ⟨last, ?_, identifier.word last ?_⟩ <;> simp [isConcat]
  rcases leafText?_eq_some isText with ⟨_, isLabel⟩ | ⟨_, _, _, name, _, _, isName, chars⟩
  · exact ofWord before (legible.labels isLabel)
  · rw [chars]
    exact ofWord _ (legible.names isName)

private theorem getLast?_of_set {followsSet : Bool} {members : List Expr} {before read : List Char}
    (ends : EndsWith workflow followsSet (.set members) before read) :
    read.getLast? = some (if followsSet then ')' else '\x7d') := by
  obtain ⟨inside, _, rfl⟩ := endsWith_set.mp ends
  cases followsSet <;> simp [closingOf]

private theorem getLast?_ne_brace (legible : workflow.Legible) {followsSet : Bool} {expr : Expr}
    {before read : List Char} (writable : workflow.Writable expr)
    (ends : EndsWith workflow followsSet expr before read) : read.getLast? ≠ some '\x7b' := by
  induction writable generalizing followsSet before with
  | leaf own =>
      obtain ⟨text, isText, rfl⟩ := endsWith_ofReference.mp ends
      obtain ⟨char, isLast, isWord⟩ := exists_last_of_leafText? legible isText before
      rw [isLast]
      rintro ⟨rfl⟩
      cases isWord
  | sequence _ _ _ _ ihSecond =>
      obtain ⟨middle, _, ofSecond⟩ := endsWith_sequence.mp ends
      exact ihSecond ofSecond
  | set _ _ =>
      rw [getLast?_of_set ends]
      cases followsSet <;> simp

private theorem opensWhole_member {members : List Expr} {before middle : List Char}
    (ends : MembersEnd workflow members (before ++ ['\x7b']) middle) :
    OpensWhole (if members = [] then middle else middle ++ [',', ' ']) := by
  split
  · rename_i none
    rw [none, membersEnd_nil] at ends
    rw [ends]
    exact .first before
  · exact .next middle

private theorem middle_eq {members others : List Expr} {before otherBefore middle other : List Char}
    (ends : MembersEnd workflow members (before ++ ['\x7b']) middle)
    (otherEnds : MembersEnd workflow others (otherBefore ++ ['\x7b']) other)
    (same : (if members = [] then middle else middle ++ [',', ' ']) =
      if others = [] then other else other ++ [',', ' ']) : middle = other := by
  have apart : ∀ front back : List Char, front ++ ['\x7b'] ≠ back ++ [',', ' '] := by
    intro front back equal
    have sameLast := congrArg List.getLast? equal
    simp at sameLast
  split at same <;> split at same
  · exact same
  · rename_i none _
    rw [none, membersEnd_nil] at ends
    exact (apart _ _ (ends.symm.trans same)).elim
  · rename_i _ none
    rw [none, membersEnd_nil] at otherEnds
    exact (apart _ _ (otherEnds.symm.trans same.symm)).elim
  · exact List.append_cancel_right same

private theorem not_open (legible : workflow.Legible) {members : List Expr} {last : Expr}
    {front start read : List Char} (writable : workflow.Writable last)
    (ends : MembersEnd workflow (members ++ [last]) front read) : read ≠ start ++ ['\x7b'] := by
  intro isOpen
  obtain ⟨_, _, lastEnds⟩ := membersEnd_concat.mp ends
  apply getLast?_ne_brace legible writable lastEnds
  rw [isOpen, List.getLast?_concat]

/-- Sets with the same text have the same members. The last ones are read first. -/
theorem members_eq (legible : workflow.Legible) {members others : List Expr}
    {before otherBefore read : List Char}
    (whole : ∀ member ∈ members, ReadsAsWhole workflow member)
    (writable : ∀ member ∈ members, workflow.Writable member)
    (otherWritable : ∀ other ∈ others, workflow.Writable other)
    (ends : MembersEnd workflow members (before ++ ['\x7b']) read)
    (otherEnds : MembersEnd workflow others (otherBefore ++ ['\x7b']) read) :
    members = others ∧ before = otherBefore := by
  induction members using List.reverseRecOn generalizing others read with
  | nil =>
      have isOpen := membersEnd_nil.mp ends
      rcases List.eq_nil_or_concat others with rfl | ⟨init, last, rfl⟩
      · exact ⟨rfl, List.append_cancel_right (isOpen.symm.trans (membersEnd_nil.mp otherEnds))⟩
      · rw [List.concat_eq_append] at otherEnds otherWritable
        exact (not_open legible (otherWritable last (by simp)) otherEnds isOpen).elim
  | append_singleton init last ih =>
      rcases List.eq_nil_or_concat others with rfl | ⟨otherInit, otherLast, rfl⟩
      · exact (not_open legible (writable last (by simp)) ends (membersEnd_nil.mp otherEnds)).elim
      · rw [List.concat_eq_append] at otherEnds otherWritable ⊢
        obtain ⟨middle, ofInit, ofLast⟩ := membersEnd_concat.mp ends
        obtain ⟨otherMiddle, ofOtherInit, ofOtherLast⟩ := membersEnd_concat.mp otherEnds
        obtain ⟨rfl, sameStart⟩ := whole last (by simp) (otherWritable otherLast (by simp)) ofLast
          ofOtherLast (opensWhole_member ofInit) (opensWhole_member ofOtherInit)
        -- The comma before the last members, or none, is the same on both sides.
        cases middle_eq ofInit ofOtherInit sameStart
        obtain ⟨rfl, begins⟩ := ih
          (fun member present => whole member (List.mem_append_left _ present))
          (fun member present => writable member (List.mem_append_left _ present))
          (fun other present => otherWritable other (List.mem_append_left _ present))
          ofInit ofOtherInit
        exact ⟨rfl, begins⟩

private theorem readsAsStep_leaf (legible : workflow.Legible) {reference : Reference}
    (own : workflow.NamesOwnPort reference) : ReadsAsStep workflow (ofReference reference) := by
  intro followsSet otherFollows other before otherBefore read writable isStep ends otherEnds opens
    otherOpens
  obtain ⟨text, isText, rfl⟩ := endsWith_ofReference.mp ends
  cases writable with
  | leaf otherOwn =>
      obtain ⟨otherText, isOther, same⟩ := endsWith_ofReference.mp otherEnds
      obtain ⟨rfl, begins⟩ := leaf_eq legible own otherOwn isText isOther opens otherOpens same
      exact ⟨rfl, begins⟩
  | sequence _ _ _ => cases isStep
  | set _ =>
      obtain ⟨char, isLast, isWord⟩ := exists_last_of_leafText? legible isText before
      cases isLast.symm.trans (getLast?_of_set otherEnds)
      cases otherFollows <;> cases isWord

private theorem readsAsStep_set (legible : workflow.Legible) {members : List Expr}
    (whole : ∀ member ∈ members, ReadsAsWhole workflow member)
    (ofMembers : ∀ member ∈ members, workflow.Writable member) :
    ReadsAsStep workflow (.set members) := by
  intro followsSet otherFollows other before otherBefore read writable isStep ends otherEnds _ _
  have isLast := getLast?_of_set ends
  cases writable with
  | leaf otherOwn =>
      obtain ⟨text, isText, rfl⟩ := endsWith_ofReference.mp otherEnds
      obtain ⟨char, isOther, isWord⟩ := exists_last_of_leafText? legible isText otherBefore
      cases isOther.symm.trans isLast
      cases followsSet <;> cases isWord
  | sequence _ _ _ => cases isStep
  | set otherMembers =>
      have sameLast := Option.some.inj (isLast.symm.trans (getLast?_of_set otherEnds))
      have sameWrap : followsSet = otherFollows := by
        cases followsSet <;> cases otherFollows <;> first | rfl | cases sameLast
      cases sameWrap
      obtain ⟨inside, ofInside, rfl⟩ := endsWith_set.mp ends
      obtain ⟨otherInside, ofOther, same⟩ := endsWith_set.mp otherEnds
      cases List.append_cancel_right same
      obtain ⟨rfl, sameFront⟩ := members_eq legible whole ofMembers otherMembers ofInside ofOther
      exact ⟨rfl, List.append_cancel_right sameFront⟩

private theorem step_or_sequence {expr : Expr} (writable : workflow.Writable expr) :
    expr.isSequence = false ∨ ∃ first second, expr = .sequence first second ∧
      workflow.Writable first ∧ workflow.Writable second ∧ second.isSequence = false := by
  cases writable with
  | @leaf reference _ => exact Or.inl (by cases reference <;> rfl)
  | sequence ofFirst ofSecond isStep => exact Or.inr ⟨_, _, rfl, ofFirst, ofSecond, isStep⟩
  | set _ => exact Or.inl rfl

private theorem readsAsWhole_of_step {expr : Expr} (asStep : ReadsAsStep workflow expr) :
    ReadsAsWhole workflow expr := by
  intro other before otherBefore read writable ends otherEnds opens otherOpens
  rcases step_or_sequence writable with isStep | ⟨first, second, rfl, _, ofSecond, isStep⟩
  · exact asStep writable isStep ends otherEnds (.whole opens) (.whole otherOpens)
  · obtain ⟨middle, _, secondEnds⟩ := endsWith_sequence.mp otherEnds
    obtain ⟨_, rfl⟩ := asStep ofSecond isStep ends secondEnds (.whole opens) (.behind middle)
    exact (not_opensWhole_behind middle opens).elim

/-- A chain is read by its last step and then, as a whole again, by what is before that. -/
theorem readsAsWhole_sequence {first second : Expr} (asWhole : ReadsAsWhole workflow first)
    (asStep : ReadsAsStep workflow second) : ReadsAsWhole workflow (.sequence first second) := by
  intro other before otherBefore read writable ends otherEnds opens otherOpens
  obtain ⟨middle, firstEnds, secondEnds⟩ := endsWith_sequence.mp ends
  rcases step_or_sequence writable with
    isStep | ⟨otherFirst, otherSecond, rfl, ofFirst, ofSecond, isStep⟩
  · obtain ⟨_, rfl⟩ := asStep writable isStep secondEnds otherEnds (.behind middle)
      (.whole otherOpens)
    exact (not_opensWhole_behind middle otherOpens).elim
  · obtain ⟨otherMiddle, otherFirstEnds, otherSecondEnds⟩ := endsWith_sequence.mp otherEnds
    obtain ⟨rfl, sameMiddle⟩ := asStep ofSecond isStep secondEnds otherSecondEnds
      (.behind middle) (.behind otherMiddle)
    cases List.append_cancel_right sameMiddle
    obtain ⟨rfl, begins⟩ := asWhole ofFirst firstEnds otherFirstEnds opens otherOpens
    exact ⟨rfl, begins⟩

/-- Every expression that can be written can be read, as a whole and as a step if it is one. -/
theorem reads_of_writable (legible : workflow.Legible) {expr : Expr}
    (writable : workflow.Writable expr) :
    (expr.isSequence = false → ReadsAsStep workflow expr) ∧ ReadsAsWhole workflow expr := by
  induction writable with
  | leaf own =>
      have asStep := readsAsStep_leaf legible own
      exact ⟨fun _ => asStep, readsAsWhole_of_step asStep⟩
  | sequence _ _ isStep ihFirst ihSecond =>
      exact ⟨nofun, readsAsWhole_sequence ihFirst.2 (ihSecond.1 isStep)⟩
  | set ofMembers ih =>
      have asStep := readsAsStep_set legible (fun member present => (ih member present).2) ofMembers
      exact ⟨fun _ => asStep, readsAsWhole_of_step asStep⟩

end GraphText

/-! ### Legible documents -/

instance (text : String) : Decidable (IsIdentifier text) :=
  decidable_of_iff (text ≠ "" ∧ text.toList.all isWordChar = true)
    ⟨fun ⟨occupied, word⟩ => ⟨occupied, List.all_eq_true.mp word⟩,
      fun ⟨occupied, word⟩ => ⟨occupied, List.all_eq_true.mpr word⟩⟩

namespace Document

def labels (document : Document) : List String :=
  document.nodes.map (fun entry => entry.label.getD entry.id) ++
    document.triggers.map fun entry => entry.label.getD entry.id

/-- A document that gives its nodes and triggers different identifiers as labels, and different
ones as names to the ports of each node. -/
structure Legible (document : Document) : Prop where
  labels : ∀ label ∈ document.labels, IsIdentifier label
  names : ∀ entry ∈ document.portEntries, IsIdentifier entry.2.name
  labelsDiffer : document.labels.Nodup
  namesDiffer : (document.portEntries.map fun entry => (entry.1, entry.2.name)).Nodup

end Document

namespace Workflow.Written

variable {workflow : Workflow} {document : Document}

private theorem nodeLabel_at (written : workflow.Written document) {node : NodeId} {label : String}
    (isLabel : workflow.nodeLabel? node = some label) :
    node.number < document.nodes.length ∧ document.labels[node.number]? = some label := by
  obtain ⟨stored, isNode, isText⟩ := Option.bind_eq_some_iff.mp isLabel
  obtain ⟨entry, isEntry, reads⟩ := written.exists_nodeEntry isNode
  cases reads.label.symm.trans isText
  have bound := (List.getElem?_eq_some_iff.mp isEntry).1
  refine ⟨bound, ?_⟩
  rw [Document.labels, List.getElem?_append_left (by rwa [List.length_map]), List.getElem?_map,
    isEntry]
  rfl

private theorem triggerLabel_at (written : workflow.Written document) {trigger : TriggerId}
    {label : String} (isLabel : workflow.triggerLabel? trigger = some label) :
    document.labels[document.nodes.length + trigger.number]? = some label := by
  obtain ⟨stored, isTrigger, isText⟩ := Option.bind_eq_some_iff.mp isLabel
  obtain ⟨entry, isEntry, reads⟩ := written.exists_triggerEntry isTrigger
  cases reads.label.symm.trans isText
  rw [Document.labels, List.getElem?_append_right (by simp), List.length_map,
    Nat.add_sub_cancel_left, List.getElem?_map, isEntry]
  rfl

private theorem ownerLabel_at (written : workflow.Written document) {reference : Reference}
    {label : String} (isLabel : GraphText.ownerLabel? workflow reference = some label) :
    ∃ place, document.labels[place]? = some label ∧
      reference.owner = if place < document.nodes.length then .node ⟨place⟩
        else .trigger ⟨place - document.nodes.length⟩ := by
  cases reference with
  | node nodeId =>
      obtain ⟨bound, atPlace⟩ := written.nodeLabel_at isLabel
      exact ⟨_, atPlace, by rw [if_pos bound]; rfl⟩
  | port nodeId portId =>
      obtain ⟨bound, atPlace⟩ := written.nodeLabel_at isLabel
      exact ⟨_, atPlace, by rw [if_pos bound]; rfl⟩
  | trigger triggerId =>
      refine ⟨_, written.triggerLabel_at isLabel, ?_⟩
      rw [if_neg (by omega), Nat.add_sub_cancel_left]
      rfl

private theorem portName_at (written : workflow.Written document) {port : PortId} {stored : Port}
    {name : String} (isPort : workflow.port? port = some stored)
    (isName : workflow.portName? port = some name) :
    (document.portEntries.map fun entry => (entry.1, entry.2.name))[port.number]? =
      some (stored.node, name) := by
  obtain ⟨entry, isEntry, reads⟩ := written.exists_portEntry isPort
  rw [portName?, isPort, Option.bind_some] at isName
  cases reads.name.symm.trans isName
  rw [List.getElem?_map, isEntry, reads.node]
  rfl

private theorem legible (written : workflow.Written document) (clear : document.Legible) :
    workflow.Legible where
  labels := by
    intro reference label isLabel
    obtain ⟨place, atPlace, _⟩ := written.ownerLabel_at isLabel
    exact clear.labels label (List.mem_of_getElem? atPlace)
  names := by
    intro port name isName
    obtain ⟨stored, isPort, _⟩ := Option.bind_eq_some_iff.mp isName
    obtain ⟨entry, inside, same⟩ :=
      List.mem_map.mp (List.mem_of_getElem? (written.portName_at isPort isName))
    rw [← (Prod.mk.inj same).2]
    exact clear.names entry inside
  labelsDiffer := by
    intro first second label isLabel alsoLabel
    obtain ⟨place, atPlace, firstOwner⟩ := written.ownerLabel_at isLabel
    obtain ⟨other, atOther, secondOwner⟩ := written.ownerLabel_at alsoLabel
    have bound := (List.getElem?_eq_some_iff.mp atPlace).1
    rw [firstOwner, secondOwner,
      (List.getElem?_inj bound clear.labelsDiffer).mp (atPlace.trans atOther.symm)]
  namesDiffer := by
    intro first second firstEntry secondEntry name isFirst isSecond sameNode isName alsoName
    have atFirst := written.portName_at isFirst isName
    have atSecond := written.portName_at isSecond alsoName
    rw [sameNode] at atFirst
    have bound := (List.getElem?_eq_some_iff.mp atFirst).1
    have samePlace :=
      (List.getElem?_inj bound clear.namesDiffer).mp (atFirst.trans atSecond.symm)
    cases first
    cases second
    exact congrArg PortId.mk samePlace

end Workflow.Written

/-- Graph text is unambiguous. Expressions of a legible workflow that can be written at all have
the same text only if they are the same. -/
theorem render_injective {workflow : Workflow} (legible : workflow.Legible) {first second : Expr}
    {text : String} (ofFirst : workflow.Writable first) (ofSecond : workflow.Writable second)
    (isText : GraphText.render workflow first = .ok text)
    (alsoText : GraphText.render workflow second = .ok text) : first = second :=
  ((GraphText.reads_of_writable legible ofFirst).2 ofSecond ⟨text, isText, rfl⟩
    ⟨text, alsoText, rfl⟩ .start .start).1

def labelledExits : Document :=
  { triggers := [{ id := "t", label := some "Start" }]
    nodes :=
      [{ id := "n", label := some "Check", ports := [{ id := "p", name := "on" },
            { id := "q", name := "off" }] },
        { id := "a" }, { id := "b" }] }

def labelledChain : Expr :=
  .sequence
    (.sequence (.set [.port ⟨0⟩ ⟨0⟩, .node ⟨0⟩])
      (.set [.node ⟨1⟩, .sequence (.node ⟨2⟩) (.set [])]))
    (.trigger ⟨0⟩)

/-- No other expression that can be written has the text of this one. -/
theorem render_injective_labelledExits :
    ∃ workflow, Workflow.load labelledExits = .ok workflow ∧
      workflow.Writable labelledChain ∧
      ∀ expr, workflow.Writable expr →
        (GraphText.render workflow expr = .ok
            "\x7bCheck.Ports.on, Check\x7d >> Graph.from_set(\x7ba, b >> \x7b\x7d\x7d) >> Start" ↔
          expr = labelledChain) := by
  have evaluated : ((Workflow.load labelledExits).toOption.map fun workflow =>
      ((workflow.port? ⟨0⟩).map Port.node, (GraphText.render workflow labelledChain).toOption)) =
      some (some ⟨0⟩, some
        "\x7bCheck.Ports.on, Check\x7d >> Graph.from_set(\x7ba, b >> \x7b\x7d\x7d) >> Start") := by
    decide +kernel
  obtain ⟨workflow, loaded, views⟩ := Workflow.exists_load_of_map_toOption evaluated
  obtain ⟨ofNode, found⟩ := Prod.mk.inj views
  have isText := eq_ok_of_toOption_eq_some found
  have clear : labelledExits.Legible :=
    ⟨by decide +kernel, by decide +kernel, by decide +kernel, by decide +kernel⟩
  have leaf : ∀ reference, workflow.NamesOwnPort reference →
      workflow.Writable (ofReference reference) := fun _ own => .leaf own
  have writable : workflow.Writable labelledChain := by
    refine .sequence (.sequence (.set ?_) (.set ?_) rfl) (leaf (.trigger ⟨0⟩) trivial) rfl
    · simp only [List.forall_mem_cons]
      exact ⟨leaf (.port ⟨0⟩ ⟨0⟩) ofNode, leaf (.node ⟨0⟩) trivial, nofun⟩
    · simp only [List.forall_mem_cons]
      exact ⟨leaf (.node ⟨1⟩) trivial, .sequence (leaf (.node ⟨2⟩) trivial) (.set nofun) rfl, nofun⟩
  refine ⟨workflow, loaded, writable, fun expr ofExpr => ⟨fun sameText => ?_, ?_⟩⟩
  · exact render_injective ((Workflow.written_of_load loaded).legible clear) ofExpr writable
      sameText isText
  · rintro rfl
    exact isText

end FlowGraph
