import FlowGraph.Proofs.LoadedWorkflow

/-!
Whole documents. A document that is accepted loads into a coherent workflow, which has all
that it declares and its edges as they are written.
-/

namespace FlowGraph

theorem exists_partner {First Second : Type} {relation : First → Second → Prop}
    {firsts : List First} {seconds : List Second} {second : Second}
    (related : List.Forall₂ relation firsts seconds) (inside : second ∈ seconds) :
    ∃ first ∈ firsts, relation first second := by
  induction related with
  | nil => cases inside
  | @cons first last firsts seconds alike _ ih =>
      rcases List.mem_cons.mp inside with rfl | later
      · exact ⟨first, List.mem_cons_self, alike⟩
      · obtain ⟨other, present, related⟩ := ih later
        exact ⟨other, List.mem_cons_of_mem _ present, related⟩

theorem eq_ok_of_toOption_eq_some {Failure Value : Type} {result : Except Failure Value}
    {value : Value} (found : result.toOption = some value) : result = .ok value := by
  cases result with
  | error failure => cases found
  | ok other =>
      cases found
      rfl

namespace Workflow

/-! ### Edges -/

structure Reads (workflow : Workflow) (entry : EdgeEntry) (edge : Edge) : Prop where
  ident : workflow.identText? edge.ident = some entry.id
  sourceNode : workflow.identText? edge.sourceNode = some entry.sourceNode
  sourcePort : edge.sourcePort.map workflow.identText? = entry.sourcePort.map some
  targetNode : workflow.identText? edge.targetNode = some entry.targetNode
  targetPort : edge.targetPort.map workflow.identText? = entry.targetPort.map some

theorem Reads.mono {before after : Workflow} {entry : EdgeEntry} {edge : Edge}
    (reads : before.Reads entry edge) (grown : before.idents.Grown after.idents) :
    after.Reads entry edge where
  ident := identText?_of_grown grown reads.ident
  sourceNode := identText?_of_grown grown reads.sourceNode
  sourcePort := map_identText?_of_grown grown reads.sourcePort
  targetNode := identText?_of_grown grown reads.targetNode
  targetPort := map_identText?_of_grown grown reads.targetPort

theorem internEdge_spec {workflow next : Workflow} {entry : EdgeEntry}
    {result : Except LoadError Edge} (coherent : workflow.Coherent)
    (interned : workflow.internEdge entry = (next, result)) :
    Interns workflow next ∧ ∀ edge, result = .ok edge → next.Reads entry edge := by
  unfold internEdge at interned
  rcases ofEdge : workflow.internIdent entry.id with ⟨first, error | ident⟩
  · rw [ofEdge] at interned
    cases interned
    exact ⟨interns_internIdent ofEdge, nofun⟩
  rw [ofEdge] at interned
  have toFirst := interns_internIdent ofEdge
  have firstCoherent := toFirst.coherent coherent
  rcases ofSource : first.internIdent entry.sourceNode with ⟨second, error | sourceNode⟩
  · simp only [ofSource] at interned
    cases interned
    exact ⟨toFirst.trans (interns_internIdent ofSource), nofun⟩
  simp only [ofSource] at interned
  have toSecond := interns_internIdent ofSource
  have secondCoherent := toSecond.coherent firstCoherent
  rcases ofSourcePort : second.internIdent? entry.sourcePort with ⟨third, error | sourcePort⟩
  · simp only [ofSourcePort] at interned
    cases interned
    exact ⟨toFirst.trans (toSecond.trans (interns_internIdent? ofSourcePort)), nofun⟩
  simp only [ofSourcePort] at interned
  have toThird := interns_internIdent? ofSourcePort
  have thirdCoherent := toThird.coherent secondCoherent
  rcases ofTarget : third.internIdent entry.targetNode with ⟨fourth, error | targetNode⟩
  · simp only [ofTarget] at interned
    cases interned
    exact ⟨toFirst.trans (toSecond.trans (toThird.trans (interns_internIdent ofTarget))), nofun⟩
  simp only [ofTarget] at interned
  have toFourth := interns_internIdent ofTarget
  have fourthCoherent := toFourth.coherent thirdCoherent
  rcases ofTargetPort : fourth.internIdent? entry.targetPort with ⟨fifth, result⟩
  have toFifth := interns_internIdent? ofTargetPort
  have fromThird := toFourth.trans toFifth
  have fromSecond := toThird.trans fromThird
  have whole := toFirst.trans (toSecond.trans fromSecond)
  rcases result with error | targetPort
  · simp only [ofTargetPort] at interned
    cases interned
    exact ⟨whole, nofun⟩
  · simp only [ofTargetPort] at interned
    cases interned
    refine ⟨whole, ?_⟩
    rintro edge isEdge
    cases isEdge
    exact
      { ident := identText?_of_grown (toSecond.trans fromSecond).grown
          (identText?_internIdent coherent ofEdge)
        sourceNode := identText?_of_grown fromSecond.grown
          (identText?_internIdent firstCoherent ofSource)
        sourcePort := map_identText?_of_grown fromThird.grown
          (map_identText?_internIdent? secondCoherent ofSourcePort)
        targetNode := identText?_of_grown toFifth.grown
          (identText?_internIdent thirdCoherent ofTarget)
        targetPort := map_identText?_internIdent? fourthCoherent ofTargetPort }

structure AddsEdges (before : Workflow) (entries : List EdgeEntry) (after : Workflow) : Prop where
  coherent : after.Coherent
  grown : before.idents.Grown after.idents
  rest : after = { before with idents := after.idents, edges := after.edges }
  edges : ∃ edges, after.edges.toList = before.edges.toList ++ edges ∧
    List.Forall₂ after.Reads entries edges

theorem addsEdges_addEdge {workflow next : Workflow} {entry : EdgeEntry}
    (coherent : workflow.Coherent) (added : workflow.addEdge entry = .ok next) :
    AddsEdges workflow [entry] next := by
  unfold addEdge at added
  rcases interned : workflow.internEdge entry with ⟨known, error | edge⟩
  · rw [interned] at added
    cases added
  · rw [interned] at added
    dsimp only at added
    split at added
    · cases added
    · rename_i room
      cases added
      obtain ⟨interns, reads⟩ := internEdge_spec coherent interned
      have known := interns.coherent coherent
      refine ⟨?_, interns.grown, ?_, [edge], ?_, ?_⟩
      · exact
          { known with
            edgesFit := by
              rw [Arena.size_push]
              exact Nat.succ_lt_succ (Nat.lt_of_not_le room)
            nodeDeclared := known.nodeDeclared
            nodeStored := known.nodeStored
            portDeclared := known.portDeclared
            portStored := known.portStored
            portsOwned := known.portsOwned
            triggersExist := known.triggersExist
            triggerNoNode := known.triggerNoNode
            mentionsInterned := known.mentionsInterned }
      · rw [interns.rest]
      · rw [interns.rest]
        exact Array.toList_push
      · exact .cons ((reads edge rfl).mono (.refl _)) .nil

private theorem addsEdges_foldlM {entries : List EdgeEntry} {workflow next : Workflow}
    (coherent : workflow.Coherent) (added : entries.foldlM addEdge workflow = .ok next) :
    AddsEdges workflow entries next := by
  induction entries generalizing workflow with
  | nil =>
      cases added
      exact ⟨coherent, .refl _, rfl, [], (List.append_nil _).symm, .nil⟩
  | cons entry rest ih =>
      rw [List.foldlM_cons] at added
      cases first : workflow.addEdge entry with
      | error error =>
          rw [first] at added
          cases added
      | ok known =>
          rw [first] at added
          have ofFirst := addsEdges_addEdge coherent first
          have ofRest := ih ofFirst.coherent added
          obtain ⟨firstEdges, firstAre, firstRead⟩ := ofFirst.edges
          obtain ⟨restEdges, restAre, restRead⟩ := ofRest.edges
          refine ⟨ofRest.coherent, ofFirst.grown.trans ofRest.grown, ?_,
            firstEdges ++ restEdges, ?_, ?_⟩
          · rw [ofRest.rest, ofFirst.rest]
          · rw [restAre, firstAre, List.append_assoc]
          · exact List.rel_append (firstRead.imp fun _ _ reads => reads.mono ofRest.grown) restRead

/-! ### Ports of accepted nodes -/

def Complete (workflow : Workflow) : Prop :=
  ∀ port entry, workflow.port? port = some entry → port ∈ workflow.portsOf entry.node

def CompleteWith (workflow : Workflow) (node : NodeId) (ports : List PortId) : Prop :=
  ∀ port entry, workflow.port? port = some entry →
    port ∈ workflow.portsOf entry.node ∨ entry.node = node ∧ port ∈ ports

private theorem portsOf_of_node? {workflow : Workflow} {node : NodeId} {entry : Node}
    (found : workflow.node? node = some entry) : workflow.portsOf node = entry.ports := by
  rw [portsOf, found]

private theorem portsOf_congr {workflow other : Workflow} (same : workflow.nodes = other.nodes)
    (node : NodeId) : workflow.portsOf node = other.portsOf node := by
  unfold portsOf node?
  rw [same]

theorem Complete.congr {workflow other : Workflow} (complete : workflow.Complete)
    (sameNodes : other.nodes = workflow.nodes) (samePorts : other.ports = workflow.ports) :
    other.Complete := by
  intro port entry found
  rw [port?, samePorts] at found
  rw [portsOf_congr sameNodes]
  exact complete port entry found

theorem addPort_eq_ok {workflow next : Workflow} {node : NodeId} {entry : PortEntry}
    {port : PortId} (added : workflow.addPort node entry = (next, .ok port)) :
    ∃ known ident labelled name, workflow.internIdent entry.id = (known, .ok ident) ∧
      known.lookupPort? ident = none ∧ known.internName entry.name = (labelled, .ok name) ∧
      labelled.ports.size < EntryKind.port.capacity ∧ port = labelled.ports.nextId ∧
      next = labelled.pushPort { ident := ident, node := node, name := name } := by
  unfold addPort at added
  rcases interned : workflow.internIdent entry.id with ⟨known, error | ident⟩
  · simp only [interned] at added
    cases added
  simp only [interned] at added
  split at added
  · cases added
  rename_i isNew
  rcases named : known.internName entry.name with ⟨labelled, error | name⟩
  · simp only [named] at added
    cases added
  simp only [named] at added
  split at added
  · cases added
  rename_i room
  cases added
  exact ⟨known, ident, labelled, name, rfl, Option.not_isSome_iff_eq_none.mp isNew, named,
    Nat.lt_of_not_le room, rfl, rfl⟩

private theorem completeWith_addPort {workflow next : Workflow} {node : NodeId} {entry : PortEntry}
    {port : PortId} {ports : List PortId} (coherent : workflow.Coherent)
    (complete : workflow.CompleteWith node ports)
    (added : workflow.addPort node entry = (next, .ok port)) :
    next.nodes = workflow.nodes ∧ next.CompleteWith node (ports ++ [port]) := by
  obtain ⟨known, ident, labelled, name, interned, _, named, _, rfl, rfl⟩ := addPort_eq_ok added
  have sameNodes : labelled.nodes = workflow.nodes := by
    rw [internName_eq named, (interns_internIdent interned).rest]
  have samePorts : labelled.ports = workflow.ports := by
    rw [internName_eq named, (interns_internIdent interned).rest]
  refine ⟨sameNodes, ?_⟩
  intro port stored found
  rw [port?, pushPort, samePorts] at found
  rcases Arena.get?_push_cases coherent.portsFit found with old | ⟨rfl, rfl⟩
  · rcases complete port stored old with listed | ⟨isNode, waits⟩
    · exact Or.inl ((portsOf_congr sameNodes stored.node).symm ▸ listed)
    · exact Or.inr ⟨isNode, List.mem_append_left _ waits⟩
  · exact Or.inr ⟨rfl, by simp [samePorts]⟩

private theorem completeWith_addPorts {workflow next : Workflow} {node : NodeId}
    {ports : Array PortId}
    {entries : List PortEntry} {all : List PortId} (coherent : workflow.Coherent)
    (complete : workflow.CompleteWith node ports.toList)
    (added : workflow.addPorts node ports entries = (next, .ok all)) :
    next.nodes = workflow.nodes ∧ next.CompleteWith node all := by
  induction entries generalizing workflow ports with
  | nil =>
      cases added
      exact ⟨rfl, complete⟩
  | cons entry rest ih =>
      rw [addPorts] at added
      rcases first : workflow.addPort node entry with ⟨known, error | port⟩
      · rw [first] at added
        cases added
      · rw [first] at added
        obtain ⟨sameNodes, listed⟩ := completeWith_addPort coherent complete first
        rw [← Array.toList_push] at listed
        obtain ⟨sameOn, all⟩ := ih ((addPort_spec coherent first).1.coherent coherent) listed added
        exact ⟨sameOn.trans sameNodes, all⟩

private theorem complete_setPorts {workflow : Workflow} {id : NodeId} {node : Node}
    {ports : List PortId} (defaultPort : Option PortId) (found : workflow.node? id = some node)
    (noneListed : node.ports = []) (complete : workflow.CompleteWith id ports) :
    (workflow.setPorts id ports defaultPort).Complete := by
  intro port entry isPort
  have wasPort : workflow.port? port = some entry := by
    rw [setPorts, found] at isPort
    exact isPort
  by_cases isSame : entry.node = id
  · have stored : (workflow.setPorts id ports defaultPort).node? id =
        some { node with ports := ports, defaultPort := defaultPort } := by
      rw [setPorts, found]
      exact Arena.get?_set_self _ found
    rw [isSame, portsOf_of_node? stored]
    rcases complete port entry wasPort with listed | ⟨_, waits⟩
    · rw [isSame, portsOf_of_node? found, noneListed] at listed
      cases listed
    · exact waits
  · have others : (workflow.setPorts id ports defaultPort).node? entry.node =
        workflow.node? entry.node := by
      rw [setPorts, found]
      exact Arena.get?_set_of_ne _ isSame
    rcases complete port entry wasPort with listed | ⟨isNode, _⟩
    · rw [portsOf, others]
      exact listed
    · exact absurd isNode isSame

theorem addTrigger_eq_ok {workflow next : Workflow} {entry : TriggerEntry}
    (added : workflow.addTrigger entry = (next, .ok ())) :
    ∃ known ident labelled label, workflow.internIdent entry.id = (known, .ok ident) ∧
      ¬ known.declares ident = true ∧
      known.internName (entry.label.getD entry.id) = (labelled, .ok label) ∧
      labelled.triggers.size < EntryKind.trigger.capacity ∧
      next = labelled.pushTrigger { ident := ident, label := label } := by
  unfold addTrigger at added
  rcases interned : workflow.internIdent entry.id with ⟨known, error | ident⟩
  · simp only [interned] at added
    cases added
  simp only [interned] at added
  split at added
  · cases added
  rename_i notDeclared
  rcases named : known.internName (entry.label.getD entry.id) with ⟨labelled, error | label⟩
  · simp only [named] at added
    cases added
  simp only [named] at added
  split at added
  · cases added
  rename_i room
  cases added
  exact ⟨known, ident, labelled, label, rfl, notDeclared, named, Nat.lt_of_not_le room, rfl⟩

private theorem complete_addTrigger {workflow next : Workflow} {entry : TriggerEntry}
    (complete : workflow.Complete) (added : workflow.addTrigger entry = (next, .ok ())) :
    next.Complete := by
  obtain ⟨known, ident, labelled, label, interned, _, named, _, rfl⟩ := addTrigger_eq_ok added
  apply complete.congr
  · rw [pushTrigger, internName_eq named, (interns_internIdent interned).rest]
  · rw [pushTrigger, internName_eq named, (interns_internIdent interned).rest]

private theorem completeWith_pushNode {workflow : Workflow} (complete : workflow.Complete)
    (ident : IdentId) (label : NameId) :
    (workflow.pushNode ident label).CompleteWith workflow.nodes.nextId [] := by
  intro port entry isPort
  have listed := complete port entry isPort
  cases isNode : workflow.node? entry.node with
  | none =>
      rw [portsOf, isNode] at listed
      cases listed
  | some node =>
      have stays : (workflow.pushNode ident label).node? entry.node = some node :=
        Arena.get?_push_of_get? _ isNode
      rw [portsOf_of_node? isNode] at listed
      exact Or.inl ((portsOf_of_node? stays).symm ▸ listed)

/-- How a node is accepted: it is stored without ports, which are added one by one, and then
it is stored again with its ports and its default port. -/
theorem addNode_eq_ok {workflow next : Workflow} {entry : NodeEntry}
    (added : workflow.addNode entry = (next, .ok ())) :
    ∃ known ident labelled label listing ports defaultPort,
      workflow.internIdent entry.id = (known, .ok ident) ∧ ¬ known.declares ident = true ∧
      known.internName (entry.label.getD entry.id) = (labelled, .ok label) ∧
      ¬ EntryKind.node.capacity ≤ labelled.nodes.size ∧
      (labelled.pushNode ident label).addPorts labelled.nodes.nextId #[] entry.ports =
        (listing, .ok ports) ∧
      listing.defaultPortFor labelled.nodes.nextId entry = .ok defaultPort ∧
      next = listing.setPorts labelled.nodes.nextId ports defaultPort := by
  unfold addNode at added
  rcases interned : workflow.internIdent entry.id with ⟨known, error | ident⟩
  · simp only [interned] at added
    cases added
  simp only [interned] at added
  split at added
  · cases added
  rename_i notDeclared
  rcases named : known.internName (entry.label.getD entry.id) with ⟨labelled, error | label⟩
  · simp only [named] at added
    cases added
  simp only [named] at added
  split at added
  · cases added
  rename_i room
  unfold completeNode at added
  rcases ofPorts : (labelled.pushNode ident label).addPorts labelled.nodes.nextId #[]
    entry.ports with ⟨listing, error | ports⟩
  · simp only [ofPorts] at added
    cases added
  simp only [ofPorts] at added
  split at added
  · cases added
  rename_i defaultPort isDefault
  cases added
  exact ⟨known, ident, labelled, label, listing, ports, defaultPort, rfl, notDeclared, named,
    room, ofPorts, isDefault, rfl⟩

private theorem complete_addNode {workflow next : Workflow} {entry : NodeEntry}
    (coherent : workflow.Coherent) (complete : workflow.Complete)
    (added : workflow.addNode entry = (next, .ok ())) : next.Complete := by
  obtain ⟨known, ident, labelled, label, listing, ports, defaultPort, interned, notDeclared, named,
    room, ofPorts, _, rfl⟩ := addNode_eq_ok added
  have grown := (interns_internIdent interned).toExtends.trans (extends_internName named)
  have labelledComplete : labelled.Complete := by
    apply complete.congr
    · rw [internName_eq named, (interns_internIdent interned).rest]
    · rw [internName_eq named, (interns_internIdent interned).rest]
  have pushed := extends_pushNode_of_internIdent coherent interned named notDeclared room
  have stored : (labelled.pushNode ident label).node? labelled.nodes.nextId =
      some { ident := ident, label := label, ports := [], defaultPort := none } :=
    Arena.get?_push_nextId _ (grown.coherent coherent).nodesFit
  -- Until the node lists them, its ports are accounted for apart.
  have noneWaits := completeWith_pushNode labelledComplete ident label
  obtain ⟨sameNodes, listed⟩ := completeWith_addPorts (pushed.coherent coherent) noneWaits ofPorts
  have stillStored : listing.node? labelled.nodes.nextId =
      some { ident := ident, label := label, ports := [], defaultPort := none } := by
    rw [node?, sameNodes]
    exact stored
  exact complete_setPorts _ stillStored rfl listed

/-! ### Whole documents -/

private theorem addAll_induction {Entry : Type}
    {add : Workflow → Entry → Workflow × Except LoadError Unit}
    (holds : Workflow → List Entry → Prop)
    (keeps : ∀ workflow known entry next, holds workflow known →
      add workflow entry = (next, .ok ()) → holds next (known ++ [entry]))
    {entries known : List Entry} {workflow next : Workflow} (held : holds workflow known)
    (added : addAll add workflow entries = (next, [])) : holds next (known ++ entries) := by
  induction entries generalizing workflow known with
  | nil =>
      cases added
      rw [List.append_nil]
      exact held
  | cons entry rest ih =>
      rw [addAll] at added
      rcases first : add workflow entry with ⟨after, error | _⟩
      · rw [first] at added
        cases added
      · rw [first] at added
        have whole := ih (keeps _ _ _ _ held first) added
        rw [List.append_assoc] at whole
        exact whole

/-- Loading a document is loading what it declares and adding its edges. -/
theorem load_eq_ok_iff {document : Document} {workflow : Workflow} :
    load document = .ok workflow ↔
      ∃ base, load { document with edges := [] } = .ok base ∧
        document.edges.foldlM addEdge base = .ok workflow := by
  unfold load
  cases ofEntrypoint document.entrypoint with
  | error error => simp
  | ok start =>
      dsimp only
      rcases addAll addTrigger start document.triggers with ⟨withTriggers, triggerErrors⟩
      dsimp only
      rcases addAll addNode withTriggers document.nodes with ⟨withNodes, nodeErrors⟩
      dsimp only
      rw [List.foldlM_nil]
      cases triggerErrors ++ nodeErrors with
      | nil =>
          cases added : document.edges.foldlM addEdge withNodes <;>
            simp [pure, Except.pure, added]
      | cons error errors =>
          cases document.edges.foldlM addEdge withNodes <;> simp [pure, Except.pure]

/-- What the declarations of an accepted document keep one by one, they keep together. What
is kept may depend on the part of the document that has been read. -/
theorem load_induction {document : Document} {base : Workflow}
    (holds : Workflow → Document → Prop)
    (loaded : load { document with edges := [] } = .ok base)
    (starts : ∀ start, ofEntrypoint document.entrypoint = .ok start →
      holds start { entrypoint := document.entrypoint })
    (trigger : ∀ workflow known entry next, holds workflow known →
      workflow.addTrigger entry = (next, .ok ()) →
        holds next { known with triggers := known.triggers ++ [entry] })
    (node : ∀ workflow known entry next, holds workflow known →
      workflow.addNode entry = (next, .ok ()) →
        holds next { known with nodes := known.nodes ++ [entry] }) :
    holds base { document with edges := [] } := by
  unfold load at loaded
  cases made : ofEntrypoint document.entrypoint with
  | error error =>
      rw [made] at loaded
      cases loaded
  | ok start =>
      rw [made] at loaded
      dsimp only at loaded
      rcases ofTriggers : addAll addTrigger start document.triggers with ⟨known, triggerErrors⟩
      rcases ofNodes : addAll addNode known document.nodes with ⟨next, nodeErrors⟩
      simp only [ofTriggers, ofNodes, List.foldlM_nil, pure, Except.pure] at loaded
      split at loaded
      · rename_i accepted
        cases loaded
        obtain ⟨rfl, rfl⟩ := List.append_eq_nil_iff.mp accepted
        have withTriggers := addAll_induction
          (fun workflow triggers =>
            holds workflow { entrypoint := document.entrypoint, triggers := triggers })
          (fun _ _ _ _ => trigger _ _ _ _) (starts start made) ofTriggers
        exact addAll_induction
          (fun workflow nodes =>
            holds workflow
              { entrypoint := document.entrypoint, triggers := document.triggers, nodes := nodes })
          (fun _ _ _ _ => node _ _ _ _) withTriggers ofNodes
      · cases loaded

theorem coherent_base {document : Document} {base : Workflow}
    (loaded : load { document with edges := [] } = .ok base) :
    base.Coherent ∧ base.edges = .empty := by
  refine load_induction (fun known _ => known.Coherent ∧ known.edges = .empty) loaded ?_ ?_ ?_
  · intro start made
    exact ⟨coherent_ofEntrypoint made, by rw [ofEntrypoint_eq made]; rfl⟩
  · rintro workflow _ entry next ⟨coherent, noEdge⟩ added
    have grows := extends_addTrigger coherent entry
    rw [added] at grows
    exact ⟨grows.coherent coherent, grows.edges.trans noEdge⟩
  · rintro workflow _ entry next ⟨coherent, noEdge⟩ added
    have grows := extends_addNode coherent entry
    rw [added] at grows
    exact ⟨grows.coherent coherent, grows.edges.trans noEdge⟩

private theorem complete_base {document : Document} {base : Workflow}
    (loaded : load { document with edges := [] } = .ok base) : base.Complete := by
  refine (load_induction (fun known _ => known.Coherent ∧ known.Complete) loaded ?_ ?_ ?_).2
  · intro start made
    refine ⟨coherent_ofEntrypoint made, ?_⟩
    intro port entry isPort
    rw [ofEntrypoint_eq made] at isPort
    cases isPort
  · rintro workflow _ entry next ⟨coherent, complete⟩ added
    have grows := extends_addTrigger coherent entry
    rw [added] at grows
    exact ⟨grows.coherent coherent, complete_addTrigger complete added⟩
  · rintro workflow _ entry next ⟨coherent, complete⟩ added
    have grows := extends_addNode coherent entry
    rw [added] at grows
    exact ⟨grows.coherent coherent, complete_addNode coherent complete added⟩

theorem exists_load_of_map_toOption {document : Document} {Result : Type}
    {view : Workflow → Result} {result : Result}
    (evaluated : (load document).toOption.map view = some result) :
    ∃ workflow, load document = .ok workflow ∧ view workflow = result := by
  obtain ⟨workflow, loaded, isView⟩ := Option.map_eq_some_iff.mp evaluated
  exact ⟨workflow, eq_ok_of_toOption_eq_some loaded, isView⟩

/-- An accepted document gives all declarations first and then its edges as they are written. -/
theorem exists_base_of_load {document : Document} {workflow : Workflow}
    (loaded : load document = .ok workflow) :
    ∃ base, load { document with edges := [] } = .ok base ∧ base.Coherent ∧
      AddsEdges base document.edges workflow ∧
        List.Forall₂ workflow.Reads document.edges workflow.edges.toList := by
  obtain ⟨base, baseLoaded, added⟩ := load_eq_ok_iff.mp loaded
  obtain ⟨coherent, noEdge⟩ := coherent_base baseLoaded
  have adds := addsEdges_foldlM coherent added
  obtain ⟨edges, edgesAre, reads⟩ := adds.edges
  have allRead : workflow.edges.toList = edges := by
    rw [edgesAre, noEdge]
    rfl
  exact ⟨base, baseLoaded, coherent, adds, allRead ▸ reads⟩

/-- A document that is accepted loads into a coherent workflow. -/
theorem coherent_of_load {document : Document} {workflow : Workflow}
    (loaded : load document = .ok workflow) : workflow.Coherent := by
  obtain ⟨base, _, _, adds, _⟩ := exists_base_of_load loaded
  exact adds.coherent

theorem complete_of_load {document : Document} {workflow : Workflow}
    (loaded : load document = .ok workflow) : workflow.Complete := by
  obtain ⟨base, baseLoaded, _, adds, _⟩ := exists_base_of_load loaded
  apply (complete_base baseLoaded).congr
  · rw [adds.rest]
  · rw [adds.rest]

end Workflow

end FlowGraph
