import FlowGraph.Document.Reader
import FlowGraph.Proofs.JsonReading

/-!
Documents that are written are read back as they were: every string, whatever it holds,
every list and every optional field, whether it is there or left out.
-/

namespace FlowGraph

open Json RecordShape

/-! ### Fields -/

section Fields

variable {Draft Record Value : Type} {shape : RecordShape Draft Record} {draft : Draft}
  (name : String)

private theorem fills_text {get : Draft → Option String} {set : Draft → String → Draft}
    (known : shape.fields.find? (fun field => field.name == name) =
      some (textField name get set))
    (unread : (get draft).isSome = false) (value : String) :
    Fills shape draft [entry name (encode value)] (set draft value) :=
  .cons known unread ((reads_text value).map (set draft)) (.nil _)

private theorem fills_optional {get : Draft → Option (Option String)}
    {set : Draft → Option String → Draft}
    (known : shape.fields.find? (fun field => field.name == name) =
      some (nullableField name get set))
    (unread : (get draft).isSome = false) (value : Option String) :
    Fills shape draft (optionalEntry name value)
      (value.elim draft fun text => set draft (some text)) := by
  cases value with
  | none => exact .nil draft
  | some value => exact .cons known unread ((reads_nullable value).map (set draft)) (.nil _)

private theorem fills_list {element : Reader Value} {write : Value → List Char}
    {get : Draft → Option (List Value)} {set : Draft → List Value → Draft}
    (known : shape.fields.find? (fun field => field.name == name) =
      some (listField name element get set))
    (unread : (get draft).isSome = false) (reads : ∀ value, Reads element (write value) value)
    (opens : ∀ value, OpensValue (write value)) (values : List Value) :
    Fills shape draft [entry name (array (values.map write))] (set draft values) :=
  .cons known unread ((reads_list reads opens values).map (set draft)) (.nil _)

end Fields

/-! ### Entries of a document -/

private theorem TriggerEntry.reads_toJson (trigger : TriggerEntry) :
    Reads TriggerEntry.shape.read trigger.toJson trigger := by
  have fills : Fills TriggerEntry.shape {} _ _ :=
    (fills_text "id" rfl rfl trigger.id).append (fills_optional "label" rfl rfl trigger.label)
  refine fills.reads_object ?_
  rcases trigger with ⟨id, label⟩
  cases label <;> rfl

private theorem PortEntry.reads_toJson (port : PortEntry) :
    Reads PortEntry.shape.read port.toJson port := by
  have fills : Fills PortEntry.shape {} _ _ :=
    (fills_text "id" rfl rfl port.id).append (fills_text "name" rfl rfl port.name)
  exact fills.reads_object rfl

private theorem NodeEntry.reads_toJson (node : NodeEntry) :
    Reads NodeEntry.shape.read node.toJson node := by
  have fills : Fills NodeEntry.shape {} _ _ :=
    (fills_text "id" rfl rfl node.id).append
      ((fills_optional "label" rfl rfl node.label).append
        ((fills_list "ports" rfl (by cases node.label <;> rfl) PortEntry.reads_toJson
            (fun _ => opensValue_object _) node.ports).append
          (fills_optional "default_port" rfl (by cases node.label <;> rfl) node.defaultPort)))
  refine fills.reads_object ?_
  rcases node with ⟨id, label, ports, defaultPort⟩
  cases label <;> cases defaultPort <;> rfl

private theorem EdgeEntry.reads_toJson (edge : EdgeEntry) :
    Reads EdgeEntry.shape.read edge.toJson edge := by
  have fills : Fills EdgeEntry.shape {} _ _ :=
    (fills_text "id" rfl rfl edge.id).append
      ((fills_text "source_node_id" rfl rfl edge.sourceNode).append
        ((fills_optional "source_port_id" rfl rfl edge.sourcePort).append
          ((fills_text "target_node_id" rfl (by cases edge.sourcePort <;> rfl)
              edge.targetNode).append
            (fills_optional "target_port_id" rfl (by cases edge.sourcePort <;> rfl)
              edge.targetPort))))
  refine fills.reads_object ?_
  rcases edge with ⟨id, sourceNode, sourcePort, targetNode, targetPort⟩
  cases sourcePort <;> cases targetPort <;> rfl

private theorem Document.reads_toJson (document : Document) :
    Reads Document.shape.read document.toJson document := by
  have fills : Fills Document.shape {} _ _ :=
    (fills_optional "entrypoint" rfl rfl document.entrypoint).append
      ((fills_list "triggers" rfl (by cases document.entrypoint <;> rfl)
          TriggerEntry.reads_toJson (fun _ => opensValue_object _) document.triggers).append
        ((fills_list "nodes" rfl (by cases document.entrypoint <;> rfl)
            NodeEntry.reads_toJson (fun _ => opensValue_object _) document.nodes).append
          (fills_list "edges" rfl (by cases document.entrypoint <;> rfl)
            EdgeEntry.reads_toJson (fun _ => opensValue_object _) document.edges)))
  refine fills.reads_object ?_
  rcases document with ⟨entrypoint, triggers, nodes, edges⟩
  cases entrypoint <;> rfl

/-! ### Main result -/

/-- A document that is written is read back as it was, and so is one that has been read from
any text, however that text spells it. -/
theorem Document.parse_print :
    (∀ document : Document, Document.parse document.print = .ok document) ∧
      ∀ (text : String) (document : Document), Document.parse text = .ok document →
        Document.parse document.print = .ok document := by
  have roundTrip : ∀ document : Document, Document.parse document.print = .ok document := by
    intro document
    have read := document.reads_toJson []
    rw [List.append_nil] at read
    rw [Document.parse, Document.print, readWhole, String.toList_ofList, read]
    rfl
  exact ⟨roundTrip, fun _ document _ => roundTrip document⟩

/-- A text with records as arrays, a null, escapes that are never written and a pair of
surrogates. -/
def recordsAsArrays : String :=
  "[null,[],[[\"\\u00e9\\u0007\",null,[[\"\\ud83d\\ude00\",\"\\/\"]]],[\"\\\"\\\\\"]]]"

/-- Its document is written with keys, without what is missing and with other escapes. -/
theorem Document.parse_print_recordsAsArrays :
    ∃ document, Document.parse recordsAsArrays = .ok document ∧
      document.nodes =
        [{ id := "é\x07", ports := [{ id := "😀", name := "/" }] }, { id := "\"\\" }] ∧
      Document.parse document.print = .ok document := by
  have evaluated : (Document.parse recordsAsArrays).toOption = some { nodes :=
      [{ id := "é\x07", ports := [{ id := "😀", name := "/" }] }, { id := "\"\\" }] } := by
    decide +kernel
  cases parsed : Document.parse recordsAsArrays with
  | error failure =>
      rw [parsed] at evaluated
      cases evaluated
  | ok document =>
      rw [parsed] at evaluated
      cases evaluated
      exact ⟨_, rfl, rfl, Document.parse_print.2 _ _ parsed⟩

end FlowGraph
