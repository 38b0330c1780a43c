import FlowGraph.Expr.Rewrite

/-!
Folding one edge into an expression. The edge is put where the expression already
holds its source, and the result is rewritten on the way up so that branches which
meet again share what follows.
-/

namespace FlowGraph

/-- Where an expression starts from, as seen by what is around it. A source that
the anchor admits can start a new branch beside the expression. -/
inductive Anchor where
  /-- The top of the tree, which admits the edges of the structural entry. -/
  | entry
  /-- The second operand of a sequence, which admits the edges that leave any of
  the first operand's exits. -/
  | endings (references : List Reference)
  deriving DecidableEq

/-- Whether an anchor admits a source; no source stands for the structural entry. -/
def Anchor.admits : Anchor → Option Reference → Bool
  | .entry, none => true
  | .endings references, some source =>
      references.contains source || references.contains source.owner
  | _, _ => false

/-- What folding has to know about the workflow around an expression. -/
structure Surroundings where
  /-- Which nodes can be left without naming a port. -/
  hasDefaultExit : NodeId → Bool
  /-- Between which nodes, from the first to the second, there is any edge. -/
  hasLink : NodeId → NodeId → Bool

namespace Surroundings

variable (surroundings : Surroundings)

/-! ### Leaves -/

def foldAtLeaf (leaf : Reference) (source : Option Reference) (target : NodeId)
    (anchor : Anchor) : Option Expr :=
  let beside (branch : Expr) : Expr :=
    Expr.flatten surroundings.hasDefaultExit [.ofReference leaf, branch]
  let atAnchor : Option Expr :=
    if anchor.admits source then some (beside (.node target)) else none
  match source with
  | none => atAnchor
  | some source =>
      if leaf = source then
        some (.link source target)
      else if leaf.owner = source.owner then
        match leaf, source with
        | .node _, .port _ _ => some (.link source target)
        | _, _ => some (beside (.link source target))
      else
        atAnchor

/-! ### Sequences -/

/-- Joins a sequence with a new version of its first operand, of which it may be
a branch. -/
def joinFirst (first second newFirst : Expr) : Expr :=
  let combined := Expr.flatten surroundings.hasDefaultExit [first.andThen second, newFirst]
  match combined with
  | .set members =>
      match Expr.shareBeginning? surroundings.hasDefaultExit members with
      | some shared => shared
      | none =>
          match second.reference?.bind Reference.node? with
          | some merge =>
              (Expr.shareEnding? surroundings.hasDefaultExit merge members).getD combined
          | none => combined
  | _ => combined

/-! ### Sets -/

/-- Shares what the members of a set begin with or, failing that, what they have
from the given node on. -/
def compact (target : NodeId) (expr : Expr) : Expr :=
  match expr with
  | .set members =>
      ((Expr.shareBeginning? surroundings.hasDefaultExit members).or
        (Expr.shareEnding? surroundings.hasDefaultExit target members)).getD expr
  | _ => expr

/-- The set of the given members with shared parts taken out. -/
def compactSet (target : NodeId) (members : List Expr) : Expr :=
  surroundings.compact target (Expr.flatten surroundings.hasDefaultExit members)

/-- Changes the first member that satisfies a test, if there is one. -/
def changeFirst? (test : Expr → Bool) (change : Expr → Expr) : List Expr → Option (List Expr)
  | [] => none
  | member :: members =>
      if test member then some (change member :: members)
      else (changeFirst? test change members).map (member :: ·)

/-- The members of a set with the edge added whose two ends they hold already: a
loop at one node, or the way back of a link in the other direction. A loop is
added only beside a leaf of the node, unless it may go anywhere. -/
def membersWithCycle? (members : List Expr) (source : Reference) (target : NodeId)
    (anywhere : Bool) : Option (List Expr) :=
  let present (reference : Reference) : Bool := members.any (Expr.contains reference)
  if present (.node target) && present source.owner then
    match source.node? with
    | none => none
    | some sourceNode =>
        if sourceNode = target then
          let direct := members.any fun member => member.owner? == some (.node target)
          if direct || anywhere then some (members ++ [.link source target]) else none
        else if surroundings.hasLink target sourceNode then
          changeFirst? (fun member => member.endings.contains source.owner)
            (Expr.continueFrom surroundings.hasDefaultExit source target) members
        else
          none
  else
    none

def foldCycle? (members : List Expr) (source : Option Reference) (target : NodeId)
    (anywhere : Bool) : Option Expr :=
  (source.bind fun source => surroundings.membersWithCycle? members source target anywhere).map
    (Expr.flatten surroundings.hasDefaultExit)

def endsAt (reference : Reference) (expr : Expr) : Bool :=
  expr.steps.getLast?.bind Expr.reference? == some reference

/-- Puts one expression in the place of the first member that satisfies a test,
and removes the others that do. -/
def mergeWhere (test : Expr → Bool) (merged : Expr) : List Expr → List Expr
  | [] => []
  | member :: members =>
      if test member then merged :: members.filter fun other => !test other
      else member :: mergeWhere test merged members

/-- Folds an edge that leaves a node in which several members end: it leaves them
all at once, so they become one branch that goes on with the target. -/
def foldAtSharedEnd? (members : List Expr) (source : Option Reference) (target : NodeId) :
    Option Expr :=
  match source with
  | some (.node node) =>
      let ending := members.filter (endsAt (.node node))
      if ending.length < 2 then
        none
      else
        (Expr.branching? surroundings.hasDefaultExit ending).map fun branches =>
          surroundings.compactSet target
            (mergeWhere (endsAt (.node node)) (branches.andThen (.node target)) members)
  | _ => none

/-- The place of the member to keep the edge in: the first whose new version is
no set or, failing that, the first that takes the edge at all. -/
def bestFold? (folds : List (Option Expr)) : Option Nat :=
  (folds.findIdx? fun fold => fold.any fun expr => !expr.isSet).or (folds.findIdx? Option.isSome)

def withBestFold? (members : List Expr) (folds : List (Option Expr)) : Option (List Expr) :=
  (bestFold? folds).bind fun place =>
    (folds[place]?.join).map fun folded => members.set place folded

/-! ### Whole expressions -/

mutual

/-- The expression with the edge from the source to the target added, if the edge
has a place in it. No source stands for the structural entry. -/
def fold (source : Option Reference) (target : NodeId) (anchor : Anchor) : Expr → Option Expr
  | .empty => some (.node target)
  | .node nodeId => surroundings.foldAtLeaf (.node nodeId) source target anchor
  | .port nodeId portId => surroundings.foldAtLeaf (.port nodeId portId) source target anchor
  | .trigger triggerId => surroundings.foldAtLeaf (.trigger triggerId) source target anchor
  | .sequence first second =>
      match fold source target anchor first with
      | some newFirst => some (surroundings.joinFirst first second newFirst)
      | none => (fold source target (.endings first.endings) second).map first.andThen
  | .set members =>
      (surroundings.foldCycle? members source target false)
        <|> (surroundings.foldAtSharedEnd? members source target)
        <|> ((withBestFold? members (foldEach source target anchor members)).map
              (surroundings.compactSet target))
        <|> (if anchor.admits source then
              some (surroundings.compactSet target (members ++ [.node target]))
            else
              none)
        <|> (surroundings.foldCycle? members source target true)

def foldEach (source : Option Reference) (target : NodeId) (anchor : Anchor) :
    List Expr → List (Option Expr)
  | [] => []
  | member :: members =>
      fold source target anchor member :: foldEach source target anchor members

end

def foldAtTop (source : Option Reference) (target : NodeId) (expr : Expr) : Option Expr :=
  surroundings.fold source target .entry expr

end Surroundings

end FlowGraph
