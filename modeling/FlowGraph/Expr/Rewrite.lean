import FlowGraph.Expr.Denotation

/-!
Rewrites of expressions that keep the denoted graph: flattening of sets, sharing
of what all members of a set begin or end with, and the extension of a tail by
one link.

Some of them have to know which nodes can be left without naming a port; that is
the parameter `hasDefaultExit`.
-/

namespace FlowGraph.Expr

/-! ### Where an expression begins -/

mutual

/-- The entry points of an expression, with repetitions. A node is one only if
it can be left without naming a port. -/
def entries (hasDefaultExit : NodeId → Bool) : Expr → List Reference
  | .empty => []
  | .node nodeId => if hasDefaultExit nodeId then [.node nodeId] else []
  | .port nodeId portId => [.port nodeId portId]
  | .trigger triggerId => [.trigger triggerId]
  | .sequence first _ => first.entries hasDefaultExit
  | .set members => entriesOfAll hasDefaultExit members

def entriesOfAll (hasDefaultExit : NodeId → Bool) : List Expr → List Reference
  | [] => []
  | member :: members => member.entries hasDefaultExit ++ entriesOfAll hasDefaultExit members

end

def distinctEntries (hasDefaultExit : NodeId → Bool) (expr : Expr) : List Reference :=
  (expr.entries hasDefaultExit).eraseDups

/-! ### Flat sets -/

mutual

/-- The members that an expression brings to a set: those of a nested set in its
place, and none for the empty expression. -/
def spread : Expr → List Expr
  | .empty => []
  | .set members => spreadAll members
  | member => [member]

def spreadAll : List Expr → List Expr
  | [] => []
  | member :: members => member.spread ++ spreadAll members

end

def inlined (members : List Expr) : List Expr := (spreadAll members).eraseDups

/-- Whether a member is a leaf that some other member begins with. -/
def subsumed (hasDefaultExit : NodeId → Bool) (members : List Expr) (member : Expr) : Bool :=
  match member.reference? with
  | none => false
  | some reference => members.any fun other =>
      other != member && (other.entries hasDefaultExit).contains reference

/-- The set of the given members, or the lone member, or nothing at all. -/
def ofMembers : List Expr → Expr
  | [] => .empty
  | [member] => member
  | members => .set members

/-- The flat set of all members, without the leaves that another member already
begins with. -/
def flatten (hasDefaultExit : NodeId → Bool) (members : List Expr) : Expr :=
  let flat := inlined members
  ofMembers (flat.filter fun member => !subsumed hasDefaultExit flat member)

/-- The flat set of branches that all go on with the same continuation. A leaf
links straight into the continuation and must not be left out, so there is no
such set if another member begins with it. -/
def branching? (hasDefaultExit : NodeId → Bool) (members : List Expr) : Option Expr :=
  let flat := inlined members
  if flat.any (subsumed hasDefaultExit flat) then none else some (ofMembers flat)

/-! ### Shared beginnings -/

def commonBeginning : List Expr → List Expr → List Expr
  | left :: lefts, right :: rights =>
      if left = right then left :: commonBeginning lefts rights else []
  | _, _ => []

def sharedBeginning : List (List Expr) → List Expr
  | [] => []
  | first :: rest => rest.foldl commonBeginning first

/-- If at least two sequences begin with the same steps, those steps once and
the rest of the sequences behind them: `a >> {b, c}` for `{a >> b, a >> c}`. -/
def shareBeginning? (hasDefaultExit : NodeId → Bool) (members : List Expr) : Option Expr :=
  if members.length < 2 || !members.all isSequence then
    none
  else
    let chains := members.map steps
    let shared := sharedBeginning chains
    if shared.isEmpty then
      none
    else
      let remainders := chains.map fun chain => Expr.chain (chain.drop shared.length)
      some ((chain shared).andThen (flatten hasDefaultExit remainders))

/-! ### Shared ends -/

def isLeafOf (node : NodeId) (expr : Expr) : Bool :=
  expr.reference?.bind Reference.node? == some node

/-- The steps before a node is first entered and those from there on. -/
def cutAt? (node : NodeId) (expr : Expr) : Option (List Expr × List Expr) :=
  let before := expr.steps.takeWhile fun step => !step.isLeafOf node
  match expr.steps.dropWhile fun step => !step.isLeafOf node with
  | [] => none
  | behind => some (before, behind)

def longest : List (List Expr) → List Expr
  | [] => []
  | first :: rest =>
      rest.foldl (fun best steps => if best.length < steps.length then steps else best) first

def joinBranches? (hasDefaultExit : NodeId → Bool) (branches : List Expr)
    (continuation : List Expr) : Option Expr :=
  (branching? hasDefaultExit branches).map fun set => set.andThen (chain continuation)

/-- If all members run into the node, and the steps from there on are the
beginning of one longest tail, the tail once behind all branches: `{a, b} >> m` for
`{a >> m, b >> m}`. If a member begins at the node, the node stays in the
branches and only what follows it is shared. -/
def shareEnding? (hasDefaultExit : NodeId → Bool) (node : NodeId)
    (members : List Expr) : Option Expr :=
  if members.length < 2 then
    none
  else
    match members.mapM (cutAt? node) with
    | none => none
    | some splits =>
        let tail := longest (splits.map Prod.snd)
        if splits.all fun split => split.1.isEmpty then
          none
        else if !splits.all fun split => split.2.isPrefixOf tail then
          none
        else if splits.any fun split => split.1.isEmpty then
          match tail with
          | head :: next :: rest =>
              joinBranches? hasDefaultExit
                (splits.map fun split => (chain split.1).andThen head) (next :: rest)
          | _ => none
        else
          joinBranches? hasDefaultExit (splits.map fun split => chain split.1) tail

/-! ### Longer tails -/

def link (source : Reference) (target : NodeId) : Expr :=
  (ofReference source).andThen (.node target)

/-- Extends a leaf by a link. A leaf of the same node that leaves through another
port keeps its place, and the link branches off beside it. -/
def continueLeaf (hasDefaultExit : NodeId → Bool) (leaf : Expr) (source : Reference)
    (target : NodeId) : Expr :=
  if leaf.reference? = some source ∨ leaf.reference? = some source.owner then
    link source target
  else if leaf.owner? = some source.owner then
    flatten hasDefaultExit [leaf, link source target]
  else
    leaf.andThen (.node target)

mutual

/-- Puts a node behind the given source, wherever the expression ends in it. -/
def continueFrom (hasDefaultExit : NodeId → Bool) (source : Reference) (target : NodeId) :
    Expr → Expr
  | .sequence first second =>
      first.andThen (second.continueFrom hasDefaultExit source target)
  | .set members =>
      flatten hasDefaultExit (continueMembers hasDefaultExit source target members)
  | leaf => continueLeaf hasDefaultExit leaf source target

def continueMembers (hasDefaultExit : NodeId → Bool) (source : Reference) (target : NodeId) :
    List Expr → List Expr
  | [] => []
  | member :: members =>
      (if member.endings.contains source.owner then
        member.continueFrom hasDefaultExit source target
      else
        member) :: continueMembers hasDefaultExit source target members

end

end FlowGraph.Expr
