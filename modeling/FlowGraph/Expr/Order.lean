import FlowGraph.Expr

/-!
A total order on expressions, and the canonical form that it gives: every set has
its members in order, so trees that differ in the order of set members alone have
one canonical form.

The kinds of expression come in the order empty, node, port, trigger, sequence,
set. Within a kind ids are compared by number, operands from left to right, and
sets as lists: at the first member that differs, and a shorter list before its
extensions.
-/

namespace FlowGraph.Expr

def rank : Expr → Nat
  | .empty => 0
  | .node _ => 1
  | .port _ _ => 2
  | .trigger _ => 3
  | .sequence _ _ => 4
  | .set _ => 5

mutual

def order : Expr → Expr → Ordering
  | .node left, .node right => compare left.number right.number
  | .port leftNode leftPort, .port rightNode rightPort =>
      (compare leftNode.number rightNode.number).then (compare leftPort.number rightPort.number)
  | .trigger left, .trigger right => compare left.number right.number
  | .sequence leftFirst leftSecond, .sequence rightFirst rightSecond =>
      (order leftFirst rightFirst).then (order leftSecond rightSecond)
  | .set left, .set right => orderMembers left right
  | left, right => compare left.rank right.rank

def orderMembers : List Expr → List Expr → Ordering
  | [], [] => .eq
  | [], _ :: _ => .lt
  | _ :: _, [] => .gt
  | left :: lefts, right :: rights => (order left right).then (orderMembers lefts rights)

end

def precedes (left right : Expr) : Bool := (left.order right).isLE

/-- Puts an expression into a list that is in order, before its equals. -/
def insertInOrder (expr : Expr) : List Expr → List Expr
  | [] => [expr]
  | next :: rest =>
      if expr.precedes next then expr :: next :: rest else next :: insertInOrder expr rest

/-- A list of expressions in order. Equal ones keep their places. -/
def sorted (exprs : List Expr) : List Expr := exprs.foldr insertInOrder []

mutual

/-- The same expression with the members of every set in order. -/
def canonical : Expr → Expr
  | .sequence first second => .sequence first.canonical second.canonical
  | .set members => .set (sorted (canonicalMembers members))
  | leaf => leaf

def canonicalMembers : List Expr → List Expr
  | [] => []
  | member :: members => member.canonical :: canonicalMembers members

end

end FlowGraph.Expr
