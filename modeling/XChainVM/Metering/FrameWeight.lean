import Mathlib.Algebra.GroupWithZero.Nat
import XChainVM.Metering.Ast

/-! # The depth units of a frame -/

namespace XChainVM.Metering

open Node

def SLOTS_PER_UNIT : ℕ := 32

def FIXED_SLOTS : ℕ := 8

def STATEMENT_HOLD : Kind → Option ℕ
  | .tryStatement => some 3
  | .forInStatement => some 6
  | .forOfStatement => some 6
  | .switchStatement => some 2
  | .forStatement => some 1
  | .whileStatement => some 1
  | .doWhileStatement => some 1
  | .labeledStatement => some 0
  | _ => none

/-- Nodes whose children run one after another with nothing held between them. -/
def SEQUENTIAL : Kind → Bool
  | .program | .blockStatement | .functionBody | .variableDeclaration _ | .ifStatement
  | .expressionStatement | .returnStatement | .throwStatement | .switchCase | .catchClause
  | .emptyStatement | .breakStatement | .continueStatement | .debuggerStatement => true
  | _ => false

def argumentCount : List Node → ℕ
  | [_, node .list args] => args.length
  | _ => 0

mutual

def demand : Node → ℕ
  | node kind fields =>
    if kind.isFunction then 1
    else if SEQUENTIAL kind || (STATEMENT_HOLD kind).isSome then
      demandAfter fields + (STATEMENT_HOLD kind).getD 0
    else
      let most := (demandHolding fields 0).1
      match kind with
      | .callExpression _ | .newExpression => max most (argumentCount fields + 2) + 1
      | _ => most + 1

def demandAfter : List Node → ℕ
  | [] => 0
  | node .absent _ :: rest => demandAfter rest
  | node .list elements :: rest => max (demandAfter elements) (demandAfter rest)
  | n :: rest => max (demand n) (demandAfter rest)

/-- Every earlier child is held; the number of children is answered too. -/
def demandHolding : List Node → ℕ → ℕ × ℕ
  | [], i => (0, i)
  | node .absent _ :: rest, i => demandHolding rest i
  | node .list elements :: rest, i =>
    let (most, i) := demandHolding elements i
    let (most', i) := demandHolding rest i
    (max most most', i)
  | n :: rest, i =>
    let (most, j) := demandHolding rest (i + 1)
    (max (i + demand n) most, j)

end

mutual

def patternNames : Node → ℕ
  | node (.identifier _) _ => 1
  | node .assignmentPattern (left :: _) => patternNames left
  | node .restElement (argument :: _) => patternNames argument
  | node .arrayPattern fields => patternNamesList fields
  | node .objectPattern fields => patternNamesList fields
  | node .list elements => patternNamesList elements
  | node (.patternProperty _ _) [_, value] => patternNames value
  | _ => 0

def patternNamesList : List Node → ℕ
  | [] => 0
  | n :: rest => patternNames n + patternNamesList rest

end

def declaredCount : Node → ℕ
  | node .variableDeclarator (id :: _) => patternNames id
  | node .catchClause (param :: _) => patternNames param
  | node .functionDeclaration (id :: _) | node .classDeclaration (id :: _) =>
    if id.kind = .absent then 0 else 1
  | _ => 0

mutual

def declaredBelow : Node → ℕ
  | node kind fields =>
    declaredCount (node kind fields) + if kind.isFunction then 0 else declaredBelowList fields

def declaredBelowList : List Node → ℕ
  | [] => 0
  | n :: rest => declaredBelow n + declaredBelowList rest

end

/-- What stands in the `body` of a node is searched. A function or class that is the body of
an arrow has a `body` too, and any other expression has none. -/
def localCount : Node → ℕ
  | node .program fields | node .functionBody fields => declaredBelowList fields
  | node kind [_, _, body] => if kind.isFunction || kind = .classExpression then declaredBelow body else 0
  | _ => 0

def frameWeight : Node → ℕ
  | node .program fields =>
    1 + (FIXED_SLOTS + localCount (node .program fields) + demand (node .program fields)) / SLOTS_PER_UNIT
  | node _ [_, node .list params, body] =>
    1 + (FIXED_SLOTS + (params.map fun p => patternNames p + 1).sum + localCount body + demand body)
      / SLOTS_PER_UNIT
  | _ => 1

end XChainVM.Metering
