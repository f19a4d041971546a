import XChainVM.Metering.Scope

/-! # Try statements that hand caught errors to the meter -/

namespace XChainVM.Metering

open Node

/-- The local names of the armed rewrites: caught value, finally flag, depth guard token. -/
structure ArmedNames where
  caught : String
  flag : String
  token : String

def letDeclaration (id init : Node) : Node :=
  node (.variableDeclaration .let) [list [node .variableDeclarator [id, init]]]

/-- The first of `base`, `base_`, `base__`, … that is not used; `fuel` tries are enough
when it exceeds the number of used names. -/
def freshNameFrom (used : List String) : ℕ → String → String
  | 0, name => name
  | fuel + 1, name => if name ∈ used then freshNameFrom used fuel (name ++ "_") else name

def freshName (used : List String) (base : String) : String := freshNameFrom used (used.length + 1) base

def chooseNames (ast : Node) : ArmedNames where
  caught := freshName ast.identifiers "__gasx"
  flag := freshName ast.identifiers "__gasf"
  token := freshName ast.identifiers "__gasd"

def armHandler (names : ArmedNames) : Node → Node
  | node .catchClause [node (.identifier x) fields, node .blockStatement [node .list body]] =>
    node .catchClause [node (.identifier x) fields, block (gasCheckStatement x :: body)]
  | node .catchClause [node .absent _, node .blockStatement [node .list body]] =>
    node .catchClause [astIdent names.caught, block (gasCheckStatement names.caught :: body)]
  | node .catchClause [param, node .blockStatement [node .list body]] =>
    node .catchClause [astIdent names.caught, block
      (gasCheckStatement names.caught :: letDeclaration param (astIdent names.caught) :: body)]
  | n => n

/-- `catch (X) { F = X; throw X; }`. -/
def record (names : ArmedNames) : Node :=
  node .catchClause [astIdent names.caught, block
    [node .expressionStatement
      [node (.assignmentExpression .assign) [astIdent names.flag, astIdent names.caught]],
     node .throwStatement [astIdent names.caught]]]

def armTryStatement (names : ArmedNames) : Node → Node
  | node .tryStatement [body, handler, finalizer] =>
    let body := unshift gasCallStatement body
    let handler := armHandler names handler
    if finalizer.kind = .absent then node .tryStatement [body, handler, finalizer]
    else
      let guarded := if handler.kind = .absent then body
        else block [node .tryStatement [body, handler, absent]]
      block [letDeclaration (astIdent names.flag) absent,
        node .tryStatement [guarded, record names, unshift (gasCheckStatement names.flag) finalizer]]
  | n => n

end XChainVM.Metering
