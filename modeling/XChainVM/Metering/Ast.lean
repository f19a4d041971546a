import Mathlib.Data.List.Basic

/-! # The syntax tree the meter rewrites

A node has a kind, which carries its scalar fields, and its child nodes in the order the
parser lists them. An array field is one child of kind `list`; a field that is null, or a
hole of an array, is `absent`. A label, a key that is not computed and the words of
`new.target` are `name`s: identifiers that neither refer to nor bind anything. A function's
braces are a `functionBody`. There is no `with` statement.
-/

namespace XChainVM.Metering

inductive LiteralValue where
  | string (s : String)
  | number (n : ℕ)
  | other (raw : String)
  deriving DecidableEq, Repr

inductive BinaryOperator where
  | eq | ne | eqStrict | neStrict | lt | le | gt | ge | shl | shr | ushr
  | add | sub | mul | div | mod | exp | bitOr | bitXor | bitAnd | in_ | instanceof
  deriving DecidableEq, Repr

inductive AssignmentOperator where
  | assign | add | sub | mul | div | mod | exp | shl | shr | ushr | bitOr | bitXor | bitAnd
  deriving DecidableEq, Repr

inductive UnaryOperator where
  | minus | plus | not | bitNot | typeof | void | delete
  deriving DecidableEq, Repr

inductive UpdateOperator where
  | increment | decrement
  deriving DecidableEq, Repr

inductive LogicalOperator where
  | or | and | coalesce
  deriving DecidableEq, Repr

inductive VariableKind where
  | var | let | const
  deriving DecidableEq, Repr

inductive PropertyKind where
  | init | get | set
  deriving DecidableEq, Repr

inductive MethodKind where
  | constructor | method | get | set
  deriving DecidableEq, Repr

inductive Kind where
  | absent
  | list
  | name (name : String)
  | program
  -- statements
  | expressionStatement | blockStatement | functionBody | emptyStatement | debuggerStatement
  | returnStatement | labeledStatement | breakStatement | continueStatement
  | ifStatement | switchStatement | switchCase | throwStatement | tryStatement | catchClause
  | whileStatement | doWhileStatement | forStatement | forInStatement | forOfStatement
  | functionDeclaration
  | variableDeclaration (kind : VariableKind)
  | variableDeclarator
  | classDeclaration
  -- expressions
  | identifier (name : String)
  | literal (value : LiteralValue)
  | thisExpression | superExpression | arrayExpression | objectExpression
  | property (kind : PropertyKind) (method shorthand computed : Bool)
  | functionExpression | arrowFunctionExpression | yieldExpression | awaitExpression
  | unaryExpression (operator : UnaryOperator)
  | updateExpression (operator : UpdateOperator) (operatorFirst : Bool)
  | binaryExpression (operator : BinaryOperator)
  | assignmentExpression (operator : AssignmentOperator)
  | logicalExpression (operator : LogicalOperator)
  | memberExpression (computed optional : Bool)
  | conditionalExpression
  | callExpression (optional : Bool)
  | newExpression | sequenceExpression | spreadElement | chainExpression | importExpression
  | metaProperty | templateLiteral | taggedTemplateExpression
  | templateElement (cooked : Option String) (raw : String)
  | classExpression | classBody
  | methodDefinition (kind : MethodKind) (isStatic computed : Bool)
  -- patterns
  | arrayPattern | objectPattern | restElement | assignmentPattern
  | patternProperty (shorthand computed : Bool)
  deriving DecidableEq, Repr

inductive Node where
  | node (kind : Kind) (fields : List Node)

namespace Kind

def isFunction : Kind → Bool
  | functionDeclaration | functionExpression | arrowFunctionExpression => true
  | _ => false

end Kind

namespace Node

def kind : Node → Kind
  | node kind _ => kind

def fields : Node → List Node
  | node _ fields => fields

theorem induct {P : Node → Prop} (step : ∀ kind fields, (∀ n ∈ fields, P n) → P (node kind fields)) :
    ∀ n, P n
  | node kind fields => step kind fields fun n hn => by
    have hlt := List.sizeOf_lt_of_mem hn
    exact induct step n
termination_by n => sizeOf n

abbrev absent : Node := node .absent []

abbrev list (elements : List Node) : Node := node .list elements

abbrev block (body : List Node) : Node := node .blockStatement [list body]

mutual

def mapUp (f : Node → Node) : Node → Node
  | node kind fields => f (node kind (mapUpList f fields))

def mapUpList (f : Node → Node) : List Node → List Node
  | [] => []
  | n :: rest => mapUp f n :: mapUpList f rest

end

theorem mapUpList_eq (f : Node → Node) (ns : List Node) : mapUpList f ns = ns.map (mapUp f) := by
  induction ns with
  | nil => rfl
  | cons n rest ih => rw [mapUpList, ih, List.map_cons]

end Node

open Node

def astIdent (name : String) : Node := node (.identifier name) []

def astLiteral (value : LiteralValue) : Node := node (.literal value) []

def astArray (elements : List Node) : Node := node .arrayExpression [list elements]

def astCall (name : String) (args : List Node) : Node :=
  node (.callExpression false) [astIdent name, list args]

def astVoid0 : Node := node (.unaryExpression .void) [astLiteral (.number 0)]

/-- `() => expr`. -/
def arrowThunk (expr : Node) : Node := node .arrowFunctionExpression [absent, list [], expr]

/-- The key of a member expression as an expression, and of an object property. -/
def memberKeyExpr (computed : Bool) (property : Node) : Node :=
  if computed then property
  else match property with
    | node (.name x) _ => astLiteral (.string x)
    | property => property

/-- `__gas(1)`. -/
def gasCallExpr : Node := astCall "__gas" [astLiteral (.number 1)]

def gasCallStatement : Node := node .expressionStatement [gasCallExpr]

/-- `(__gas(1), expr)`. -/
def wrapWithGas (expr : Node) : Node := node .sequenceExpression [list [gasCallExpr, expr]]

def callStatement (name : String) (args : List Node) : Node :=
  node .expressionStatement [astCall name args]

/-- `__gas(1, name)`. -/
def gasCheckStatement (name : String) : Node :=
  callStatement "__gas" [astLiteral (.number 1), astIdent name]

def isDirective : Node → Bool
  | node .expressionStatement [node (.literal (.string _)) []] => true
  | _ => false

def directivePrologueLength (body : List Node) : ℕ := (body.takeWhile isDirective).length

def insertGasAfterDirectives (body : List Node) : List Node :=
  body.takeWhile isDirective ++ gasCallStatement :: body.dropWhile isDirective

def ensureBlock : Node → Node
  | node .blockStatement body => node .blockStatement body
  | statement => block [statement]

def unshift (statement : Node) : Node → Node
  | node .blockStatement [node .list body] => block (statement :: body)
  | n => n

end XChainVM.Metering
