import XChainVM.Metering.Position

/-! # Where statements stand

Which fields of a node hold statements, clauses and function bodies. Everything else, an
expression, a pattern or a name, may stand anywhere.
-/

namespace XChainVM.Metering

open Node

inductive Role where
  | plain | statement | functionDeclaration | functionBody | switchCase | catchClause | declarator
  deriving DecidableEq, Repr

namespace Kind

def role : Kind → Role
  | expressionStatement | blockStatement | emptyStatement | debuggerStatement | returnStatement
  | labeledStatement | breakStatement | continueStatement | ifStatement | switchStatement
  | throwStatement | tryStatement | whileStatement | doWhileStatement | forStatement
  | forInStatement | forOfStatement | variableDeclaration _ | classDeclaration => .statement
  | functionDeclaration => .functionDeclaration
  | functionBody => .functionBody
  | switchCase => .switchCase
  | catchClause => .catchClause
  | variableDeclarator => .declarator
  | _ => .plain

/-- Field `i` is a list of statements. -/
def listsStatements (kind : Kind) (i : ℕ) : Bool :=
  match kind with
  | program | functionBody | blockStatement => true
  | switchCase => i = 0
  | _ => false

/-- Field `i` is one statement. -/
def holdsStatement (kind : Kind) (i : ℕ) : Bool :=
  match kind with
  | ifStatement | whileStatement | doWhileStatement | forStatement | forInStatement | forOfStatement
  | tryStatement => true
  | labeledStatement => i = 0
  | catchClause => i = 1
  | _ => false

/-- A node of this role may stand in the array at field `i`. -/
def lists (kind : Kind) (i : ℕ) : Role → Bool
  | .plain => true
  | .statement | .functionDeclaration => kind.listsStatements i
  | .switchCase => kind = .switchStatement && i = 1
  | .declarator => match kind with
    | variableDeclaration _ => true
    | _ => false
  | .functionBody | .catchClause => false

/-- A node of this role may be field `i` itself. -/
def holds (kind : Kind) (i : ℕ) : Role → Bool
  | .plain => true
  | .statement => kind.holdsStatement i
  | .functionDeclaration => kind = .labeledStatement && i = 0
  | .functionBody => kind.isFunction && i = 2
  | .catchClause => kind = .tryStatement
  | .switchCase | .declarator => false

end Kind

namespace Node

def isLabelledFunction : Node → Bool
  | node .functionDeclaration _ => true
  | node .labeledStatement (body :: _) => isLabelledFunction body
  | _ => false

def isId : Node → Prop
  | node .absent fields => fields = []
  | node (.identifier _) fields => fields = []
  | _ => False

def arity : Node → Prop
  | node .program fields | node .functionBody fields | node .blockStatement fields
  | node (.variableDeclaration _) fields => ∃ elements, fields = [list elements]
  | node .functionDeclaration fields | node .functionExpression fields =>
    ∃ id params body, fields = [id, list params, body] ∧ id.isId ∧ body.kind ≠ .list
  | node .arrowFunctionExpression fields => ∃ params body, fields = [absent, list params, body] ∧ body.kind ≠ .list
  | node .catchClause fields => ∃ param body, fields = [param, body]
  | node .switchStatement fields => ∃ discriminant cases, fields = [discriminant, list cases]
  | node .switchCase fields => ∃ consequent test, fields = [list consequent, test]
  | node .labeledStatement fields => ∃ body label, fields = [body, label] ∧ body.kind ≠ .list
  | node (.memberExpression false _) fields =>
    ∃ object property, fields = [object, property] ∧ ∀ x, property.kind ≠ .identifier x
  | node (.property _ _ _ false) fields => ∃ key value, fields = [key, value] ∧ ∀ x, key.kind ≠ .identifier x
  | _ => True

/-- Every child stands where its role allows, and a labelled function in no other statement. -/
def placed : Node → Prop
  | node .list _ => True
  | node kind fields => ∀ (i : ℕ) (c : Node), fields[i]? = some c →
      (c.kind = .list → ∀ e ∈ c.fields, kind.lists i e.kind.role = true) ∧
      (c.kind ≠ .list → kind.holds i c.kind.role = true ∧
        (kind ≠ .labeledStatement → c.isLabelledFunction = false))

end Node

structure Script extends SyntaxTree where
  isProgram : root.kind = .program
  arity : ∀ n, Within n root → n.arity
  placed : ∀ n, Within n root → n.placed

end XChainVM.Metering
