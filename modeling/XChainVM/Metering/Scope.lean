import XChainVM.Metering.Ast

/-! # Scopes

What each node declares, the scopes it opens around each of its children, and the scopes
around every identifier. A function declared in a block of sloppy code also declares a
variable of the enclosing function, unless a lexical declaration in between or a parameter
has its name.
-/

namespace XChainVM.Metering

open Node

/-- The names a node offers to the node around it. -/
structure Names where
  /-- Bound by the node as a pattern. -/
  bound : List String := []
  isIdentifier : Bool := false
  text : Option String := none
  directive : Option String := none
  /-- A list of statements begins with `"use strict"`. -/
  useStrict : Bool := false
  declarators : List String := []
  /-- The `let`, `const` and class names of a statement. -/
  lexical : List String := []
  /-- The functions a statement declares, behind any labels. -/
  functions : List String := []
  caseLexical : List String := []
  caseFunctions : List String := []
  isBody : Bool := false
  /-- The `var` names below, outside functions. -/
  vars : List String := []
  /-- The functions of blocks below that declare a variable of the enclosing function, unless
  something further out is in the way. -/
  hoisted : List String := []

namespace Names

def list (ns : List Names) : Names where
  bound := ns.flatMap bound
  useStrict := (ns.takeWhile fun n => n.directive.isSome).any fun n => n.directive = some "use strict"
  declarators := ns.flatMap declarators
  lexical := ns.flatMap lexical
  functions := ns.flatMap functions
  caseLexical := ns.flatMap caseLexical
  caseFunctions := ns.flatMap caseFunctions
  vars := ns.flatMap vars
  hoisted := ns.flatMap hoisted

/-- A function with one of these names, declared further in, declares no variable. -/
def block (inTheWay hoisted : List String) : List String := hoisted.filter (· ∉ inTheWay)

def loop (head : Names) (ns : List Names) : Names where
  vars := ns.flatMap vars
  hoisted := block head.lexical (ns.flatMap hoisted)

def combine : Kind → List Names → Names
  | .list, ns => list ns
  | .identifier x, _ => { bound := [x], isIdentifier := true }
  | .literal (.string s), [] => { text := some s }
  | .arrayPattern, [elements] => { bound := elements.bound }
  | .objectPattern, [properties] => { bound := properties.bound }
  | .patternProperty _ _, [_, value] => { bound := value.bound }
  | .restElement, argument :: _ => { bound := argument.bound }
  | .assignmentPattern, left :: _ => { bound := left.bound }
  | .expressionStatement, [expression] => { directive := expression.text }
  | .variableDeclaration .var, [declarations] => { vars := declarations.declarators }
  | .variableDeclaration _, [declarations] => { lexical := declarations.declarators }
  | .variableDeclarator, id :: _ => { declarators := id.bound }
  | .classDeclaration, id :: _ => { lexical := id.bound }
  | .functionDeclaration, id :: _ => { functions := id.bound }
  | .labeledStatement, body :: _ =>
    { functions := body.functions, vars := body.vars, hoisted := body.hoisted }
  | .functionBody, [body] =>
    { useStrict := body.useStrict, lexical := body.lexical, functions := body.functions, vars := body.vars
      hoisted := body.hoisted, isBody := true }
  | .blockStatement, [body] =>
    { vars := body.vars
      hoisted := body.functions ++ block (body.lexical ++ body.functions) body.hoisted }
  | .switchStatement, [_, cases] =>
    { vars := cases.vars
      hoisted := cases.caseFunctions ++ block (cases.caseLexical ++ cases.caseFunctions) cases.hoisted }
  | .switchCase, consequent :: _ =>
    { caseLexical := consequent.lexical, caseFunctions := consequent.functions
      vars := consequent.vars, hoisted := consequent.hoisted }
  | .forStatement, init :: rest => loop init (init :: rest)
  | .forInStatement, left :: rest => loop left (left :: rest)
  | .forOfStatement, left :: rest => loop left (left :: rest)
  | .catchClause, [param, body] =>
    { vars := body.vars
      hoisted := if param.isIdentifier then body.hoisted else block param.bound body.hoisted }
  | .ifStatement, ns | .whileStatement, ns | .doWhileStatement, ns | .tryStatement, ns =>
    { vars := ns.flatMap vars, hoisted := ns.flatMap hoisted }
  | _, _ => {}

def asBody (body : Names) : Names := if body.isBody then body else {}

def ofBlock (body : Names) : List String := body.lexical ++ body.functions

/-- The variables of a body: its `var`s, its functions, and the functions of its blocks. -/
def varScope (strict : Bool) (params : List String) (body : Names) : List String :=
  body.vars ++ body.functions ++ if strict then [] else block (body.lexical ++ params) body.hoisted

end Names

namespace Node

mutual

def names : Node → Names
  | node kind fields => Names.combine kind (namesList fields)

def namesList : List Node → List Names
  | [] => []
  | n :: rest => names n :: namesList rest

end

theorem namesList_eq (ns : List Node) : namesList ns = ns.map names := by
  induction ns with
  | nil => rfl
  | cons n rest ih => rw [namesList, ih, List.map_cons]

theorem names_node (kind : Kind) (fields : List Node) :
    (node kind fields).names = Names.combine kind (fields.map names) := by
  rw [names, namesList_eq]

end Node

/-- Code is strict below a class, and below a function or script that says so. -/
def strictWithin (strict : Bool) : Kind → List Names → Bool
  | .program, [body] => strict || body.useStrict
  | .functionDeclaration, [_, _, body] | .functionExpression, [_, _, body]
  | .arrowFunctionExpression, [_, _, body] => strict || body.asBody.useStrict
  | .classDeclaration, _ | .classExpression, _ => true
  | _, _ => strict

def bodyScopes (strict : Bool) (params : List String) (body : Names) : List (List String) :=
  [body.lexical, body.varScope strict params]

def wrapperParams : List String := ["module", "exports", "xchain"]

/-- The scopes a node opens around the child at a place, the innermost first. -/
def scopes (strict : Bool) : Kind → List Names → ℕ → List (List String)
  | .program, [body], _ => bodyScopes strict wrapperParams body ++ ["arguments" :: wrapperParams]
  | .blockStatement, [body], _ => [body.ofBlock]
  | .switchStatement, [_, cases], 1 => [cases.caseLexical ++ cases.caseFunctions]
  | .forStatement, init :: _, _ => [init.lexical]
  | .forInStatement, left :: _, _ => [left.lexical]
  | .forOfStatement, left :: _, _ => [left.lexical]
  | .catchClause, param :: _, _ => [param.bound]
  | .classDeclaration, id :: _, i => if i = 0 then [] else [id.bound]
  | .classExpression, id :: _, _ => [id.bound]
  | .functionDeclaration, [_, params, _], 1 => ["arguments" :: params.bound]
  | .functionDeclaration, [_, params, body], 2 =>
    bodyScopes strict params.bound body.asBody ++ ["arguments" :: params.bound]
  | .functionExpression, [id, _, _], 0 => [id.bound]
  | .functionExpression, [id, params, _], 1 => ["arguments" :: params.bound, id.bound]
  | .functionExpression, [id, params, body], 2 =>
    bodyScopes strict params.bound body.asBody ++ ["arguments" :: params.bound, id.bound]
  | .arrowFunctionExpression, [_, params, _], 1 => [params.bound]
  | .arrowFunctionExpression, [_, params, body], 2 =>
    bodyScopes strict params.bound body.asBody ++ [params.bound]
  | _, _, _ => []

namespace Node

mutual

def identifiers : Node → List String
  | node (.identifier x) _ => [x]
  | node _ fields => identifiersList fields

def identifiersList : List Node → List String
  | [] => []
  | n :: rest => identifiers n ++ identifiersList rest

end

mutual

def occurrences (strict : Bool) : Node → List (String × List (List String))
  | node (.identifier x) _ => [(x, [])]
  | node kind fields =>
    let ns := fields.map names
    occurrencesList (strictWithin strict kind ns) (scopes (strictWithin strict kind ns) kind ns) 0 fields

def occurrencesList (strict : Bool) (around : ℕ → List (List String)) (i : ℕ) :
    List Node → List (String × List (List String))
  | [] => []
  | n :: rest =>
    ((occurrences strict n).map fun o => (o.1, o.2 ++ around i)) ++ occurrencesList strict around (i + 1) rest

end

mutual

def freeNames (strict : Bool) : Node → List String
  | node (.identifier x) _ => [x]
  | node kind fields =>
    let ns := fields.map names
    freeNamesList (strictWithin strict kind ns) (scopes (strictWithin strict kind ns) kind ns) 0 fields

def freeNamesList (strict : Bool) (around : ℕ → List (List String)) (i : ℕ) : List Node → List String
  | [] => []
  | n :: rest =>
    (freeNames strict n).filter (· ∉ (around i).flatten) ++ freeNamesList strict around (i + 1) rest

end

end Node

end XChainVM.Metering
