import XChainVM.Metering.AllocatorTransform
import XChainVM.Metering.FrameWeight
import XChainVM.Metering.NativeStackCatch
import XChainVM.Metering.ReservedIdentifiers

/-! # Gas injection

The phases that follow the allocator transform: charges at the entry of functions, loops
and branches, in deep chains of binary operators and before calls, and the depth guard
around every function body.
-/

namespace XChainVM.Metering

open Node

def chargeLoopBody (body : Node) : Node := unshift gasCallStatement (ensureBlock body)

def chargeFunctionEntry : Node → Node
  | node .functionBody [node .list body] => node .functionBody [list (insertGasAfterDirectives body)]
  | body => body

def chargeArrow : Node → Node
  | node .functionBody [node .list body] => node .functionBody [list (insertGasAfterDirectives body)]
  | body => wrapWithGas body

def chargeUpdate (update : Node) : Node :=
  if update.kind = .absent then gasCallExpr else wrapWithGas update

def chargeAlternate (alternate : Node) : Node :=
  if alternate.kind = .absent || alternate.kind = .ifStatement then alternate
  else unshift gasCallStatement (ensureBlock alternate)

def chargeCase (consequent : List Node) : List Node :=
  if consequent.isEmpty then [] else gasCallStatement :: consequent

def chargeTry : Node → Node
  | node .tryStatement [body, handler, finalizer] =>
    node .tryStatement [unshift gasCallStatement body,
      match handler with
        | node .catchClause [param, body] => node .catchClause [param, unshift gasCallStatement body]
        | handler => handler,
      unshift gasCallStatement finalizer]
  | n => n

def chargeBlock (armedNames : Option ArmedNames) : Node → Node
  | node .functionDeclaration [id, params, body] =>
    node .functionDeclaration [id, params, chargeFunctionEntry body]
  | node .functionExpression [id, params, body] =>
    node .functionExpression [id, params, chargeFunctionEntry body]
  | node .arrowFunctionExpression [id, params, body] =>
    node .arrowFunctionExpression [id, params, chargeArrow body]
  | node .forStatement [init, test, update, body] =>
    node .forStatement [init, test, chargeUpdate update, chargeLoopBody body]
  | node .whileStatement [test, body] => node .whileStatement [test, chargeLoopBody body]
  | node .doWhileStatement [body, test] => node .doWhileStatement [chargeLoopBody body, test]
  | node .forInStatement [left, right, body] => node .forInStatement [left, right, chargeLoopBody body]
  | node .forOfStatement [left, right, body] => node .forOfStatement [left, right, chargeLoopBody body]
  | node .ifStatement [test, consequent, alternate] =>
    node .ifStatement
      [test, unshift gasCallStatement (ensureBlock consequent), chargeAlternate alternate]
  | node .switchCase [node .list consequent, test] =>
    node .switchCase [list (chargeCase consequent), test]
  | node .tryStatement fields =>
    match armedNames with
    | some names => armTryStatement names (node .tryStatement fields)
    | none => chargeTry (node .tryStatement fields)
  | node .conditionalExpression [test, consequent, alternate] =>
    node .conditionalExpression [wrapWithGas test, consequent, alternate]
  | n => n

def injectBlockGas (armedNames : Option ArmedNames) (ast : Node) : Node := ast.mapUp (chargeBlock armedNames)

def binaryDepth : Node → ℕ
  | node (.binaryExpression _) (left :: _) => binaryDepth left + 1
  | _ => 0

/-- The left operand is charged at the end of a chain of `depth` operators. -/
def chargeLeft : ℕ → Node → Node
  | depth + 1, node (.binaryExpression op) (node (.binaryExpression op') fields :: right) =>
    node (.binaryExpression op) (chargeLeft depth (node (.binaryExpression op') fields) :: right)
  | _, node (.binaryExpression op) (left :: right) =>
    node (.binaryExpression op) (wrapWithGas left :: right)
  | _, n => n

def chargeBinary (n : Node) : Node := if 10 < binaryDepth n then chargeLeft 10 n else n

def injectBinaryDepthGas (ast : Node) : Node := ast.mapUp chargeBinary

def isExemptCallee : Node → Bool
  | node (.identifier x) _ => x = "__gas" || ALLOC_HELPERS.contains x
  | node (.memberExpression _ _) (node (.identifier x) _ :: _) => x = "__gas"
  | _ => false

def chargeCall : Node → Node
  | node (.callExpression optional) (callee :: args) =>
    if isExemptCallee callee then node (.callExpression optional) (callee :: args)
    else wrapWithGas (node (.callExpression optional) (callee :: args))
  | n => n

/-- The calls among the children. The walk does not enter a property of an object pattern
as a node, so a call that is its computed key is not found in the parent. -/
def chargeCalls : Node → Node
  | node (.patternProperty shorthand computed) fields => node (.patternProperty shorthand computed) fields
  | node kind fields => node kind (fields.map chargeCall)

def injectCallGas (ast : Node) : Node := ast.mapUp chargeCalls

/-- `const D = __depth_enter(w);`. -/
def armedEnter (weight : ℕ) (token : String) : Node :=
  node (.variableDeclaration .const)
    [list [node .variableDeclarator [astIdent token, astCall "__depth_enter" [astLiteral (.number weight)]]]]

/-- `__depth_exit(D, 0);`. -/
def armedExit (token : String) : Node := callStatement "__depth_exit" [astIdent token, astLiteral (.number 0)]

/-- `try { rest } finally { __depth_exit(); }`. -/
def guardedBody (rest : List Node) : Node :=
  node .tryStatement [block rest, absent, block [callStatement "__depth_exit" []]]

/-- `try { rest } catch (X) { __depth_exit(X); throw X; } finally { __depth_exit(D, 0); }`. -/
def armedGuardedBody (names : ArmedNames) (rest : List Node) : Node :=
  node .tryStatement [block rest,
    node .catchClause [astIdent names.caught, block
      [callStatement "__depth_exit" [astIdent names.caught], node .throwStatement [astIdent names.caught]]],
    block [armedExit names.token]]

def wrapDepthGuard (armed : Option (ℕ × ArmedNames)) : Node → Node
  | node .functionBody [node .list body] =>
    let directives := body.takeWhile isDirective
    let rest := body.dropWhile isDirective
    match armed with
    | none => node .functionBody [list (directives ++ [callStatement "__depth_enter" [], guardedBody rest])]
    | some (weight, names) =>
      node .functionBody [list (directives ++ [armedEnter weight names.token, armedGuardedBody names rest])]
  | body => body

def blockArrow : Node → Node
  | node .functionBody fields => node .functionBody fields
  | body => node .functionBody [list [node .returnStatement [body]]]

def guardFunction (armedNames : Option ArmedNames) : Node → Node
  | node .functionDeclaration [id, params, body] =>
    let weight := frameWeight (node .functionDeclaration [id, params, body])
    node .functionDeclaration [id, params, wrapDepthGuard (armedNames.map fun names => (weight, names)) body]
  | node .functionExpression [id, params, body] =>
    let weight := frameWeight (node .functionExpression [id, params, body])
    node .functionExpression [id, params, wrapDepthGuard (armedNames.map fun names => (weight, names)) body]
  | node .arrowFunctionExpression [id, params, body] =>
    let body := blockArrow body
    let weight := frameWeight (node .arrowFunctionExpression [id, params, body])
    node .arrowFunctionExpression
      [id, params, wrapDepthGuard (armedNames.map fun names => (weight, names)) body]
  | n => n

def injectDepthGuards (armedNames : Option ArmedNames) (ast : Node) : Node :=
  ast.mapUp (guardFunction armedNames)

def chargeTopLevel : Node → Node
  | node .program [node .list body] => node .program [list (insertGasAfterDirectives body)]
  | n => n

/-- The top-level script charges its own frame, after its directives and its charge. -/
def chargeTopLevelFrame (names : ArmedNames) : Node → Node
  | node .program [node .list body] =>
    let weight := frameWeight (node .program [list body])
    let offset := 1 + directivePrologueLength body
    node .program
      [list (body.take offset ++ armedEnter weight names.token :: body.drop offset ++ [armedExit names.token])]
  | n => n

structure MeterOptions where
  specEvalOrder : Bool
  meterCallSpread : Bool
  meterRestPattern : Bool
  nativeStackTerminal : Bool

def instrument (armedNames : Option ArmedNames) (ast : Node) : Node :=
  let ast := injectBlockGas armedNames (chargeTopLevel ast)
  let ast := injectDepthGuards armedNames (injectCallGas (injectBinaryDepthGas ast))
  match armedNames with
  | some names => chargeTopLevelFrame names ast
  | none => ast

def meterCode (o : MeterOptions) (ast : Node) : Node :=
  let armedNames := if o.nativeStackTerminal then some (chooseNames ast) else none
  instrument armedNames (transformAllocators
    ⟨o.specEvalOrder, o.meterCallSpread, o.meterRestPattern, o.nativeStackTerminal⟩ ast)

end XChainVM.Metering
