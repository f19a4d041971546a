import XChainVM.Metering.Grammar
import XChainVM.Metering.ScopeAnalysis

/-! # Banned globals

The checks that reject the asynchronous surface and `WebAssembly`. The tree walk they use is a
library's: it calls the identifier visitor for every identifier that is no target of a binding or
an assignment, with ancestors of it.
-/

namespace XChainVM.Metering

open Node

def isTarget : Ancestors → Bool
  | ⟨node .list _, _⟩ :: ⟨owner, i⟩ :: _ => owner.kind.isPattern || (owner.kind.isFunction && i = 1)
  | ⟨node kind _, i⟩ :: _ =>
    match kind with
    | .variableDeclarator | .restElement | .assignmentPattern | .functionDeclaration | .functionExpression
    | .arrowFunctionExpression | .classDeclaration | .classExpression | .catchClause
    | .assignmentExpression _ | .forInStatement | .forOfStatement => i = 0
    | .patternProperty _ _ => i = 1
    | _ => false
  | [] => false

/-- One call of a visitor: where the node stands, and the ancestors that are passed, innermost
first, without the node itself. -/
structure Visit where
  position : Ancestors
  node : Node
  ancestors : Ancestors

/-- A walk that passes ancestors to its visitors. -/
structure AncestorWalk where
  visits : Node → List Visit
  visited : ∀ root position x fields, (position, node (.identifier x) fields) ∈ root.positions [] →
    isTarget position = false →
      ∃ v ∈ visits root, v.position = position ∧ v.node = node (.identifier x) fields
  ancestors_sublist : ∀ root, ∀ v ∈ visits root, v.ancestors.Sublist v.position

inductive BannedKind where
  | async | await | promise | import_
  deriving DecidableEq, Repr

structure LintFlags where
  hardened : Bool
  aliased : Bool
  optionalChain : Bool
  destructure : Bool

def isPropertyName : Ancestors → Bool
  | ⟨node (.memberExpression false _) _, 1⟩ :: _ => true
  | ⟨node (.property _ _ _ false) _, 0⟩ :: _ => true
  | _ => false

/-- The identifier rule: a read of `name` that no ancestor declares. -/
def readsGlobal (name : String) (shadowing : Bool) (v : Visit) (x : String) : Bool :=
  x = name && !isPropertyName v.position && !(shadowing && v.ancestors.any fun f => scopeDeclares name f.node)

def memberReads (name : String) (flags : LintFlags) (computed : Bool) (object property : Node) : Bool :=
  isGlobalObjectRef flags.aliased flags.optionalChain object && staticMemberKey computed property = some name

def destructuredReads (name : String) (flags : LintFlags) (n : Node) : ℕ :=
  if flags.destructure then (destructuredGlobalEntries name flags.aliased flags.optionalChain n).length else 0

structure AsyncHit where
  kind : BannedKind
  position : Ancestors

/-- What one visit adds. `isAsync` is the flag of a function, which the tree does not carry. -/
def asyncHits (flags : LintFlags) (isAsync : Ancestors → Bool) (v : Visit) : List AsyncHit :=
  match v.node with
  | node .variableDeclarator _ | node (.assignmentExpression _) _ =>
    List.replicate (destructuredReads "Promise" flags v.node) ⟨.promise, v.position⟩
  | node .functionDeclaration _ | node .functionExpression _ | node .arrowFunctionExpression _ =>
    if isAsync v.position then [⟨.async, v.position⟩] else []
  | node .awaitExpression _ => [⟨.await, v.position⟩]
  | node (.identifier x) _ => if readsGlobal "Promise" flags.hardened v x then [⟨.promise, v.position⟩] else []
  | node .importExpression _ => if flags.hardened then [⟨.import_, v.position⟩] else []
  | node (.memberExpression computed _) [object, property] =>
    if memberReads "Promise" flags computed object property then [⟨.promise, v.position⟩] else []
  | _ => []

def findBannedAsync (walk : AncestorWalk) (flags : LintFlags) (isAsync : Ancestors → Bool) (ast : Node) :
    List AsyncHit :=
  (walk.visits ast).flatMap (asyncHits flags isAsync)

/-- What one visit adds to the places that read `WebAssembly`. -/
def wasmHits (flags : LintFlags) (v : Visit) : List Ancestors :=
  match v.node with
  | node .variableDeclarator _ | node (.assignmentExpression _) _ =>
    List.replicate (destructuredReads "WebAssembly" flags v.node) v.position
  | node (.identifier x) _ => if readsGlobal "WebAssembly" true v x then [v.position] else []
  | node (.memberExpression computed _) [object, property] =>
    if memberReads "WebAssembly" flags computed object property then [v.position] else []
  | _ => []

def findBannedWasm (walk : AncestorWalk) (flags : LintFlags) (ast : Node) : List Ancestors :=
  (walk.visits ast).flatMap (wasmHits flags)

variable {walk : AncestorWalk} {ast : Node} {position : Ancestors} {fields : List Node}

/-- A read that is no hit is a property name, or an ancestor declares its name. -/
theorem declared_of_accepted {name : String} {shadowing : Bool}
    (haccept : ∀ v ∈ walk.visits ast, v.node = node (.identifier name) fields →
      readsGlobal name shadowing v name = false)
    (hmem : (position, node (.identifier name) fields) ∈ ast.positions []) (hread : isTarget position = false) :
    isPropertyName position = true ∨ ∃ f ∈ position, scopeDeclares name f.node = true := by
  obtain ⟨v, hv, rfl, hnode⟩ := walk.visited ast position name fields hmem hread
  have hno := haccept v hv hnode
  by_cases hname : isPropertyName v.position = true
  · exact .inl hname
  · right
    simp only [readsGlobal, decide_true, hname, Bool.not_false, Bool.and_self, Bool.true_and, Bool.not_eq_false',
      Bool.and_eq_true, List.any_eq_true] at hno
    obtain ⟨-, f, hf, hdeclares⟩ := hno
    exact ⟨f, (walk.ancestors_sublist ast v hv).subset hf, hdeclares⟩

theorem async_accepted {flags : LintFlags} {isAsync : Ancestors → Bool}
    (h : findBannedAsync walk flags isAsync ast = []) :
    ∀ v ∈ walk.visits ast, v.node = node (.identifier "Promise") fields →
      readsGlobal "Promise" flags.hardened v "Promise" = false := by
  intro v hv hnode
  have hhits : asyncHits flags isAsync v = [] := List.flatMap_eq_nil_iff.mp h v hv
  rw [asyncHits, hnode] at hhits
  simpa using hhits

theorem wasm_accepted {flags : LintFlags} (h : findBannedWasm walk flags ast = []) :
    ∀ v ∈ walk.visits ast, v.node = node (.identifier "WebAssembly") fields →
      readsGlobal "WebAssembly" true v "WebAssembly" = false := by
  intro v hv hnode
  have hhits : wasmHits flags v = [] := List.flatMap_eq_nil_iff.mp h v hv
  rw [wasmHits, hnode] at hhits
  simpa using hhits

end XChainVM.Metering
