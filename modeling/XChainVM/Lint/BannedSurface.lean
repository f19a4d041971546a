import XChainVM.Lint.ScopeAnalysis

/-! # The scanners

What each rule finds in a tree. The walks over the tree are a library's, and so is which nodes
they visit and which ancestors they pass.
-/

namespace XChainVM.Lint

open XChainVM.Lint.Tree

/-- A visited node, with the ancestors that are passed, innermost first. -/
structure Visit where
  node : Tree
  ancestors : List Tree

structure Walk where
  simple : Tree → List Tree
  ancestor : Tree → List Visit
  full : Tree → List Tree

structure Refinements where
  hardened : Bool
  aliased : Bool
  optionalChain : Bool
  destructure : Bool
  deriving DecidableEq, Repr

variable (walk : Walk) (flags : Refinements)

def BANNED_MATH_MEMBERS : List String := ["sqrt", "pow", "log", "log2", "log10"]

def SAFE_MATH_MEMBERS : List String :=
  ["floor", "ceil", "round", "abs", "min", "max", "sign", "trunc", "PI", "E"]

structure MathHit where
  name : String
  line : ℕ
  transcendental : Bool
  deriving DecidableEq, Repr

/-- What reading one member of `Math` is reported as. An empty name is no member. -/
def markMember (member : Option String) (line : ℕ) : List MathHit :=
  match member with
  | none => []
  | some member =>
    if member = "" then []
    else if member ∈ BANNED_MATH_MEMBERS then [⟨member, line, true⟩]
    else if flags.hardened ∧ member ∉ SAFE_MATH_MEMBERS then [⟨member, line, false⟩]
    else []

def readsMath (entry : PatternEntry) : Bool :=
  isMathObjectPathRef flags.aliased flags.optionalChain entry.source entry.path.dropLast

def mathHits (t : Tree) : List MathHit :=
  match t.type with
  | .variableDeclarator | .assignmentExpression =>
    if flags.destructure then
      ((objectPatternEntries t).filter (readsMath flags)).flatMap fun entry =>
        markMember flags entry.path.getLast? entry.property.attributes.line
    else []
  | .memberExpression =>
    if (t.at? .object).any (isMathObjectRef flags.aliased flags.optionalChain) then
      markMember flags (staticMemberKey t) t.attributes.line
    else []
  | _ => []

def findBannedMathCalls (ast : Tree) : List MathHit := (walk.simple ast).flatMap (mathHits flags)

structure OperatorHit where
  op : String
  line : ℕ
  deriving DecidableEq, Repr

def exponentiationHits (t : Tree) : List OperatorHit :=
  match t.type with
  | .binaryExpression => if t.attributes.operator = "**" then [⟨"**", t.attributes.line⟩] else []
  | .assignmentExpression => if t.attributes.operator = "**=" then [⟨"**=", t.attributes.line⟩] else []
  | _ => []

def findBannedExponentiation (ast : Tree) : List OperatorHit := (walk.simple ast).flatMap exponentiationHits

def RESERVED_CONTROL_BINDINGS : List String :=
  ["__contractCode", "__methodName", "__isCrossCall", "__readManifest"]

def firstIdentifier (names : List String) (ast : Tree) : Option String :=
  ((walk.full ast).find? fun t => t.type = .identifier && names.contains t.attributes.name).map fun t =>
    t.attributes.name

def findReservedControlBinding (ast : Tree) : Option String := firstIdentifier walk RESERVED_CONTROL_BINDINGS ast

structure LiteralHit where
  isBigint : Bool
  line : ℕ
  deriving DecidableEq, Repr

def literalHits (t : Tree) : List LiteralHit :=
  match t.type, t.attributes.literal with
  | .literal, .bigint => [⟨true, t.attributes.line⟩]
  | .literal, .regex => [⟨false, t.attributes.line⟩]
  | _, _ => []

def findBannedLiterals (ast : Tree) : List LiteralHit := (walk.simple ast).flatMap literalHits

structure GeneratorHit where
  isYield : Bool
  line : ℕ
  deriving DecidableEq, Repr

def generatorHits (t : Tree) : List GeneratorHit :=
  match t.type with
  | .functionDeclaration | .functionExpression =>
    if t.attributes.generator then [⟨false, t.attributes.line⟩] else []
  | .yieldExpression => [⟨true, t.attributes.line⟩]
  | _ => []

def findBannedGenerator (ast : Tree) : List GeneratorHit := (walk.simple ast).flatMap generatorHits

def withHits (t : Tree) : List ℕ := if t.type = .withStatement then [t.attributes.line] else []

def findBannedWith (ast : Tree) : List ℕ := (walk.simple ast).flatMap withHits

inductive RestKind where
  | nestedRest | restParameter | catchClauseRest | forLoopHeadRest
  deriving DecidableEq, Repr

structure RestHit where
  kind : RestKind
  line : ℕ
  deriving DecidableEq, Repr

def PATTERN_NODE_TYPES : List NodeType :=
  [.arrayPattern, .objectPattern, .property, .assignmentPattern, .restElement]

def isMeteredRest : List Tree → Bool
  | parent :: gp :: _ =>
    (parent.type = .arrayPattern || parent.type = .objectPattern) &&
      ((gp.type = .variableDeclarator && parent.attributes.field = .id && (gp.at? .init).isSome) ||
        (gp.type = .assignmentExpression && gp.attributes.operator = "=" && parent.attributes.field = .left))
  | _ => false

def ownerRestKind : Option Tree → RestKind
  | none => .nestedRest
  | some owner =>
    match owner.type with
    | .functionDeclaration | .functionExpression | .arrowFunctionExpression => .restParameter
    | .catchClause => .catchClauseRest
    | .forOfStatement | .forInStatement => .forLoopHeadRest
    | .variableDeclarator => if (owner.at? .init).isSome then .nestedRest else .forLoopHeadRest
    | _ => .nestedRest

def bannedRestKind (stack : List Tree) : Option RestKind :=
  if isMeteredRest stack then none
  else some (ownerRestKind (stack.dropWhile fun t => PATTERN_NODE_TYPES.contains t.type).head?)

def restHit (stack : List Tree) (t : Tree) : List RestHit :=
  if t.type = .restElement then (bannedRestKind stack).toList.map fun kind => ⟨kind, t.attributes.line⟩ else []

mutual

def collectBannedRest (stack : List Tree) : Tree → List RestHit
  | node attributes children =>
    restHit stack (node attributes children) ++ collectBannedRestOf (node attributes children :: stack) children

def collectBannedRestOf (stack : List Tree) : List Tree → List RestHit
  | [] => []
  | t :: rest => collectBannedRest stack t ++ collectBannedRestOf stack rest

end

def findBannedRest (ast : Tree) : List RestHit := collectBannedRest [] ast

def destructuredGlobalEntries (t : Tree) (name : String) : List PatternEntry :=
  (objectPatternEntries t).filter fun entry =>
    entry.path.getLast? = some name &&
      isGlobalObjectPathRef flags.aliased flags.optionalChain entry.source entry.path.dropLast

/-- The lines of the patterns that read the name from the global object. -/
def destructuredReads (t : Tree) (name : String) : List ℕ :=
  if flags.destructure then
    (destructuredGlobalEntries flags t name).map fun entry => entry.property.attributes.line
  else []

def isPropertyName (v : Visit) : Bool :=
  v.ancestors.head?.any fun parent =>
    !parent.attributes.computed &&
      ((parent.type = .memberExpression && v.node.attributes.field = .property) ||
        (parent.type = .property && v.node.attributes.field = .key))

def readsGlobal (name : String) (shadowing : Bool) (v : Visit) : Bool :=
  v.node.attributes.name = name && !isPropertyName v && !(shadowing && v.ancestors.any (scopeDeclares name))

def memberReads (name : String) (t : Tree) : Bool :=
  (t.at? .object).any (isGlobalObjectRef flags.aliased flags.optionalChain) && staticMemberKey t = some name

inductive AsyncKind where
  | async | await | promise | import_
  deriving DecidableEq, Repr

structure AsyncHit where
  kind : AsyncKind
  line : ℕ
  deriving DecidableEq, Repr

def asyncHits (v : Visit) : List AsyncHit :=
  let line := v.node.attributes.line
  match v.node.type with
  | .variableDeclarator | .assignmentExpression =>
    (destructuredReads flags v.node "Promise").map fun line => ⟨.promise, line⟩
  | .functionDeclaration | .functionExpression | .arrowFunctionExpression =>
    if v.node.attributes.async then [⟨.async, line⟩] else []
  | .awaitExpression => [⟨.await, line⟩]
  | .identifier => if readsGlobal "Promise" flags.hardened v then [⟨.promise, line⟩] else []
  | .importExpression => if flags.hardened then [⟨.import_, line⟩] else []
  | .memberExpression => if memberReads flags "Promise" v.node then [⟨.promise, line⟩] else []
  | _ => []

def findBannedAsync (ast : Tree) : List AsyncHit := (walk.ancestor ast).flatMap (asyncHits flags)

def wasmHits (v : Visit) : List ℕ :=
  match v.node.type with
  | .variableDeclarator | .assignmentExpression => destructuredReads flags v.node "WebAssembly"
  | .identifier => if readsGlobal "WebAssembly" true v then [v.node.attributes.line] else []
  | .memberExpression => if memberReads flags "WebAssembly" v.node then [v.node.attributes.line] else []
  | _ => []

def findBannedWasm (ast : Tree) : List ℕ := (walk.ancestor ast).flatMap (wasmHits flags)

end XChainVM.Lint
