import Mathlib.Data.List.Basic

/-! # The parser's tree, and static resolution in it

A node has the attributes the scanners read, one of which is the field of its parent it stands
in, and its child nodes in order. An array field gives its elements; a field that is null has
no child.
-/

namespace XChainVM.Lint

inductive NodeType where
  | program | blockStatement | staticBlock | switchCase | withStatement
  | forStatement | forInStatement | forOfStatement | catchClause
  | variableDeclaration | variableDeclarator | functionDeclaration | classDeclaration
  | functionExpression | arrowFunctionExpression
  | identifier | literal | thisExpression | memberExpression | chainExpression | callExpression
  | templateLiteral | templateElement | assignmentExpression | binaryExpression
  | awaitExpression | yieldExpression | importExpression
  | property | objectPattern | arrayPattern | assignmentPattern | restElement
  | other (name : String)
  deriving DecidableEq, Repr

inductive Field where
  | body | consequent | init | left | right | declarations | id | params | param
  | object | property | expression | expressions | quasis | callee | argument
  | key | value | properties | elements
  | other (name : String)
  deriving DecidableEq, Repr

inductive LiteralKind where
  | string (value : String)
  | bigint | regex | other
  deriving DecidableEq, Repr

structure Attributes where
  type : NodeType
  field : Field := .other ""
  line : ℕ := 1
  name : String := ""
  operator : String := ""
  literal : LiteralKind := .other
  cooked : Option String := none
  computed : Bool := false
  async : Bool := false
  generator : Bool := false
  deriving DecidableEq, Repr

inductive Tree where
  | node (attributes : Attributes) (children : List Tree)

namespace Tree

def attributes : Tree → Attributes
  | node attributes _ => attributes

def children : Tree → List Tree
  | node _ children => children

def type (t : Tree) : NodeType := t.attributes.type

def at? (t : Tree) (field : Field) : Option Tree := t.children.find? fun c => c.attributes.field = field

def all (t : Tree) (field : Field) : List Tree := t.children.filter fun c => c.attributes.field = field

theorem sizeOf_child {t c : Tree} (h : c ∈ t.children) : sizeOf c < sizeOf t := by
  cases t with
  | node attributes children =>
    have hlt : sizeOf c < sizeOf children := List.sizeOf_lt_of_mem h
    simp only [node.sizeOf_spec]
    omega

theorem sizeOf_at {t c : Tree} {field : Field} (h : t.at? field = some c) : sizeOf c < sizeOf t :=
  sizeOf_child (List.mem_of_find?_eq_some h)

theorem sizeOf_all {t c : Tree} {field : Field} (h : c ∈ t.all field) : sizeOf c < sizeOf t :=
  sizeOf_child (List.mem_of_mem_filter h)

end Tree

/-- The key of a computed access, if it is a string or a template without substitutions. -/
def staticComputedKey (computed : Bool) (p : Option Tree) : Option String :=
  if !computed then none
  else p.bind fun p =>
    match p.type, p.attributes.literal with
    | .literal, .string value => some value
    | .templateLiteral, _ =>
      if (p.all .expressions).isEmpty then
        match p.all .quasis with
        | [quasi] => quasi.attributes.cooked
        | _ => none
      else none
    | _, _ => none

/-- The property name a member expression reads, where it resolves statically. -/
def staticMemberKey (t : Tree) : Option String :=
  if t.type = .memberExpression then
    if t.attributes.computed then staticComputedKey true (t.at? .property)
    else (t.at? .property).bind fun p => if p.type = .identifier then some p.attributes.name else none
  else none

def staticPatternKey (t : Tree) : Option String :=
  if t.type = .property then
    (t.at? .key).bind fun key =>
      if t.attributes.computed then staticComputedKey true (some key)
      else match key.type, key.attributes.literal with
        | .identifier, _ => some key.attributes.name
        | .literal, .string value => some value
        | _, _ => none
  else none

structure PatternEntry where
  source : Tree
  path : List String
  property : Tree

def nestedPattern (value : Tree) : Option Tree :=
  if value.type = .objectPattern then some value
  else if value.type = .assignmentPattern then
    (value.at? .left).filter fun left => left.type = .objectPattern
  else none

theorem sizeOf_nestedPattern {value nested : Tree} (h : nestedPattern value = some nested) :
    sizeOf nested ≤ sizeOf value := by
  unfold nestedPattern at h
  split at h
  · cases h
    exact Nat.le_refl _
  · split at h
    · obtain ⟨hleft, -⟩ := Option.filter_eq_some_iff.mp h
      exact Nat.le_of_lt (Tree.sizeOf_at hleft)
    · cases h

def furtherPattern (property : Tree) : Option Tree := (property.at? .value).bind nestedPattern

theorem sizeOf_furtherPattern {property nested : Tree} (h : furtherPattern property = some nested) :
    sizeOf nested < sizeOf property := by
  obtain ⟨value, hvalue, hnested⟩ := Option.bind_eq_some_iff.mp h
  exact Nat.lt_of_le_of_lt (sizeOf_nestedPattern hnested) (Tree.sizeOf_at hvalue)

/-- The paths an object pattern reads by name, with the property that ends each. -/
def collectEntries (source : Tree) (path : List String) (pattern : Tree) : List PatternEntry :=
  (pattern.all .properties).attach.flatMap fun property =>
    match staticPatternKey property.1 with
    | none => []
    | some key =>
      ⟨source, path ++ [key], property.1⟩ ::
        (furtherPattern property.1).attach.toList.flatMap fun nested =>
          collectEntries source (path ++ [key]) nested.1
termination_by sizeOf pattern
decreasing_by exact Nat.lt_trans (sizeOf_furtherPattern nested.2) (Tree.sizeOf_all property.2)

def objectPatternEntries (t : Tree) : List PatternEntry :=
  let (pattern, source) :=
    if t.type = .variableDeclarator then (t.at? .id, t.at? .init)
    else if t.type = .assignmentExpression ∧ t.attributes.operator = "=" then (t.at? .left, t.at? .right)
    else (none, none)
  match pattern, source with
  | some pattern, some source => if pattern.type = .objectPattern then collectEntries source [] pattern else []
  | _, _ => []

/-- A parenthesized optional chain is read through under its refinement. -/
def unwrapChain (optionalChain : Bool) (t : Tree) : Option Tree :=
  if optionalChain && t.type = .chainExpression then t.at? .expression else some t

theorem sizeOf_unwrapChain {optionalChain : Bool} {t u : Tree} (h : unwrapChain optionalChain t = some u) :
    sizeOf u ≤ sizeOf t := by
  unfold unwrapChain at h
  split at h
  · exact Nat.le_of_lt (Tree.sizeOf_at h)
  · cases h
    exact Nat.le_refl _

def isGlobalObjectRef (aliased optionalChain : Bool) (t : Tree) : Bool :=
  (unwrapChain optionalChain t).attach.any fun u =>
    if u.1.type = .identifier ∧ u.1.attributes.name = "globalThis" then true
    else if !aliased then false
    else if u.1.type = .thisExpression then true
    else if u.1.type = .memberExpression then
      staticMemberKey u.1 = some "globalThis" &&
        (u.1.at? .object).attach.any fun object => isGlobalObjectRef aliased optionalChain object.1
    else false
termination_by sizeOf t
decreasing_by exact Nat.lt_of_lt_of_le (Tree.sizeOf_at object.2) (sizeOf_unwrapChain u.2)

/-- Following a path of properties from the node still denotes the global object. -/
def isGlobalObjectPathRef (aliased optionalChain : Bool) (t : Tree) (path : List String) : Bool :=
  isGlobalObjectRef aliased optionalChain t && (path.isEmpty || (aliased && path.all (· = "globalThis")))

def isMathObjectRef (aliased optionalChain : Bool) (t : Tree) : Bool :=
  match unwrapChain optionalChain t with
  | none => false
  | some u =>
    if u.type = .identifier ∧ u.attributes.name = "Math" then true
    else u.type = .memberExpression && (u.at? .object).any (isGlobalObjectRef aliased optionalChain) &&
      staticMemberKey u = some "Math"

def isMathObjectPathRef (aliased optionalChain : Bool) (t : Tree) (path : List String) : Bool :=
  if path.isEmpty then isMathObjectRef aliased optionalChain t
  else path.getLast? = some "Math" && isGlobalObjectPathRef aliased optionalChain t path.dropLast

def patternParts (pattern : Tree) : List Tree :=
  match pattern.type with
  | .assignmentPattern => (pattern.at? .left).toList
  | .restElement => (pattern.at? .argument).toList
  | .arrayPattern => pattern.all .elements
  | .objectPattern => (pattern.all .properties).filterMap fun p =>
    if p.type = .restElement then p.at? .argument else p.at? .value
  | _ => []

theorem sizeOf_patternParts {pattern part : Tree} (h : part ∈ patternParts pattern) :
    sizeOf part < sizeOf pattern := by
  unfold patternParts at h
  split at h
  · exact Tree.sizeOf_at (Option.mem_toList.mp h)
  · exact Tree.sizeOf_at (Option.mem_toList.mp h)
  · exact Tree.sizeOf_all h
  · obtain ⟨p, hp, hpart⟩ := List.mem_filterMap.mp h
    have hp' := Tree.sizeOf_all hp
    split at hpart
    · exact Nat.lt_trans (Tree.sizeOf_at hpart) hp'
    · exact Nat.lt_trans (Tree.sizeOf_at hpart) hp'
  · simp at h

def patternDeclares (name : String) (pattern : Tree) : Bool :=
  if pattern.type = .identifier then pattern.attributes.name = name
  else (patternParts pattern).attach.any fun part => patternDeclares name part.1
termination_by sizeOf pattern
decreasing_by exact sizeOf_patternParts part.2

/-- `id && id.name === name`. -/
def isNamed (name : String) (id : Option Tree) : Bool := id.any fun id => id.attributes.name = name

def declarationDeclares (name : String) (declaration : Tree) : Bool :=
  declaration.type = .variableDeclaration &&
    (declaration.all .declarations).any fun d => (d.at? .id).any (patternDeclares name)

def statementDeclares (name : String) (s : Tree) : Bool :=
  declarationDeclares name s ||
    ((s.type = .functionDeclaration || s.type = .classDeclaration) && isNamed name (s.at? .id))

def scopeDeclares (name : String) (t : Tree) : Bool :=
  match t.type with
  | .functionDeclaration | .functionExpression | .arrowFunctionExpression =>
    isNamed name (t.at? .id) || (t.all .params).any (patternDeclares name)
  | .catchClause => (t.at? .param).any (patternDeclares name)
  | .program | .blockStatement | .staticBlock => (t.all .body).any (statementDeclares name)
  | .switchCase => (t.all .consequent).any (statementDeclares name)
  | .forStatement => (t.at? .init).any (declarationDeclares name)
  | .forInStatement | .forOfStatement => (t.at? .left).any (declarationDeclares name)
  | _ => false

end XChainVM.Lint
