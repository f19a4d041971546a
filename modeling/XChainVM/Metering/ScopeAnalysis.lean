import XChainVM.Metering.Ast

/-! # Static scope and global-object resolution

What an ancestor of an identifier declares, and which expressions statically denote the global
object.
-/

namespace XChainVM.Metering

open Node

/-- The key of a computed member, if it is a string or a template without substitutions. -/
def staticComputedKey : Node → Option String
  | node (.literal (.string s)) _ => some s
  | node .templateLiteral [node .list [], node .list [node (.templateElement cooked _) _]] => cooked
  | _ => none

/-- The property name a member expression reads, where it resolves statically. -/
def staticMemberKey (computed : Bool) (property : Node) : Option String :=
  if computed then staticComputedKey property
  else match property with
    | node (.name x) _ => some x
    | _ => none

def isGlobalObjectRef (aliased optionalChain : Bool) : Node → Bool
  | node (.identifier x) _ => x = "globalThis"
  | node .thisExpression _ => aliased
  | node (.memberExpression computed _) [object, property] =>
    aliased && staticMemberKey computed property = some "globalThis" &&
      isGlobalObjectRef aliased optionalChain object
  | node .chainExpression [node kind fields] =>
    optionalChain && kind ≠ .chainExpression && isGlobalObjectRef aliased optionalChain (node kind fields)
  | _ => false

def isGlobalObjectPathRef (aliased optionalChain : Bool) (n : Node) (path : List String) : Bool :=
  isGlobalObjectRef aliased optionalChain n && (path.isEmpty || (aliased && path.all (· = "globalThis")))

def staticPatternKey (computed : Bool) (key : Node) : Option String :=
  if computed then staticComputedKey key
  else match key with
    | node (.name x) _ => some x
    | node (.literal (.string s)) _ => some s
    | _ => none

mutual

def patternPaths (path : List String) : Node → List (List String)
  | node .objectPattern [node .list properties] => propertyPaths path properties
  | node .assignmentPattern (node .objectPattern [node .list properties] :: _) => propertyPaths path properties
  | _ => []

def propertyPaths (path : List String) : List Node → List (List String)
  | [] => []
  | node (.patternProperty _ computed) [key, value] :: rest =>
    match staticPatternKey computed key with
    | some key => (path ++ [key]) :: patternPaths (path ++ [key]) value ++ propertyPaths path rest
    | none => propertyPaths path rest
  | _ :: rest => propertyPaths path rest

end

/-- The source of a destructuring declarator or assignment, with the paths read from it. -/
def objectPatternEntries : Node → List (Node × List String)
  | node .variableDeclarator [node .objectPattern fields, init] =>
    if init.kind = .absent then [] else (patternPaths [] (node .objectPattern fields)).map fun path => (init, path)
  | node (.assignmentExpression .assign) [node .objectPattern fields, right] =>
    (patternPaths [] (node .objectPattern fields)).map fun path => (right, path)
  | _ => []

def destructuredGlobalEntries (name : String) (aliased optionalChain : Bool) (n : Node) :
    List (Node × List String) :=
  (objectPatternEntries n).filter fun entry =>
    entry.2.getLast? = some name && isGlobalObjectPathRef aliased optionalChain entry.1 entry.2.dropLast

variable (name : String)

mutual

def patternDeclares : Node → Bool
  | node (.identifier x) _ => x = name
  | node .assignmentPattern (left :: _) => patternDeclares left
  | node .restElement (argument :: _) => patternDeclares argument
  | node .arrayPattern [node .list elements] => elementsDeclare elements
  | node .objectPattern [node .list properties] => propertiesDeclare properties
  | _ => false

def elementsDeclare : List Node → Bool
  | [] => false
  | e :: rest => patternDeclares e || elementsDeclare rest

def propertiesDeclare : List Node → Bool
  | [] => false
  | node .restElement (argument :: _) :: rest => patternDeclares argument || propertiesDeclare rest
  | node (.patternProperty _ _) [_, value] :: rest => patternDeclares value || propertiesDeclare rest
  | _ :: rest => propertiesDeclare rest

end

/-- `id && id.name === name`. -/
def isNamed : Node → Bool
  | node (.identifier x) _ => x = name
  | _ => false

def declaratorDeclares : Node → Bool
  | node .variableDeclarator (id :: _) => patternDeclares name id
  | _ => false

/-- The head of a loop, or a statement, declares the name as a variable. -/
def declarationDeclares : Node → Bool
  | node (.variableDeclaration _) [node .list declarators] => declarators.any (declaratorDeclares name)
  | _ => false

def statementDeclares : Node → Bool
  | node .functionDeclaration (id :: _) | node .classDeclaration (id :: _) => isNamed name id
  | s => declarationDeclares name s

/-- The node declares the name in its own scope. Function bodies are blocks. -/
def scopeDeclares : Node → Bool
  | node .functionDeclaration [id, node .list params, _] | node .functionExpression [id, node .list params, _]
  | node .arrowFunctionExpression [id, node .list params, _] =>
    isNamed name id || params.any (patternDeclares name)
  | node .catchClause (param :: _) => patternDeclares name param
  | node .program [node .list body] | node .blockStatement [node .list body]
  | node .functionBody [node .list body] => body.any (statementDeclares name)
  | node .switchCase (node .list consequent :: _) => consequent.any (statementDeclares name)
  | node .forStatement (init :: _) => declarationDeclares name init
  | node .forInStatement (left :: _) | node .forOfStatement (left :: _) => declarationDeclares name left
  | _ => false

end XChainVM.Metering
