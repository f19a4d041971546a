import XChainVM.Metering.Ast

/-! # The allocator transform

Concatenation, templates, spreads and rest sources become calls of metering helpers,
innermost first. The state counts the call sites whose spread is held against the depth
counter.
-/

namespace XChainVM.Metering

open Node

structure AllocatorOptions where
  specEvalOrder : Bool
  meterCallSpread : Bool
  meterRestPattern : Bool
  holdCallSpread : Bool

def isSpread : Node → Bool
  | node .spreadElement _ => true
  | _ => false

def isRest : Node → Bool
  | node .restElement _ => true
  | _ => false

/-- The helper that pays for the copy of a rest at the top of a pattern. -/
def meterRestSource (pat src : Node) : Node :=
  match pat with
  | node .objectPattern [node .list properties] =>
    if properties.any isRest then astCall "__objspreadmeter" [src] else src
  | node .arrayPattern [node .list elements] =>
    if elements.any isRest then
      astCall "__arrspread" [astArray [astArray [astLiteral (.string "s"), src]]]
    else src
  | _ => src

def convertConcat (specEvalOrder : Bool) : Node → Option Node
  | node (.binaryExpression .add) [left, right] => some (astCall "__concat" [left, right])
  | node (.assignmentExpression .add) [node (.identifier x) [], right] =>
    some (node (.assignmentExpression .assign) [astIdent x, astCall "__concat" [astIdent x, right]])
  | node (.assignmentExpression .add) [node (.memberExpression computed _) [object, property], right] =>
    some (if specEvalOrder then
      astCall "__setconcatL" [object, memberKeyExpr computed property, arrowThunk right]
    else astCall "__setconcat" [object, memberKeyExpr computed property, right])
  | _ => none

def cookedText : Node → Node
  | node (.templateElement (some cooked) _) _ => astLiteral (.string cooked)
  | _ => astVoid0

def rawText : Node → Node
  | node (.templateElement _ raw) _ => astLiteral (.string raw)
  | n => n

def convertTaggedTemplate : Node → Option Node
  | node .taggedTemplateExpression [tag, node .templateLiteral [node .list expressions, node .list quasis]] =>
    some (match tag with
      | node (.memberExpression computed _) [object, property] =>
        astCall "__tmpltagm" [object, memberKeyExpr computed property, astArray (quasis.map cookedText),
          astArray (quasis.map rawText), astArray expressions]
      | tag =>
        astCall "__tmpltag" [tag, astArray (quasis.map cookedText), astArray (quasis.map rawText),
          astArray expressions])
  | _ => none

def templateParts : List Node → List Node → List Node
  | [], _ => []
  | quasi :: quasis, [] => cookedText quasi :: templateParts quasis []
  | quasi :: quasis, e :: expressions => cookedText quasi :: e :: templateParts quasis expressions

def convertTemplateLiteral : Node → Option Node
  | node .templateLiteral [node .list expressions, node .list quasis] =>
    some (astCall "__tmpl" [astArray (templateParts quasis expressions)])
  | _ => none

/-- `['s', x]` for a spread, `['e', x]` for any other element, `['h']` for a hole. -/
def segment : Node → Node
  | node .absent _ => astArray [astLiteral (.string "h")]
  | node .spreadElement [argument] => astArray [astLiteral (.string "s"), argument]
  | e => astArray [astLiteral (.string "e"), e]

def convertArraySpread : Node → Option Node
  | node .arrayExpression [node .list elements] =>
    if elements.any isSpread then some (astCall "__arrspread" [astArray (elements.map segment)]) else none
  | _ => none

def isSimpleProperty : Node → Bool
  | node .spreadElement _ => true
  | node (.property .init false _ _) _ => true
  | _ => false

def objectSegment : Node → Node
  | node .spreadElement [argument] => astArray [astLiteral (.string "s"), argument]
  | node (.property _ _ _ computed) [key, value] =>
    astArray [astLiteral (.string "p"), astArray [memberKeyExpr computed key, value]]
  | p => p

def meterSpreadProperty : Node → Node
  | node .spreadElement [argument] => node .spreadElement [astCall "__objspreadmeter" [argument]]
  | p => p

def convertObjectSpread : Node → Option Node
  | node .objectExpression [node .list properties] =>
    if !properties.any isSpread then none
    else if !properties.all isSimpleProperty then
      some (node .objectExpression [list (properties.map meterSpreadProperty)])
    else some (astCall "__objspread" [astArray (properties.map objectSegment)])
  | _ => none

def isCallOrNew : Kind → Bool
  | .callExpression _ | .newExpression => true
  | _ => false

def convertCallSpread (o : AllocatorOptions) (chainDepth : ℕ) : Node → Option (StateM ℕ Node)
  | node kind [callee, node .list args] =>
    if !o.meterCallSpread || !isCallOrNew kind || !args.any isSpread then none
    else
      let segs := astArray (args.map segment)
      if !o.holdCallSpread then
        some (pure (node kind [callee, list [node .spreadElement [astCall "__arrspread" [segs]]]]))
      else some (do
        let site ← get
        set (site + 1)
        let id := astLiteral (.number site)
        let held := node kind
          [callee, list [node .spreadElement [astCall "__arrspread" [segs, astLiteral (.number 1), id]]]]
        if chainDepth > 0 then pure held
        else pure (astCall "__arrspread" [held, astLiteral (.number 2), id]))
  | _ => none

def convertRestPattern (meterRestPattern : Bool) : Node → Option Node
  | node .variableDeclarator [id, init] =>
    if !meterRestPattern || init.kind = .absent then none
    else some (node .variableDeclarator [id, meterRestSource id init])
  | node (.assignmentExpression .assign) [left, right] =>
    if meterRestPattern && (left.kind = .arrayPattern || left.kind = .objectPattern) then
      some (node (.assignmentExpression .assign) [left, meterRestSource left right])
    else none
  | _ => none

/-- The conversions that do not depend on the gates of calls and rests. The text of a tagged
template keeps its form. -/
def convertAllocator (specEvalOrder tagged : Bool) (n : Node) : Option Node :=
  (convertConcat specEvalOrder n).or <| (convertTaggedTemplate n).or <|
    (if tagged then none else convertTemplateLiteral n).or <| (convertArraySpread n).or <|
      convertObjectSpread n

def convert (o : AllocatorOptions) (chainDepth : ℕ) (tagged : Bool) (n : Node) : StateM ℕ Node :=
  match convertAllocator o.specEvalOrder tagged n with
  | some m => pure m
  | none =>
    match convertCallSpread o chainDepth n with
    | some m => m
    | none => pure ((convertRestPattern o.meterRestPattern n).getD n)

mutual

def recur (o : AllocatorOptions) (chainDepth : ℕ) (tagged : Bool) : Node → StateM ℕ Node
  | node .taggedTemplateExpression (tag :: quasi) => do
    let tag ← recur o chainDepth false tag
    let quasi ← recurList o chainDepth true quasi
    convert o chainDepth tagged (node .taggedTemplateExpression (tag :: quasi))
  | node .chainExpression fields => do
    let fields ← recurList o (chainDepth + 1) false fields
    convert o chainDepth tagged (node .chainExpression fields)
  | node kind fields => do
    let fields ← recurList o chainDepth false fields
    convert o chainDepth tagged (node kind fields)

def recurList (o : AllocatorOptions) (chainDepth : ℕ) (tagged : Bool) : List Node → StateM ℕ (List Node)
  | [] => pure []
  | n :: rest => do
    let n ← recur o chainDepth tagged n
    let rest ← recurList o chainDepth tagged rest
    pure (n :: rest)

end

def transformAllocators (o : AllocatorOptions) (ast : Node) : Node := (recur o 0 false ast 0).1

end XChainVM.Metering
