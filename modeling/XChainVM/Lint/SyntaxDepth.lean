import Mathlib.Algebra.GroupWithZero.Nat
import XChainVM.Js.Value

/-! # The scan of a source for its syntactic depth

The tokens are cut into frames at delimiters and into segments at separators, on an explicit
stack. The scan stops early where what it has seen already passes the limit.
-/

namespace XChainVM.Lint

open Js

inductive Label where
  | num | regexp | string | name | privateId | eof
  | bracketL | bracketR | braceL | braceR | parenL | parenR | dollarBraceL
  | comma | semi | colon | dot | question | questionDot | arrow | ellipsis | backQuote
  | template | invalidTemplate
  | eq | assign | incDec | prefixOp
  | logicalOR | logicalAND | coalesce | bitwiseOR | bitwiseXOR | bitwiseAND
  | equality | relational | bitShift | plusMin | modulo | star | slash | starstar
  | break_ | case_ | catch_ | continue_ | debugger | default_ | do_ | else_ | finally_
  | for_ | function | if_ | return_ | switch | throw | try_ | var | const | while_ | with_
  | new | this | super | class_ | extends_ | export_ | import_
  | null | true_ | false_ | in_ | instanceof | typeof | void | delete
  deriving DecidableEq, Repr

structure Token where
  label : Label
  /-- The text of a name. -/
  value : String
  line : ℕ

inductive FrameKind where
  | top | brace | paren | bracket | template
  deriving DecidableEq, Repr

inductive Pending where
  | none | semi | brace
  deriving DecidableEq, Repr

structure Frame where
  kind : FrameKind
  prefixes : ℕ
  ops : ℕ
  child : ℕ
  best : ℕ
  openDo : ℕ
  pending : Pending

/-- The innermost frame, and the frames around it from the inside out. -/
structure Stack where
  frame : Frame
  below : List Frame

def FRAME_CONSTANT : FrameKind → ℕ
  | .top | .brace => 4
  | .paren | .bracket | .template => 2

namespace Label

def opener? : Label → Option FrameKind
  | parenL => some .paren
  | bracketL => some .bracket
  | braceL => some .brace
  | dollarBraceL => some .template
  | _ => none

def isCloser : Label → Bool
  | parenR | bracketR | braceR => true
  | _ => false

/-- `OP_LABELS` -/
def isOp : Label → Bool
  | eq | assign | incDec | prefixOp | logicalOR | logicalAND | coalesce | bitwiseOR | bitwiseXOR
  | bitwiseAND | equality | relational | bitShift | plusMin | modulo | star | slash | starstar
  | question | questionDot | dot | arrow | ellipsis | backQuote
  | new | typeof | void | delete | in_ | instanceof | function | class_
  | extends_ | return_ | throw | var | const | case_ | default_ | import_ => true
  | _ => false

/-- `OP_WEIGHT`, one for every label it does not list. -/
def opWeight : Label → ℕ
  | arrow => 3
  | parenL => 2
  | _ => 1

/-- `PREFIX_LABELS` -/
def isPrefix : Label → Bool
  | if_ | else_ | while_ | for_ | do_ | with_ | switch | try_ | catch_ | finally_ => true
  | _ => false

/-- `CONTINUE_LABELS` -/
def continues : Label → Bool
  | else_ | catch_ | finally_ => true
  | _ => false

/-- `NEW_STATEMENT_LABELS` -/
def startsStatement : Label → Bool
  | name | num | string | regexp | privateId
  | this | null | true_ | false_ | super | import_ | export_
  | new | typeof | void | delete | prefixOp
  | if_ | for_ | while_ | do_ | with_ | switch | try_ | var | const | return_
  | throw | break_ | continue_ | debugger | function | class_ | case_ | default_ => true
  | _ => false

/-- `LABEL_LEADERS`, which the start of the text is one of. -/
def leadsLabel : Option Label → Bool
  | none => true
  | some semi | some braceR | some parenR | some colon | some braceL | some else_ | some do_ => true
  | some _ => false

end Label

/-- `OP_NAMES` -/
def isOpName (value : String) : Bool := value = "yield" || value = "await"

def newFrame (kind : FrameKind) : Frame := ⟨kind, 0, 0, 0, 0, 0, .none⟩

namespace Frame

def closeSegment (frame : Frame) : Frame :=
  let value := frame.prefixes + frame.ops + frame.child
  if value > frame.best then { frame with best := value } else frame

def resetSegment (frame : Frame) : Frame := { frame with prefixes := 0, ops := 0, child := 0 }

def popInto (frame parent : Frame) : Frame :=
  let weight := FRAME_CONSTANT frame.kind + frame.closeSegment.best
  if weight > parent.child then { parent with child := weight } else parent

/-- A `while` carries on an open `do`. -/
def closeDo (frame : Frame) (label : Label) : Frame × Bool :=
  if label = .while_ ∧ 0 < frame.openDo then ({ frame with openDo := frame.openDo - 1 }, true)
  else (frame, label.continues)

def settlePending (frame : Frame) (label : Label) : Frame :=
  if frame.pending = .none then frame
  else
    let fromBrace := frame.pending = .brace
    let (settled, carry) := closeDo { frame with pending := .none } label
    if !carry && (!fromBrace || label.startsStatement) then settled.closeSegment.resetSegment else settled

end Frame

/-- Constants and open segments of the frames around the innermost one. -/
def enclosing (below : List Frame) : ℕ :=
  (below.map fun f => FRAME_CONSTANT f.kind + f.prefixes + f.ops).sum

namespace Stack

def depthNow (stack : Stack) : ℕ :=
  let f := stack.frame
  enclosing stack.below + FRAME_CONSTANT f.kind + max f.best (f.prefixes + f.ops + f.child)

def setFrame (stack : Stack) (frame : Frame) : Stack := { stack with frame }

/-- The stack after a token, and whether a segment or a frame was closed. -/
def applyToken (stack : Stack) (token : Token) (prev prevPrev : Option Label) : Stack × Bool :=
  let label := token.label
  let frame := stack.frame
  match label.opener? with
  | some kind =>
    let frame := if label = .parenL ∨ label = .bracketL then { frame with ops := frame.ops + label.opWeight } else frame
    (⟨newFrame kind, frame :: stack.below⟩, false)
  | none =>
    if label.isCloser then
      match stack.below with
      | [] => (stack, false)
      | parent :: below =>
        let parent := frame.popInto parent
        (⟨if frame.kind = .brace then { parent with pending := .brace } else parent, below⟩, true)
    else if label = .comma then (stack.setFrame { frame.closeSegment with ops := 0, child := 0 }, true)
    else if label = .semi then (stack.setFrame { frame.closeSegment with pending := .semi }, true)
    else if label.isPrefix then
      (stack.setFrame { frame with
        prefixes := frame.prefixes + 1, openDo := if label = .do_ then frame.openDo + 1 else frame.openDo }, false)
    else if label = .colon then
      if prev = some .name ∧ Label.leadsLabel prevPrev then
        (stack.setFrame { frame with prefixes := frame.prefixes + 1 }, false)
      else (stack, false)
    else if label.isOp ∨ (label = .name ∧ isOpName token.value) then
      (stack.setFrame { frame with ops := frame.ops + label.opWeight }, false)
    else (stack, false)

def closeAll (frame : Frame) : List Frame → Frame
  | [] => frame.closeSegment
  | parent :: below => closeAll (frame.popInto parent) below

def finalDepth (stack : Stack) : ℕ := FRAME_CONSTANT .top + (closeAll stack.frame stack.below).best

end Stack

structure Hit where
  line : ℕ
  depth : ℕ

/-- `depth > limit` -/
def passes (depth : ℕ) : Number → Bool
  | .finite q => q < depth
  | .infinity negative => negative
  | .nan => false

/-- The scan of the tokens. Where they end without an `eof`, the tokenizer has thrown. -/
def scan (limit : Number) : Stack → ℕ → Option Label → Option Label → List Token → Hit
  | stack, line, _, _, [] => ⟨line, stack.finalDepth⟩
  | stack, _, prev, prevPrev, token :: rest =>
    let settled := stack.setFrame (stack.frame.settlePending token.label)
    if token.label = .eof then ⟨token.line, settled.finalDepth⟩
    else
      let (next, closed) := settled.applyToken token prev prevPrev
      if closed && passes next.depthNow limit then ⟨token.line, next.depthNow⟩
      else scan limit next token.line (some token.label) prev rest

def scanSyntaxDepth (tokens : List Token) (limit : Number) : Hit :=
  scan limit ⟨newFrame .top, []⟩ 1 none none tokens

def MAX_SYNTAX_DEPTH : ℕ := 200

/-- A limit that is left out is `MAX_SYNTAX_DEPTH`. -/
def limitOr (limit : Option Number) : Number := limit.getD (.finite MAX_SYNTAX_DEPTH)

def findSyntaxDepth (tokens : List Token) (limit : Option Number) : List Hit :=
  let hit := scanSyntaxDepth tokens (limitOr limit)
  if passes hit.depth (limitOr limit) then [hit] else []

def measureSyntaxDepth (tokens : List Token) : ℕ := (scanSyntaxDepth tokens (.infinity false)).depth

end XChainVM.Lint
