import XChainVM.Machine.Effects

/-! # Object spread

An object literal with a spread and no method or accessor becomes `__objspread` of
its segments: everything is evaluated first, and the object is then filled by
assignment from the keys that `Object.keys` lists. The language defines each property
in its turn and copies symbols too. Any other literal with a spread stays as it is,
each source passed through `__objspreadmeter`.
-/

namespace XChainVM.Allocators.ObjectSpread

open Machine

variable {σ ε χ K V : Type} [DecidableEq K]

/-- An object under construction: its prototype and its own properties in order. -/
structure Target (K V : Type) where
  proto : V
  props : List (K × V)

namespace Target

def hasOwn (t : Target K V) (key : K) : Bool := t.props.any fun prop => prop.1 = key

/-- `CreateDataProperty`, which keeps the place of a property that is there. -/
def define (t : Target K V) (key : K) (v : V) : Target K V :=
  if t.hasOwn key then
    { t with props := t.props.map fun prop => if prop.1 = key then (key, v) else prop }
  else { t with props := t.props ++ [(key, v)] }

end Target

structure Realm (σ ε χ K V : Type) where
  objectPrototype : V
  isObject : V → Bool
  isNull : V → Bool
  isUndefined : V → Bool
  protoKey : K
  isSymbol : K → Bool
  toPropertyKey : V → Eff σ ε χ K
  ownKeys : V → σ → List K
  /-- The value has the key as an own enumerable property. -/
  enumerable : V → K → σ → Bool
  get : V → K → Eff σ ε χ V
  /-- What an assignment does where the prototype chain has an accessor or a read-only
  property for the key, none where it has neither. -/
  inherited : V → K → σ → Option (Target K V → V → Eff σ ε χ (Target K V))
  /-- The method or accessor of the literal at a position. -/
  member : ℕ → Target K V → Eff σ ε χ (Target K V)

/-- One element of a literal. A value is evaluated under the name it takes when it is an
anonymous function. -/
inductive Property (σ ε χ K V : Type) where
  | spread (argument : Eff σ ε χ V)
  | proto (value : Eff σ ε χ V)
  | named (key : K) (value : Option K → Eff σ ε χ V)
  | computed (key : Eff σ ε χ V) (value : Option K → Eff σ ε χ V)
  | member (position : ℕ)

namespace Property

def isSpread : Property σ ε χ K V → Bool
  | spread _ => true
  | _ => false

def isMember : Property σ ε χ K V → Bool
  | member _ => true
  | _ => false

end Property

variable (w : Realm σ ε χ K V)

namespace Realm

def isNullish (v : V) : Bool := w.isNull v || w.isUndefined v

/-- `__proto__: v`, which ignores a value that is no object and not `null`. -/
def setProto (t : Target K V) (v : V) : Target K V :=
  if w.isObject v || w.isNull v then { t with proto := v } else t

def emptyObject : Target K V := ⟨w.objectPrototype, []⟩

def copyKeys (source : V) : List K → Target K V → Eff σ ε χ (Target K V)
  | [], t => pure t
  | key :: keys, t => do
    let s ← Eff.state
    if w.enumerable source key s then do
      let v ← w.get source key
      copyKeys source keys (t.define key v)
    else copyKeys source keys t

def copyDataProperties (t : Target K V) (source : V) : Eff σ ε χ (Target K V) :=
  if w.isNullish source then pure t
  else do
    let s ← Eff.state
    w.copyKeys source (w.ownKeys source s) t

def propertyDefinitions : List (Property σ ε χ K V) → Target K V → Eff σ ε χ (Target K V)
  | [], t => pure t
  | .spread argument :: rest, t => do
    let source ← argument
    let t ← w.copyDataProperties t source
    propertyDefinitions rest t
  | .proto value :: rest, t => do
    let v ← value
    propertyDefinitions rest (w.setProto t v)
  | .named key value :: rest, t => do
    let v ← value (some key)
    propertyDefinitions rest (t.define key v)
  | .computed key value :: rest, t => do
    let keyValue ← key
    let key ← w.toPropertyKey keyValue
    let v ← value (some key)
    propertyDefinitions rest (t.define key v)
  | .member position :: rest, t => do
    let t ← w.member position t
    propertyDefinitions rest t

def original (properties : List (Property σ ε χ K V)) : Eff σ ε χ (Target K V) :=
  w.propertyDefinitions properties w.emptyObject

end Realm

inductive SegmentKey (K V : Type) where
  | key (key : K)
  | value (v : V)

inductive Segment (K V : Type) where
  | s (source : V)
  | p (key : SegmentKey K V) (v : V)

namespace Realm

def segments : List (Property σ ε χ K V) → Eff σ ε χ (List (Segment K V))
  | [] => pure []
  | .spread argument :: rest => do
    let source ← argument
    let segs ← segments rest
    pure (.s source :: segs)
  | .proto value :: rest => do
    let v ← value
    let segs ← segments rest
    pure (.p (.key w.protoKey) v :: segs)
  | .named key value :: rest => do
    let v ← value none
    let segs ← segments rest
    pure (.p (.key key) v :: segs)
  | .computed key value :: rest => do
    let keyValue ← key
    let v ← value none
    let segs ← segments rest
    pure (.p (.value keyValue) v :: segs)
  | .member _ :: rest => segments rest

/-- `r[key] = v` in sloppy code. -/
def assign (t : Target K V) (key : K) (v : V) : Eff σ ε χ (Target K V) :=
  if t.hasOwn key then pure (t.define key v)
  else do
    let s ← Eff.state
    match w.inherited t.proto key s with
    | none => pure (t.define key v)
    | some other => other t v

/-- `Object.keys`. -/
def okeys (source : V) (s : σ) : List K :=
  (w.ownKeys source s).filter fun key => !w.isSymbol key && w.enumerable source key s

def assignKeys (source : V) : List K → Target K V → Eff σ ε χ (Target K V)
  | [], t => pure t
  | key :: keys, t => do
    let v ← w.get source key
    let t ← w.assign t key v
    assignKeys source keys t

def segmentKey : SegmentKey K V → Eff σ ε χ K
  | .key key => pure key
  | .value v => w.toPropertyKey v

def GROW_THRESHOLD : ℕ := 256

/-- The loop of `__objspread`, with `spread` keys copied so far. -/
def objspreadFrom : List (Segment K V) → Target K V → ℕ → Eff σ ε χ (Target K V)
  | [], t, spread => do
    if GROW_THRESHOLD < spread then Eff.charge spread
    pure t
  | .s source :: rest, t, spread =>
    if w.isNullish source then objspreadFrom rest t spread
    else do
      let s ← Eff.state
      let t ← w.assignKeys source (w.okeys source s) t
      objspreadFrom rest t (spread + (w.okeys source s).length)
  | .p key v :: rest, t, spread => do
    let key ← w.segmentKey key
    let t ← w.assign t key v
    objspreadFrom rest t spread

/-- `__objspreadmeter`. -/
def objspreadmeter (source : V) : Eff σ ε χ V :=
  if w.isNullish source then pure source
  else do
    let s ← Eff.state
    if GROW_THRESHOLD < (w.okeys source s).length then Eff.charge (w.okeys source s).length
    pure source

/-- A spread source passed through `__objspreadmeter`. -/
def meterSpread : Property σ ε χ K V → Property σ ε χ K V
  | .spread argument => .spread (do let source ← argument; w.objspreadmeter source)
  | property => property

/-- What `convertObjectSpread` puts in place of a literal. -/
def rewritten (properties : List (Property σ ε χ K V)) : Eff σ ε χ (Target K V) :=
  if !properties.any Property.isSpread then w.original properties
  else if properties.any Property.isMember then
    w.original (properties.map w.meterSpread)
  else do
    let segs ← w.segments properties
    w.objspreadFrom segs w.emptyObject 0

end Realm

end XChainVM.Allocators.ObjectSpread
