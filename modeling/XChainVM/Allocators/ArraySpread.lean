import XChainVM.Machine.Effects

/-! # Array and argument spread

The metering pass turns a list of elements with a spread into a list of segments.
All segments are evaluated before `__arrspread` iterates the first source, where the
language iterates each source before it evaluates the next element. Element
expressions and iterators are computations of the contract. A contract may also have
replaced the builtins that the helper calls and the language does not.
-/

namespace XChainVM.Allocators.ArraySpread

open Machine

variable {σ ε χ V : Type}

inductive Element (σ ε χ V : Type) where
  | hole
  | plain (expr : Eff σ ε χ V)
  | spread (expr : Eff σ ε χ V)

namespace Element

def isSpread : Element σ ε χ V → Bool
  | spread _ => true
  | _ => false

def isHole : Element σ ε χ V → Bool
  | hole => true
  | _ => false

end Element

/-- What a list shows of its evaluation: which expression is evaluated, which source is
iterated, the contract's own code in place of a builtin, and the effects of each. -/
inductive Mark (ε : Type) where
  | evaluate (i : ℕ)
  | iterate (i : ℕ)
  | replacedBuiltin
  | inner (e : ε)
  deriving DecidableEq

abbrev Slots (V : Type) := List (Option V)

structure Realm (σ ε χ V : Type) where
  /-- The values an iterable yields to its end. -/
  iterate : V → Eff σ ε χ (List V)
  /-- The contract's own code where `Array.prototype.push`, called on a fresh array, is not
  the builtin or meets an inherited setter. -/
  push : Slots V → V → σ → Option (Eff σ ε χ (Slots V))
  /-- The contract's own code where arrays have not the builtin iterator. -/
  arrayIterator : Slots V → σ → Option (Eff σ ε χ (Slots V))
  /-- The contract's own code where `['h'][1]`, which the helper reads at a hole, finds an
  inherited getter. -/
  missingValue : σ → Option (Eff σ ε χ Unit)

namespace Realm

variable (w : Realm σ ε χ V)

/-- The contract's own code where there is any, the builtin's answer otherwise. -/
def orBuiltin {α : Type} (own : σ → Option (Eff σ ε χ α)) (answer : α) : Eff σ (Mark ε) χ α := fun s =>
  match own s with
  | none => (pure answer : Eff σ (Mark ε) χ α) s
  | some m => (do Eff.emit Mark.replacedBuiltin; Eff.lift Mark.inner m : Eff σ (Mark ε) χ α) s

def evaluate (i : ℕ) (expr : Eff σ ε χ V) : Eff σ (Mark ε) χ V := do
  Eff.emit (.evaluate i)
  Eff.lift .inner expr

def spreadOut (i : ℕ) (source : V) : Eff σ (Mark ε) χ (List V) := do
  Eff.emit (.iterate i)
  Eff.lift .inner (w.iterate source)

/-- Elements from position `i` on, appended to `r`, each source iterated in its turn. -/
def arrayAccumulation : ℕ → List (Element σ ε χ V) → Slots V → Eff σ (Mark ε) χ (Slots V)
  | _, [], r => pure r
  | i, .hole :: rest, r => arrayAccumulation (i + 1) rest (r ++ [none])
  | i, .plain expr :: rest, r => do
    let v ← evaluate i expr
    arrayAccumulation (i + 1) rest (r ++ [some v])
  | i, .spread expr :: rest, r => do
    let source ← evaluate i expr
    let vs ← w.spreadOut i source
    arrayAccumulation (i + 1) rest (r ++ vs.map some)

end Realm

inductive SegmentExpr (σ ε χ V : Type) where
  | h
  | e (expr : Eff σ ε χ V)
  | s (expr : Eff σ ε χ V)

inductive Segment (V : Type) where
  | h
  | e (v : V)
  | s (source : V)

def Element.toSegment : Element σ ε χ V → SegmentExpr σ ε χ V
  | hole => .h
  | plain expr => .e expr
  | spread argument => .s argument

def convertArraySpread (elements : List (Element σ ε χ V)) : Option (List (SegmentExpr σ ε χ V)) :=
  if elements.any Element.isSpread then some (elements.map Element.toSegment) else none

def convertCallSpread (meterCallSpread : Bool) (arguments : List (Element σ ε χ V)) :
    Option (List (SegmentExpr σ ε χ V)) :=
  if !meterCallSpread || !arguments.any Element.isSpread then none
  else some (arguments.map Element.toSegment)

/-- The array literal of segments, evaluated from position `i` on. -/
def segments : ℕ → List (SegmentExpr σ ε χ V) → Eff σ (Mark ε) χ (List (Segment V))
  | _, [] => pure []
  | i, .h :: rest => do
    let segs ← segments (i + 1) rest
    pure (.h :: segs)
  | i, .e expr :: rest => do
    let v ← Realm.evaluate i expr
    let segs ← segments (i + 1) rest
    pure (.e v :: segs)
  | i, .s expr :: rest => do
    let source ← Realm.evaluate i expr
    let segs ← segments (i + 1) rest
    pure (.s source :: segs)

def GROW_THRESHOLD : ℕ := 256

namespace Realm

variable (w : Realm σ ε χ V)

def pushAll : Slots V → List V → Eff σ (Mark ε) χ (Slots V)
  | r, [] => pure r
  | r, v :: vs => do
    let r ← orBuiltin (w.push r v) (r ++ [some v])
    pushAll r vs

/-- The loop of `__arrspread`, with `spread` elements copied so far. -/
def arrspreadFrom : ℕ → List (Segment V) → Slots V → ℕ → Eff σ (Mark ε) χ (Slots V)
  | _, [], r, spread => do
    if GROW_THRESHOLD < spread then Eff.charge spread
    pure r
  | i, .s source :: rest, r, spread => do
    let vs ← w.spreadOut i source
    let r ← w.pushAll r vs
    arrspreadFrom (i + 1) rest r (spread + vs.length)
  | i, .h :: rest, r, spread => do
    orBuiltin w.missingValue ()
    arrspreadFrom (i + 1) rest (r ++ [none]) spread
  | i, .e v :: rest, r, spread => do
    let r ← orBuiltin (w.push r v) (r ++ [some v])
    arrspreadFrom (i + 1) rest r spread

def arrspread (segs : List (Segment V)) : Eff σ (Mark ε) χ (Slots V) := w.arrspreadFrom 0 segs [] 0

end Realm

inductive Site (σ ε χ V : Type) where
  | literal (elements : List (Element σ ε χ V))
  | arguments (meterCallSpread : Bool) (elements : List (Element σ ε χ V))

namespace Site

def elements : Site σ ε χ V → List (Element σ ε χ V)
  | literal elements => elements
  | arguments _ elements => elements

def original (w : Realm σ ε χ V) (site : Site σ ε χ V) : Eff σ (Mark ε) χ (Slots V) :=
  w.arrayAccumulation 0 site.elements []

def converted : Site σ ε χ V → Option (List (SegmentExpr σ ε χ V))
  | literal elements => convertArraySpread elements
  | arguments meterCallSpread elements => convertCallSpread meterCallSpread elements

/-- A call spreads the array of the helper again, through the iterator of arrays. -/
def respread (w : Realm σ ε χ V) : Site σ ε χ V → Slots V → σ → Option (Eff σ ε χ (Slots V))
  | literal _ => fun _ _ => none
  | arguments _ _ => w.arrayIterator

def rewritten (w : Realm σ ε χ V) (site : Site σ ε χ V) : Eff σ (Mark ε) χ (Slots V) :=
  match site.converted with
  | some segs => do
    let values ← segments 0 segs
    let r ← w.arrspread values
    Realm.orBuiltin (site.respread w r) r
  | none => site.original w

end Site

def SpreadLast : List (Element σ ε χ V) → Prop
  | [] => True
  | .spread _ :: rest => rest.all Element.isHole
  | .plain _ :: rest | .hole :: rest => SpreadLast rest

def leading : ℕ → List (Element σ ε χ V) → Eff σ (Mark ε) χ Unit
  | _, [] => pure ()
  | i, .hole :: rest => leading (i + 1) rest
  | i, .plain expr :: rest => do
    let _ ← Realm.evaluate i expr
    leading (i + 1) rest
  | i, .spread expr :: _ => do
    let _ ← Realm.evaluate i expr
    pure ()

namespace Realm

variable (w : Realm σ ε χ V)

def PushesBuiltin : Slots V → List V → σ → Prop
  | _, [], _ => True
  | r, v :: vs, s => w.push r v s = none ∧ PushesBuiltin (r ++ [some v]) vs s

/-- Every push of `__arrspread` is the builtin one, no hole runs a getter, and `last` holds of the
list at the end. -/
def Intact (last : Slots V → σ → Prop) : List (Segment V) → Slots V → σ → Prop
  | [], r, s => last r s
  | .h :: rest, r, s => w.missingValue s = none ∧ Intact last rest (r ++ [none]) s
  | .e v :: rest, r, s => w.push r v s = none ∧ Intact last rest (r ++ [some v]) s
  | .s source :: rest, r, s => ∀ vs s', (w.iterate source s).2 = (.ok vs, s') →
      w.PushesBuiltin r vs s' ∧ Intact last rest (r ++ vs.map some) s'

end Realm

namespace Site

/-- The list is not rewritten; or no expression follows a spread, unless one throws up to the
first source, and the helper meets no code of the contract in place of a builtin. -/
def InOrder (w : Realm σ ε χ V) (site : Site σ ε χ V) (s : σ) : Prop :=
  ∀ segs, site.converted = some segs →
    (SpreadLast site.elements ∨ ∃ e, (leading 0 site.elements s).2.1 = .error e) ∧
    ∀ values s', (segments 0 segs s).2 = (.ok values, s') →
      w.Intact (fun r s => site.respread w r s = none) values [] s'

end Site

end XChainVM.Allocators.ArraySpread
