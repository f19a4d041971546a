import XChainVM.Harness.Values

/-! # The builtins behind the allocation wrappers

What each builtin reads of its receiver and arguments, in the order it reads it,
and what it asks to allocate. A walk over an iterator is observed for a number of
steps; a longer observation extends a shorter one.
-/

namespace XChainVM.Harness

open Js Machine

def arg (args : List Val) (i : ℕ) : Val := args.getD i .undefined

variable {σ : Type} (w : World σ)

namespace World

/-- `LengthOfArrayLike`. -/
def lengthOf (v : Val) : Act σ ℕ := do
  let length ← w.read v .length
  toLength <$> w.toNumber length

def integerOf (v : Val) : Act σ Integer := toIntegerOrInfinity <$> w.toNumber v

/-- `ToIndex`, where `undefined` is zero. -/
def indexOf (v : Val) : Act σ ℕ := do
  let n ← if v = .undefined then pure (.finite 0) else w.toNumber v
  match toIndex n with
  | some i => pure i
  | none => Act.throw

/-- `GetMethod(v, @@iterator)`. -/
def iteratorMethod (v : Val) : Act σ (Option Val) := do
  let method ← w.read v .iterator
  if method.isNullish then pure none
  else if ← ask (fun s => ⟨0, some (w.isCallable s method, s)⟩) then pure (some method)
  else Act.throw

def iteratorOf (v method : Val) : Act σ Val := ask fun s => w.openIterator s v method

def stepOf (it : Val) : Act σ (Option Val) := ask fun s => w.step s it

theorem quiet_stepOf (it : Val) : Act.Quiet (w.stepOf it) := quiet_ask _

theorem quiet_lengthOf (v : Val) : Act.Quiet (w.lengthOf v) :=
  (w.quiet_read v .length).bind fun length => (w.quiet_toNumber length).map toLength

theorem quiet_integerOf (v : Val) : Act.Quiet (w.integerOf v) :=
  (w.quiet_toNumber v).map toIntegerOrInfinity

theorem quiet_iteratorMethod (v : Val) : Act.Quiet (w.iteratorMethod v) := by
  apply (w.quiet_read v .iterator).bind
  intro method
  split
  · exact Act.quiet_pure _
  · apply (quiet_ask _).bind
    intro callable
    split
    · exact Act.quiet_pure _
    · exact Act.quiet_throw

end World

/-- `Array.prototype.fill`: the elements between the two positions. -/
def fillExtent (this : Val) (args : List Val) : Act σ ℕ := do
  let len ← w.lengthOf this
  let start ← w.integerOf (arg args 1)
  let stop ← if arg args 2 = .undefined then pure (.finite len) else w.integerOf (arg args 2)
  w.fitting (relativeIndex len stop - relativeIndex len start)

def fillNative (this : Val) (args : List Val) : Act σ Unit := do
  Act.alloc (← fillExtent w this args)

/-- The mapping function of `Array.from`, called on an element. -/
def mapElement (mapping : Option Val) (v : Val) (k : ℕ) : Act σ Unit :=
  match mapping with
  | some f => (fun _ => ()) <$> ask fun s => w.map s f v k
  | none => pure ()

/-- Every element of an iterator is mapped and stored before the next is asked for. -/
def collectMapped (mapping : Option Val) (it : Val) : ℕ → ℕ → Act σ ℕ
  | 0, k => pure k
  | fuel + 1, k => do
    match ← w.stepOf it with
    | none => pure k
    | some v => do
      mapElement w mapping v k
      Act.alloc 1
      collectMapped mapping it fuel (k + 1)

/-- `GetMethod` of a mapping function, none where it is `undefined`. -/
def mappingOf (v : Val) : Act σ (Option Val) := do
  if v = .undefined then pure none
  else if ← ask (fun s => ⟨0, some (w.isCallable s v, s)⟩) then pure (some v)
  else Act.throw

/-- `Array.from`, which answers the length of its array. -/
def fromNative (fuel : ℕ) (args : List Val) : Act σ ℕ := do
  let mapping ← mappingOf w (arg args 1)
  if (arg args 0).isNullish then Act.throw
  else match ← w.iteratorMethod (arg args 0) with
    | some method => do
      let it ← w.iteratorOf (arg args 0) method
      collectMapped w mapping it fuel 0
    | none => do
      let len ← w.lengthOf (arg args 0) >>= w.fitting
      Act.alloc len
      pure len

/-- `String.prototype.repeat`. -/
def repeatExtent (lang : Language) (this : Val) (args : List Val) : Act σ ℕ := do
  let length ← w.toText lang this
  match ← w.integerOf (arg args 0) with
  | .finite n => if n < 0 then Act.throw else w.fitting (length * n.toNat)
  | .infinity _ => Act.throw

def repeatNative (lang : Language) (this : Val) (args : List Val) : Act σ Unit := do
  Act.alloc (← repeatExtent w lang this args)

/-- `String.prototype.padStart` and `padEnd`, whose result has the length asked for. -/
def padNative (lang : Language) (this : Val) (args : List Val) : Act σ Unit := do
  let length ← w.toText lang this
  let target ← toLength <$> w.toNumber (arg args 0)
  if target ≤ length then pure ()
  else do
    let filler ← if arg args 1 = .undefined then pure 1 else w.toText lang (arg args 1)
    if filler = 0 then pure () else Act.alloc (← w.fitting target)

def maxByteLengthOf (options : Val) : Act σ (Option ℕ) :=
  match options with
  | .prim _ => pure none
  | .object _ => do
    let limit ← w.read options .maxByteLength
    if limit = .undefined then pure none else some <$> w.indexOf limit

/-- The bytes of `new ArrayBuffer(length, options)`. Up to its limit a buffer only reserves
addresses; the bytes it grows by are allocated, and charged, where it is resized. -/
def arrayBufferExtent (args : List Val) : Act σ ℕ := do
  let n ← w.indexOf (arg args 0)
  match ← maxByteLengthOf w (arg args 1) with
  | some limit =>
    if limit < n then Act.throw
    else do
      let _ ← w.fitting limit
      w.fitting n
  | none => w.fitting n

/-- `new ArrayBuffer(length, options)`. -/
def arrayBufferNative (args : List Val) : Act σ Unit := do
  Act.alloc (← arrayBufferExtent w args)

def countSteps (it : Val) : ℕ → ℕ → Act σ (Option ℕ)
  | 0, _ => pure none
  | fuel + 1, k => do
    match ← w.stepOf it with
    | none => pure (some k)
    | some _ => countSteps it fuel (k + 1)

/-- The number of elements of a typed array built from an object, none for a view or for
a walk that is still going on. -/
def typedElements (fuel : ℕ) (source : ℕ) : Act σ (Option ℕ) := do
  let own ← ask fun s => ⟨0, some (w.typedArrayLength s source, s)⟩
  match own with
  | some n => pure (some n)
  | none =>
    if ← ask (fun s => ⟨0, some (w.isArrayBuffer s source, s)⟩) then pure none
    else match ← w.iteratorMethod (.object source) with
      | some method => do
        let it ← w.iteratorOf (.object source) method
        countSteps w it fuel 0
      | none => some <$> w.lengthOf (.object source)

/-- The elements of `new TypedArray(source)`. -/
def elementsOf (fuel : ℕ) (args : List Val) : Act σ (Option ℕ) :=
  match arg args 0 with
  | .object source => typedElements w fuel source
  | .prim p => some <$> w.indexOf (.prim p)

def typedArrayExtent (fuel bytesPerElement : ℕ) (args : List Val) : Act σ (Option ℕ) := do
  let elements ← elementsOf w fuel args
  match elements with
  | some n => do
    let _ ← w.fitting (n * bytesPerElement)
    pure (some n)
  | none => pure none

/-- `new TypedArray(source)`, which answers the length of its view. -/
def typedArrayNative (fuel bytesPerElement : ℕ) (args : List Val) : Act σ (Option ℕ) := do
  match ← typedArrayExtent w fuel bytesPerElement args with
  | some n => do
    Act.alloc (n * bytesPerElement)
    pure (some n)
  | none => pure none

/-- Each value goes through the metered `add` or `set`, which charges one unit and
stores at most one entry. -/
def addEach (entries : Bool) (it : Val) : ℕ → ℕ → Act σ (Option ℕ)
  | 0, _ => pure none
  | fuel + 1, k => do
    match ← w.stepOf it with
    | none => pure (some k)
    | some v =>
      if entries then ask fun s => w.entry s v
      Act.charge 1
      ask fun s => w.reserve s (if entries then 2 else 1)
      Act.alloc 1
      addEach entries it fuel (k + 1)

/-- `new Set(iterable)` and `new Map(iterable)`, which answer their size; `entries` tells
that the values are read as keys and values. -/
def collectionNative (fuel : ℕ) (entries : Bool) (args : List Val) : Act σ (Option ℕ) := do
  if (arg args 0).isNullish then pure (some 0)
  else match ← w.iteratorMethod (arg args 0) with
    | some method => do
      let it ← w.iteratorOf (arg args 0) method
      addEach w entries it fuel 0
    | none => Act.throw

end XChainVM.Harness
