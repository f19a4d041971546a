import XChainVM.Harness.Builtins

/-! # The allocation wrappers

Each wrapper probes its receiver or argument for a size, charges for it and then
hands the call to the builtin. The harness is sloppy code, so a receiver arrives
as an object, and the arguments object follows an assignment to a parameter. All
metering gates and armed rules are on.
-/

namespace XChainVM.Harness

open Js Machine

variable {σ : Type} (w : World σ)

/-- `__gas(n)` for a number above one. -/
def gas (n : Number) : Act σ Unit := Act.charge (billed n)

/-- `__allocGas` of a number. -/
def allocNumber (x : Number) : Act σ Unit := if exceeds x 1 then gas x else pure ()

def allocGas (v : Val) : Act σ Unit := do
  let x ← w.toNumber v
  allocNumber x

def GROW_THRESHOLD : ℕ := 256

/-- The armed `Function.prototype.apply` on `arguments`: its stack units are reserved and
a long argument list is charged before the call. -/
def forward (args : List Val) : Act σ Unit := do
  ask fun s => w.reserve s args.length
  if GROW_THRESHOLD < args.length then Act.charge args.length else pure ()

/-- `...arguments`. -/
def spreadArguments (args : List Val) : Act σ (List Val) := ask fun s => w.spread s args

/-- `v && typeof v[key] === 'number'`. -/
def sizedBy (v : Val) (key : Key) : Act σ Bool :=
  if v.truthy then Val.isNumber <$> w.read v key else pure false

def fill (this : Val) (args : List Val) : Act σ Unit := do
  let n ← if this.isNullish then pure (.number (.finite 0)) else w.read this .length
  allocGas w n
  forward w args
  fillNative w this args

def arrayFrom (fuel : ℕ) (args : List Val) : Act σ Unit := do
  if ← sizedBy w (arg args 0) .length then do
    allocGas w (← w.read (arg args 0) .length)
    forward w args
    let _ ← fromNative w fuel args
  else if ← sizedBy w (arg args 0) .size then do
    allocGas w (← w.read (arg args 0) .size)
    forward w args
    let _ ← fromNative w fuel args
  else do
    forward w args
    let length ← fromNative w fuel args
    allocNumber (.finite length)

def repeatText (lang : Language) (this : Val) (args : List Val) : Act σ Unit := do
  let c ← w.toNumber (arg args 0)
  if exceeds c 0 then do
    let length ← w.toText lang this
    allocNumber (times c length)
  forward w args
  repeatNative w lang this args

/-- `len = +len` reaches the arguments object when an argument was given. -/
def withNumber (args : List Val) (n : Number) : List Val :=
  match args with
  | [] => []
  | _ :: rest => .number n :: rest

def pad (lang : Language) (this : Val) (args : List Val) : Act σ Unit := do
  let len ← w.toNumber (arg args 0)
  allocNumber len
  forward w (withNumber args len)
  padNative w lang this (withNumber args len)

/-- `__meterBinaryCtor('ArrayBuffer')`. -/
def arrayBuffer (args : List Val) : Act σ Unit :=
  match arg args 0 with
  | .prim (.number n) => do
    allocNumber n
    arrayBufferNative w (← spreadArguments w args)
  | _ => do arrayBufferNative w (← spreadArguments w args)

/-- `a && typeof a[Symbol.iterator] === 'function'`. -/
def iterableBy (v : Val) : Act σ Bool := do
  if v.truthy then do
    let method ← w.read v .iterator
    ask fun s => ⟨0, some (w.isCallable s method, s)⟩
  else pure false

/-- `a[key] * bytesPerElement`, charged. -/
def allocBytes (bytesPerElement : ℕ) (v : Val) : Act σ Unit := do
  let n ← w.toNumber v
  allocNumber (times n bytesPerElement)

def allocRealized (size : ℕ → Number) : Option ℕ → Act σ Unit
  | some n => allocNumber (size n)
  | none => pure ()

/-- `__meterBinaryCtor` of a typed array. -/
def typedArray (fuel bytesPerElement : ℕ) (args : List Val) : Act σ Unit :=
  match arg args 0 with
  | .prim (.number n) => do
    allocNumber (times n bytesPerElement)
    let _ ← typedArrayNative w fuel bytesPerElement (← spreadArguments w args)
  | a => do
    if ← sizedBy w a .length then do
      allocBytes w bytesPerElement (← w.read a .length)
      let _ ← typedArrayNative w fuel bytesPerElement (← spreadArguments w args)
    else if ← sizedBy w a .size then do
      allocBytes w bytesPerElement (← w.read a .size)
      let _ ← typedArrayNative w fuel bytesPerElement (← spreadArguments w args)
    else if ← iterableBy w a then do
      let length ← typedArrayNative w fuel bytesPerElement (← spreadArguments w args)
      allocRealized (fun n => times (.finite n) bytesPerElement) length
    else do
      let _ ← typedArrayNative w fuel bytesPerElement (← spreadArguments w args)

/-- `__meterCollectionCtor` of `Set` or `Map`. -/
def collection (fuel : ℕ) (entries : Bool) (args : List Val) : Act σ Unit := do
  if ← sizedBy w (arg args 0) .length then do
    allocGas w (← w.read (arg args 0) .length)
    let _ ← collectionNative w fuel entries (← spreadArguments w args)
  else if ← sizedBy w (arg args 0) .size then do
    allocGas w (← w.read (arg args 0) .size)
    let _ ← collectionNative w fuel entries (← spreadArguments w args)
  else if ← iterableBy w (arg args 0) then do
    let size ← collectionNative w fuel entries (← spreadArguments w args)
    allocRealized (fun n => .finite n) size
  else do
    let _ ← collectionNative w fuel entries (← spreadArguments w args)

/-- One call of a wrapper that charges before it delegates. -/
inductive Call where
  | fill (this : Val) (args : List Val)
  | arrayFrom (args : List Val)
  | repeatText (this : Val) (args : List Val)
  | pad (this : Val) (args : List Val)
  | arrayBuffer (args : List Val)
  | typedArray (bytesPerElement : ℕ) (args : List Val)
  | collection (entries : Bool) (args : List Val)

/-- The call with its walks observed for `fuel` steps. -/
def Call.run (lang : Language) (fuel : ℕ) : Call → Act σ Unit
  | .fill this args => Harness.fill w this args
  | .arrayFrom args => Harness.arrayFrom w fuel args
  | .repeatText this args => Harness.repeatText w lang this args
  | .pad this args => Harness.pad w lang this args
  | .arrayBuffer args => Harness.arrayBuffer w args
  | .typedArray bytesPerElement args => Harness.typedArray w fuel bytesPerElement args
  | .collection entries args => Harness.collection w fuel entries args

end XChainVM.Harness
