import XChainVM.Harness.Wrappers

/-! # Wrappers that loop

The wrappers whose own code loops over their receiver, its keys or their arguments. Each
round of such a loop is entered in the ledger as one unit allocated. A loop whose length a
contract decides is observed for a number of rounds.
-/

namespace XChainVM.Harness

open Js Machine

structure LoopWorld (σ : Type) extends World σ where
  /-- `v[i]` -/
  element : σ → Val → ℕ → Reply σ Val
  /-- `v.raw` -/
  rawStrings : σ → Val → Reply σ Val
  /-- A conversion to a primitive without a hint. -/
  toDefault : σ → ℕ → Reply σ Prim
  isArray : σ → ℕ → Bool
  arrayLength : σ → ℕ → ℕ
  /-- The enumerable keys of an object, its own and the inherited. -/
  keys : σ → ℕ → List ℕ
  /-- The key was not deleted since they were listed. -/
  isPresent : σ → ℕ → ℕ → Bool
  hasOwn : σ → ℕ → ℕ → Bool
  property : σ → ℕ → ℕ → Reply σ Val
  /-- The builtin behind a wrapper. -/
  native : σ → Reply σ Unit

variable {σ : Type} (w : LoopWorld σ) (lang : Language)

def iterate : Act σ Unit := Act.alloc 1

def iterations (ledger : List Entry) : ℕ := allocated ledger

def look {α : Type} (f : σ → α) : Act σ α := fun s => ([], some (f s, s))

/-- `typeof v === 'function'` -/
def callable (v : Val) : Act σ Bool := look fun s => w.isCallable s v

/-- `orig.apply(this, arguments)` -/
def delegate (args : List Val) : Act σ (Option Unit) := do
  forward w.toWorld args
  ask w.native
  pure (some ())

/-- `bound < v` -/
def primAbove (bound : ℚ) : Prim → Act σ Bool
  | .symbol => Act.throw
  | .bigint z => pure (bound < z)
  | p => do return exceeds (← w.primToNumber p) bound

def above (bound : ℚ) : Val → Act σ Bool
  | .prim p => primAbove w bound p
  | .object id => do primAbove w bound (← ask fun s => w.toPrimitive s id .number)

def MAX_DOUBLINGS : ℕ := 1024

/-- `while (m < n) { m *= 2; lg++; }`, where `m` becomes infinite after 1024 rounds. -/
def doublings (n : Val) : ℕ → ℕ → Act σ ℕ
  | 0, lg => do
    let _ ← above w 0 n
    pure lg
  | more + 1, lg => do
    if ← above w (2 ^ lg) n then do
      iterate
      doublings n more (lg + 1)
    else pure lg

/-- `i++`, which stays at 2^53. -/
def increment (i : ℕ) : ℕ := if i < 2 ^ 53 then i + 1 else i

def stringLength : Val → ℕ
  | .prim (.string s) => textLength s
  | _ => 0

def scan (this n : Val) : ℕ → ℕ → ℕ → Act σ (Option ℕ)
  | 0, _, _ => pure none
  | fuel + 1, i, bytes => do
    if ← above w i n then do
      iterate
      let v ← ask fun s => w.element s this i
      scan this n fuel (increment i) (bytes + stringLength v)
    else pure (some bytes)

/-- `x + k` for a count `k` -/
def plusCount : Number → ℕ → Number
  | .finite q, k => .finite (q + k)
  | x, _ => x

def lengthOrZero (this : Val) : Act σ Val :=
  if this.isNullish then pure (.number (.finite 0)) else w.read this .length

/-- `typeof cmp !== 'function' && n > 1` -/
def defaultCompare (cmp n : Val) : Act σ Bool := do
  if ← callable w cmp then pure false else above w 1 n

/-- `__msort` -/
def sort (fuel : ℕ) (this : Val) (args : List Val) : Act σ (Option Unit) := do
  let n ← lengthOrZero w this
  if ← defaultCompare w (arg args 0) n then do
    let lg ← doublings w n MAX_DOUBLINGS 0
    match ← scan w this n fuel 0 0 with
    | none => pure none
    | some bytes => do
      let x ← w.toNumber n
      allocNumber (plusCount (times x lg) bytes)
      delegate w args
  else do
    allocGas w.toWorld n
    delegate w args

/-- `__tasort` -/
def typedSort (this : Val) (args : List Val) : Act σ (Option Unit) := do
  let n ← lengthOrZero w this
  if ← defaultCompare w (arg args 0) n then do
    let lg ← doublings w n MAX_DOUBLINGS 0
    let x ← w.toNumber n
    allocNumber (times x lg)
    delegate w args
  else do
    allocGas w.toWorld n
    delegate w args

def numberSum : Number → Number → Number
  | .finite p, .finite q => .finite (p + q)
  | .infinity a, .infinity b => if a = b then .infinity a else .nan
  | .infinity a, .finite _ | .finite _, .infinity a => .infinity a
  | _, _ => .nan

def primText : Prim → Option String
  | .undefined => some "undefined"
  | .null => some "null"
  | .bool b => some (if b then "true" else "false")
  | .number x => some (lang.numberText x)
  | .bigint z => some (toString z)
  | .string s => some s
  | .symbol => none

def isString : Prim → Bool
  | .string _ => true
  | _ => false

/-- `p + q` -/
def primSum (p q : Prim) : Act σ Prim :=
  if isString p || isString q then
    match primText lang p, primText lang q with
    | some a, some b => pure (.string (a ++ b))
    | _, _ => Act.throw
  else match p, q with
    | .bigint a, .bigint b => pure (.bigint (a + b))
    | p, q => do return .number (numberSum (← w.primToNumber p) (← w.primToNumber q))

def toPrim : Val → Act σ Prim
  | .prim p => pure p
  | .object id => ask fun s => w.toDefault s id

def plus (a b : Val) : Act σ Val := do
  let p ← toPrim w a
  let q ← toPrim w b
  return .prim (← primSum w lang p q)

/-- `(a && typeof a.length === 'number') ? a.length : 1` -/
def argumentLength (a : Val) : Act σ Val := do
  if ← sizedBy w.toWorld a .length then w.read a .length else pure (.number (.finite 1))

def addLengths (n : Val) : List Val → Act σ Val
  | [] => pure n
  | a :: rest => do
    iterate
    let length ← argumentLength w a
    let n ← plus w lang n length
    addLengths n rest

/-- `Array.prototype.concat` -/
def concat (this : Val) (args : List Val) : Act σ (Option Unit) := do
  let n ← lengthOrZero w this
  let n ← addLengths w lang n args
  allocGas w.toWorld n
  delegate w args

/-- `(typeof a === 'string') ? a.length : 1` -/
def textArgument : Val → ℕ
  | .prim (.string s) => textLength s
  | _ => 1

def addTexts (n : ℕ) : List Val → Act σ ℕ
  | [] => pure n
  | a :: rest => do
    iterate
    addTexts (n + textArgument a) rest

/-- `String.prototype.concat`, where the receiver is converted first. -/
def concatText (this : Val) (args : List Val) : Act σ (Option Unit) := do
  let n ← w.toText lang this
  let n ← addTexts n args
  allocNumber (.finite n)
  delegate w args

/-- `c !== null && typeof c === 'object'`, pushed. -/
def push (c : Val) (d : ℕ) (stack : List (ℕ × ℕ)) : Act σ (List (ℕ × ℕ)) :=
  match c with
  | .prim _ => pure stack
  | .object id => do
    if ← callable w (.object id) then pure stack else pure ((id, d) :: stack)

def scanElements (id d : ℕ) : ℕ → ℕ → List (ℕ × ℕ) → Act σ (List (ℕ × ℕ))
  | 0, _, stack => pure stack
  | left + 1, i, stack => do
    iterate
    let c ← ask fun s => w.element s (.object id) i
    let stack ← push w c (d + 1) stack
    scanElements id d left (i + 1) stack

def scanKeys (id d : ℕ) : List ℕ → ℕ → List (ℕ × ℕ) → Act σ (ℕ × List (ℕ × ℕ))
  | [], own, stack => pure (own, stack)
  | key :: rest, own, stack => do
    if ← look fun s => w.isPresent s id key then do
      iterate
      if ← look fun s => w.hasOwn s id key then do
        let c ← ask fun s => w.property s id key
        let stack ← push w c (d + 1) stack
        scanKeys id d rest (own + 1) stack
      else scanKeys id d rest own stack
    else scanKeys id d rest own stack

/-- `if (w > 1) __gasFunc(w)` -/
def chargeWidth (width : ℕ) : Act σ Unit := if 1 < width then Act.charge width else pure ()

def guardNode (limit id d : ℕ) (stack : List (ℕ × ℕ)) : Act σ (List (ℕ × ℕ)) := do
  Act.charge 1
  if limit < d then Act.throw
  else if ← look fun s => w.isArray s id then do
    let width ← look fun s => w.arrayLength s id
    chargeWidth width
    scanElements w id d width 0 stack
  else do
    let keys ← look fun s => w.keys s id
    let (own, stack) ← scanKeys w id d keys 0 stack
    chargeWidth own
    pure stack

def guardLoop (limit : ℕ) : ℕ → List (ℕ × ℕ) → Act σ (Option Unit)
  | 0, _ => pure none
  | _ + 1, [] => pure (some ())
  | fuel + 1, (id, d) :: stack => do
    let stack ← guardNode w limit id d stack
    guardLoop limit fuel stack

/-- `__guardNativeDepth` -/
def guardNativeDepth (limit fuel : ℕ) (root : Val) : Act σ (Option Unit) := do
  if limit = 0 then pure (some ())
  else do
    let stack ← push w root 1 []
    guardLoop w limit fuel stack

/-- The segments with the substitutions between them; it answers the length of the text. -/
def rawSegments (literals : Val) (args : List Val) : ℕ → ℕ → ℕ → Act σ ℕ
  | 0, _, length => pure length
  | left + 1, i, length => do
    iterate
    let segment ← ask fun s => w.element s literals i
    let segmentLength ← w.toText lang segment
    if left = 0 then pure (length + segmentLength)
    else if i + 1 < args.length then do
      let substitution ← w.toText lang (arg args (i + 1))
      rawSegments literals args left (i + 1) (length + segmentLength + substitution)
    else rawSegments literals args left (i + 1) (length + segmentLength)

/-- The armed `String.raw`. -/
def raw (args : List Val) : Act σ (Option Unit) := do
  if (arg args 0).isNullish then delegate w args
  else do
    let literals ← ask fun s => w.rawStrings s (arg args 0)
    if literals.isNullish then delegate w args
    else do
      let count ← w.lengthOf literals
      if count = 0 then pure (some ())
      else do
        allocNumber (.finite count)
        let length ← rawSegments w lang literals args count 0 0
        allocNumber (.finite length)
        pure (some ())

/-- `for (i = 0; i < n; i++) c[i] = a[i]` -/
def copyElements (a : Val) : ℕ → ℕ → Act σ Unit
  | 0, _ => pure ()
  | left + 1, i => do
    iterate
    let _ ← ask fun s => w.element s a i
    copyElements a left (i + 1)

def nativeApply : Act σ (Option Unit) := do
  ask w.native
  pure (some ())

/-- Stack units of `n` arguments, and the charge for a long list. -/
def reserveArguments (n : ℕ) : Act σ Unit := do
  ask fun s => w.reserve s n
  if GROW_THRESHOLD < n then Act.charge n else pure ()

/-- `__nstApply` -/
def apply (this args : Val) : Act σ (Option Unit) := do
  if ← callable w this then
    match args with
    | .prim p =>
      if (Val.prim p).isNullish then do
        reserveArguments w 0
        nativeApply w
      else nativeApply w
    | .object id => do
      if ← look fun s => w.isArray s id then do
        let n ← look fun s => w.arrayLength s id
        reserveArguments w n
        nativeApply w
      else do
        let n ← w.lengthOf (.object id)
        reserveArguments w n
        copyElements w (.object id) n 0
        nativeApply w
  else nativeApply w

inductive LoopCall where
  | sort (this : Val) (args : List Val)
  | typedSort (this : Val) (args : List Val)
  | concat (this : Val) (args : List Val)
  | concatText (this : Val) (args : List Val)
  | guardNativeDepth (root : Val)
  | raw (args : List Val)
  | apply (this args : Val)

/-- The call with its loops observed for `fuel` rounds, where `limit` is the depth limit. -/
def LoopCall.run (limit fuel : ℕ) : LoopCall → Act σ (Option Unit)
  | .sort this args => Harness.sort w fuel this args
  | .typedSort this args => Harness.typedSort w this args
  | .concat this args => Harness.concat w lang this args
  | .concatText this args => Harness.concatText w lang this args
  | .guardNativeDepth root => Harness.guardNativeDepth w limit fuel root
  | .raw args => Harness.raw w lang args
  | .apply this args => Harness.apply w this args

end XChainVM.Harness
