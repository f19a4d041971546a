import XChainVM.Harness.Wrappers
import XChainVM.SparseCallback.Program

/-! # The length probe

Before a method runs, its receiver gets an accessor of the harness in place of its length. The read of the
builtin takes the accessor away again and finds the length as the contract had it.
-/

namespace XChainVM.SparseCallback

open Harness Js Machine Cut

variable {σ τ α : Type}

/-- The metered `Function.prototype.apply` on `arguments`. -/
def forward (args : List Val) : Run τ Unit :=
  if GROW_THRESHOLD < args.length then Eff.charge args.length else pure ()

def withObjects (objects : Objects Handle) : Run (World σ) Unit := fun s =>
  ([], .ok (), { s with objects := objects })

def setProbe (i : ℕ) (f : Probe → Probe) : Run (World σ) Unit := fun s =>
  ([], .ok (), { s with probes := s.probes.modify i f })

def restore (i : ℕ) : Run (World σ) Unit := do
  let s ← Eff.state
  match s.probes[i]? with
  | none => pure ()
  | some q =>
    if !q.installed then pure ()
    else
      setProbe i ({ · with installed := false })
      if q.ownsLength then
        match q.desc.bind (s.objects.define q.receiver "length") with
        | some objects => withObjects objects
        | none => raise .typeError
      else withObjects (s.objects.delete q.receiver "length")

def maxLength : Val := .number (.finite MAX_SAFE_INTEGER)

namespace Program

variable (p : Program σ) (enter : Request → Run (World σ) Val)

def allocGas (n : Val) : Run (World σ) Unit := do
  let x ← p.toNumber enter n
  if exceeds x 1 then Eff.charge (billed x) else pure ()

/-- `Math.floor(n)` of a finite number. -/
def floor (q : ℚ) : Run (World σ) Val :=
  match p.floorMember (.finite q) with
  | none => pure (.number (.finite q.floor))
  | some r => visit enter r

def toSparseLength (v : Val) : Run (World σ) Val := do
  match ← p.toNumber enter v with
  | .finite q =>
    if 0 < q then if q < MAX_SAFE_INTEGER then p.floor enter q else pure maxLength
    else pure (.number (.finite 0))
  | .infinity negative => pure (if negative then .number (.finite 0) else maxLength)
  | .nan => pure (.number (.finite 0))

/-- `f.call(this, ...args)`. Functions of other probes are called by `beneath`. -/
def callOn (beneath : Handle → Val → List Val → Run (World σ) Val) (f : Handle) (this : Val) (args : List Val) :
    Run (World σ) Val :=
  match f with
  | .contract f => visit enter (p.callMember f this args)
  | f => beneath f this args

def valueOf (beneath : Handle → Val → List Val → Run (World σ) Val) (q : Probe) : Run (World σ) Val :=
  match q.desc with
  | none => pure .undefined
  | some (.data v _ _ _) => pure v
  | some (.accessor (some f) _ _ _) => p.callOn enter beneath f (.object q.receiver) []
  | some (.accessor none _ _ _) => raise .typeError

def read (beneath : Handle → Val → List Val → Run (World σ) Val) (i : ℕ) : Run (World σ) Val := do
  restore i
  let s ← Eff.state
  match s.probes[i]? with
  | none => pure .undefined
  | some q =>
    let v ← p.valueOf enter beneath q
    let n ← p.toSparseLength enter v
    setProbe i ({ · with n := n })
    pure n

/-- `receiver.length = value`, where a length that cannot be written stays as it is. -/
def assignLength (beneath : Handle → Val → List Val → Run (World σ) Val) (receiver : ℕ) (v : Val) :
    Run (World σ) Unit := do
  let s ← Eff.state
  let create :=
    if (s.objects receiver).extensible then withObjects (s.objects.putOwn receiver "length" (.data v true true true))
    else pure ()
  match s.objects.find receiver "length", s.objects.getOwn receiver "length" with
  | some (.data _ w e c), some _ =>
    if w then withObjects (s.objects.putOwn receiver "length" (.data v w e c)) else pure ()
  | some (.data _ w _ _), none => if w then create else pure ()
  | some (.accessor _ (some (.contract f)) _ _), _ => (fun _ => ()) <$> visit enter (.call f (.object receiver) [v])
  | some (.accessor _ (some f) _ _), _ => (fun _ => ()) <$> beneath f (.object receiver) [v]
  | some (.accessor _ none _ _), _ => pure ()
  | none, _ => create

def write (beneath : Handle → Val → List Val → Run (World σ) Val) (i : ℕ) (v : Val) : Run (World σ) Val := do
  setProbe i ({ · with n := maxLength })
  restore i
  let s ← Eff.state
  match s.probes[i]? with
  | none => pure .undefined
  | some q =>
    match q.desc with
    | none | some (.data ..) =>
      assignLength enter beneath q.receiver v
      pure .undefined
    | some (.accessor _ (some f) _ _) => p.callOn enter beneath f (.object q.receiver) [v]
    | some (.accessor _ none _ _) => raise .typeError

/-- A call of a function that a property holds. What a probe replaced is older than the probe. -/
def invoke : ℕ → Handle → Val → List Val → Run (World σ) Val
  | _, .contract f, this, args => visit enter (.call f this args)
  | 0, _, _, _ => cutOff
  | older + 1, .read i, _, _ => p.read enter (invoke older) i
  | older + 1, .write i, _, args => p.write enter (invoke older) i (args.headD .undefined)

def get (o : ℕ) (key : String) : Run (World σ) Val := do
  let s ← Eff.state
  match s.objects.find o key with
  | some (.data v _ _ _) => pure v
  | some (.accessor (some f) _ _ _) => p.invoke enter s.probes.length f (.object o) []
  | _ => pure .undefined

def builtin : Implementation σ := fun enter m this args => do
  let o ← p.toObject this
  let v ← p.get enter o "length"
  let x ← p.toNumber enter v
  visit enter (.scan m o (toLength x) args)

/-- How a probe answers: with an amount, or by one that is in place. -/
inductive Probed where
  | fixed (n : Val)
  | installed (i : ℕ)

def probeDesc (i : ℕ) (desc : Option (Desc Handle)) (ownsLength : Bool) : Desc Handle :=
  .accessor (some (.read i)) (if desc.all Desc.isSettable then some (.write i) else none)
    (ownsLength && desc.any Desc.enumerable) true

/-- `__toSparseLength(receiver.length)`, where no code should run. -/
def readPlain (receiver : ℕ) : Run (World σ) Val :=
  attempt (do
    let v ← p.get enter receiver "length"
    p.toSparseLength enter v)
    (pure maxLength)

def install (receiver : ℕ) (desc : Option (Desc Handle)) (ownsLength : Bool) (objects : Objects Handle) :
    Run (World σ) Probed := fun s =>
  ([], .ok (.installed s.probes.length),
    { s with
      objects := objects
      probes := s.probes ++ [⟨receiver, desc, ownsLength, .number (.finite 0), true⟩] })

def sparseLengthProbe (receiver : ℕ) : Run (World σ) Probed := do
  let s ← Eff.state
  let desc := s.objects.find receiver "length"
  let ownsLength := (s.objects.getOwn receiver "length").isSome
  let simpleValue := desc.any Desc.isSimple
  if simpleValue && ownsLength && desc.any (!·.configurable) then
    let n ← p.readPlain enter receiver
    pure (.fixed n)
  else if desc.any Desc.lacksGetter then pure (.fixed (.number (.finite 0)))
  else
    match s.objects.define receiver "length" (probeDesc s.probes.length desc ownsLength) with
    | some objects => install receiver desc ownsLength objects
    | none =>
      if simpleValue then
        let n ← p.readPlain enter receiver
        pure (.fixed n)
      else pure (.fixed maxLength)

/-- The `finally` of the wrapper. -/
def settle : Probed → Run (World σ) Unit
  | .fixed n => p.allocGas enter n
  | .installed i => do
    let s ← Eff.state
    match s.probes[i]? with
    | none => pure ()
    | some q => ending (restore i) (p.allocGas enter (if q.installed then maxLength else q.n))

/-- The function `__meterSparseCallback` puts in place of a builtin. -/
def metered : Implementation σ := fun enter m this args => do
  let receiver ← p.sloppyThis this
  let probe ← p.sparseLengthProbe enter receiver
  ending (do
    forward args
    p.builtin enter m (.object receiver) args)
    (p.settle enter probe)

def chargeLength (n : ℕ) : Run τ Unit := if 1 < n then Eff.charge n else pure ()

def fixedLength (objects : Objects Handle) (o : ℕ) : Bool :=
  match objects.getOwn o "length" with
  | some d => !d.configurable
  | none => !(objects o).extensible

def priced : Implementation σ := fun enter m this args => do
  let o ← p.toObject this
  forward args
  let v ← p.get enter o "length"
  let x ← p.toNumber enter v
  ending (visit enter (.scan m o (toLength x) args)) (chargeLength (toLength x))

def plainLength (objects : Objects Handle) (o : ℕ) : Option Number :=
  match objects.find o "length" with
  | some (.data (.prim v) _ _ _) => p.number? v
  | some (.accessor none _ _ _) => some .nan
  | _ => none

/-- The receiver takes no other length, and the one it has does not show. -/
def failsClosed (objects : Objects Handle) (o : ℕ) : Bool :=
  fixedLength objects o && (p.plainLength objects o).isNone

/-- The builtin, charged for the length it read unless that is out of sight. -/
def closing : Implementation σ := fun enter m this args => do
  let o ← p.toObject this
  let s ← Eff.state
  if p.failsClosed s.objects o then
    ending (do
      forward args
      p.builtin enter m (.object o) args)
      (chargeLength MAX_SAFE_INTEGER)
  else p.priced enter m (.object o) args

end Program

end XChainVM.SparseCallback
