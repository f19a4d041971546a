import XChainVM.Harness.Values
import XChainVM.Machine.Effects

/-! # The set methods of the language

`union`, `intersection` and their kind read `size`, `has` and `keys` of their argument once. Then they
ask it for each element of the receiver, or they go through its keys. Each read and each call may
run code of the contract, which may change the receiver.
-/

namespace XChainVM.SetAlgebra

open Harness Js Machine

inductive Property where
  | size
  | has
  | keys
  | next
  | return
  | done
  | value
  deriving DecidableEq

inductive Fault (V : Type) where
  | notObject (v : V)
  | sizeNaN
  | sizeNegative (size : Integer)
  | notCallable (p : Property) (v : V)
  | notIterator (v : V)
  | notResult (v : V)
  | notClosed (v : V)

inductive Thrown (V : Type) where
  | value (v : V)
  | fault (f : Fault V)

/-- What is read, converted and called, in order, and how a walk goes on: a call of `next`, and a key it gave. -/
inductive Mark (V : Type) where
  | read (v : V) (p : Property)
  | convert (v : V)
  | call (f this : V) (args : List V)
  | step
  | key (v : V)

/-- A contract and its values. `Thrown` is what a conversion of the language may throw. -/
structure Realm (σ V : Type) where
  /-- The elements of the receiver, none where one was removed. -/
  elements : σ → List (Option V)
  get : σ → V → Property → Except V V × σ
  call : σ → V → V → List V → Except V V × σ
  toNumber : σ → V → Except (Thrown V) Number × σ
  number? : V → Option Number
  isObject : V → Bool
  isCallable : V → Bool
  isNullish : V → Bool
  truthy : V → Bool
  /-- The key that stands for a value in a set. -/
  canonical : V → V
  undefined : V
  /-- The size of a set whose `size`, `has` and `keys` are the builtin ones. -/
  plainSize : σ → V → Option ℕ

structure Iterator (τ V : Type) where
  next : Eff τ (Mark V) (Thrown V) (Option V)
  close : Eff τ (Mark V) (Thrown V) Unit

/-- An argument as the language takes it; a member that cannot be called is a value. -/
structure Source (τ V : Type) where
  size : Eff τ (Mark V) (Thrown V) Number
  has : Eff τ (Mark V) (Thrown V) (V ⊕ (V → Eff τ (Mark V) (Thrown V) Bool))
  keys : Eff τ (Mark V) (Thrown V) (V ⊕ Eff τ (Mark V) (Thrown V) (Iterator τ V))

structure SetRecord (τ V : Type) where
  size : Integer
  has : V → Eff τ (Mark V) (Thrown V) Bool
  keys : Eff τ (Mark V) (Thrown V) (Iterator τ V)

inductive Result (V : Type) where
  | bool (b : Bool)
  | set (elements : List V)
  deriving DecidableEq

/-- The course of a method through the keys of its argument. It is observed for so many rounds. -/
inductive Walk (V : Type) where
  | done (r : Result V)
  | going
  | receiver (k : List (Option V) → Walk V)
  | next (k : Option V → Walk V)
  | close (rest : Walk V)

/-- The course of a method once it has its set record. -/
inductive Body (V : Type) where
  | done (r : Result V)
  | going
  | receiver (k : List (Option V) → Body V)
  | has (v : V) (k : Bool → Body V)
  | keys (walk : Walk V)

variable {σ τ V : Type}

def isNegative : Integer → Bool
  | .finite z => z < 0
  | .infinity negative => negative

def getSetRecord (source : Source τ V) : Eff τ (Mark V) (Thrown V) (SetRecord τ V) := do
  let n ← source.size
  if n = .nan then Eff.throw (.fault .sizeNaN)
  else if isNegative (toIntegerOrInfinity n) then Eff.throw (.fault (.sizeNegative (toIntegerOrInfinity n)))
  else
    match ← source.has with
    | .inl v => Eff.throw (.fault (.notCallable .has v))
    | .inr has =>
      match ← source.keys with
      | .inl v => Eff.throw (.fault (.notCallable .keys v))
      | .inr keys => pure ⟨toIntegerOrInfinity n, has, keys⟩

def Walk.run (elements : τ → List (Option V)) (it : Iterator τ V) : Walk V → Eff τ (Mark V) (Thrown V) (Option (Result V))
  | done r => pure (some r)
  | going => pure none
  | receiver k => do
    let s ← Eff.state
    (k (elements s)).run elements it
  | next k => do
    let v ← it.next
    (k v).run elements it
  | close rest => do
    it.close
    rest.run elements it

def Body.run (elements : τ → List (Option V)) (r : SetRecord τ V) : Body V → Eff τ (Mark V) (Thrown V) (Option (Result V))
  | done result => pure (some result)
  | going => pure none
  | receiver k => do
    let s ← Eff.state
    (k (elements s)).run elements r
  | has v k => do
    let b ← r.has v
    (k b).run elements r
  | keys walk => do
    let it ← r.keys
    walk.run elements it

/-- An iterator is closed only after a step, and the walk is over where the iterator is. -/
def Walk.Orderly : Bool → Walk V → Prop
  | _, done _ | _, going => True
  | stepped, receiver k => ∀ data, (k data).Orderly stepped
  | _, next k => (∃ r, k none = done r) ∧ ∀ v, (k (some v)).Orderly true
  | stepped, close rest => stepped = true ∧ rest.Orderly stepped

def Body.Orderly : Body V → Prop
  | done _ | going => True
  | receiver k => ∀ data, (k data).Orderly
  | has _ k => ∀ b, (k b).Orderly
  | keys walk => walk.Orderly false

inductive Method where
  | union
  | intersection
  | difference
  | symmetricDifference
  | isSubsetOf
  | isSupersetOf
  | isDisjointFrom
  deriving DecidableEq

/-- `n ≤ size`. -/
def atMost (n : ℕ) : Integer → Bool
  | .finite z => n ≤ z
  | .infinity negative => !negative

/-- `n < size`. -/
def below (n : ℕ) : Integer → Bool
  | .finite z => n < z
  | .infinity negative => !negative

section

variable {A : Type}

/-- The elements of the receiver as they come, also those that are added meanwhile. -/
def eachElement (each : A → V → Bool → A ⊕ Result V) (finish : A → Result V) : ℕ → ℕ → A → Body V
  | 0, _, _ => .going
  | fuel + 1, index, acc => .receiver fun data =>
    match data[index]? with
    | none => .done (finish acc)
    | some none => eachElement each finish fuel (index + 1) acc
    | some (some e) => .has e fun inOther =>
      match each acc e inOther with
      | .inl acc => eachElement each finish fuel (index + 1) acc
      | .inr r => .done r

/-- The keys of the argument; where the result is known early, the iterator is closed. -/
def eachKey (canonical : V → V) (each : A → List (Option V) → V → A ⊕ Result V) (finish : A → Result V) : ℕ → A → Walk V
  | 0, _ => .going
  | fuel + 1, acc => .next fun
    | none => .done (finish acc)
    | some v => .receiver fun data =>
      match each acc data (canonical v) with
      | .inl acc => eachKey canonical each finish fuel acc
      | .inr r => .close (.done r)

end

variable [DecidableEq V]

def add (elements : List V) (v : V) : List V := if v ∈ elements then elements else elements ++ [v]

def withoutAsked : List V → List V → Body V
  | [], acc => .done (.set acc)
  | e :: rest, acc => .has e fun inOther => withoutAsked rest (if inOther then acc else acc ++ [e])

namespace Method

variable (canonical : V → V) (fuel : ℕ)

def body (size : Integer) : Method → Body V
  | union => .keys (.receiver fun data =>
      eachKey canonical (fun acc _ v => .inl (add acc v)) .set fuel data.reduceOption)
  | intersection => .receiver fun data =>
      if atMost data.reduceOption.length size then
        eachElement (fun acc e inOther => .inl (if inOther then add acc e else acc)) .set fuel 0 []
      else
        .keys (eachKey canonical (fun acc data v => .inl (if some v ∈ data then add acc v else acc)) .set fuel [])
  | difference => .receiver fun data =>
      if atMost data.reduceOption.length size then withoutAsked data.reduceOption []
      else .keys (eachKey canonical (fun acc _ v => .inl (acc.erase v)) .set fuel data.reduceOption)
  | symmetricDifference => .keys (.receiver fun data =>
      eachKey canonical (fun acc data v => .inl (if some v ∈ data then acc.erase v else add acc v)) .set fuel
        data.reduceOption)
  | isSubsetOf => .receiver fun data =>
      if atMost data.reduceOption.length size then
        eachElement (fun acc _ inOther => if inOther then .inl acc else .inr (.bool false)) (fun _ => .bool true) fuel 0 ()
      else .done (.bool false)
  | isSupersetOf => .receiver fun data =>
      if below data.reduceOption.length size then .done (.bool false)
      else
        .keys (eachKey canonical (fun acc data v => if some v ∈ data then .inl acc else .inr (.bool false))
          (fun _ => .bool true) fuel ())
  | isDisjointFrom => .receiver fun data =>
      if atMost data.reduceOption.length size then
        eachElement (fun acc _ inOther => if inOther then .inr (.bool false) else .inl acc) (fun _ => .bool true) fuel 0 ()
      else
        .keys (eachKey canonical (fun acc data v => if some v ∈ data then .inr (.bool false) else .inl acc)
          (fun _ => .bool true) fuel ())

end Method

namespace Realm

variable (w : Realm σ V)

def ask {α : Type} (mark : Mark V) (answer : σ → Except V α × σ) : Eff σ (Mark V) (Thrown V) α := fun s =>
  ([.effect mark], (answer s).1.mapError Thrown.value, (answer s).2)

def read (v : V) (p : Property) : Eff σ (Mark V) (Thrown V) V := ask (.read v p) fun s => w.get s v p

def invoke (f this : V) (args : List V) : Eff σ (Mark V) (Thrown V) V := ask (.call f this args) fun s => w.call s f this args

/-- `+v`; of a number nothing is seen. -/
def convert (v : V) : Eff σ (Mark V) (Thrown V) Number :=
  match w.number? v with
  | some n => pure n
  | none => fun s => ([.effect (.convert v)], w.toNumber s v)

def sendHas (hasFn other k : V) : Eff σ (Mark V) (Thrown V) Bool := do
  let answer ← w.invoke hasFn other [k]
  pure (w.truthy answer)

def stepValue (result : V) : Eff σ (Mark V) (Thrown V) (Option V) := do
  if !w.isObject result then Eff.throw (.fault (.notResult result))
  else
    let done ← w.read result .done
    if w.truthy done then pure none
    else
      let v ← w.read result .value
      Eff.emit (.key v)
      pure (some v)

def callNext (nextFn it : V) : Eff σ (Mark V) (Thrown V) (Option V) := do
  Eff.emit .step
  let result ← w.invoke nextFn it []
  w.stepValue result

def closeIterator (it : V) : Eff σ (Mark V) (Thrown V) Unit := do
  let r ← w.read it .return
  if w.isNullish r then pure ()
  else if !w.isCallable r then Eff.throw (.fault (.notCallable .return r))
  else
    let answer ← w.invoke r it []
    if w.isObject answer then pure () else Eff.throw (.fault (.notClosed answer))

def iteratorOf (it nextFn : V) : Iterator σ V where
  next := if w.isCallable nextFn then w.callNext nextFn it else Eff.throw (.fault (.notCallable .next nextFn))
  close := w.closeIterator it

def openKeys (keysFn other : V) : Eff σ (Mark V) (Thrown V) (Iterator σ V) := do
  let it ← w.invoke keysFn other []
  if !w.isObject it then Eff.throw (.fault (.notIterator it))
  else
    let nextFn ← w.read it .next
    pure (w.iteratorOf it nextFn)

def source (other : V) : Source σ V where
  size := do
    if !w.isObject other then Eff.throw (.fault (.notObject other))
    else
      let size ← w.read other .size
      w.convert size
  has := do
    let hasFn ← w.read other .has
    pure (if w.isCallable hasFn then .inr (w.sendHas hasFn other) else .inl hasFn)
  keys := do
    let keysFn ← w.read other .keys
    pure (if w.isCallable keysFn then .inr (w.openKeys keysFn other) else .inl keysFn)

def native (elements : τ → List (Option V)) (m : Method) (fuel : ℕ) (source : Source τ V) :
    Eff τ (Mark V) (Thrown V) (Option (Result V)) := do
  let r ← getSetRecord source
  (m.body w.canonical fuel r.size).run elements r

end Realm

end XChainVM.SetAlgebra
