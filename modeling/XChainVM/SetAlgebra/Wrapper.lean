import XChainVM.Js.Double
import XChainVM.SetAlgebra.Methods

/-! # The metered set methods

The wrapper reads the argument itself, charges for its claimed size, and hands the builtin a record whose
`keys` counts the steps it is asked for.
-/

namespace XChainVM.SetAlgebra

open Harness Js Machine

variable {σ V : Type}

structure Tally where
  walked : ℕ
  pending : ℕ

/-- `n + x`. -/
def plus (n : ℕ) : Number → Number
  | .finite q => roundDouble (n + q)
  | x => x

/-- `n > x`. -/
def isAbove (n : ℕ) : Number → Bool
  | .finite q => q < n
  | .infinity negative => negative
  | .nan => false

def allocGas {τ ε χ : Type} (n : Number) : Eff τ ε χ Unit :=
  if exceeds n 1 then Eff.charge (billed n) else pure ()

/-- `claim > 0 ? claim : 0` -/
def claimedOf (claim : Number) : Number := if exceeds claim 0 then claim else .finite 0

def countStep (claimed : Number) : Eff (σ × Tally) (Mark V) (Thrown V) Unit := fun s =>
  let walked := s.2.walked + 1
  if isAbove walked claimed then
    if s.2.pending + 1 = 256 then ([.charge 256], .ok (), s.1, ⟨walked, 0⟩)
    else ([], .ok (), s.1, ⟨walked, s.2.pending + 1⟩)
  else ([], .ok (), s.1, ⟨walked, s.2.pending⟩)

def chargeRest : Eff (σ × Tally) (Mark V) (Thrown V) Unit := fun s =>
  if 0 < s.2.pending then ([.charge s.2.pending], .ok (), s.1, ⟨s.2.walked, 0⟩) else ([], .ok (), s)

namespace Realm

variable (w : Realm σ V)

/-- The iterator that `__pemCountedKeys` answers with. -/
def countedIterator (it nextFn : V) (claimed : Number) : Iterator (σ × Tally) V :=
  if w.isCallable nextFn then
    { next := do
        countStep claimed
        (w.callNext nextFn it).onFirst
      close := (w.closeIterator it).onFirst }
  else ⟨Eff.throw (.fault (.notCallable .next nextFn)), pure ()⟩

def countedKeys (other keysFn : V) (claimed : Number) :
    Eff (σ × Tally) (Mark V) (Thrown V) (Iterator (σ × Tally) V) := do
  let it ← (w.invoke keysFn other []).onFirst
  if !w.isObject it then Eff.throw (.fault (.notIterator it))
  else
    let nextFn ← (w.read it .next).onFirst
    pure (w.countedIterator it nextFn claimed)

def plainRecord (size : Number) (has : V ⊕ (V → Eff (σ × Tally) (Mark V) (Thrown V) Bool))
    (keys : V ⊕ Eff (σ × Tally) (Mark V) (Thrown V) (Iterator (σ × Tally) V)) : Source (σ × Tally) V :=
  ⟨pure size, pure has, pure keys⟩

variable [DecidableEq V]

def nativeOf (m : Method) (fuel : ℕ) (other : V) : Eff σ (Mark V) (Thrown V) (Option (Result V)) :=
  w.native w.elements m fuel (w.source other)

def nativeOn (m : Method) (fuel : ℕ) (record : Source (σ × Tally) V) :
    Eff (σ × Tally) (Mark V) (Thrown V) (Option (Result V)) :=
  w.native (fun s => w.elements s.1) m fuel record

/-- The rest of the argument is read, and the builtin gets a record, which may fail its own checks. -/
def handOver (m : Method) (fuel : ℕ) (other : V) (claim size : Number) :
    Eff (σ × Tally) (Mark V) (Thrown V) (Option (Result V)) :=
  if !exceeds size (-1) then w.nativeOn m fuel (plainRecord size (.inl w.undefined) (.inl w.undefined))
  else do
    let hasFn ← (w.read other .has).onFirst
    if !w.isCallable hasFn then w.nativeOn m fuel (plainRecord size (.inl hasFn) (.inl w.undefined))
    else
      let has := fun k => (w.sendHas hasFn other k).onFirst
      let keysFn ← (w.read other .keys).onFirst
      if !w.isCallable keysFn then w.nativeOn m fuel (plainRecord size (.inr has) (.inl keysFn))
      else
        let keys := w.countedKeys other keysFn (claimedOf claim)
        (w.nativeOn m fuel (plainRecord size (.inr has) (.inr keys))).andFinally chargeRest

def claimOf (rawSize : V) : Number := (w.number? rawSize).getD (.finite 0)

def meteredOn (m : Method) (fuel : ℕ) (other rawSize : V) (thisSize : ℕ) :
    Eff (σ × Tally) (Mark V) (Thrown V) (Option (Result V)) := do
  allocGas (plus thisSize (w.claimOf rawSize))
  let size ← (w.convert rawSize).onFirst
  w.handOver m fuel other (w.claimOf rawSize) size

/-- The method that `__pemMeterSetMethod` puts in place of a builtin. -/
def metered (m : Method) (fuel : ℕ) (other : V) : Eff (σ × Tally) (Mark V) (Thrown V) (Option (Result V)) := do
  let s ← Eff.state
  let thisSize := (w.elements s.1).reduceOption.length
  match w.plainSize s.1 other with
  | some size =>
    allocGas (plus thisSize (.finite size))
    (w.nativeOf m fuel other).onFirst
  | none =>
    if !w.isObject other then
      allocGas (.finite thisSize)
      (w.nativeOf m fuel other).onFirst
    else
      let rawSize ← (w.read other .size).onFirst
      w.meteredOn m fuel other rawSize thisSize

end Realm

end XChainVM.SetAlgebra
