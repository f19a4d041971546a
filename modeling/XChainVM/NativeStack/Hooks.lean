import XChainVM.Harness.Values
import XChainVM.Machine.Fallible
import Mathlib.Algebra.Order.Monoid.WithTop
import Mathlib.Algebra.Order.Ring.NNRat

/-! # The native stack hooks

The state and the hooks that charge frames, spread calls and applies against the depth counter.
The stack of entered frames holds each token with the depth it was entered at.
-/

namespace XChainVM.NativeStack

open Harness Js Machine

abbrev Depth := WithTop ℚ≥0

/-- A value the hooks are given. A token is an object of its own, made for a frame of the
contract or for one the contract enters by hand. -/
inductive Value where
  | plain (v : Val)
  | frame (n : ℕ)
  | hand (n : ℕ)
  deriving DecidableEq

namespace Value

abbrev number (q : ℚ) : Value := .plain (.number (.finite q))

/-- `v === w`. -/
def strictEquals (v w : Value) : Bool := v = w && v ≠ .plain (.number .nan)

end Value

structure Record where
  token : Value
  saved : Depth

structure Hold where
  i : Value
  a : ℕ
  p : Depth

structure Hooks where
  limit : ℕ
  stackDepth : Depth := 0
  stackPoison : Bool := false
  /-- `__nstActs` and `__nstTokens` up to `__nstActN`, the innermost first. -/
  acts : List Record := []
  /-- `__nstHolds` up to `__nstHoldN`, the last first. -/
  holds : List Hold := []
  applyAct : ℤ := -1

abbrev Hook := EStateM Unit Hooks

def ARGS_PER_UNIT : ℕ := 64

def CALL_UNITS : ℕ := 2

/-- `__nstUnits(n, base)`. -/
def units (n base : ℕ) : Depth := ((base + n / ARGS_PER_UNIT : ℕ) : Depth)

/-- `(typeof w === "number" && w > 1) ? w : 1`. -/
def weight : Value → Depth
  | .plain (.prim (.number (.finite q))) => if 1 < q then ((q.toNNRat : ℚ≥0) : Depth) else 1
  | .plain (.prim (.number (.infinity false))) => ⊤
  | _ => 1

def fault {α : Type} : Hook α := fun s => .error () { s with stackPoison := true }

def reserve (u : Depth) : Hook Unit := fun s =>
  if 0 < s.limit ∧ (s.limit : Depth) < s.stackDepth + u then fault s else .ok () s

def depthEnter (token w : Value) : Hook Value := fun s =>
  if s.stackPoison then .error () s
  else (do
    reserve (weight w)
    modify fun s => { s with acts := ⟨token, s.stackDepth⟩ :: s.acts, stackDepth := s.stackDepth + weight w }
    return token : Hook Value) s

/-- `c` is the token of the innermost frame. -/
def Hooks.unwinds (s : Hooks) (c : Value) : Bool :=
  match s.acts with
  | r :: _ => r.token.strictEquals c
  | [] => false

def Hooks.unwind (s : Hooks) (c : Value) : Hooks :=
  match s.acts with
  | r :: acts =>
    if s.unwinds c then
      { s with
        holds := s.holds.dropWhile fun t => s.acts.length ≤ t.a
        acts
        stackDepth := r.saved }
    else s
  | [] => s

def depthExit (isOverflow : Bool) : List Value → Hook Unit
  | [_] => if isOverflow then fault else pure ()
  | [c, mode] => if mode = .number 0 then modify fun s => s.unwind c else pure ()
  | _ => pure ()

def Hooks.releases (s : Hooks) (id : Value) : Bool :=
  match s.holds with
  | t :: _ => t.i.strictEquals id && t.a = s.acts.length
  | [] => false

def Hooks.release (s : Hooks) (id : Value) : Hooks :=
  match s.holds with
  | t :: holds => if s.releases id then { s with stackDepth := t.p, holds } else s
  | [] => s

def hold (n : ℕ) (id : Value) : Hook Unit := do
  modify fun s => s.release id
  reserve (units n CALL_UNITS)
  modify fun s =>
    { s with
      holds := ⟨id, s.acts.length, s.stackDepth⟩ :: s.holds
      stackDepth := s.stackDepth + units n CALL_UNITS }

/-- `copied` is how many elements the segments give, and none where they throw. -/
def arrspread (copied : Option ℕ) (mode id : Value) : Hook Unit :=
  if mode = .number 2 then modify fun s => s.release id
  else match copied with
    | none => throw ()
    | some n => if mode = .number 1 then hold n id else pure ()

/-- From the count of the arguments to the check, before any of them is read. -/
def applyMeasure (n : ℕ) : Hook Depth := fun s =>
  let u := units n (if s.applyAct = s.acts.length then 0 else CALL_UNITS)
  (do
    reserve u
    return u : Hook Depth) s

/-- From the last argument read to the call, with what the call has to restore. -/
def applyStart (u : Depth) : Hook (Depth × ℤ) := fun s =>
  .ok (s.stackDepth, s.applyAct) { s with applyAct := s.acts.length, stackDepth := s.stackDepth + u }

def applyFinish (p : Depth) (q : ℤ) : Hook Unit :=
  modify fun s => { s with stackDepth := p, applyAct := q }

variable (s : Hooks)

theorem reserve_cases (u : Depth) :
    reserve u s = .error () { s with stackPoison := true } ∨
      reserve u s = .ok () s ∧ (0 < s.limit → s.stackDepth + u ≤ s.limit) := by
  unfold reserve
  split
  · exact .inl rfl
  · next h =>
    rw [not_and, not_lt] at h
    exact .inr ⟨rfl, h⟩

/-- A fault, or a new innermost frame. -/
theorem depthEnter_cases (token w : Value) :
    (∃ poison, depthEnter token w s = .error () { s with stackPoison := poison } ∧
        (poison = false → s.stackPoison = false)) ∨
      depthEnter token w s = .ok token
          { s with acts := ⟨token, s.stackDepth⟩ :: s.acts, stackDepth := s.stackDepth + weight w } ∧
        (0 < s.limit → s.stackDepth + weight w ≤ s.limit) := by
  unfold depthEnter
  split
  · next h => exact .inl ⟨s.stackPoison, rfl, id⟩
  · obtain hfault | ⟨hok, hroom⟩ := reserve_cases s (weight w)
    · left
      refine ⟨true, ?_, nofun⟩
      rw [bind_apply, hfault]
    · right
      refine ⟨?_, hroom⟩
      rw [bind_apply, hok]
      rfl

theorem applyMeasure_cases (n : ℕ) :
    applyMeasure n s = .error () { s with stackPoison := true } ∨
      ∃ u, applyMeasure n s = .ok u s ∧ (0 < s.limit → s.stackDepth + u ≤ s.limit) := by
  unfold applyMeasure
  obtain hfault | ⟨hok, hroom⟩ := reserve_cases s (units n (if s.applyAct = s.acts.length then 0 else CALL_UNITS))
  · left
    simp only [bind_apply, hfault]
  · right
    refine ⟨_, ?_, hroom⟩
    simp only [bind_apply, hok]
    rfl

/-- The hold of this site is released first. -/
theorem hold_cases (n : ℕ) (id : Value) :
    hold n id s = .error () { s.release id with stackPoison := true } ∨
      hold n id s = .ok ()
          { s.release id with
            holds := ⟨id, (s.release id).acts.length, (s.release id).stackDepth⟩ :: (s.release id).holds
            stackDepth := (s.release id).stackDepth + units n CALL_UNITS } ∧
        (0 < (s.release id).limit → (s.release id).stackDepth + units n CALL_UNITS ≤ (s.release id).limit) := by
  have hrelease : hold n id s = (do
      reserve (units n CALL_UNITS)
      modify fun s =>
        { s with
          holds := ⟨id, s.acts.length, s.stackDepth⟩ :: s.holds
          stackDepth := s.stackDepth + units n CALL_UNITS } : Hook Unit) (s.release id) := by
    rw [hold, bind_apply]
    rfl
  rw [hrelease, bind_apply]
  obtain hfault | ⟨hok, hroom⟩ := reserve_cases (s.release id) (units n CALL_UNITS)
  · left
    rw [hfault]
  · right
    rw [hok]
    exact ⟨rfl, hroom⟩

end XChainVM.NativeStack
