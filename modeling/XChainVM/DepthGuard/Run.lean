import XChainVM.DepthGuard.Program

/-! # Runs of metered code

A run takes every choice that the control flow of a contract leaves open (which function a call
enters, which branch is taken, what throws) from a sequence of choices, and keeps a record of the
points it passes. The host can end it anywhere.
-/

namespace XChainVM.DepthGuard

/-- What can be thrown: the fault of the depth guard, the gas fault, or anything else. -/
inductive Thrown where
  | fault | outOfGas | other
  deriving DecidableEq

inductive Op where
  | work | allocate (size : ℕ) | objectStatic (size : ℕ) | replaceError | throwStatement | gas
  | enter | exit
  deriving DecidableEq

/-- A point of a run: the guarded frames that are open, the counter, the poison, whether the global
`Error` is the builtin, whether what is thrown is dropped further out, and what was thrown there. -/
structure Point where
  op : Op
  frames : ℕ
  depth : ℕ
  poisoned : Bool
  intact : Bool
  dropping : Bool
  threw : Option Thrown
  violated : Bool

/-- The state of the harness, and the record of the run, newest first. -/
structure Vm where
  limit : ℕ
  ceiling : ℕ
  stackDepth : ℕ
  stackPoison : Bool
  used : ℕ
  errorIntact : Bool
  dropping : Bool
  choices : ℕ
  trace : List Point

def Vm.start (limit ceiling : ℕ) : Vm := ⟨limit, ceiling, 0, false, 0, true, false, 0, []⟩

/-- `throw __stackError()`, which builds its error with the global `Error`. -/
def stackError (vm : Vm) : Thrown := if vm.errorIntact then .fault else .other

def depthEnter (vm : Vm) : Option Thrown × Vm :=
  if vm.stackPoison then (some (stackError vm), vm)
  else if 0 < vm.limit ∧ vm.limit ≤ vm.stackDepth then
    (some (stackError vm), { vm with stackPoison := true })
  else (none, { vm with stackDepth := vm.stackDepth + 1 })

def depthExit (vm : Vm) : Vm :=
  if 0 < vm.stackDepth then { vm with stackDepth := vm.stackDepth - 1 } else vm

/-- `__gas(n)`: the host charges, and throws once the ceiling is passed. -/
def gasFunc (n : ℕ) (vm : Vm) : Option Thrown × Vm :=
  if vm.stackPoison then (some (stackError vm), vm)
  else
    let vm := { vm with used := vm.used + if 1 < n then n else 1 }
    (if vm.ceiling < vm.used then some .outOfGas else none, vm)

def allocGas (n : ℕ) (vm : Vm) : Option Thrown × Vm := if 1 < n then gasFunc n vm else (none, vm)

inductive Completion where
  | normal | returned | jumped
  | threw (v : Thrown)
  /-- The host ended the run. -/
  | stopped
  deriving DecidableEq

def record (op : Op) (frames : ℕ) (vm : Vm) (r : Option Thrown × Vm) : Completion × Vm :=
  let point : Point :=
    ⟨op, frames, vm.stackDepth, vm.stackPoison, vm.errorIntact, vm.dropping, r.1,
      !vm.stackPoison && r.2.stackPoison⟩
  (match r.1 with | none => .normal | some v => .threw v, { r.2 with trace := point :: r.2.trace })

def andThen (r : Completion × Vm) (k : Vm → Completion × Vm) : Completion × Vm :=
  match r.1 with
  | .normal => k r.2
  | _ => r

/-- A function call ends a return, and a jump does not leave a function. -/
def endCall (r : Completion × Vm) : Completion × Vm :=
  match r.1 with
  | .returned | .jumped => (.normal, r.2)
  | _ => r

/-- The end of a guard: `finally { __depth_exit(); }`. -/
def leave (frames : ℕ) (r : Completion × Vm) : Completion × Vm :=
  match r.1 with
  | .stopped => r
  | c => (c, (record .exit (frames + 1) r.2 (none, depthExit r.2)).2)

/-- A finalizer runs on every completion, which it replaces unless it completes normally. -/
def finish (r : Completion × Vm) (finalizer : Vm → Completion × Vm) : Completion × Vm :=
  match r.1 with
  | .stopped => r
  | c =>
    let f := finalizer r.2
    match f.1 with
    | .normal => (c, f.2)
    | _ => f

def dropThrow (code : Vm → Completion × Vm) (vm : Vm) : Completion × Vm :=
  let r := code { vm with dropping := true }
  (if r.1 = .stopped then .stopped else .normal, { r.2 with dropping := vm.dropping })

/-- An iterator is closed by its `return`. Where a throw is under way, what `return` throws is dropped. -/
def closeIterator (r : Completion × Vm) (close : Vm → Completion × Vm) : Completion × Vm :=
  match r.1 with
  | .threw _ => finish r (dropThrow close)
  | _ => finish r close

def handle (r : Completion × Vm) (handler : Vm → Completion × Vm) : Completion × Vm :=
  match r.1 with
  | .threw _ => handler r.2
  | _ => r

section

variable (functions : List Fn) (choose : ℕ → ℕ)

def ask (vm : Vm) : ℕ × Vm := (choose vm.choices, { vm with choices := vm.choices + 1 })

/-- A jump out of a loop body or a block stays there, or leaves it for a label further out. -/
def catchJump (r : Completion × Vm) (k : ℕ → Vm → Completion × Vm) : Completion × Vm :=
  match r.1 with
  | .jumped => k (ask choose r.2).1 (ask choose r.2).2
  | _ => r

def activate (eval : Code → Vm → Completion × Vm) (fn : Fn) (vm : Vm) : Completion × Vm :=
  endCall (andThen (eval fn.params vm) (eval fn.body))

def invoke (eval : Code → Vm → Completion × Vm) (vm : Vm) : Completion × Vm :=
  match functions[(ask choose vm).1]? with
  | some fn => activate eval fn (ask choose vm).2
  | none => eval .work (ask choose vm).2

def eval : ℕ → ℕ → Code → Vm → Completion × Vm
  | 0, _, _, vm => (.stopped, vm)
  | fuel + 1, frames, code, vm =>
    match code with
    | .skip => (.normal, vm)
    | .work =>
      let asked := (ask choose vm).2
      match (ask choose vm).1 with
      | 0 => record .work frames asked (none, asked)
      | 1 => record .work frames asked (some .other, asked)
      -- a `try` of the harness drops what is thrown by what the contract put in place of a builtin
      | 2 => andThen (dropThrow (eval fuel frames .work) asked) (eval fuel frames .work)
      -- a builtin goes through an iterator
      | 3 => andThen (eval fuel frames (.arrayPattern .work) asked) (eval fuel frames .work)
      | choice + 4 =>
        match functions[choice]? with
        | some fn => andThen (activate (eval fuel frames) fn asked) (eval fuel frames .work)
        | none => (.normal, asked)
    | .allocate size =>
      andThen (record (.allocate size) frames vm (allocGas size vm)) (eval fuel frames .work)
    | .objectStatic size =>
      -- `try { __allocGas(toLen(r)); } catch (e) {}`
      andThen (eval fuel frames .work vm) fun vm =>
        record (.objectStatic size) frames vm (none, (allocGas size vm).2)
    | .replaceError => record .replaceError frames vm (none, { vm with errorIntact := false })
    | .throwStatement => record .throwStatement frames vm (some .other, vm)
    | .returnStatement => (.returned, vm)
    | .jump => (.jumped, vm)
    | .gas => record .gas frames vm (gasFunc 1 vm)
    | .depthEnter => record .enter frames vm (depthEnter vm)
    | .depthExit => record .exit frames vm (none, depthExit vm)
    | .guarded body =>
      andThen (record .enter frames vm (depthEnter vm)) fun vm =>
        leave frames (eval fuel (frames + 1) body vm)
    | .seq first rest => andThen (eval fuel frames first vm) (eval fuel frames rest)
    | .either first second =>
      eval fuel frames (if (ask choose vm).1 = 0 then first else second) (ask choose vm).2
    | .conditional test consequent alternate =>
      andThen (eval fuel frames test vm) (eval fuel frames (.either consequent alternate))
    | .ifStatement consequent hasAlternate alternate =>
      eval fuel frames (.either consequent (if hasAlternate then alternate else .skip)) vm
    | .loop isFor test update body =>
      andThen (eval fuel frames test vm) fun vm =>
        if (ask choose vm).1 = 0 then (.normal, (ask choose vm).2)
        else
          let again := fun vm =>
            andThen (eval fuel frames update vm) (eval fuel frames (.loop isFor test update body))
          let r := eval fuel frames body (ask choose vm).2
          if r.1 = .normal then again r.2
          else catchJump choose r fun choice vm =>
            match choice with
            | 0 => again vm
            | 1 => (.normal, vm)
            | _ => (.jumped, vm)
    | .forOf binding body =>
      andThen (eval fuel frames .work vm) fun vm =>
        if (ask choose vm).1 = 0 then (.normal, (ask choose vm).2)
        else
          let again := eval fuel frames (.forOf binding body)
          let close := fun r => closeIterator r (eval fuel frames .work)
          let r := andThen (eval fuel frames binding (ask choose vm).2) (eval fuel frames body)
          match r.1 with
          | .normal => again r.2
          | .jumped => catchJump choose r fun choice vm =>
            match choice with
            | 0 => again vm
            | 1 => close (.normal, vm)
            | _ => close (.jumped, vm)
          | _ => close r
    | .arrayPattern elements =>
      let r := eval fuel frames elements vm
      let asked := (ask choose r.2).2
      -- an iterator is not closed at its end, nor where it threw itself
      if (ask choose r.2).1 = 0 then (r.1, asked) else closeIterator (r.1, asked) (eval fuel frames .work)
    | .breakable body =>
      catchJump choose (eval fuel frames body vm) fun choice vm =>
        if choice = 0 then (.normal, vm) else (.jumped, vm)
    | .call args | .construct args =>
      andThen (eval fuel frames args vm) (invoke functions choose (eval fuel frames))
    | .tryStatement block hasHandler param handler hasFinalizer finalizer =>
      let r := eval fuel frames block vm
      let r := if hasHandler then
          handle r fun vm => andThen (eval fuel frames param vm) (eval fuel frames handler)
        else r
      if hasFinalizer then finish r (eval fuel frames finalizer) else r

@[simp] theorem eval_zero (frames : ℕ) (code : Code) (vm : Vm) :
    eval functions choose 0 frames code vm = (.stopped, vm) := by
  rw [eval]

end

/-- The script of the contract runs, then one of its functions, and its result is serialized. -/
def run (c : Contract) (choose : ℕ → ℕ) (fuel limit ceiling : ℕ) : Completion × Vm :=
  let functions := c.functions.map meterFunction
  andThen (endCall (eval functions choose fuel 0 (charged (meter c.script)) (Vm.start limit ceiling)))
    (eval functions choose fuel 0 (.seq (.construct .skip) .work))

end XChainVM.DepthGuard
