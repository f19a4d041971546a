import XChainVM.Gas.Tracker
import XChainVM.Runtime.HostCalls

/-! # The state namespace of a contract

The methods of the state manager statement by statement, and the metered calls of them that
a contract makes. What is thrown leaves what was written before it.
-/

namespace XChainVM.Runtime

open Gas Js

namespace StateManager

abbrev Method := EStateM StateError StateManager

namespace Method

def keyOf (lang : Language) (key : Value) : Method String :=
  match normKey lang key with
  | some key => pure key
  | none => throw .keyType

def refuse : Option StateError → Method Unit
  | some e => throw e
  | none => pure ()

def get (lang : Language) (key : Value) : Method Value := do
  let key ← keyOf lang key
  let s ← MonadState.get
  match s.dirty.lookup key with
  | some entry => pure (entry.getD .null)
  | none => pure ((s.state.lookup key).getD .null)

def has (lang : Language) (key : Value) : Method Bool := do
  let key ← keyOf lang key
  let s ← MonadState.get
  pure (s.has key)

def set (lang : Language) (limits : StateLimits) (key value : Value) : Method Unit := do
  let key ← keyOf lang key
  let s ← MonadState.get
  refuse (s.checkKey limits key)
  refuse (checkValue lang limits value)
  let isLive := s.has key
  refuse (if !isLive && limits.maxStateKeys ≤ s.keyCount then some .keyCount else none)
  modify fun s => { s with dirty := setKey key (some value) s.dirty }
  if !isLive then modify fun s => { s with keyCount := s.keyCount + 1 }

def delete (lang : Language) (limits : StateLimits) (key : Value) : Method Bool := do
  let key ← keyOf lang key
  let s ← MonadState.get
  refuse (s.checkKey limits key)
  let isLive := s.has key
  if isLive then
    modify fun s => { s with dirty := setKey key none s.dirty }
    modify fun s => { s with keyCount := s.keyCount - 1 }
  pure isLive

end Method

end StateManager

/-- What the host knows while it answers the calls of one execution. -/
structure StateContext where
  lang : Language
  sum : Addition
  limits : StateLimits
  stateRead : ℕ
  stateWrite : ℕ
  stateDelete : ℕ

structure StateHost where
  gasTracker : GasTracker
  stateManager : StateManager

abbrev StateApi := EStateM CallError StateHost

namespace StateApi

variable (ctx : StateContext)

def charge (amount : ℕ) : StateApi Unit := fun host =>
  match host.gasTracker.charge ctx.sum (.finite amount) with
  | (none, gasTracker) => .ok () { host with gasTracker }
  | (some e, gasTracker) => .error (.charge e) { host with gasTracker }

def method {α : Type} (m : StateManager.Method α) : StateApi α := fun host =>
  match m host.stateManager with
  | .ok a stateManager => .ok a { host with stateManager }
  | .error e stateManager => .error (.state e) { host with stateManager }

end StateApi

inductive StateCall where
  | get (key : Value)
  | has (key : Value)
  | set (key value : Value)
  | delete (key : Value)

inductive StateAnswer where
  | value (v : Value)
  | flag (b : Bool)
  | done

open StateApi StateManager

def StateCall.answer (ctx : StateContext) : StateCall → StateApi StateAnswer
  | get key => do
    charge ctx ctx.stateRead
    let v ← method (Method.get ctx.lang key)
    pure (.value v)
  | has key => do
    charge ctx ctx.stateRead
    let b ← method (Method.has ctx.lang key)
    pure (.flag b)
  | set key value => do
    charge ctx ctx.stateWrite
    method (Method.set ctx.lang ctx.limits key value)
    pure .done
  | delete key => do
    charge ctx ctx.stateDelete
    let b ← method (Method.delete ctx.lang ctx.limits key)
    pure (.flag b)

end XChainVM.Runtime
