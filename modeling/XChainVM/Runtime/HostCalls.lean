import XChainVM.Gas.Tracker
import XChainVM.Runtime.Collector
import XChainVM.Runtime.Gates
import XChainVM.Runtime.StateManager

/-! # What a running contract asks of the host

The host side of one execution, and the calls that change it. A call either
returns or throws into the contract, which may catch the error and go on, so a
run of the contract is a list of calls and each is answered from the state the
one before it left.
-/

namespace XChainVM.Runtime

open Gas Js

/-- The charged keys of the schedule that a modelled call names. Construction has
checked each to be a non-negative integer. -/
structure GasSchedule where
  computation : ℕ
  stateWrite : ℕ
  stateDelete : ℕ
  emission : ℕ

structure Limits extends StateLimits where
  maxCodeSize : ℤ
  maxEmissions : ℤ
  maxCallDepth : ℤ
  minCallGas : ℤ

/-- A configured virtual machine. Its ceiling is a maximum amount of gas. -/
structure Vm where
  gasSchedule : GasSchedule
  gasCeiling : ℚ
  limits : Limits
  gasCeiling_nonneg : 0 ≤ gasCeiling

structure ExecContext where
  reverted : Bool
  revertReason : String
  deriving Repr

structure Session where
  gasTracker : GasTracker
  stateManager : StateManager
  emissionCollector : EmissionCollector
  execContext : ExecContext

/-- What the host knows while it answers calls. -/
structure CallContext where
  lang : Language
  sum : Addition
  gasSchedule : GasSchedule
  limits : Limits
  callDepth : ℤ
  nonFiniteFailClosed : Bool
  capFirst : Bool

/-- The emitters that queue an action for one fixed charge, under the action each queues. -/
inductive Emitter where
  | send | destroy | issue | mint | order | dispenser | dividend | airdrop | callback
  | file | list | coinpay | sweep | link | broadcast | message | vote | attest | slash | xcall
  deriving DecidableEq, Repr

def Emitter.action : Emitter → String
  | send => "SEND" | destroy => "DESTROY" | issue => "ISSUE" | mint => "MINT" | order => "ORDER"
  | dispenser => "DISPENSER" | dividend => "DIVIDEND" | airdrop => "AIRDROP"
  | callback => "CALLBACK" | file => "FILE" | list => "LIST" | coinpay => "COINPAY"
  | sweep => "SWEEP" | link => "LINK" | broadcast => "BROADCAST" | message => "MESSAGE"
  | vote => "VOTE" | attest => "ATTEST" | slash => "SLASH" | xcall => "XCALL"

inductive ExecuteRefusal where
  | notObject
  | missingField (field : String)
  | maxCallDepth (limit : ℤ)
  | contractIndex
  | method
  | methodDelimiter
  | paramsNotArray
  | paramsCount
  | paramNotString
  | paramSize
  | paramDelimiter
  | gasLimit (minimum : ℤ)
  | exceedsRemaining (gasLimit : ℚ)
  deriving Repr

inductive CallError where
  | charge (e : ChargeError)
  | state (e : StateError)
  | execute (e : ExecuteRefusal)
  | emissionLimit (max : ℤ)
  | reverted (reason : String)

/-- One call into the host that reaches its effect. A call refused before it charges
or changes anything leaves no trace here, except where `emit.execute` refuses it. -/
inductive HostCall where
  | gas (units : Value)
  | charge (amount : Number)
  | stateSet (key value : Value)
  | stateDelete (key : Value)
  | emit (emitter : Emitter) (amount : Number) (params : Value)
  | execute (params : Value)
  | log (message : String)
  | revert (reason : String)

def MAX_SAFE_INTEGER : ℚ := 9007199254740991

/-- The units one `__gas` call bills. -/
def gasUnits (nonFiniteFailClosed : Bool) : Value → ℚ
  | .number (.finite q) => if 1 ≤ q then q.floor else 1
  | .number _ => if nonFiniteFailClosed then MAX_SAFE_INTEGER else 1
  | _ => 1

namespace Session

variable (ctx : CallContext) (s : Session)

def charge (amount : Number) : Option CallError × Session :=
  let (e, gasTracker) := s.gasTracker.charge ctx.sum amount
  (e.map .charge, { s with gasTracker })

/-- `emissionCollector.add`, which throws when the cap is reached. -/
def queue (action : String) (params : Value) : Option CallError × Session :=
  match s.emissionCollector.add action params with
  | some emissionCollector => (none, { s with emissionCollector })
  | none => (some (.emissionLimit s.emissionCollector.max), s)

def afterCharge (amount : Number) (next : Session → Option CallError × Session) :
    Option CallError × Session :=
  match s.charge ctx amount with
  | (none, s') => next s'
  | thrown => thrown

def write (result : Except StateError StateManager) : Option CallError × Session :=
  match result with
  | .ok stateManager => (none, { s with stateManager })
  | .error e => (some (.state e), s)

end Session

structure ExecuteRequest where
  contractIndex : ℚ
  method : String
  args : List Value
  gasLimit : ℚ

/-- `if (!holds) throw e`. -/
def require (holds : Bool) (e : ExecuteRefusal) : Except ExecuteRefusal Unit :=
  if holds then .ok () else .error e

def requireFields (params : Value) : List String → Except ExecuteRefusal Unit
  | [] => .ok ()
  | field :: rest =>
    match params.get field with
    | .undefined | .null => .error (.missingField field)
    | _ => requireFields params rest

def validateRequired (params : Value) (fields : List String) : Except ExecuteRefusal Unit := do
  require params.isObject .notObject
  requireFields params fields

def checkMethod (method : Value) : Except ExecuteRefusal String :=
  match method with
  | .string name =>
    if name = "" ∨ 64 < name.utf8ByteSize then .error .method
    else if name.toList.contains '|' then .error .methodDelimiter else .ok name
  | _ => .error .method

def checkArgs : List Value → Option ExecuteRefusal
  | [] => none
  | .string a :: rest =>
    if 1024 < a.utf8ByteSize then some .paramSize
    else if a.toList.contains '|' then some .paramDelimiter else checkArgs rest
  | _ :: _ => some .paramNotString

def argsOf (params : Value) : Except ExecuteRefusal (List Value) :=
  match params with
  | .undefined | .null => .ok []
  | .array args =>
    if 32 < args.length then .error .paramsCount
    else match checkArgs args with
      | some e => .error e
      | none => .ok args
  | _ => .error .paramsNotArray

def checkContractIndex (lang : Language) (index : Value) : Except ExecuteRefusal ℚ :=
  match lang.toNumber index with
  | some (.finite q) => if q.isInt ∧ 0 < q ∧ q ≤ MAX_SAFE_INTEGER then .ok q else .error .contractIndex
  | _ => .error .contractIndex

def checkGasLimit (minCallGas : ℤ) (gasLimit : Value) : Except ExecuteRefusal ℚ :=
  match gasLimit with
  | .number (.finite q) => if q.isInt ∧ (minCallGas : ℚ) ≤ q then .ok q else .error (.gasLimit minCallGas)
  | _ => .error (.gasLimit minCallGas)

/-- The checks of `emit.execute` in the order they throw, up to the remaining gas. -/
def checkExecute (ctx : CallContext) (params : Value) : Except ExecuteRefusal ExecuteRequest := do
  validateRequired params ["contractIndex", "method", "gasLimit"]
  require (ctx.callDepth + 1 ≤ ctx.limits.maxCallDepth) (.maxCallDepth ctx.limits.maxCallDepth)
  let contractIndex ← checkContractIndex ctx.lang (params.get "contractIndex")
  let method ← checkMethod (params.get "method")
  let args ← argsOf (params.get "params")
  let gasLimit ← checkGasLimit ctx.limits.minCallGas (params.get "gasLimit")
  return ⟨contractIndex, method, args, gasLimit⟩

def ExecuteRequest.params (r : ExecuteRequest) : Value :=
  .object [("contractIndex", .number (.finite r.contractIndex)), ("method", .string r.method),
    ("params", .array r.args), ("gasLimit", .number (.finite r.gasLimit))]

/-- `amount > ceiling - used`, where an infinite total leaves nothing. -/
def GasTracker.exceedsRemaining (t : GasTracker) (amount : ℚ) : Bool :=
  match t.used with
  | none => true
  | some used => t.ceiling - used < amount

namespace Session

variable (ctx : CallContext) (s : Session)

/-- Reserve the emission cost and the whole budget of the callee, then queue the call. -/
def reserve (r : ExecuteRequest) : Option CallError × Session :=
  if GasTracker.exceedsRemaining s.gasTracker (r.gasLimit + ctx.gasSchedule.emission) then
    (some (.execute (.exceedsRemaining r.gasLimit)), s)
  else if ctx.capFirst && !s.emissionCollector.ensureRoom then
    (some (.emissionLimit s.emissionCollector.max), s)
  else
    s.afterCharge ctx (.finite (ctx.gasSchedule.emission + r.gasLimit))
      (fun s => s.queue "EXECUTE" r.params)

def emitExecute (params : Value) : Option CallError × Session :=
  match checkExecute ctx params with
  | .error e => (some (.execute e), s)
  | .ok r => s.reserve ctx r

def answer : HostCall → Option CallError × Session
  | .gas units =>
    s.charge ctx (.finite (ctx.gasSchedule.computation * gasUnits ctx.nonFiniteFailClosed units))
  | .charge amount => s.charge ctx amount
  | .stateSet key value =>
    s.afterCharge ctx (.finite ctx.gasSchedule.stateWrite)
      (fun s => s.write (s.stateManager.set ctx.lang ctx.limits.toStateLimits key value))
  | .stateDelete key =>
    s.afterCharge ctx (.finite ctx.gasSchedule.stateDelete)
      (fun s => s.write (s.stateManager.delete ctx.lang ctx.limits.toStateLimits key))
  | .emit emitter amount params => s.afterCharge ctx amount (fun s => s.queue emitter.action params)
  | .execute params => s.emitExecute ctx params
  | .log message => (none, { s with emissionCollector := s.emissionCollector.addLog message })
  | .revert reason =>
    (some (.reverted reason), { s with execContext := ⟨true, reason⟩ })

def serve (calls : List HostCall) : Session := calls.foldl (fun s call => (s.answer ctx call).2) s

end Session

end XChainVM.Runtime
