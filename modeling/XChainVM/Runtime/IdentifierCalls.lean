import XChainVM.Runtime.HostCalls
import XChainVM.Runtime.Identifiers

/-! # The calls that return an identifier

An attestation request and a cross-chain call, with every check in the order it throws. Each
identifies itself by the number of actions queued before its own.
-/

namespace XChainVM.Runtime

open Js

/-- What the host knows while it answers calls that derive an identifier. -/
structure EmitContext extends CallContext where
  network : Value
  contractAddress : Value
  txHash : Value
  rootActionIndex : Value
  callPath : Value
  contractIndex : Value
  isGuard : Bool
  crossHops : ℤ
  providerDeadlines : Value
  attestRequest : ℕ
  xcallRequest : ℕ
  xcallCallback : ℕ
  hash : String → String

inductive EmitError where
  | call (e : CallError)
  | params (e : ExecuteRefusal)
  | fieldType (field : String) (found : Value)
  | voteVersion
  | pubkey
  | token
  | tokenDelimiter
  | slashAmount
  | notForGuard
  | providerId
  | requestPayload
  | requestPayloadSize
  | callbackMethod
  | callbackMethodDelimiter
  | callbackParams
  | callbackParamsJson
  | callbackParamsSize
  | redundancy
  | deadlineBlocks
  | feeDelimiter
  | feeAmount
  | feeTick
  | providerWindow (deadlineBlocks limit : ℚ)
  | maxHops
  | targetChain
  | sameChain
  | gasLimit
  | exceedsRemaining (totalCharge : ℚ)
  | conversion

abbrev EmitApi := EStateM EmitError Session

namespace EmitApi

def call (f : Session → Option CallError × Session) : EmitApi Unit := fun s =>
  match f s with
  | (none, s') => .ok () s'
  | (some e, s') => .error (.call e) s'

def check {α : Type} (result : Except EmitError α) : EmitApi α := fun s =>
  match result with
  | .ok a => .ok a s
  | .error e => .error e s

/-- `emissionCollector.ensureRoom()` when the bound on host calls is on. -/
def ensureRoomFirst (ctx : EmitContext) : EmitApi Unit := call fun s =>
  if ctx.capFirst && !s.emissionCollector.ensureRoom then
    (some (.emissionLimit s.emissionCollector.max), s)
  else (none, s)

def charge (ctx : EmitContext) (amount : ℚ) : EmitApi Unit :=
  call fun s => s.charge ctx.toCallContext (.finite amount)

def add (action : String) (params : Value) : EmitApi Unit := call fun s => s.queue action params

def emissionIndex : EmitApi ℕ := fun s => .ok s.emissionCollector.actions.length s

def identifier (ctx : EmitContext) (preimage : Option String) : EmitApi String :=
  check (preimage.elim (.error .conversion) fun text => .ok (ctx.hash text))

end EmitApi

/-- `if (!holds) throw e`. -/
def demand (holds : Bool) (e : EmitError) : Except EmitError Unit := if holds then .ok () else .error e

def converted {α : Type} : Option α → Except EmitError α
  | some a => .ok a
  | none => .error .conversion

def checkText (limit : ℕ) (e : EmitError) : Value → Except EmitError String
  | .string s => if s = "" ∨ limit < s.utf8ByteSize then .error e else .ok s
  | _ => .error e

def checkInteger (minimum maximum : ℚ) (e : EmitError) : Value → Except EmitError ℚ
  | .number (.finite q) => if q.isInt ∧ minimum ≤ q ∧ q ≤ maximum then .ok q else .error e
  | _ => .error e

def checkElements : Value → Except EmitError (List Value)
  | .array elements => .ok elements
  | _ => .error .callbackParams

def checkCallbackJson (lang : Language) (elements : List Value) : Except EmitError String :=
  match lang.jsonText (.array elements) with
  | none => .error .callbackParamsJson
  | some json => if 1024 < json.utf8ByteSize then .error .callbackParamsSize else .ok json

/-- `option !== undefined ? Number(option) : fallback`. -/
def numberOption (lang : Language) (fallback : ℚ) : Value → Except EmitError Value
  | .undefined => .ok (.number (.finite fallback))
  | option => (converted (lang.toNumber option)).map .number

structure AttestRequest where
  providerId : Value
  requestPayload : Value
  callbackMethod : Value
  callbackParams : Value
  options : Value

structure Envelope where
  redundancy : ℚ
  deadlineBlocks : ℚ
  feeTick : String
  feeAmount : String

/-- `/^\d+(\.\d{1,8})?$/`. -/
def isFeeAmount (text : String) : Bool :=
  match text.toList.span Char.isDigit with
  | (whole, []) => !whole.isEmpty
  | (whole, '.' :: decimals) => !whole.isEmpty && isDigits decimals && decimals.length ≤ 8
  | _ => false

def checkRedundancy : Value → Except EmitError ℚ
  | .number (.finite q) => if q = 1 ∨ q = 3 ∨ q = 5 then .ok q else .error .redundancy
  | _ => .error .redundancy

def feeText (lang : Language) (option : Value) : Except EmitError String :=
  if option.isNullish then .ok "" else (converted (lang.text option)).map trim

def checkProviderWindow (lang : Language) (providerDeadlines : Value) (providerId : String)
    (deadlineBlocks : ℚ) : Except EmitError Unit :=
  match providerDeadlines.ownProperty? providerId with
  | none => .ok ()
  | some window => do
    let limit ← converted (lang.toNumber window)
    match limit with
    | .finite limit => demand (deadlineBlocks ≤ limit) (.providerWindow deadlineBlocks limit)
    | _ => .ok ()

def validateAttestOptions (ctx : EmitContext) (options : Value) (providerId : String) :
    Except EmitError Envelope := do
  let opts := options.orElse (.object [])
  let redundancy ← numberOption ctx.lang 1 (opts.get "redundancy")
  let deadlineBlocks ← numberOption ctx.lang 10 (opts.get "deadlineBlocks")
  let redundancy ← checkRedundancy redundancy
  let deadlineBlocks ← checkInteger 1 100 .deadlineBlocks deadlineBlocks
  let feeTick ← feeText ctx.lang (opts.get "feeTick")
  let feeAmount ← feeText ctx.lang (opts.get "feeAmount")
  demand (!feeTick.toList.contains '|' && !feeAmount.toList.contains '|') .feeDelimiter
  demand (feeAmount = "" || isFeeAmount feeAmount) .feeAmount
  demand (feeAmount = "" || feeAmount = "0" || feeTick ≠ "") .feeTick
  checkProviderWindow ctx.lang ctx.providerDeadlines providerId deadlineBlocks
  pure ⟨redundancy, deadlineBlocks, feeTick, feeAmount⟩

def checkRequestPayload : Value → Except EmitError String
  | .string s => if 8192 < s.utf8ByteSize then .error .requestPayloadSize else .ok s
  | _ => .error .requestPayload

/-- The checks of a request after its charges, and the emission it queues but for its identifier. -/
def checkRequest (ctx : EmitContext) (r : AttestRequest) : Except EmitError (List (String × Value)) := do
  let providerId ← checkText 32 .providerId r.providerId
  let requestPayload ← checkRequestPayload r.requestPayload
  let callbackMethod ← checkText 64 .callbackMethod r.callbackMethod
  let elements ← checkElements r.callbackParams
  let callbackParams ← checkCallbackJson ctx.lang elements
  let envelope ← validateAttestOptions ctx r.options providerId
  pure [("providerId", .string providerId), ("requestPayload", .string requestPayload),
    ("callbackMethod", .string callbackMethod), ("callbackParams", .string callbackParams),
    ("redundancy", .number (.finite envelope.redundancy)),
    ("deadlineBlocks", .number (.finite envelope.deadlineBlocks)),
    ("feeTick", .string envelope.feeTick), ("feeAmount", .string envelope.feeAmount)]

def EmitContext.requestFields (ctx : EmitContext) (emissionIndex : ℕ) : RequestFields :=
  ⟨ctx.txHash, ctx.rootActionIndex, ctx.callPath, ctx.contractIndex, emissionIndex⟩

open EmitApi

def queueAttestRequest (ctx : EmitContext) (params : List (String × Value)) : EmitApi String := do
  let index ← emissionIndex
  let requestId ← identifier ctx (buildRequestIdPreimage ctx.lang (ctx.requestFields index))
  add "ATTEST" (.object (("requestId", .string requestId) :: params))
  pure requestId

/-- `attestation.request`. -/
def attestationRequest (ctx : EmitContext) (r : AttestRequest) : EmitApi String := do
  check (demand (!ctx.isGuard) .notForGuard)
  ensureRoomFirst ctx
  charge ctx ctx.attestRequest
  charge ctx ctx.gasSchedule.emission
  let params ← check (checkRequest ctx r)
  queueAttestRequest ctx params

def XCALL_MIN_GAS : ℚ := 5000
def XCALL_MAX_GAS : ℚ := 200000
def XCALL_MAX_HOPS : ℤ := 2
def XCALL_MIN_DEADLINE_BLOCKS : ℚ := 10
def XCALL_MAX_DEADLINE_BLOCKS : ℚ := 4000
def XCALL_DEFAULT_DEADLINE : ℚ := 400

def ALLOWED_TARGET_CHAINS : List String := ["BTC", "LTC", "DOGE"]

def checkTargetChain : Value → Except EmitError String
  | .string chain => if chain ∈ ALLOWED_TARGET_CHAINS then .ok chain else .error .targetChain
  | _ => .error .targetChain

def EmitContext.sourceChain (ctx : EmitContext) : Option String :=
  (textOrEmpty ctx.lang ctx.contractAddress).map (splitPart ':' 1)

def shared {α : Type} (result : Except ExecuteRefusal α) : Except EmitError α := result.mapError .params

structure XcallCallee where
  contractIndex : ℚ
  method : String
  args : List Value

def validateXcallCallee (ctx : EmitContext) (params : Value) : Except EmitError XcallCallee := do
  let contractIndex ← shared (checkContractIndex ctx.lang (params.get "contractIndex"))
  let method ← shared (checkMethod (params.get "method"))
  let args ← shared (argsOf (params.get "params"))
  pure ⟨contractIndex, method, args⟩

structure XcallCallback where
  callbackMethod : String
  callbackParams : List String

def elementsOrNone (params : Value) : Except EmitError (List Value) :=
  if params.isNullish then .ok [] else checkElements params

def checkTexts (lang : Language) (elements : List Value) : Except EmitError (List String) :=
  match elements.mapM lang.text with
  | none => .error .callbackParamsJson
  | some texts => (checkCallbackJson lang (texts.map .string)).map fun _ => texts

def validateXcallCallback (ctx : EmitContext) (params : Value) : Except EmitError XcallCallback := do
  let callbackMethod ← checkText 64 .callbackMethod (params.get "callbackMethod")
  demand (!callbackMethod.toList.contains '|') .callbackMethodDelimiter
  let elements ← elementsOrNone (params.get "callbackParams")
  let callbackParams ← checkTexts ctx.lang elements
  pure ⟨callbackMethod, callbackParams⟩

structure XcallBudget where
  deadlineBlocks : ℚ
  gasLimit : ℚ
  totalCharge : ℚ

def validateXcallBudget (ctx : EmitContext) (s : Session) (params : Value) : Except EmitError XcallBudget := do
  let deadlineBlocks ← numberOption ctx.lang XCALL_DEFAULT_DEADLINE (params.get "deadlineBlocks")
  let deadlineBlocks ←
    checkInteger XCALL_MIN_DEADLINE_BLOCKS XCALL_MAX_DEADLINE_BLOCKS .deadlineBlocks deadlineBlocks
  let gasLimit ← checkInteger XCALL_MIN_GAS XCALL_MAX_GAS .gasLimit (params.get "gasLimit")
  let totalCharge := ctx.gasSchedule.emission + ctx.xcallRequest + gasLimit + ctx.xcallCallback
  demand (!GasTracker.exceedsRemaining s.gasTracker totalCharge) (.exceedsRemaining totalCharge)
  pure ⟨deadlineBlocks, gasLimit, totalCharge⟩

def checkChains (ctx : EmitContext) (params : Value) : Except EmitError (String × String) := do
  let targetChain ← checkTargetChain (params.get "targetChain")
  let sourceChain ← converted ctx.sourceChain
  demand (targetChain ≠ sourceChain) .sameChain
  pure (sourceChain, targetChain)

structure XcallRequest where
  sourceChain : String
  targetChain : String
  callee : XcallCallee
  callback : XcallCallback
  budget : XcallBudget

def checkXcall (ctx : EmitContext) (s : Session) (params : Value) : Except EmitError XcallRequest := do
  demand (!ctx.isGuard) .notForGuard
  shared (validateRequired params ["targetChain", "contractIndex", "method", "gasLimit", "callbackMethod"])
  demand (ctx.crossHops + 1 ≤ XCALL_MAX_HOPS) .maxHops
  let (sourceChain, targetChain) ← checkChains ctx params
  let callee ← validateXcallCallee ctx params
  let callback ← validateXcallCallback ctx params
  let budget ← validateXcallBudget ctx s params
  pure ⟨sourceChain, targetChain, callee, callback, budget⟩

def XcallRequest.params (r : XcallRequest) (callId : String) : Value :=
  .object [("callId", .string callId), ("targetChain", .string r.targetChain),
    ("contractIndex", .number (.finite r.callee.contractIndex)), ("method", .string r.callee.method),
    ("params", .array r.callee.args), ("gasLimit", .number (.finite r.budget.gasLimit)),
    ("callbackMethod", .string r.callback.callbackMethod),
    ("callbackParams", .array (r.callback.callbackParams.map .string)),
    ("deadlineBlocks", .number (.finite r.budget.deadlineBlocks))]

def EmitContext.callFields (ctx : EmitContext) (sourceChain targetChain : String) (emissionIndex : ℕ) :
    CallFields :=
  ⟨ctx.network, sourceChain, ctx.txHash, ctx.rootActionIndex, ctx.contractIndex, ctx.callPath,
    emissionIndex, targetChain⟩

def deriveXcallCallId (ctx : EmitContext) (sourceChain targetChain : String) : EmitApi String := do
  let index ← emissionIndex
  identifier ctx (buildCallIdPreimage ctx.lang (ctx.callFields sourceChain targetChain index))

/-- `emit.crossExecute`. -/
def crossExecute (ctx : EmitContext) (params : Value) : EmitApi String := do
  let s ← MonadState.get
  let r ← check (checkXcall ctx s params)
  let callId ← deriveXcallCallId ctx r.sourceChain r.targetChain
  ensureRoomFirst ctx
  charge ctx r.budget.totalCharge
  add "XCALL" (r.params callId)
  pure callId

end XChainVM.Runtime
