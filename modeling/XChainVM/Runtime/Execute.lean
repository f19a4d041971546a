import XChainVM.Runtime.ClassifyError

/-! # One execution

The pipeline from the size check to the result: the execute-time lint and its
charge, the isolate, the metered and compiled source, the run of the contract
and the checks on what it leaves. What the host meets on the way, and what the
contract does, is given by the environment of the execution.
-/

namespace XChainVM.Runtime

open Gas Js

/-- The verdict on the stored source, or the fault that kept it from being reached. -/
inductive LintVerdict where
  | valid
  | invalid (error : String)
  | fault (e : HostError)

inductive Setup where
  | ready
  | isolateUnavailable (message : String)
  | stepFailed (step message : String)
  | threw (e : HostError)

/-- Why metering or compiling a source failed. -/
structure SourceFault where
  message : String
  stackOverflow : Bool

inductive Ending where
  | returned (rawReturn : Value)
  | threw (e : HostError)

structure Environment where
  lint : LintVerdict
  setup : Setup
  metering : Option SourceFault
  compilation : Option SourceFault
  calls : List HostCall
  ending : Ending
  signals : HostSignals

/-- What the promise of an execution settles to. -/
inductive Outcome where
  | result (r : Result)
  | threw (e : HostError)

def Outcome.success : Outcome → Option Bool
  | result r => some r.success
  | threw _ => none

/-- `hostSetupStep`: a throw of a host operation, raised as a host fault when enabled. -/
def hostSetupStep (step : String) (haltOnFailure : Bool) (e : HostError) : HostError :=
  if haltOnFailure && e.cls ≠ .hostFault then
    hostFaultError ("execution setup failed (" ++ step ++ "): " ++ e.message)
  else e

inductive LintStep where
  | pass (s : Session)
  | refuse (r : Result)
  | threw (e : HostError)

/-- `Math.max(1, Math.ceil(codeBytes / EXEC_LINT_GAS_BYTES_PER_UNIT))`. -/
def lintUnits (codeBytes : ℕ) : ℕ :=
  max 1 ((codeBytes + EXEC_LINT_GAS_BYTES_PER_UNIT - 1) / EXEC_LINT_GAS_BYTES_PER_UNIT)

def checkExecLint (sum : Addition) (vm : Vm) (opts : ExecuteOpts) (lint : LintVerdict) (s : Session) :
    LintStep :=
  if isExecLintActive opts.network opts.coin opts.height then
    match s.gasTracker.charge sum (.finite (vm.gasSchedule.computation * lintUnits opts.codeBytes)) with
    | (some (.exhausted used ceiling), gasTracker) =>
      .refuse ({ s with gasTracker }.errorResult (.outOfGas used ceiling) (some gasTracker.ceiling))
    | (some .invalidAmount, _) =>
      .threw ⟨.other, "Error", "gas charge amount must be a non-negative finite number"⟩
    | (none, gasTracker) =>
      match lint with
      | .valid => .pass { s with gasTracker }
      | .invalid error => .refuse ({ s with gasTracker }.errorResult (.error ("banned syntax: " ++ error)) none)
      | .fault e => .threw e
  else .pass s

def ALLOWED_ACTIONS : List String :=
  ["SEND", "DESTROY", "ISSUE", "MINT", "ORDER", "DISPENSER", "DIVIDEND", "AIRDROP", "CALLBACK",
    "FILE", "LIST", "COINPAY", "SWEEP", "LINK", "BROADCAST", "MESSAGE", "ATTEST", "SLASH", "EXECUTE",
    "XCALL", "VOTE"]

def validate (action : EmittedAction) : Option String :=
  if action.action ∉ ALLOWED_ACTIONS then some ("unknown emission action: " ++ action.action)
  else if !action.params.isObject then some "emission params must be an object"
  else none

def extractReturnValue (lang : Language) (rawReturn : Value) : Option String :=
  match rawReturn with
  | .undefined | .null => none
  | .string text =>
    match text.toList with
    | '\x02' :: serialized => some (truncateText 65536 (String.ofList serialized))
    | _ => (lang.jsonText rawReturn).map (truncateText 65536)
  | _ => (lang.jsonText rawReturn).map (truncateText 65536)

section

variable (lang : Language) (sum : Addition) (vm : Vm) (opts : ExecuteOpts) (env : Environment)

def execCeiling : ℚ := effectiveCeiling opts.gasCeiling vm.gasCeiling

/-- `Number.isInteger(opts.callDepth) ? opts.callDepth : 0`. -/
def callDepthOf : ℤ :=
  match opts.callDepth with
  | .number (.finite q) => if q.isInt then q.num else 0
  | _ => 0

def Session.start : Session where
  gasTracker := .new (execCeiling vm opts)
  stateManager := .new opts.state (isStateKeyNulRejectActive opts.network opts.timestamp)
  emissionCollector :=
    .new vm.limits.maxEmissions (atOrAfter BINARY_ALLOC_GATE_BLOCK_TIME opts.timestamp)
  execContext := ⟨false, ""⟩

def callContext : CallContext where
  lang := lang
  sum := sum
  gasSchedule := vm.gasSchedule
  limits := vm.limits
  callDepth := callDepthOf opts
  nonFiniteFailClosed := atOrAfter BINARY_ALLOC_GATE_BLOCK_TIME opts.timestamp
  capFirst := isHostCallBoundsActive opts.network opts.timestamp

def classified (s : Session) (e : HostError) : Outcome :=
  match classifyError opts env.signals s e with
  | .ok r => .result r
  | .error e => .threw e

def collectResults (s : Session) (rawReturn : Value) : Result :=
  let t := s.gasTracker
  if t.exhausted && (isGasCeilingSuccessActive opts.network opts.timestamp || opts.gasCeilingExhausted) then
    s.errorResult (.outOfGas t.used t.ceiling) (some t.ceiling)
  else
    match s.emissionCollector.actions.findSome? validate with
    | some e => s.errorResult (.error ("invalid emission: " ++ e)) none
    | none =>
      { success := true
        error := none
        gasUsed := t.used
        returnValue := extractReturnValue lang rawReturn
        stateChanges := s.stateManager.getChanges.1
        stateDeletes := s.stateManager.getChanges.2
        emittedActions := s.emissionCollector.actions
        logs := s.emissionCollector.logs }

def runContract (s : Session) : Outcome :=
  let overflowIsHostFault := isLintSyntaxDepthActive opts.network opts.coin opts.height
  match env.setup with
  | .isolateUnavailable message =>
    classified opts env s (hostFaultError ("execution isolate unavailable: " ++ message))
  | .stepFailed step message =>
    classified opts env s (hostSetupStep step true ⟨.other, "Error", message⟩)
  | .threw e => classified opts env s e
  | .ready =>
    match env.metering with
    | some fault =>
      if overflowIsHostFault && fault.stackOverflow then
        classified opts env s (hostFaultError ("metering stack overflow: " ++ fault.message))
      else .result (s.errorResult (.error ("metering failed: " ++ fault.message)) none)
    | none =>
      match env.compilation with
      | some fault =>
        if overflowIsHostFault && fault.stackOverflow then
          classified opts env s (hostFaultError ("compilation stack overflow: " ++ fault.message))
        else if isHostFaultHaltActive opts.network opts.coin opts.height then
          classified opts env s (hostFaultError ("wrapper compilation failed: " ++ fault.message))
        else .result (s.errorResult (.error ("compilation failed: " ++ fault.message)) none)
      | none =>
        let s := s.serve (callContext lang sum vm opts) env.calls
        match env.ending with
        | .threw e => classified opts env s e
        | .returned rawReturn => .result (collectResults lang opts s rawReturn)

def execute : Outcome :=
  let s := Session.start vm opts
  if vm.limits.maxCodeSize < opts.codeBytes then
    .result (s.errorResult (.error ("code size exceeds limit (" ++ toString vm.limits.maxCodeSize ++ " bytes)")) none)
  else
    match checkExecLint sum vm opts env.lint s with
    | .refuse r => .result r
    | .threw e =>
      .threw (hostSetupStep "checkExecLint" (isHostFaultHaltActive opts.network opts.coin opts.height) e)
    | .pass s => runContract lang sum vm opts env s

end

end XChainVM.Runtime
