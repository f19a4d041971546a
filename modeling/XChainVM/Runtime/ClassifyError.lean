import XChainVM.Runtime.HostCalls

/-! # Failure results and their classification

A failed execution keeps its logs and its gas and drops every effect. The
classifier maps what an execution threw onto the frozen status prefixes; a
fault of the host has no classification and is thrown again.
-/

namespace XChainVM.Runtime

open Gas Js

/-- The error text of a failed result, by its frozen prefix. -/
inductive Failure where
  | revert (reason : String)
  | outOfGas (used : WithTop ℚ) (ceiling : ℚ)
  | timeout
  | outOfMemory
  | outOfStack
  | error (text : String)
  deriving DecidableEq

structure Result where
  success : Bool
  error : Option Failure
  gasUsed : WithTop ℚ
  returnValue : Option String
  stateChanges : List (String × Value)
  stateDeletes : List String
  emittedActions : List EmittedAction
  logs : List String

/-- The class of an error, as `instanceof` tells it. -/
inductive ErrorClass where
  | hostFault
  | contractRevert
  | gasExhausted (used : WithTop ℚ) (ceiling : ℚ)
  | rangeError
  | other
  deriving DecidableEq

structure HostError where
  cls : ErrorClass
  name : String
  message : String
  deriving DecidableEq

def hostFaultError (reason : String) : HostError :=
  ⟨.hostFault, "HostFaultError", if reason = "" then "executor unavailable" else reason⟩

structure HostSignals where
  isolateDisposed : Bool
  wallBudgetSpent : Bool
  stackFault : Bool

structure ExecuteOpts where
  network : Value
  contractAddress : Value
  height : Number
  timestamp : Number
  gasCeiling : Value
  callDepth : Value
  codeBytes : ℕ
  state : List (String × Value)

namespace ExecuteOpts

def coin (opts : ExecuteOpts) : Option String := pkg3CoinFromAddress opts.contractAddress

def gasCeilingExhausted (opts : ExecuteOpts) : Bool :=
  isGasCeilingExhaustedActive opts.network opts.coin opts.height

end ExecuteOpts

def Session.errorResult (s : Session) (failure : Failure) (gasOverride : Option ℚ) : Result where
  success := false
  error := some failure
  gasUsed := match gasOverride with
    | some gas => gas
    | none => s.gasTracker.used
  returnValue := none
  stateChanges := []
  stateDeletes := []
  emittedActions := []
  logs := s.emissionCollector.logs

def isSpace (c : Char) : Bool :=
  c ∈ ['\t', '\n', '\x0b', '\x0c', '\r', ' ', '\u00a0', '\u1680', '\u2028', '\u2029', '\u202f',
    '\u205f', '\u3000', '\ufeff'] || (0x2000 ≤ c.toNat && c.toNat ≤ 0x200a)

def isPathChar (c : Char) : Bool := c.isAlphanum || c ∈ ['_', '.', '/', '-']

/-- A `:digits` suffix of a path, if there is one. -/
def dropPosition : List Char → List Char
  | ':' :: rest => if (rest.takeWhile Char.isDigit).isEmpty then ':' :: rest else rest.dropWhile Char.isDigit
  | cs => cs

/-- What follows a file path that starts here, white space before it included. -/
def afterPath (cs : List Char) : Option (List Char) :=
  match cs.dropWhile isSpace with
  | '/' :: c :: rest =>
    if isPathChar c then some (dropPosition (dropPosition (rest.dropWhile isPathChar))) else none
  | _ => none

/-- The text without its file paths; every step uses up a character of it. -/
def stripPaths : ℕ → List Char → List Char
  | 0, cs => cs
  | n + 1, cs =>
    match afterPath cs with
    | some rest => stripPaths n rest
    | none =>
      match cs with
      | [] => []
      | c :: rest => c :: stripPaths n rest

def sanitizeError (msg : String) : String :=
  if msg = "" then "unknown error"
  else
    let firstLine := msg.toList.takeWhile (· ≠ '\n')
    truncateText 256 (String.ofList (stripPaths firstLine.length firstLine))

section

variable (opts : ExecuteOpts) (signals : HostSignals) (s : Session) (error : HostError)

/-- The stored reason of a revert, and the text of the error only where none is stored. -/
def revertReason (payload : List Char) : String :=
  if s.execContext.revertReason = "" then String.ofList (payload.drop 7) else s.execContext.revertReason

/-- A typed error that lost its class at the isolate boundary, trusted only where the
host's own record confirms it. -/
def markedError : Option Result :=
  match error.message.toList with
  | '\x03' :: payload =>
    if startsWith (String.ofList payload) "REVERT:" && s.execContext.reverted then
      some (s.errorResult (.revert (revertReason s payload)) none)
    else if startsWith (String.ofList payload) "GAS:" && (s.gasTracker.ceiling : WithTop ℚ) < s.gasTracker.used then
      some (s.errorResult (.outOfGas s.gasTracker.used s.gasTracker.ceiling) (some s.gasTracker.ceiling))
    else none
  | _ => none

/-- A resource termination, billed at the ceiling; none when the text is not
corroborated or names no resource. -/
def resourceFault : Option Result :=
  let msg := error.message
  let corroborate := isLintHardeningActive opts.network opts.timestamp
  let faultSignalOn := corroborate && isResourceFaultSignalActive opts.network opts.coin opts.height
  let clamp := fun failure => s.errorResult failure (some s.gasTracker.ceiling)
  if faultSignalOn && signals.isolateDisposed && includes msg "memory limit" then
    some (clamp .outOfMemory)
  else if includes msg "Script execution timed out" || includes msg "disposed" then
    if !corroborate || signals.isolateDisposed || signals.wallBudgetSpent then some (clamp .timeout)
    else none
  else if includes msg "out of memory" || includes msg "Array buffer allocation failed" then
    if !corroborate || signals.isolateDisposed then some (clamp .outOfMemory) else none
  else if includes msg "Maximum call stack size exceeded" || includes msg "call stack" then
    if !corroborate || (if faultSignalOn then signals.stackFault
        else error.cls = .rangeError || error.name = "RangeError" ||
          msg = "maximum call stack depth exceeded") then
      some (clamp .outOfStack)
    else none
  else none

def classifyError : Except HostError Result :=
  let t := s.gasTracker
  if error.cls = .hostFault then .error error
  else if t.exhausted && opts.gasCeilingExhausted then
    .ok (s.errorResult (.outOfGas t.used t.ceiling) (some t.ceiling))
  else
    match error.cls with
    | .contractRevert => .ok (s.errorResult (.revert error.message) none)
    | .gasExhausted used ceiling => .ok (s.errorResult (.outOfGas used ceiling) (some t.ceiling))
    | _ =>
      match markedError s error with
      | some r => .ok r
      | none =>
        match resourceFault opts signals s error with
        | some r => .ok r
        | none => .ok (s.errorResult (.error (sanitizeError error.message)) none)

end

end XChainVM.Runtime
