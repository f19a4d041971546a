import XChainVM.Gas.Tracker

/-! # Frames and outcomes of the process executor

The parent accepts a reply only when it echoes the token of the dispatch in
flight, and a result only when it has the fixed result shape. A worker's death
settles the dispatched request by its cause.
-/

namespace XChainVM.Executor

open Js

abbrev ChildId := Nat
abbrev RequestId := Nat
abbrev TimerId := Nat
abbrev Token := String

/-- Parent to child. The `init` frame carries the serializable configuration,
which nothing on the parent's side reads back. -/
inductive Frame where
  | init
  | beginBlock
  | endBlock
  | snapshot (token : Token) (crossChainData : Value)
  | execute (id : RequestId) (token : Token) (opts : Value)
  deriving Repr

/-- What an executor promise settles with. A worker's own result is the value
it sent; every host fault is an `Error` known here by its message. -/
structure TerminatedResult where
  success : Bool
  error : String
  gasUsed : ℚ
  returnValue : Value
  stateChanges : List Value
  stateDeletes : List Value
  emittedActions : List Value
  logs : List Value
  deriving Repr

inductive Settlement where
  | result (r : Value)
  | terminated (r : TerminatedResult)
  | hostFault (message : String)
  deriving Repr

def isResultShape (r : Value) : Bool :=
  r.isObject && !r.isArray &&
  (r.get "success").isBoolean &&
  ((r.get "error").isNull || (r.get "error").isString) &&
  (match r.get "gasUsed" with
    | .number (.finite q) => decide (0 ≤ q)
    | _ => false) &&
  (r.get "stateChanges").isArray && (r.get "stateDeletes").isArray &&
  (r.get "emittedActions").isArray && (r.get "logs").isArray

def replyFault (msg : Value) (token : Token) : Option String :=
  if !(msg.get "token").equalsString token then some "reply does not answer the dispatch in flight"
  else if (msg.get "type").equalsString "result" && !isResultShape (msg.get "result") then
    some "malformed result frame"
  else none

theorem replyFault_eq_none_iff {msg : Value} {token : Token} :
    replyFault msg token = none ↔ msg.get "token" = .string token ∧
      (msg.get "type" = .string "result" → isResultShape (msg.get "result") = true) := by
  unfold replyFault
  split
  · rename_i h
    simp only [Bool.not_eq_true', ← Bool.not_eq_true, Value.equalsString_iff] at h
    simp [h]
  · rename_i h
    simp only [Bool.not_eq_true', ← Bool.not_eq_true, Value.equalsString_iff, not_not] at h
    split <;> rename_i h' <;> simp_all

def selfInflictedSignals : List String :=
  ["SIGABRT", "SIGTRAP", "SIGILL", "SIGSEGV", "SIGBUS", "SIGFPE"]

/-- A non-zero exit or one of the fatal signals a contract can raise in its own worker. -/
def isSelfInflicted (code : Option Int) (signal : Option String) : Bool :=
  match signal, code with
  | some s, _ => selfInflictedSignals.contains s
  | none, some c => c != 0
  | none, none => false

def hostTerminatedResult (gasCeiling : ℚ) (kind : String) : TerminatedResult where
  success := false
  error := "out_of_resource: execution host terminated (" ++ kind ++ ")"
  gasUsed := gasCeiling
  returnValue := .null
  stateChanges := []
  stateDeletes := []
  emittedActions := []
  logs := []

def exitKind (code : Option Int) (signal : Option String) : String :=
  match signal, code with
  | some s, _ => "signal " ++ s
  | none, some c => "exit " ++ toString c
  | none, none => "exit null"

/-- The options carry a plain object the worker can be sent once per block.
Plain data has no functions, so the accessor test on the snapshot is vacuous. -/
def hasSerializableCrossChainSnapshot (opts : Value) : Bool :=
  opts.hasOwnProperty "crossChainData" && (opts.get "crossChainData").isObject

def snapshotReference (token : Token) : Value :=
  .object [("__xchainWorkerSnapshot", .string token)]

end XChainVM.Executor
