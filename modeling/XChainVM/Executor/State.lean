import XChainVM.Executor.Frames

/-! # The state of the process executor

The fields of the parent come first, under their own names. The event loop
contributes the timers still running and the children whose death path has run.
The last group is history: what was accepted, dispatched, sent and settled.
-/

namespace XChainVM.Executor

open Js

/-- The outcome of one `fork`: an exception with its code, or a child whose
channel is open unless the fork itself failed later on. -/
inductive ForkResult where
  | threw (code : String)
  | forked (connected : Bool)
  deriving DecidableEq, Repr

/-- The outcome of one `child.send`; a throw may come with the channel closed. -/
inductive SendResult where
  | accepted
  | threw (closed : Bool) (message : String)
  deriving DecidableEq, Repr

/-- The environment: the n-th fork, the n-th send and the n-th random token. -/
structure Host where
  fork : Nat → ForkResult
  send : Nat → SendResult
  token : Nat → Token

structure Config where
  gasCeiling : ℚ

structure Child where
  id : ChildId
  connected : Bool
  deriving DecidableEq, Repr

structure QueueEntry where
  id : RequestId
  opts : Value
  ceiling : ℚ
  deriving Repr

structure PendingEntry where
  id : RequestId
  timer : TimerId
  ceiling : ℚ
  token : Token
  deriving DecidableEq, Repr

inductive Callback where
  | ready (child : ChildId)
  | watchdog (request : RequestId)
  | snapshot
  deriving DecidableEq, Repr

/-- A running timer, with the child and the request it was armed for. -/
structure Timer where
  id : TimerId
  callback : Callback
  child : ChildId
  request : Option RequestId
  deriving DecidableEq, Repr

structure SnapshotChannel where
  set : Bool
  snapshot : Value
  token : Option Token
  sent : Bool
  acked : Bool
  timer : Option TimerId
  deriving Repr

structure Dispatch where
  id : RequestId
  child : ChildId
  token : Token
  deriving DecidableEq, Repr

structure State where
  child : Option Child
  pending : List PendingEntry
  queue : List QueueEntry
  nextId : RequestId
  inBlock : Bool
  shuttingDown : Bool
  consecutiveSpawnFailures : Nat
  sawReady : Bool
  everReady : Bool
  lastSpawnError : Option String
  broken : Bool
  lastBrokenRetryAt : Int
  readyTimer : Option TimerId
  snapshots : SnapshotChannel
  -- the event loop and the environment's counters
  timers : List Timer
  nextTimer : TimerId
  gone : List ChildId
  /-- Children whose exit is under way: killed, cut off from the parent or never started. -/
  dying : List ChildId
  forks : Nat
  sends : Nat
  tokens : Nat
  -- history
  accepted : List QueueEntry
  refused : List String
  dispatched : List Dispatch
  frames : List (ChildId × Frame)
  settled : List (RequestId × Settlement)

namespace State

def setTimeout (callback : Callback) (child : ChildId) (request : Option RequestId) (s : State) :
    TimerId × State :=
  (s.nextTimer, { s with
    timers := ⟨s.nextTimer, callback, child, request⟩ :: s.timers
    nextTimer := s.nextTimer + 1 })

def clearTimeout (handle : Option TimerId) (s : State) : State :=
  match handle with
  | none => s
  | some t => { s with timers := s.timers.filter (·.id ≠ t) }

def settle (id : RequestId) (outcome : Settlement) (s : State) : State :=
  { s with settled := (id, outcome) :: s.settled }

def settleAll (entries : List (RequestId × Settlement)) (s : State) : State :=
  { s with settled := entries.reverse ++ s.settled }

/-- `child.kill('SIGKILL')` on the current child; its exit follows as an event. -/
def kill (s : State) : State :=
  match s.child with
  | none => s
  | some c => { s with dying := c.id :: s.dying }

def closeChannel (s : State) : State :=
  match s.child with
  | none => s
  | some c => { s with child := some { c with connected := false }, dying := c.id :: s.dying }

def connected (s : State) : Bool :=
  match s.child with
  | none => false
  | some c => c.connected

def dispatchable (s : State) : Bool := s.sawReady && s.connected

def findPending (msgId : Value) (s : State) : Option PendingEntry :=
  s.pending.find? fun p => msgId.equalsNat p.id

end State

end XChainVM.Executor
