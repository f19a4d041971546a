import XChainVM.Executor.Handlers
import XChainVM.Machine.Run

/-! # The executor as an event-driven machine

Events arrive in any order: from the current child, from a child already
replaced, from a timer still running, from the caller. A message carries any
plain value at all.
-/

namespace XChainVM.Executor

open Js

inductive Event where
  | message (child : ChildId) (msg : Value)
  /-- `exit` or `close`, whichever of the two comes first and whichever follows. -/
  | exit (child : ChildId) (code : Option Int) (signal : Option String)
  | spawnError (code : String)
  /-- The channel of a child goes down; its own disconnect handler then exits it. -/
  | disconnect (child : ChildId)
  | timer (t : TimerId)
  | beginBlock
  | endBlock
  | execute (opts : Value) (now : Int)
  | shutdown
  deriving Repr

variable (host : Host) (cfg : Config)

def step (s : State) : Event → State
  | .message c msg => onMessage host msg c s
  -- the handlers of a child are registered when it is forked
  | .exit c code signal => if c < s.forks then onGone host c code signal s else s
  | .spawnError code => { s with lastSpawnError := some code }
  | .disconnect c => if s.child.map Child.id = some c then s.closeChannel else s
  | .timer t => fireTimer host t s
  | .beginBlock => beginBlock host s
  | .endBlock => endBlock host s
  | .execute opts now => execute host cfg opts now s
  | .shutdown => shutdown s

def blank : State where
  child := none
  pending := []
  queue := []
  nextId := 1
  inBlock := false
  shuttingDown := false
  consecutiveSpawnFailures := 0
  sawReady := false
  everReady := false
  lastSpawnError := none
  broken := false
  lastBrokenRetryAt := 0
  readyTimer := none
  snapshots := ⟨false, .null, none, false, false, none⟩
  timers := []
  nextTimer := 0
  gone := []
  dying := []
  forks := 0
  sends := 0
  tokens := 0
  accepted := []
  refused := []
  dispatched := []
  frames := []
  settled := []

def initial : State := spawn host blank

def run (events : List Event) : State := Machine.run (step host cfg) (initial host) events

/-! A host on which every fork and every send succeeds. -/

def steadyToken (n : Nat) : Token := String.ofList (List.replicate n 'k')

theorem steadyToken_injective : Function.Injective steadyToken := by
  intro m n h
  have := congrArg String.length h
  simpa [steadyToken] using this

def steady : Host := ⟨fun _ => .forked true, fun _ => .accepted, steadyToken⟩

def readyFrame : Value := .object [("type", .string "ready")]

def snapshotAckFrame (token : Token) : Value :=
  .object [("type", .string "snapshotAck"), ("token", .string token)]

@[simp] theorem snapshotAckFrame_type (token : Token) :
    (snapshotAckFrame token).get "type" = .string "snapshotAck" := rfl

end XChainVM.Executor
