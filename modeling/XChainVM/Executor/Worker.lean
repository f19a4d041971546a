import Mathlib.Logic.Function.Basic
import XChainVM.Executor.Machine

/-! # The workers behind the pipe

Each child receives the frames sent to it in order, any time later, and runs its
`execute` frames one after another. The snapshot listener acts when a frame is
received, the execution when its turn in the chain comes. What is sent is taken to be
JSON data, as snapshots are to be, and the pipe carries JSON data unchanged.
-/

namespace XChainVM.Executor

open Js

/-- An `execute` frame waiting in the worker's promise chain. -/
structure Task where
  id : RequestId
  token : Token
  opts : Value
  deriving Repr

structure Worker where
  crossChainSnapshot : Value
  crossChainSnapshotToken : Option Token
  chain : List Task
  delivered : Nat
  deriving Repr

namespace Worker

def fresh : Worker := ⟨.null, none, [], 0⟩

/-- The snapshot listener and the dispatcher of the worker, in this order. -/
def onMessage (frame : Frame) (w : Worker) : Worker :=
  match frame with
  | .snapshot token crossChainData =>
    { w with crossChainSnapshot := crossChainData, crossChainSnapshotToken := some token }
  | .endBlock => { w with crossChainSnapshot := .null, crossChainSnapshotToken := none }
  | .execute id token opts => { w with chain := w.chain ++ [⟨id, token, opts⟩] }
  | .init | .beginBlock => w

/-- `none` is the host fault of a stale reference. -/
def resolveWorkerCrossChainSnapshot (w : Worker) (snap : Value) : Option Value :=
  match snap.ownProperty? "__xchainWorkerSnapshot" with
  | none => some snap
  | some token =>
    match w.crossChainSnapshotToken, token with
    | some t, .string u => if u = t then some w.crossChainSnapshot else none
    | none, .null => some w.crossChainSnapshot
    | _, _ => none

def buildCrossChainAccessor (w : Worker) (snap : Value) : Option Value :=
  match snap with
  | .undefined | .null => some snap
  | _ => w.resolveWorkerCrossChainSnapshot snap

end Worker

/-- One execution of a request: the cross-chain data it ran against, or its host fault. -/
structure Ran where
  child : ChildId
  id : RequestId
  crossChainData : Option Value
  deriving Repr

/-- The parent, its workers, the number of the block last begun and what has been run. -/
structure System where
  parent : State
  workers : ChildId → Worker
  block : Nat
  ran : List Ran

inductive SystemEvent where
  | parent (event : Event)
  | deliver (child : ChildId)
  | run (child : ChildId)
  deriving Repr

namespace System

def sentTo (c : ChildId) (s : State) : List Frame :=
  (s.frames.filter fun f => f.1 = c).map Prod.snd

def deliver (c : ChildId) (y : System) : System :=
  let w := y.workers c
  match (sentTo c y.parent)[w.delivered]? with
  | none => y
  | some frame =>
    { y with workers := Function.update y.workers c { w.onMessage frame with delivered := w.delivered + 1 } }

def runNext (c : ChildId) (y : System) : System :=
  let w := y.workers c
  match w.chain with
  | [] => y
  | task :: rest =>
    { y with
      workers := Function.update y.workers c { w with chain := rest }
      ran := ⟨c, task.id, w.buildCrossChainAccessor (task.opts.get "crossChainData")⟩ :: y.ran }

variable (host : Host) (cfg : Config)

def step (y : System) : SystemEvent → System
  | .parent e =>
    { y with
      parent := Executor.step host cfg y.parent e
      block := match e with
        | .beginBlock => y.block + 1
        | _ => y.block }
  | .deliver c => deliver c y
  | .run c => runNext c y

def start : System := ⟨initial host, fun _ => .fresh, 0, []⟩

def run (events : List SystemEvent) : System := Machine.run (step host cfg) (start host) events

end System

end XChainVM.Executor
