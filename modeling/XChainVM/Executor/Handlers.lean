import XChainVM.Executor.State

/-! # The handlers of the process executor

Each handler runs to its end before the next event is delivered. Spawning and
losing a worker call each other in the source; here the retries of one spawn
are counted by the failures left before the latch, and `spawn_eq` gives the
source's own equation back.
-/

namespace XChainVM.Executor

open Js

def BROKEN_RESPAWN_BACKOFF_MS : Int := 2000

def MAX_CONSECUTIVE_SPAWN_FAILURES : Nat := 3

variable (host : Host)

/-- False when there is no channel or the send throws; the frame is then lost. -/
def send (frame : Frame) (s : State) : Bool × State :=
  match s.child with
  | none => (false, s)
  | some c =>
    if c.connected then
      match host.send s.sends with
      | .accepted => (true, { s with sends := s.sends + 1, frames := s.frames ++ [(c.id, frame)] })
      | .threw closed _ =>
        let s := if closed then s.closeChannel else s
        (false, { s with sends := s.sends + 1 })
    else (false, s)

namespace WorkerSnapshotChannel

def clearTimer (s : State) : State :=
  let s := s.clearTimeout s.snapshots.timer
  { s with snapshots := { s.snapshots with timer := none } }

def workerSpawned (s : State) : State :=
  clearTimer { s with snapshots := { s.snapshots with sent := false, acked := false } }

def workerLost (s : State) : State := clearTimer s

def beginBlock (s : State) : State :=
  workerSpawned { s with snapshots := { s.snapshots with set := false, snapshot := .null, token := none } }

def endBlock (s : State) : State := beginBlock s

def close (s : State) : State := clearTimer s

def answers (msg : Value) : Option Token → Bool
  | some t => (msg.get "token").equalsString t
  | none => (msg.get "token").isNull

/-- The effect of a `snapshotAck` frame on the channel. -/
def onMessage (msg : Value) (s : State) : State :=
  if s.snapshots.sent && answers msg s.snapshots.token then
    clearTimer { s with snapshots := { s.snapshots with acked := true } }
  else s

def choose (opts : Value) (s : State) : State :=
  if !s.snapshots.set && s.inBlock && hasSerializableCrossChainSnapshot opts then
    { s with
      snapshots := { s.snapshots with
        set := true, snapshot := opts.get "crossChainData", token := some (host.token s.tokens) }
      tokens := s.tokens + 1 }
  else s

/-- Send the chosen snapshot and arm its acknowledgement timer. The source raises
`sent` before the send and lowers it when the send fails; the send reads no flag. -/
def ship (entry : QueueEntry) (s : State) : Bool × State :=
  match send host (.snapshot (s.snapshots.token.getD "") s.snapshots.snapshot) s with
  | (false, s) => (false, { s with snapshots :=
      { s.snapshots with sent := false, set := false, snapshot := .null, token := none } })
  | (true, s) =>
    let (t, s) := s.setTimeout .snapshot ((s.child.map Child.id).getD 0) (some entry.id)
    (true, { s with snapshots := { s.snapshots with sent := true, timer := some t } })

def hold (entry : QueueEntry) (s : State) : Bool × State :=
  let s := choose host entry.opts s
  if !s.snapshots.set || s.snapshots.acked then (false, s)
  else if s.snapshots.sent then (true, s)
  else ship host entry s

def reference (opts : Value) (s : State) : Value :=
  if !s.snapshots.set || !hasSerializableCrossChainSnapshot opts then opts
  else opts.assign "crossChainData" (snapshotReference (s.snapshots.token.getD ""))

def inFlight (entry : QueueEntry) (rest : List QueueEntry) (token : Token) (opts : Value) (s : State) :
    State :=
  let c := (s.child.map Child.id).getD 0
  let (t, s) := s.setTimeout (.watchdog entry.id) c (some entry.id)
  { s with
    queue := rest
    pending := s.pending ++ [⟨entry.id, t, entry.ceiling, token⟩]
    dispatched := ⟨entry.id, c, token⟩ :: s.dispatched
    frames := s.frames ++ [(c, .execute entry.id token opts)] }

/-- One pass of the dispatch loop over the head of the queue; the flag says
whether the loop goes round again. -/
def dispatchHead (entry : QueueEntry) (rest : List QueueEntry) (s : State) : Bool × State :=
  match hold host entry s with
  | (true, s) => (false, s)
  | (false, s) =>
    let token := host.token s.tokens
    let opts := reference entry.opts s
    let sent := host.send s.sends
    let s := { s with tokens := s.tokens + 1, sends := s.sends + 1 }
    match sent with
    | .accepted => (true, inFlight entry rest token opts s)
    | .threw closed message =>
      let s := if closed then s.closeChannel else s
      if s.connected then (true, { s with queue := rest }.settle entry.id
        (.hostFault ("executor input not serializable: " ++ message)))
      else (false, s)

def flushLoop : Nat → State → State
  | 0, s => s
  | n + 1, s =>
    match s.queue with
    | [] => s
    | entry :: rest =>
      if s.pending.isEmpty && s.dispatchable then
        match dispatchHead host entry rest s with
        | (true, s) => flushLoop n s
        | (false, s) => s
      else s

def flush (s : State) : State := flushLoop host s.queue.length s

end WorkerSnapshotChannel

open WorkerSnapshotChannel (flush)

def clearReadyTimer (s : State) : State :=
  let s := s.clearTimeout s.readyTimer
  { s with readyTimer := none }

def unavailableReason (s : State) : String :=
  match s.lastSpawnError with
  | some code => "executor unavailable (spawn " ++ code ++ ")"
  | none => "executor unavailable"

def latchBroken (s : State) : State :=
  let reason := unavailableReason s
  let s := { s with broken := true }
  { s.settleAll (s.queue.map fun e => (e.id, .hostFault reason)) with queue := [] }

/-- The child is installed, its ready timer armed and its first frames sent. -/
def workerForked (connected : Bool) (s : State) : State :=
  let id := s.forks
  let s := { s with child := some ⟨id, connected⟩, forks := s.forks + 1, lastSpawnError := none }
  -- a fork that fails later on has no channel and ends with `close`
  let s := if connected then s else { s with dying := id :: s.dying }
  let (t, s) := s.setTimeout (.ready id) id none
  let s := { s with readyTimer := some t }
  let s := (send host .init s).2
  if s.inBlock then (send host .beginBlock s).2 else s

def spawnReset (s : State) : State :=
  WorkerSnapshotChannel.workerSpawned { clearReadyTimer s with sawReady := false, everReady := false }

/-- Fork until a child comes up or the latch trips; the counter is the number of
failures that still lead to another attempt. -/
def spawnAttempts : Nat → State → State
  | failuresLeft, s =>
    let s := spawnReset s
    match host.fork s.forks with
    | .forked connected => workerForked host connected s
    | .threw code =>
      let s := { s with
        child := none, forks := s.forks + 1, lastSpawnError := some code
        consecutiveSpawnFailures := s.consecutiveSpawnFailures + 1 }
      match failuresLeft with
      | 0 => latchBroken s
      | n + 1 => spawnAttempts n s

def spawn (s : State) : State :=
  if s.shuttingDown then s
  else spawnAttempts host (MAX_CONSECUTIVE_SPAWN_FAILURES - 1 - s.consecutiveSpawnFailures) s

def afterWorkerLost (neverReady : Bool) (s : State) : State :=
  if s.shuttingDown then s
  else
    let s := if neverReady then
        { s with consecutiveSpawnFailures := s.consecutiveSpawnFailures + 1 } else s
    if MAX_CONSECUTIVE_SPAWN_FAILURES ≤ s.consecutiveSpawnFailures then latchBroken s
    else spawn host s

def removePending (entry : PendingEntry) (s : State) : State :=
  { s.clearTimeout (some entry.timer) with pending := s.pending.filter (·.id ≠ entry.id) }

/-- A reply naming the id in flight that is no answer to its dispatch: the run is
rejected and the worker killed. -/
def onBadReply (entry : PendingEntry) (fault : String) (s : State) : State :=
  let s := (removePending entry s).settle entry.id
    (.hostFault ("executor worker sent a bad reply (" ++ fault ++ ")"))
  { s.kill with sawReady := false }

def hostfaultReason (msg : Value) : String :=
  match msg.get "reason" with
  | .string r => if r = "" then "executor unavailable" else r
  | _ => "executor unavailable"

def onReady (s : State) : State :=
  if s.everReady then s
  else
    flush host (clearReadyTimer { s with
      sawReady := true, everReady := true, consecutiveSpawnFailures := 0, lastSpawnError := none })

def onReply (msg : Value) (s : State) : State :=
  match s.findPending (msg.get "id") with
  | none => s
  | some entry =>
    match replyFault msg entry.token with
    | some fault => onBadReply entry fault s
    | none =>
      let outcome := if (msg.get "type").equalsString "result" then .result (msg.get "result")
        else .hostFault (hostfaultReason msg)
      flush host ((removePending entry s).settle entry.id outcome)

def onMessage (msg : Value) (c : ChildId) (s : State) : State :=
  if s.child.map Child.id ≠ some c then s
  else if !msg.isObject then s
  else if (msg.get "type").equalsString "snapshotAck" then
    flush host (WorkerSnapshotChannel.onMessage msg s)
  else if (msg.get "type").equalsString "ready" then onReady host s
  else if (msg.get "type").equalsString "result" || (msg.get "type").equalsString "hostfault" then
    onReply host msg s
  else s

def settlePending (outcome : PendingEntry → Settlement) (s : State) : State :=
  { s.settleAll (s.pending.map fun p => (p.id, outcome p)) with
    timers := s.timers.filter fun t => ∀ p ∈ s.pending, t.id ≠ p.timer
    pending := [] }

def onExit (c : ChildId) (code : Option Int) (signal : Option String) (s : State) : State :=
  if s.child.map Child.id ≠ some c then s
  else
    let s := WorkerSnapshotChannel.workerLost (clearReadyTimer { s with child := none })
    let kind := exitKind code signal
    let s := settlePending (fun p =>
      if isSelfInflicted code signal then .terminated (hostTerminatedResult p.ceiling kind)
      else .hostFault ("executor worker terminated externally (" ++ kind ++ ")")) s
    afterWorkerLost host (!s.everReady) s

def onGone (c : ChildId) (code : Option Int) (signal : Option String) (s : State) : State :=
  if c ∈ s.gone then s else onExit host c code signal { s with gone := c :: s.gone }

def onReadyTimeout (c : ChildId) (s : State) : State :=
  if !s.everReady && s.child.map Child.id = some c then onGone host c none (some "SIGKILL") s.kill
  else s

def onWatchdog (id : RequestId) (s : State) : State :=
  match s.pending.find? (·.id = id) with
  | none => s
  | some entry =>
    let s := { s with pending := s.pending.filter (·.id ≠ id) }.settle id
      (.terminated (hostTerminatedResult entry.ceiling "watchdog timeout"))
    { s.kill with sawReady := false }

def onSnapshotTimeout (s : State) : State :=
  if s.snapshots.sent && !s.snapshots.acked then { s.kill with sawReady := false } else s

def fireTimer (t : TimerId) (s : State) : State :=
  match s.timers.find? (·.id = t) with
  | none => s
  | some timer =>
    let s := { s with timers := s.timers.filter (·.id ≠ t) }
    match timer.callback with
    | .ready c => onReadyTimeout host c s
    | .watchdog id => onWatchdog id s
    | .snapshot => onSnapshotTimeout s

def beginBlock (s : State) : State :=
  (send host .beginBlock (WorkerSnapshotChannel.beginBlock { s with inBlock := true })).2

def endBlock (s : State) : State :=
  WorkerSnapshotChannel.endBlock (send host .endBlock { s with inBlock := false }).2

def refuse (message : String) (s : State) : State := { s with refused := message :: s.refused }

variable (cfg : Config)

def enqueue (opts : Value) (s : State) : State :=
  let entry : QueueEntry := ⟨s.nextId, opts, Gas.effectiveCeiling (opts.get "gasCeiling") cfg.gasCeiling⟩
  flush host { s with
    nextId := s.nextId + 1, queue := s.queue ++ [entry], accepted := entry :: s.accepted }

def execute (opts : Value) (now : Int) (s : State) : State :=
  if s.shuttingDown then refuse "executor shutting down" s
  else if s.broken then
    if now - s.lastBrokenRetryAt < BROKEN_RESPAWN_BACKOFF_MS then refuse (unavailableReason s) s
    else
      let s := spawn host { s with lastBrokenRetryAt := now, broken := false }
      if s.broken then refuse (unavailableReason s) s else enqueue host cfg opts s
  else enqueue host cfg opts s

def shutdown (s : State) : State :=
  let s := WorkerSnapshotChannel.close (clearReadyTimer { s with shuttingDown := true })
  let s := settlePending (fun _ => .hostFault "executor shutting down") s
  let s := { s.settleAll (s.queue.map fun e => (e.id, .hostFault "executor shutting down")) with
    queue := [] }
  { s.kill with child := none }

end XChainVM.Executor
