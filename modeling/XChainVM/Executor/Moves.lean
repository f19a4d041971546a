import XChainVM.Executor.Machine

/-! # What one event can make the executor do

Every handler is a sequence of moves, each a small update under the guard the
handler checks before it. A move that settles a request says which event made it
do so and what was known of the request before that event.
-/

namespace XChainVM.Executor

open Js

def visible (s : State) : State :=
  { s with
    consecutiveSpawnFailures := 0
    lastSpawnError := none
    lastBrokenRetryAt := 0
    sends := 0
    refused := [] }

def Frame.isControl : Frame → Bool
  | .init | .beginBlock | .endBlock => true
  | .snapshot .. | .execute .. => false

variable (host : Host) (cfg : Config)

namespace State

def post (c : ChildId) (f : Frame) (s : State) : State := { s with frames := s.frames ++ [(c, f)] }

def shipped (c : ChildId) (entry : QueueEntry) (s : State) : State :=
  { s with
    frames := s.frames ++ [(c, .snapshot (s.snapshots.token.getD "") s.snapshots.snapshot)]
    timers := ⟨s.nextTimer, .snapshot, c, some entry.id⟩ :: s.timers
    nextTimer := s.nextTimer + 1
    snapshots := { s.snapshots with sent := true, timer := some s.nextTimer } }

def unshipped (s : State) : State :=
  { s with snapshots := { s.snapshots with sent := false, set := false, snapshot := .null, token := none } }

def launched (entry : QueueEntry) (rest : List QueueEntry) (c : ChildId) (s : State) : State :=
  { s with
    queue := rest
    pending := s.pending ++ [⟨entry.id, s.nextTimer, entry.ceiling, host.token s.tokens⟩]
    timers := ⟨s.nextTimer, .watchdog entry.id, c, some entry.id⟩ :: s.timers
    nextTimer := s.nextTimer + 1
    tokens := s.tokens + 1
    dispatched := ⟨entry.id, c, host.token s.tokens⟩ :: s.dispatched
    frames := s.frames ++ [(c, .execute entry.id (host.token s.tokens)
      (WorkerSnapshotChannel.reference entry.opts s))] }

def rejected (entry : QueueEntry) (rest : List QueueEntry) (message : String) (s : State) : State :=
  State.settle entry.id (.hostFault ("executor input not serializable: " ++ message)) { s with queue := rest }

def readied (s : State) : State := clearReadyTimer { s with sawReady := true, everReady := true }

def expired (timer : Timer) (entry : PendingEntry) (s : State) : State :=
  State.settle entry.id (.terminated (hostTerminatedResult entry.ceiling "watchdog timeout"))
    { s with
      timers := s.timers.filter (·.id ≠ timer.id)
      pending := s.pending.filter (·.id ≠ entry.id) }

def lossOutcome (code : Option Int) (signal : Option String) (p : PendingEntry) : Settlement :=
  if isSelfInflicted code signal then .terminated (hostTerminatedResult p.ceiling (exitKind code signal))
  else .hostFault ("executor worker terminated externally (" ++ exitKind code signal ++ ")")

def lost (code : Option Int) (signal : Option String) (s : State) : State :=
  settlePending (lossOutcome code signal)
    (WorkerSnapshotChannel.workerLost (clearReadyTimer { s with child := none }))

def installed (connected : Bool) (s : State) : State :=
  { s with
    child := some ⟨s.forks, connected⟩
    forks := s.forks + 1
    dying := if connected then s.dying else s.forks :: s.dying
    timers := ⟨s.nextTimer, .ready s.forks, s.forks, none⟩ :: s.timers
    nextTimer := s.nextTimer + 1
    readyTimer := some s.nextTimer }

def latched (reason : String) (s : State) : State :=
  State.settleAll (s.queue.map fun e => (e.id, .hostFault reason)) { s with broken := true, queue := [] }

def entryOf (opts : Value) (s : State) : QueueEntry :=
  ⟨s.nextId, opts, Gas.effectiveCeiling (opts.get "gasCeiling") cfg.gasCeiling⟩

def admitted (opts : Value) (s : State) : State :=
  { s with
    nextId := s.nextId + 1
    queue := s.queue ++ [entryOf cfg opts s]
    accepted := entryOf cfg opts s :: s.accepted }

end State

/-- The head of the queue may leave it: the worker is ready, nothing is in flight
and no acknowledgement is awaited. -/
structure Released (s : State) (entry : QueueEntry) (rest : List QueueEntry) (c : ChildId) : Prop where
  queue : s.queue = entry :: rest
  pending : s.pending = []
  child : s.child.map Child.id = some c
  sawReady : s.sawReady = true
  answered : s.snapshots.set = false ∨ s.snapshots.acked = true

/-- The moves the executor can make while it handles `event`, first delivered in `origin`. -/
inductive Move (origin : State) (event : Event) :
    List (RequestId × Settlement) → State → State → Prop
  | quiet {s s' : State} (h : visible s' = visible s) : Move origin event [] s s'
  | cut (s : State) : Move origin event [] s s.closeChannel
  | kill (s : State) : Move origin event [] s s.kill
  | forkFailed {s : State} (hc : s.child = none) : Move origin event [] s { s with forks := s.forks + 1 }
  | mint (s : State) : Move origin event [] s { s with tokens := s.tokens + 1 }
  | post {s : State} {c : ChildId} {f : Frame} (hc : s.child.map Child.id = some c)
      (hf : f.isControl = true) : Move origin event [] s (s.post c f)
  | boundary (s : State) (inBlock : Bool)
      (he : event = if inBlock then .beginBlock else .endBlock) :
      Move origin event [] s (WorkerSnapshotChannel.beginBlock { s with inBlock := inBlock })
  | choose {s : State} {entry : QueueEntry} {rest : List QueueEntry} (hq : s.queue = entry :: rest) :
      Move origin event [] s (WorkerSnapshotChannel.choose host entry.opts s)
  | ship {s : State} {entry : QueueEntry} {rest : List QueueEntry} {c : ChildId}
      (hq : s.queue = entry :: rest) (hp : s.pending = []) (hc : s.child.map Child.id = some c)
      (hset : s.snapshots.set = true) (ha : s.snapshots.acked = false) (hs : s.snapshots.sent = false) :
      Move origin event [] s (s.shipped c entry)
  | unship {s : State} (hs : s.snapshots.sent = false) : Move origin event [] s s.unshipped
  | launch {s : State} {entry : QueueEntry} {rest : List QueueEntry} {c : ChildId}
      (hr : Released s entry rest c) : Move origin event [] s (s.launched host entry rest c)
  | reject {s : State} {entry : QueueEntry} {rest : List QueueEntry} {c : ChildId}
      (hr : Released s entry rest c) (message : String) :
      Move origin event [(entry.id, .hostFault ("executor input not serializable: " ++ message))] s
        (s.rejected entry rest message)
  | ack {c : ChildId} {msg : Value} (he : event = .message c msg) :
      Move origin event [] origin (WorkerSnapshotChannel.onMessage msg origin)
  | ready : Move origin event [] origin origin.readied
  | reply {c : ChildId} {msg : Value} {entry : PendingEntry} {outcome : Settlement}
      (he : event = .message c msg) (hc : origin.child.map Child.id = some c)
      (hp : origin.findPending (msg.get "id") = some entry)
      (ho : (outcome = .result (msg.get "result") ∧ msg.get "type" = .string "result" ∧
        replyFault msg entry.token = none) ∨ ∃ m, outcome = .hostFault m) :
      Move origin event [(entry.id, outcome)] origin ((removePending entry origin).settle entry.id outcome)
  | distrust {s : State} (hd : ∀ c, s.child.map Child.id = some c → c ∈ s.dying) :
      Move origin event [] s { s with sawReady := false }
  | watchdog {timer : Timer} {entry : PendingEntry} (he : event = .timer timer.id)
      (ht : timer ∈ origin.timers) (hw : timer.callback = .watchdog entry.id)
      (hp : entry ∈ origin.pending) :
      Move origin event
        [(entry.id, .terminated (hostTerminatedResult entry.ceiling "watchdog timeout"))] origin
        (origin.expired timer entry)
  | drop {s : State} {timer : Timer} (ht : timer ∈ s.timers)
      (hw : ∀ p ∈ s.pending, timer.callback ≠ .watchdog p.id)
      (hr : ∀ c, timer.callback = .ready c → s.everReady = true ∨ s.child.map Child.id ≠ some c ∨ c ∈ s.dying)
      (hs : timer.callback = .snapshot → s.snapshots.sent = false ∨ s.snapshots.acked = true ∨
        ∀ c, s.child.map Child.id = some c → c ∈ s.dying) :
      Move origin event [] s { s with timers := s.timers.filter (·.id ≠ timer.id) }
  | lose {s : State} {c : ChildId} {code : Option Int} {signal : Option String}
      (hc : s.child.map Child.id = some c)
      (he : isSelfInflicted code signal = true →
        event = .exit c code signal ∧ s.child = origin.child ∧ s.pending = origin.pending) :
      Move origin event (s.pending.map fun p => (p.id, State.lossOutcome code signal p)).reverse s
        (s.lost code signal)
  | depart {s : State} {c : ChildId} (hc : s.child.map Child.id ≠ some c) (hb : c < s.forks) :
      Move origin event [] s { s with gone := c :: s.gone }
  | reset {s : State} (hc : s.child = none) : Move origin event [] s (spawnReset s)
  | install {s : State} (hc : s.child = none) (hr : s.everReady = false) (hsd : s.shuttingDown = false)
      (hb : s.broken = false) (hs : s.snapshots.sent = false) (connected : Bool) :
      Move origin event [] s (s.installed connected)
  | latch {s : State} (hc : s.child = none) (reason : String) :
      Move origin event (s.queue.map fun e => (e.id, .hostFault reason)).reverse s (s.latched reason)
  | unlatch (s : State) : Move origin event [] s { s with broken := false }
  | enroll {s : State} {opts : Value} {now : Int} (he : event = .execute opts now)
      (hsd : s.shuttingDown = false) (hb : s.broken = false) :
      Move origin event [] s (s.admitted cfg opts)
  | shutdown (he : event = .shutdown) :
      Move origin event
        ((origin.queue.map fun e => (e.id, .hostFault "executor shutting down")).reverse ++
          (origin.pending.map fun p => (p.id, .hostFault "executor shutting down")).reverse)
        origin (Executor.shutdown origin)

/-- A sequence of moves from `s`, with what it settles, latest first. -/
inductive Moves (origin : State) (event : Event) (s : State) :
    List (RequestId × Settlement) → State → Prop
  | refl : Moves origin event s [] s
  | tail {l l' : List (RequestId × Settlement)} {t u : State} (h : Moves origin event s l t)
      (hm : Move host cfg origin event l' t u) : Moves origin event s (l' ++ l) u

variable {host cfg} {origin : State} {event : Event}

namespace Moves

theorem single {l : List (RequestId × Settlement)} {s t : State} (h : Move host cfg origin event l s t) :
    Moves host cfg origin event s l t := by
  simpa using Moves.tail .refl h

theorem trans {l l' : List (RequestId × Settlement)} {s t u : State}
    (h : Moves host cfg origin event s l t) (h' : Moves host cfg origin event t l' u) :
    Moves host cfg origin event s (l' ++ l) u := by
  induction h' with
  | refl => exact h
  | tail _ hm ih => simpa using Moves.tail ih hm

/-- What every move preserves holds after them all. -/
theorem invariant {I : State → Prop}
    (hstep : ∀ l s t, I s → Move host cfg origin event l s t → I t)
    {l : List (RequestId × Settlement)} {s t : State} (h : Moves host cfg origin event s l t) (hs : I s) :
    I t := by
  induction h with
  | refl => exact hs
  | tail _ hm ih => exact hstep _ _ _ ih hm

end Moves

variable (host cfg origin event) in
def Reaches (s t : State) : Prop := ∃ l, Moves host cfg origin event s l t

namespace Reaches

variable {s t u : State}

theorem refl (s : State) : Reaches host cfg origin event s s := ⟨[], .refl⟩

theorem of_move {l : List (RequestId × Settlement)} (h : Move host cfg origin event l s t) :
    Reaches host cfg origin event s t :=
  ⟨l, .single h⟩

theorem of_quiet (h : visible t = visible s) : Reaches host cfg origin event s t := of_move (.quiet h)

theorem trans (h : Reaches host cfg origin event s t) (h' : Reaches host cfg origin event t u) :
    Reaches host cfg origin event s u := by
  obtain ⟨l, h⟩ := h
  obtain ⟨l', h'⟩ := h'
  exact ⟨l' ++ l, h.trans h'⟩

theorem then_move {l : List (RequestId × Settlement)} (h : Reaches host cfg origin event s t)
    (h' : Move host cfg origin event l t u) : Reaches host cfg origin event s u :=
  h.trans (of_move h')

theorem then_quiet (h : Reaches host cfg origin event s t) (h' : visible u = visible t) :
    Reaches host cfg origin event s u :=
  h.trans (of_quiet h')

end Reaches

end XChainVM.Executor
