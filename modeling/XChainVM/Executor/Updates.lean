import XChainVM.Executor.Moves

/-! # What the updates leave as it was

Each update of the parent is equal to its source state with the fields it
touches replaced, and each move adds to the history only what it settles, admits
or dispatches.
-/

namespace XChainVM.Executor

open Js

variable {host : Host} {cfg : Config} {origin : State} {event : Event}

theorem closeChannel_child (s : State) : s.closeChannel.child.map Child.id = s.child.map Child.id := by
  obtain ⟨_ | c, _⟩ := s <;> rfl

theorem closeChannel_eq (s : State) :
    s.closeChannel = { s with child := s.closeChannel.child, dying := s.closeChannel.dying } := by
  obtain ⟨_ | c, _⟩ := s <;> rfl

theorem kill_eq (s : State) : s.kill = { s with dying := s.kill.dying } := by
  obtain ⟨_ | c, _⟩ := s <;> rfl

theorem kill_dying (s : State) (c : ChildId) (hc : s.child.map Child.id = some c) : c ∈ s.kill.dying := by
  obtain ⟨_ | d, _⟩ := s
  · simp at hc
  · simp only [Option.map_some, Option.some.injEq] at hc
    simp [State.kill, hc]

theorem clearTimeout_eq (handle : Option TimerId) (s : State) :
    s.clearTimeout handle = { s with timers := (s.clearTimeout handle).timers } := by
  cases handle <;> rfl

theorem spawnReset_eq (s : State) :
    spawnReset s = { s with
      timers := (spawnReset s).timers
      readyTimer := none
      sawReady := false
      everReady := false
      snapshots := { s.snapshots with sent := false, acked := false, timer := none } } := by
  unfold spawnReset WorkerSnapshotChannel.workerSpawned WorkerSnapshotChannel.clearTimer clearReadyTimer
  cases h : s.readyTimer <;> cases h' : s.snapshots.timer <;> simp [State.clearTimeout, h']

theorem clearReadyTimer_eq (s : State) :
    clearReadyTimer s = { s with timers := (clearReadyTimer s).timers, readyTimer := none } := by
  unfold clearReadyTimer
  cases s.readyTimer <;> rfl

theorem workerLost_eq (s : State) :
    WorkerSnapshotChannel.workerLost s = { s with
      timers := (WorkerSnapshotChannel.workerLost s).timers
      snapshots := { s.snapshots with timer := none } } := by
  unfold WorkerSnapshotChannel.workerLost WorkerSnapshotChannel.clearTimer
  cases h : s.snapshots.timer <;> simp [State.clearTimeout]

theorem snapshotBeginBlock_eq (s : State) :
    WorkerSnapshotChannel.beginBlock s = { s with
      timers := (WorkerSnapshotChannel.beginBlock s).timers
      snapshots := ⟨false, .null, none, false, false, none⟩ } := by
  unfold WorkerSnapshotChannel.beginBlock WorkerSnapshotChannel.workerSpawned WorkerSnapshotChannel.clearTimer
  cases s.snapshots.timer <;> rfl

theorem snapshotOnMessage_eq (msg : Value) (s : State) :
    WorkerSnapshotChannel.onMessage msg s = { s with
      timers := (WorkerSnapshotChannel.onMessage msg s).timers
      snapshots := (WorkerSnapshotChannel.onMessage msg s).snapshots } := by
  unfold WorkerSnapshotChannel.onMessage WorkerSnapshotChannel.clearTimer
  split
  · rw [clearTimeout_eq]
  · rfl

theorem choose_eq (opts : Value) (s : State) :
    WorkerSnapshotChannel.choose host opts s = { s with
      snapshots := (WorkerSnapshotChannel.choose host opts s).snapshots
      tokens := (WorkerSnapshotChannel.choose host opts s).tokens } := by
  unfold WorkerSnapshotChannel.choose
  split <;> rfl

variable (host) in
theorem choose_tokens (opts : Value) (s : State) :
    s.tokens ≤ (WorkerSnapshotChannel.choose host opts s).tokens := by
  unfold WorkerSnapshotChannel.choose
  split
  · exact Nat.le_succ _
  · exact Nat.le_refl _

theorem readied_eq (s : State) :
    s.readied = { s with
      timers := s.readied.timers, readyTimer := none, sawReady := true, everReady := true } := by
  rw [State.readied, clearReadyTimer_eq]

theorem lost_eq (code : Option Int) (signal : Option String) (s : State) :
    s.lost code signal = { s with
      child := none
      pending := []
      timers := (s.lost code signal).timers
      readyTimer := none
      snapshots := { s.snapshots with timer := none }
      settled := (s.pending.map fun p => (p.id, State.lossOutcome code signal p)).reverse ++ s.settled } := by
  unfold State.lost settlePending State.settleAll
  rw [workerLost_eq, clearReadyTimer_eq]

theorem shutdown_eq (s : State) :
    Executor.shutdown s = { s with
      shuttingDown := true
      child := none
      pending := []
      queue := []
      timers := (s.lost none none).timers
      readyTimer := none
      snapshots := { s.snapshots with timer := none }
      dying := s.kill.dying
      settled := (s.queue.map fun e => (e.id, .hostFault "executor shutting down")).reverse ++
        ((s.pending.map fun p => (p.id, .hostFault "executor shutting down")).reverse ++ s.settled) } := by
  unfold Executor.shutdown State.lost settlePending State.settleAll State.kill WorkerSnapshotChannel.close
    WorkerSnapshotChannel.workerLost WorkerSnapshotChannel.clearTimer clearReadyTimer
  obtain ⟨child, _, _, _, _, _, _, _, _, _, _, _, readyTimer, ⟨_, _, _, _, _, timer⟩, _⟩ := s
  cases readyTimer <;> cases timer <;> cases child <;> rfl

theorem workerForked_eq (connected : Bool) (s : State) :
    workerForked host connected s =
      let t := (send host .init { s.installed connected with lastSpawnError := none }).2
      if t.inBlock then (send host .beginBlock t).2 else t := by
  cases connected <;> rfl

theorem latchBroken_eq (s : State) : latchBroken s = s.latched (unavailableReason s) := rfl

theorem onExit_eq (c : ChildId) (code : Option Int) (signal : Option String) (s : State)
    (hc : s.child.map Child.id = some c) :
    onExit host c code signal s = afterWorkerLost host (!s.everReady) (s.lost code signal) := by
  have he : (s.lost code signal).everReady = s.everReady := by rw [lost_eq]
  simp only [onExit, hc, ne_eq, not_true_eq_false, if_false]
  change afterWorkerLost host (!(s.lost code signal).everReady) (s.lost code signal) = _
  rw [he]

theorem lost_gone (code : Option Int) (signal : Option String) (s : State) (gone : List ChildId) :
    ({ s with gone := gone }).lost code signal = { s.lost code signal with gone := gone } := by
  obtain ⟨_, _, _, _, _, _, _, _, _, _, _, _, readyTimer, ⟨_, _, _, _, _, timer⟩, _⟩ := s
  cases readyTimer <;> cases timer <;> rfl

theorem kill_dropped (s : State) (t : TimerId) :
    ({ s with timers := s.timers.filter (·.id ≠ t) } : State).kill =
      { s.kill with timers := s.kill.timers.filter (·.id ≠ t) } := by
  obtain ⟨_ | c, _⟩ := s <;> rfl

/-- The source's own recursion: a fork that throws is a worker lost before it was ready. -/
theorem spawn_eq (s : State) (hs : s.shuttingDown = false) :
    spawn host s =
      let t := spawnReset s
      match host.fork t.forks with
      | .forked connected => workerForked host connected t
      | .threw code => afterWorkerLost host true
          { t with child := none, forks := t.forks + 1, lastSpawnError := some code } := by
  have hf : (spawnReset s).consecutiveSpawnFailures = s.consecutiveSpawnFailures := by rw [spawnReset_eq]
  have hsd : (spawnReset s).shuttingDown = false := by rw [spawnReset_eq]; exact hs
  simp only [spawn, hs, Bool.false_eq_true, if_false]
  rw [spawnAttempts.eq_def]
  cases hfork : host.fork (spawnReset s).forks with
  | forked connected => simp only [hfork]
  | threw code =>
    simp only [hfork, afterWorkerLost, hsd, hf, Bool.false_eq_true, if_false, if_true,
      MAX_CONSECUTIVE_SPAWN_FAILURES]
    split
    · rename_i hn
      rw [if_pos (by omega)]
    · rename_i n hn
      rw [if_neg (by omega), spawn]
      simp only [Bool.false_eq_true, if_false, MAX_CONSECUTIVE_SPAWN_FAILURES]
      congr 1
      omega

/-- What a move adds to the history: the settlements it names, and at most one
admission or one dispatch. -/
structure Effect (host : Host) (cfg : Config) (event : Event) (l : List (RequestId × Settlement))
    (s t : State) : Prop where
  settled : t.settled = l ++ s.settled
  accepted : t.accepted = s.accepted ∨ ∃ opts now, event = .execute opts now ∧
    t.accepted = s.entryOf cfg opts :: s.accepted
  dispatched : t.dispatched = s.dispatched ∨ ∃ entry rest c, Released s entry rest c ∧
    t = s.launched host entry rest c
  tokens : s.tokens ≤ t.tokens
  frames : s.frames <+: t.frames
  shuttingDown : event ≠ .shutdown → t.shuttingDown = s.shuttingDown

theorem Effect.of_eq {l : List (RequestId × Settlement)} {s t : State} (hs : t.settled = l ++ s.settled)
    (ha : t.accepted = s.accepted) (hd : t.dispatched = s.dispatched) (ht : t.tokens = s.tokens)
    (hf : s.frames <+: t.frames) (hsd : t.shuttingDown = s.shuttingDown) : Effect host cfg event l s t :=
  ⟨hs, .inl ha, .inl hd, Nat.le_of_eq ht.symm, hf, fun _ => hsd⟩

theorem Move.effect {l : List (RequestId × Settlement)} {s t : State}
    (hm : Move host cfg origin event l s t) : Effect host cfg event l s t := by
  cases hm with
  | quiet h =>
    exact .of_eq (show (visible t).settled = (visible s).settled by rw [h])
      (show (visible t).accepted = (visible s).accepted by rw [h])
      (show (visible t).dispatched = (visible s).dispatched by rw [h])
      (show (visible t).tokens = (visible s).tokens by rw [h])
      (show (visible s).frames <+: (visible t).frames from h ▸ List.prefix_refl _)
      (show (visible t).shuttingDown = (visible s).shuttingDown by rw [h])
  | cut =>
    rw [closeChannel_eq]
    exact .of_eq rfl rfl rfl rfl (List.prefix_refl _) rfl
  | kill =>
    rw [kill_eq]
    exact .of_eq rfl rfl rfl rfl (List.prefix_refl _) rfl
  | mint => exact ⟨rfl, .inl rfl, .inl rfl, Nat.le_succ _, List.prefix_refl _, fun _ => rfl⟩
  | post hc hf => exact .of_eq rfl rfl rfl rfl (List.prefix_append _ _) rfl
  | ship => exact .of_eq rfl rfl rfl rfl (List.prefix_append _ _) rfl
  | boundary inBlock =>
    rw [snapshotBeginBlock_eq]
    exact .of_eq rfl rfl rfl rfl (List.prefix_refl _) rfl
  | @choose _ entry _ hq =>
    have ht := choose_tokens host entry.opts s
    rw [choose_eq]
    exact ⟨rfl, .inl rfl, .inl rfl, ht, List.prefix_refl _, fun _ => rfl⟩
  | launch hr =>
    exact ⟨rfl, .inl rfl, .inr ⟨_, _, _, hr, rfl⟩, Nat.le_succ _, List.prefix_append _ _, fun _ => rfl⟩
  | ack he =>
    rw [snapshotOnMessage_eq]
    exact .of_eq rfl rfl rfl rfl (List.prefix_refl _) rfl
  | ready =>
    rw [readied_eq]
    exact .of_eq rfl rfl rfl rfl (List.prefix_refl _) rfl
  | lose hc he =>
    rw [lost_eq]
    exact .of_eq rfl rfl rfl rfl (List.prefix_refl _) rfl
  | reset hc =>
    rw [spawnReset_eq]
    exact .of_eq rfl rfl rfl rfl (List.prefix_refl _) rfl
  | enroll he => exact ⟨rfl, .inr ⟨_, _, he, rfl⟩, .inl rfl, Nat.le_refl _, List.prefix_refl _, fun _ => rfl⟩
  | shutdown he =>
    rw [shutdown_eq]
    exact ⟨by simp, .inl rfl, .inl rfl, Nat.le_refl _, List.prefix_refl _, fun h => absurd he h⟩
  | _ => exact .of_eq rfl rfl rfl rfl (List.prefix_refl _) rfl

theorem Moves.settled_eq {l : List (RequestId × Settlement)} {s t : State}
    (h : Moves host cfg origin event s l t) : t.settled = l ++ s.settled := by
  induction h with
  | refl => rfl
  | tail _ hm ih => rw [hm.effect.settled, ih, List.append_assoc]

theorem Reaches.shuttingDown {s t : State} (h : Reaches host cfg origin event s t) (he : event ≠ .shutdown) :
    t.shuttingDown = s.shuttingDown := by
  obtain ⟨l, h⟩ := h
  exact h.invariant (I := fun u => u.shuttingDown = s.shuttingDown)
    (fun l u v hu hm => (hm.effect.shuttingDown he).trans hu) rfl

theorem Reaches.accepted_eq {s t : State} (hr : Reaches host cfg origin event s t)
    (he : ∀ opts now, event ≠ .execute opts now) : t.accepted = s.accepted := by
  obtain ⟨l, hm⟩ := hr
  refine hm.invariant (I := fun u => u.accepted = s.accepted) (fun l u v hu hm => ?_) rfl
  rcases hm.effect.accepted with hv | ⟨opts, now, h, _⟩
  · exact hv.trans hu
  · exact absurd h (he opts now)

theorem Reaches.frames_prefix {s t : State} (hr : Reaches host cfg origin event s t) : s.frames <+: t.frames := by
  obtain ⟨l, hm⟩ := hr
  exact hm.invariant (I := fun u => s.frames <+: u.frames)
    (fun l u v hu hm => hu.trans hm.effect.frames) (List.prefix_refl _)

theorem Reaches.accepted_mono {s t : State} (hr : Reaches host cfg origin event s t) {e : QueueEntry}
    (he : e ∈ s.accepted) : e ∈ t.accepted := by
  obtain ⟨l, hm⟩ := hr
  refine hm.invariant (I := fun u => e ∈ u.accepted) (fun l u v hu hm => ?_) he
  rcases hm.effect.accepted with hv | ⟨_, _, _, hv⟩
  · exact hv ▸ hu
  · exact hv ▸ List.mem_cons_of_mem _ hu

theorem Reaches.settled_mono {s t : State} (hr : Reaches host cfg origin event s t) {x : RequestId × Settlement}
    (hx : x ∈ s.settled) : x ∈ t.settled := by
  obtain ⟨l, hm⟩ := hr
  rw [hm.settled_eq]
  exact List.mem_append_right _ hx

end XChainVM.Executor
