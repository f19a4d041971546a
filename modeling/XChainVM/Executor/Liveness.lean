import XChainVM.Executor.Attention

/-! # No stranded request

Between events the dispatch loop is at rest: whatever keeps the head of the queue
is watched by a timer or by the exit of a dying worker. A block boundary is the
one event that can drop the acknowledgement timer and leave the head behind it.
-/

namespace XChainVM.Executor

open Js WorkerSnapshotChannel

variable {host : Host} {cfg : Config} {origin : State} {event : Event}

def Staffed (s : State) : Prop := s.child = none → s.broken = true ∨ s.shuttingDown = true

theorem Staffed.of_kept {s t : State} (h : Staffed s) (hk : Kept s t) : Staffed t := by
  intro hc
  rw [hk.broken, hk.shuttingDown]
  refine h ?_
  have := hk.child
  rw [hc] at this
  simpa using this.symm

theorem Staffed.of_child {s : State} {c : ChildId} (hc : s.child.map Child.id = some c) : Staffed s := by
  intro hn
  simp [hn] at hc

theorem not_dispatchable_of_child {s : State} (hc : s.child = none) : s.dispatchable = false := by
  simp [State.dispatchable, State.connected, hc]

theorem not_dispatchable_of_sawReady {s : State} (hr : s.sawReady = false) : s.dispatchable = false := by
  simp [State.dispatchable, hr]

variable (host) in
theorem send_kept (f : Frame) (s : State) : Kept s (send host f s).2 := by
  rcases send_cases host f s with ⟨_, h⟩ | ⟨c, _, _, _, h⟩
  · exact (Unsent.of_cut h).toKept
  · rw [h]
    exact ⟨rfl, rfl, rfl, rfl, rfl⟩

/-- What the dispatch loop finds between two events. -/
structure Rested (s : State) : Prop where
  staffed : Staffed s
  quiescent : Quiescent s

theorem Rested.of_idle {s : State} (hs : Staffed s) (hd : s.dispatchable = false) : Rested s :=
  ⟨hs, .inr (.inr (.inl hd))⟩

theorem flush_rested {s : State} (h : Staffed s) : Rested (flush host s) := by
  obtain ⟨_, hk, hq⟩ := flush_spec host ⟨0⟩ s .beginBlock s
  exact ⟨h.of_kept hk, hq⟩

theorem workerForked_rested {s : State} (hr : s.sawReady = false) (connected : Bool) :
    Rested (workerForked host connected s) := by
  rw [workerForked_eq]
  have hsaw : (s.installed connected).sawReady = false := hr
  have hk := send_kept host .init { s.installed connected with lastSpawnError := none }
  dsimp only
  generalize (send host Frame.init _).2 = t at hk
  have ht : Rested t := .of_idle (.of_child hk.child) (not_dispatchable_of_sawReady (hk.sawReady.trans hsaw))
  split
  · have hk' := send_kept host .beginBlock t
    exact .of_idle (ht.staffed.of_kept hk')
      (not_dispatchable_of_sawReady (hk'.sawReady.trans (hk.sawReady.trans hsaw)))
  · exact ht

theorem latched_rested (s : State) (reason : String) : Rested (s.latched reason) :=
  ⟨fun _ => .inl rfl, .inl rfl⟩

theorem spawnAttempts_rested (n : Nat) (s : State) : Rested (spawnAttempts host n s) := by
  induction n generalizing s with
  | zero =>
    have he : (spawnReset s).sawReady = false := by rw [spawnReset_eq]
    unfold spawnAttempts
    dsimp only
    split
    · exact workerForked_rested he _
    · exact latched_rested _ _
  | succ n ih =>
    have he : (spawnReset s).sawReady = false := by rw [spawnReset_eq]
    unfold spawnAttempts
    dsimp only
    split
    · exact workerForked_rested he _
    · exact ih _

theorem spawn_rested {s : State} (hc : s.child = none) : Rested (spawn host s) := by
  unfold spawn
  split
  · rename_i hs
    exact .of_idle (fun _ => .inr hs) (not_dispatchable_of_child hc)
  · exact spawnAttempts_rested _ _

theorem afterWorkerLost_rested {s : State} (hc : s.child = none) (neverReady : Bool) :
    Rested (afterWorkerLost host neverReady s) := by
  unfold afterWorkerLost
  split
  · rename_i hs
    exact .of_idle (fun _ => .inr hs) (not_dispatchable_of_child hc)
  · dsimp only
    have ht : (if neverReady = true then
        { s with consecutiveSpawnFailures := s.consecutiveSpawnFailures + 1 } else s).child = none := by
      split <;> exact hc
    generalize (if neverReady = true then _ else _ : State) = t at ht
    split
    · exact latched_rested _ _
    · exact spawn_rested ht

theorem onGone_rested {s : State} (h : Rested s) (c : ChildId) (code : Option Int) (signal : Option String) :
    Rested (onGone host c code signal s) := by
  unfold onGone
  split
  · exact h
  · by_cases hc : s.child.map Child.id = some c
    · rw [onExit_eq c code signal { s with gone := c :: s.gone } hc]
      exact afterWorkerLost_rested (by rw [lost_eq]) _
    · rw [onExit, if_pos hc]
      exact ⟨h.staffed, h.quiescent⟩

theorem distrusted_rested {s : State} (h : Staffed s) : Rested { s.kill with sawReady := false } := by
  refine .of_idle ?_ (not_dispatchable_of_sawReady rfl)
  rw [kill_eq]
  exact h

theorem onMessage_rested {s : State} (h : Rested s) (msg : Value) (c : ChildId) :
    Rested (Executor.onMessage host msg c s) := by
  unfold Executor.onMessage
  split
  · exact h
  · split
    · exact h
    · split
      · refine flush_rested ?_
        rw [snapshotOnMessage_eq]
        exact h.staffed
      · split
        · unfold onReady
          split
          · exact h
          · refine flush_rested ?_
            rw [clearReadyTimer_eq]
            exact h.staffed
        · split
          · unfold onReply
            split
            · exact h
            · split
              · exact distrusted_rested h.staffed
              · exact flush_rested h.staffed
          · exact h

theorem fireTimer_rested {s : State} (h : Rested s) (t : TimerId) :
    Rested (fireTimer host t s) := by
  unfold fireTimer
  split
  · exact h
  · dsimp only
    split
    · unfold onReadyTimeout
      split
      · refine onGone_rested ?_ _ _ _
        rw [kill_eq]
        exact ⟨h.staffed, h.quiescent⟩
      · exact ⟨h.staffed, h.quiescent⟩
    · unfold onWatchdog
      split
      · exact ⟨h.staffed, h.quiescent⟩
      · exact distrusted_rested h.staffed
    · unfold onSnapshotTimeout
      split
      · exact distrusted_rested h.staffed
      · exact ⟨h.staffed, h.quiescent⟩

/-- The head of the queue waits for the worker to acknowledge the snapshot it was sent. -/
def AwaitsAck (s : State) : Prop :=
  s.queue ≠ [] ∧ s.pending = [] ∧ s.dispatchable = true ∧
    s.snapshots.sent = true ∧ s.snapshots.acked = false

instance (s : State) : Decidable (AwaitsAck s) := inferInstanceAs (Decidable (_ ∧ _))

variable (host) in
theorem send_dispatchable (f : Frame) (s : State) (hd : (send host f s).2.dispatchable = true) :
    s.dispatchable = true ∧ (send host f s).2.queue = s.queue ∧ (send host f s).2.pending = s.pending := by
  rcases send_cases host f s with ⟨_, h⟩ | ⟨c, hc, hcon, _, h⟩
  · have hu := Unsent.of_cut h
    refine ⟨?_, hu.queue, hu.pending⟩
    rcases h with h | h
    · rw [← hd]
      exact show (visible s).dispatchable = (visible (send host f s).2).dispatchable by rw [h]
    · have hn : s.closeChannel.connected = false := by obtain ⟨_ | c, _⟩ := s <;> rfl
      have hd' : s.closeChannel.dispatchable = true := by
        rw [← hd]
        exact show (visible s.closeChannel).dispatchable = (visible (send host f s).2).dispatchable by rw [h]
      simp [State.dispatchable, hn] at hd'
  · rw [h] at hd ⊢
    exact ⟨hd, rfl, rfl⟩

/-- At a block boundary the head is let go of, unless it was waiting for an acknowledgement. -/
theorem beginBlock_rested {s : State} (h : Rested s) (hn : ¬AwaitsAck s) : Rested (Executor.beginBlock host s) := by
  unfold Executor.beginBlock
  have he := snapshotBeginBlock_eq { s with inBlock := true }
  generalize WorkerSnapshotChannel.beginBlock { s with inBlock := true } = t at he
  have hk := send_kept host .beginBlock t
  have hst : Staffed t := by rw [he]; exact h.staffed
  refine ⟨hst.of_kept hk, ?_⟩
  cases hd : (send host .beginBlock t).2.dispatchable with
  | false => exact .inr (.inr (.inl hd))
  | true =>
    obtain ⟨hd', hq, hp⟩ := send_dispatchable host .beginBlock t hd
    rcases h.quiescent with hq' | hp' | hds | ⟨hs, ha⟩
    · exact .inl (by rw [hq, he, hq'])
    · exact .inr (.inl (by rw [hp, he]; exact hp'))
    · rw [he] at hd'
      exact absurd (show s.dispatchable = true from hd') (by simp [hds])
    · rw [he] at hd'
      by_cases hq' : s.queue = []
      · exact .inl (by rw [hq, he, hq'])
      · refine .inr (.inl ?_)
        rw [hp, he]
        exact fun hp' => hn ⟨hq', hp', hd', hs, ha⟩

theorem endBlock_rested {s : State} (h : Rested s) (hn : ¬AwaitsAck s) : Rested (Executor.endBlock host s) := by
  unfold Executor.endBlock WorkerSnapshotChannel.endBlock
  have hk := send_kept host .endBlock { s with inBlock := false }
  have hd := send_dispatchable host .endBlock { s with inBlock := false }
  generalize (send host .endBlock { s with inBlock := false }).2 = t at hk hd
  have hst : Staffed t := Staffed.of_kept (s := { s with inBlock := false }) h.staffed hk
  rw [snapshotBeginBlock_eq]
  refine ⟨hst, ?_⟩
  cases htd : t.dispatchable with
  | false => exact .inr (.inr (.inl htd))
  | true =>
    obtain ⟨hd', hq, hp⟩ := hd htd
    rcases h.quiescent with hq' | hp' | hds | ⟨hs, ha⟩
    · exact .inl (hq.trans hq')
    · exact .inr (.inl (hp ▸ hp'))
    · exact absurd (show s.dispatchable = true from hd') (by simp [hds])
    · by_cases hq' : s.queue = []
      · exact .inl (hq.trans hq')
      · exact .inr (.inl fun hp' => hn ⟨hq', hp.symm.trans hp', hd', hs, ha⟩)

theorem execute_rested {s : State} (hi : Inv s) (h : Rested s) (opts : Value) (now : Int) :
    Rested (execute host cfg opts now s) := by
  unfold execute
  split
  · exact ⟨h.staffed, h.quiescent⟩
  · split
    · rename_i hb
      split
      · exact ⟨h.staffed, h.quiescent⟩
      · dsimp only
        have hs : Rested (spawn host { s with lastBrokenRetryAt := now, broken := false }) :=
          spawn_rested (hi.off (.inr hb)).1
        split
        · exact ⟨hs.staffed, hs.quiescent⟩
        · exact flush_rested hs.staffed
    · exact flush_rested h.staffed

/-- A boundary does not arrive while the head of the queue waits for an acknowledgement. -/
def BoundaryClear (s : State) : Event → Prop
  | .beginBlock => ¬AwaitsAck s
  | .endBlock => ¬AwaitsAck s
  | _ => True

theorem step_rested {s : State} (hi : Inv s) (h : Rested s) (hb : BoundaryClear s event) :
    Rested (step host cfg s event) := by
  cases event with
  | message c msg => exact onMessage_rested h msg c
  | exit c code signal =>
    simp only [step]
    split
    · exact onGone_rested h c code signal
    · exact h
  | spawnError code => exact ⟨h.staffed, h.quiescent⟩
  | disconnect c =>
    simp only [step]
    split
    · rename_i hc
      refine .of_idle (.of_child ((closeChannel_child s).trans hc)) ?_
      have hn : s.closeChannel.connected = false := by obtain ⟨_ | c, _⟩ := s <;> rfl
      simp [State.dispatchable, hn]
    · exact h
  | timer t => exact fireTimer_rested h t
  | beginBlock => exact beginBlock_rested h hb
  | endBlock => exact endBlock_rested h hb
  | execute opts now => exact execute_rested hi h opts now
  | shutdown =>
    simp only [step]
    rw [shutdown_eq]
    exact .of_idle (fun _ => .inr rfl) (not_dispatchable_of_child rfl)

/-- A pending event that must advance the executor. -/
inductive Armed (s : State) : Prop
  | starting {t : Timer} {c : ChildId} (ht : t ∈ s.timers) (hk : t.callback = .ready c)
      (hc : s.child.map Child.id = some c) (hr : s.everReady = false)
  | running {t : Timer} {p : PendingEntry} (hp : p ∈ s.pending) (ht : t ∈ s.timers)
      (hk : t.callback = .watchdog p.id)
  | shipping {t : Timer} (ht : t ∈ s.timers) (hk : t.callback = .snapshot) (hs : s.snapshots.sent = true)
      (ha : s.snapshots.acked = false)
  | dying {c : ChildId} (hc : s.child.map Child.id = some c) (hd : c ∈ s.dying) (hg : c ∉ s.gone)

theorem Armed.of_dying {s : State} (hi : Inv s) (hd : Dying s) : Armed s := by
  obtain ⟨c, hc, hm⟩ := hd
  exact .dying hc hm fun hg => (hi.departed c hg).2 hc

theorem armed_of_rested {s : State} (hi : Inv s) (ha : Attended s) (h : Rested s)
    (hw : s.queue ≠ [] ∨ s.pending ≠ []) : Armed s := by
  by_cases hp : s.pending = []
  · have hq : s.queue ≠ [] := hw.resolve_right (absurd hp)
    have hchild : s.child.isSome = true := by
      cases hc : s.child with
      | some c => rfl
      | none =>
        have hoff := h.staffed hc
        exact absurd (hi.off hoff.symm).2 hq
    cases he : s.everReady with
    | false =>
      rcases ha.starting hchild he with hd | ⟨t, ht, c, hk⟩
      · exact .of_dying hi hd
      · have hown := hi.owned t ht
        simp only [Owned, hk] at hown
        obtain ⟨hown, rfl, _⟩ := hown
        exact .starting ht hk hown he
    | true =>
      cases hr : s.sawReady with
      | false => exact .of_dying hi (ha.distrusted hchild he hr)
      | true =>
        cases hcon : s.connected with
        | false => exact .of_dying hi (ha.cut hchild hcon)
        | true =>
          have hd : s.dispatchable = true := by simp [State.dispatchable, hr, hcon]
          rcases h.quiescent with hq' | hp' | hn | ⟨hsent, hack⟩
          · exact absurd hq' hq
          · exact absurd hp hp'
          · simp [hd] at hn
          · rcases ha.awaited hchild hsent hack with hd | ⟨t, ht, hk⟩
            · exact .of_dying hi hd
            · exact .shipping ht hk hsent hack
  · obtain ⟨p, hm⟩ := List.exists_mem_of_ne_nil _ hp
    obtain ⟨_, _, c, _, _, ht⟩ := hi.inFlight p hm
    exact .running hm ht rfl

theorem Reaches.attended {s t : State} (hr : Reaches host cfg origin event s t) (hi : Inv s)
    (h : Attended s) : Attended t := by
  obtain ⟨l, hm⟩ := hr
  exact (hm.invariant (I := fun u => Inv u ∧ Attended u)
    (fun _ _ _ hu hm => ⟨hm.inv hu.1, hm.attended hu.1 hu.2⟩) ⟨hi, h⟩).2

/-- In a run whose boundaries do not cut a wait short, no request is ever stranded. -/
theorem no_request_stranded (host : Host) (cfg : Config) (events : List Event)
    (hmeets : Machine.Meets (step host cfg) BoundaryClear (initial host) events) :
    Machine.Throughout (step host cfg)
      (fun s => s.shuttingDown = false → s.queue ≠ [] ∨ s.pending ≠ [] → Armed s) (initial host) events := by
  have hinit : Inv (initial host) ∧ Attended (initial host) ∧ Rested (initial host) :=
    ⟨initial_inv, (initial_reaches host cfg .shutdown).attended blank_inv (.of_child_none rfl),
      spawn_rested rfl⟩
  have hall := hmeets.throughout (I := fun s => Inv s ∧ Attended s ∧ Rested s)
    (fun s e h hc => ⟨step_inv h.1 e,
      (step_reaches host cfg s e (fun ho => (h.1.off ho).1) h.1.born).attended h.1 h.2.1,
      step_rested h.1 h.2.2 hc⟩) hinit
  intro first second he _ hw
  obtain ⟨hi, ha, hr⟩ := hall first second he
  exact armed_of_rested hi ha hr hw

def snapshotOpts : Value := .object [("crossChainData", .object [])]

theorem no_request_stranded_acknowledged :
    let events : List Event := [.message 0 readyFrame, .beginBlock, .execute snapshotOpts 0,
      .message 0 (snapshotAckFrame (steadyToken 0)), .endBlock]
    Machine.Throughout (step steady ⟨1000⟩)
      (fun s => s.shuttingDown = false → s.queue ≠ [] ∨ s.pending ≠ [] → Armed s) (initial steady) events :=
  no_request_stranded steady ⟨1000⟩ _
    ⟨trivial, (by decide : ¬AwaitsAck _), trivial, trivial, (by decide : ¬AwaitsAck _), trivial⟩

/-- The block ends while its only request is held: nothing is left that would release it. -/
theorem boundary_strands_request :
    ¬∀ (host : Host) (cfg : Config) (events : List Event),
      let s := run host cfg events
      s.shuttingDown = false → s.queue ≠ [] ∨ s.pending ≠ [] → Armed s := by
  intro h
  have htimers : (run steady ⟨1000⟩
    [.message 0 readyFrame, .beginBlock, .execute snapshotOpts 0, .endBlock]).timers = [] := by decide
  have hdying : (run steady ⟨1000⟩
    [.message 0 readyFrame, .beginBlock, .execute snapshotOpts 0, .endBlock]).dying = [] := by decide
  have harmed := h steady ⟨1000⟩ [.message 0 readyFrame, .beginBlock, .execute snapshotOpts 0, .endBlock]
    (by decide) (.inl (by decide))
  cases harmed with
  | starting ht => simp [htimers] at ht
  | running hp ht => simp [htimers] at ht
  | shipping ht => simp [htimers] at ht
  | dying hc hd => simp [hdying] at hd

end XChainVM.Executor
