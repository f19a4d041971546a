import XChainVM.Executor.Invariant

/-! # Every move keeps the invariant

A request leaves the queue only when nothing is in flight and the worker is
ready, so the only timer that can still be running at that point is the
acknowledgement timer of the snapshot.
-/

namespace XChainVM.Executor

open Js

variable {host : Host} {cfg : Config} {origin : State} {event : Event}

namespace WorkerSnapshotChannel

theorem workerSpawned_inv {s : State} (h : Inv s) : Inv (workerSpawned s) := by
  have := h.dropSnapshotTimer { s.snapshots with sent := false, acked := false } (by simp)
  unfold workerSpawned clearTimer
  cases hs : s.snapshots.timer <;> simpa [State.clearTimeout, hs] using this

theorem beginBlock_inv {s : State} (h : Inv s) : Inv (beginBlock s) := by
  have := h.dropSnapshotTimer ⟨false, .null, none, false, false, none⟩ (by simp)
  unfold beginBlock workerSpawned clearTimer
  cases hs : s.snapshots.timer <;> simpa [State.clearTimeout, hs] using this

theorem onMessage_inv {s : State} (msg : Value) (h : Inv s) : Inv (onMessage msg s) := by
  unfold onMessage
  split
  · have := h.dropSnapshotTimer { s.snapshots with acked := true } h.shipped
    unfold clearTimer
    cases hs : s.snapshots.timer <;> simpa [State.clearTimeout, hs] using this
  · exact h

theorem no_snapshot_timer {s : State} (h : Inv s) (hs : s.snapshots.sent = false) {t : Timer}
    (ht : t ∈ s.timers) : t.callback ≠ .snapshot := by
  intro hc
  have := (h.owned t ht).2
  simp [hc, hs] at this

/-- While no snapshot has been sent, the channel's flags carry no obligation. -/
theorem set_channel_inv {s : State} (h : Inv s) (hs : s.snapshots.sent = false)
    (channel : SnapshotChannel) (ht : channel.timer = s.snapshots.timer)
    (hch : channel.sent = true → channel.set = true) : Inv { s with snapshots := channel } where
  accounted := h.accounted
  distinct := h.distinct
  fresh := h.fresh
  queued := h.queued
  single := h.single
  inFlight := h.inFlight
  timerFresh := h.timerFresh
  timerDistinct := h.timerDistinct
  owned t hm := by
    refine ⟨(h.owned t hm).1, ?_⟩
    have := (h.owned t hm).2
    cases hc : t.callback with
    | snapshot => exact absurd hc (no_snapshot_timer h hs hm)
    | ready c => simpa only [hc] using this
    | watchdog r => simpa only [hc] using this
  snapshotHandle t hm := by rw [ht]; exact h.snapshotHandle t hm
  readyHandle := h.readyHandle
  snapshotHandleFresh t hm := h.snapshotHandleFresh t (ht ▸ hm)
  readyHandleFresh := h.readyHandleFresh
  shipped := hch
  ready := h.ready
  born := h.born
  departed := h.departed
  off := h.off

theorem armSnapshot_inv {s : State} (h : Inv s) (hs : s.snapshots.sent = false)
    (hset : s.snapshots.set = true) (ha : s.snapshots.acked = false) (hp : s.pending = [])
    {c : ChildId} (hc : s.child.map Child.id = some c) (r : RequestId)
    (hq : s.queue.head?.map QueueEntry.id = some r) :
    Inv { s with
      timers := ⟨s.nextTimer, .snapshot, c, some r⟩ :: s.timers
      nextTimer := s.nextTimer + 1
      snapshots := { s.snapshots with sent := true, timer := some s.nextTimer } } where
  accounted := h.accounted
  distinct := h.distinct
  fresh := h.fresh
  queued := h.queued
  single := h.single
  inFlight p hm := by simp [hp] at hm
  timerFresh t hm := by
    rcases List.mem_cons.mp hm with rfl | hm
    · exact Nat.lt_succ_self _
    · exact Nat.lt_succ_of_lt (h.timerFresh t hm)
  timerDistinct := by
    refine List.nodup_cons.mpr ⟨?_, h.timerDistinct⟩
    simp only [List.mem_map, not_exists, not_and]
    intro t hm he
    exact absurd (h.timerFresh t hm) (by simp [he])
  owned t hm := by
    rcases List.mem_cons.mp hm with rfl | hm
    · exact ⟨hc, rfl, ha, hp, rfl, hq⟩
    · refine ⟨(h.owned t hm).1, ?_⟩
      have := (h.owned t hm).2
      cases hk : t.callback with
      | snapshot => exact absurd hk (no_snapshot_timer h hs hm)
      | ready c => simpa only [hk] using this
      | watchdog r => simpa only [hk] using this
  snapshotHandle t hm := by
    rcases List.mem_cons.mp hm with rfl | hm
    · simp
    · have := h.timerFresh t hm
      simp only [no_snapshot_timer h hs hm, Option.some.injEq, false_iff]
      exact (Nat.ne_of_lt this).symm
  readyHandle t hm := by
    rcases List.mem_cons.mp hm with rfl | hm
    · simp only [reduceCtorEq, exists_false, false_iff]
      intro he
      exact absurd (h.readyHandleFresh _ he) (Nat.lt_irrefl _)
    · exact h.readyHandle t hm
  snapshotHandleFresh t ht := by
    obtain rfl := Option.some.inj ht
    exact Nat.lt_succ_self _
  readyHandleFresh t ht := Nat.lt_succ_of_lt (h.readyHandleFresh t ht)
  shipped _ := hset
  ready := h.ready
  born := h.born
  departed := h.departed
  off := h.off

theorem choose_inv {s : State} (opts : Value) (h : Inv s) : Inv (choose host opts s) := by
  unfold choose
  split
  · rename_i hc
    simp only [Bool.and_eq_true, Bool.not_eq_true'] at hc
    have hs : s.snapshots.sent = false := by
      by_contra hn
      simp [h.shipped (by simpa using hn)] at hc
    have := set_channel_inv h hs ⟨true, opts.get "crossChainData", some (host.token s.tokens), s.snapshots.sent,
      s.snapshots.acked, s.snapshots.timer⟩ rfl (fun _ => rfl)
    exact this.of_core_eq rfl
  · exact h

end WorkerSnapshotChannel

open WorkerSnapshotChannel

/-- No timer is running when nothing is in flight and no snapshot is awaited by a ready worker. -/
theorem no_timer {s : State} (h : Inv s) (hp : s.pending = []) (hr : s.everReady = true)
    (hs : s.snapshots.sent = false ∨ s.snapshots.acked = true) : s.timers = [] := by
  apply List.eq_nil_iff_forall_not_mem.mpr
  intro t ht
  have := (h.owned t ht).2
  cases hc : t.callback with
  | ready c => simp [hc, hr] at this
  | watchdog r => simp [hc, hp] at this
  | snapshot =>
    simp only [hc] at this
    rcases hs with hs | hs
    · simp [hs] at this
    · simp [hs] at this

theorem launched_inv {s : State} {entry : QueueEntry} {rest : List QueueEntry} {c : ChildId} (h : Inv s)
    (hr : Released s entry rest c) : Inv (s.launched host entry rest c) := by
  have hready := h.ready hr.sawReady
  have hs := h.released hr.answered
  have ht := no_timer h hr.pending hready hs
  have he : entry ∈ s.accepted := h.queued entry (by simp [hr.queue])
  unfold State.launched
  simp only [hr.pending, List.nil_append, ht]
  exact {
    accounted := by
      intro id
      have := h.accounted id
      simp only [hr.queue, hr.pending, List.map_cons, List.count_cons, List.map_nil, List.count_nil] at this ⊢
      omega
    distinct := h.distinct
    fresh := h.fresh
    queued := fun e hm => h.queued e (by simp [hr.queue, hm])
    single := by simp
    inFlight := by
      intro p hm
      obtain rfl := List.mem_singleton.mp hm
      exact ⟨hready, ⟨entry, he, rfl, rfl⟩, c, hr.child, by simp, by simp⟩
    timerFresh := by simp
    timerDistinct := by simp
    owned := by
      intro t hm
      obtain rfl := List.mem_singleton.mp hm
      exact ⟨hr.child, rfl, _, List.mem_singleton_self _, rfl, rfl⟩
    snapshotHandle := by
      intro t hm
      obtain rfl := List.mem_singleton.mp hm
      simp only [reduceCtorEq, false_iff]
      intro he
      exact absurd (h.snapshotHandleFresh _ he) (Nat.lt_irrefl _)
    readyHandle := by
      intro t hm
      obtain rfl := List.mem_singleton.mp hm
      simp only [reduceCtorEq, exists_false, false_iff]
      intro he
      exact absurd (h.readyHandleFresh _ he) (Nat.lt_irrefl _)
    snapshotHandleFresh := fun t ht => Nat.lt_succ_of_lt (h.snapshotHandleFresh t ht)
    readyHandleFresh := fun t ht => Nat.lt_succ_of_lt (h.readyHandleFresh t ht)
    shipped := h.shipped
    ready := h.ready
    born := h.born
    departed := h.departed
    off := by
      intro ho
      have := hr.child
      simp [(h.off ho).1] at this }

/-- Rejecting the head of the queue moves it to the settlements. -/
theorem rejected_inv {s : State} {entry : QueueEntry} {rest : List QueueEntry} {c : ChildId} (h : Inv s)
    (hr : Released s entry rest c) (message : String) : Inv (s.rejected entry rest message) := by
  have ht := no_timer h hr.pending (h.ready hr.sawReady) (h.released hr.answered)
  exact {
    accounted := by
      intro id
      have := h.accounted id
      simp only [hr.queue, State.rejected, State.settle, List.map_cons, List.count_cons] at this ⊢
      omega
    distinct := h.distinct
    fresh := h.fresh
    queued := fun e hm => h.queued e (by simp [hr.queue, show e ∈ rest from hm])
    single := h.single
    inFlight := h.inFlight
    timerFresh := h.timerFresh
    timerDistinct := h.timerDistinct
    owned := fun t hm => by simp [State.rejected, State.settle, ht] at hm
    snapshotHandle := h.snapshotHandle
    readyHandle := h.readyHandle
    snapshotHandleFresh := h.snapshotHandleFresh
    readyHandleFresh := h.readyHandleFresh
    shipped := h.shipped
    ready := h.ready
    born := h.born
    departed := h.departed
    off := fun ho => absurd (h.off ho).2 (by simp [hr.queue]) }

/-- With the request in flight settled, its watchdog cleared, nothing is in flight. -/
theorem settled_inv {s : State} {entry : PendingEntry} (h : Inv s) (hp : entry ∈ s.pending)
    (outcome : Settlement) : Inv ((removePending entry s).settle entry.id outcome) := by
  have hs := h.pending_eq_singleton hp
  have hnone : (removePending entry s).pending = [] := by simp [removePending, hs]
  have hmem : ∀ t ∈ (removePending entry s).timers, t ∈ s.timers ∧ t.id ≠ entry.timer := by
    intro t ht
    simpa [removePending, State.clearTimeout] using ht
  exact {
    accounted := by
      intro id
      have := h.accounted id
      change (s.accepted.map QueueEntry.id).count id = (s.queue.map QueueEntry.id).count id +
        ((removePending entry s).pending.map PendingEntry.id).count id +
          (((entry.id, outcome) :: s.settled).map Prod.fst).count id
      rw [hnone]
      simp only [hs, List.map_cons, List.map_nil, List.count_cons, List.count_nil] at this ⊢
      omega
    distinct := h.distinct
    fresh := h.fresh
    queued := h.queued
    single := by simp [State.settle, hnone]
    inFlight := fun p hm => by simp [State.settle, hnone] at hm
    timerFresh := fun t ht => h.timerFresh t (hmem t ht).1
    timerDistinct := h.timerDistinct.sublist (List.filter_sublist.map _)
    owned := by
      intro t ht
      obtain ⟨hm, hne⟩ := hmem t ht
      refine ⟨(h.owned t hm).1, ?_⟩
      have := (h.owned t hm).2
      cases hk : t.callback with
      | ready c =>
        simp only [hk] at this ⊢
        exact this
      | watchdog r =>
        simp only [hk, hs, List.mem_singleton] at this
        obtain ⟨_, p, rfl, _, ht'⟩ := this
        exact absurd ht'.symm hne
      | snapshot => simp [hk, hs] at this
    snapshotHandle := fun t ht => h.snapshotHandle t (hmem t ht).1
    readyHandle := fun t ht => h.readyHandle t (hmem t ht).1
    snapshotHandleFresh := h.snapshotHandleFresh
    readyHandleFresh := h.readyHandleFresh
    shipped := h.shipped
    ready := h.ready
    born := h.born
    departed := h.departed
    off := h.off }

theorem expired_eq {s : State} {timer : Timer} {entry : PendingEntry} (h : Inv s) (ht : timer ∈ s.timers)
    (hw : timer.callback = .watchdog entry.id) (hp : entry ∈ s.pending) :
    s.expired timer entry = (removePending entry s).settle entry.id
      (.terminated (hostTerminatedResult entry.ceiling "watchdog timeout")) := by
  have := (h.owned timer ht).2
  simp only [hw, h.pending_eq_singleton hp, List.mem_singleton] at this
  obtain ⟨_, p, rfl, _, he⟩ := this
  rw [State.expired, removePending, State.clearTimeout, he]

theorem drop_inv {s : State} {timer : Timer} (h : Inv s) (ht : timer ∈ s.timers)
    (hw : ∀ p ∈ s.pending, timer.callback ≠ .watchdog p.id) :
    Inv { s with timers := s.timers.filter (·.id ≠ timer.id) } := by
  refine h.filterTimers _ fun p hp t hm hc => ?_
  simp only [ne_eq, decide_not, Bool.not_eq_true', decide_eq_false_iff_not]
  intro he
  obtain rfl := List.inj_on_of_nodup_map h.timerDistinct hm ht he
  exact hw p hp hc

/-- A state with no child has nothing in flight and no timer. -/
theorem Inv.of_no_child {s s' : State} (h : Inv s)
    (hac : s'.accepted = s.accepted) (hid : s'.nextId = s.nextId)
    (haccounted : ∀ id, (s.accepted.map QueueEntry.id).count id =
      (s'.queue.map QueueEntry.id).count id + (s'.settled.map Prod.fst).count id)
    (hq : ∀ e ∈ s'.queue, e ∈ s.queue) (hp : s'.pending = []) (ht : s'.timers = [])
    (hst : ∀ t, s'.snapshots.timer = some t → t < s'.nextTimer)
    (hrt : ∀ t, s'.readyTimer = some t → t < s'.nextTimer)
    (hship : s'.snapshots.sent = true → s'.snapshots.set = true)
    (hready : s'.sawReady = true → s'.everReady = true)
    (hchild : s'.child = none) (hgone : s'.gone = s.gone) (hforks : s'.forks = s.forks)
    (hoff : s'.shuttingDown = true ∨ s'.broken = true → s'.child = none ∧ s'.queue = []) : Inv s' where
  accounted id := by simp [hac, haccounted id, hp]
  distinct := hac ▸ h.distinct
  fresh e he := by rw [hid]; exact h.fresh e (hac ▸ he)
  queued e he := hac ▸ h.queued e (hq e he)
  single := by simp [hp]
  inFlight p hm := by simp [hp] at hm
  timerFresh t hm := by simp [ht] at hm
  timerDistinct := by simp [ht]
  owned t hm := by simp [ht] at hm
  snapshotHandle t hm := by simp [ht] at hm
  readyHandle t hm := by simp [ht] at hm
  snapshotHandleFresh := hst
  readyHandleFresh := hrt
  shipped := hship
  ready := hready
  born c hc := by simp [hchild] at hc
  departed c hc := ⟨hforks ▸ (h.departed c (hgone ▸ hc)).1, by simp [hchild]⟩
  off := hoff

theorem lost_timers {s : State} (h : Inv s) (code : Option Int) (signal : Option String) :
    (s.lost code signal).timers = [] := by
  apply List.eq_nil_iff_forall_not_mem.mpr
  intro t ht
  have hp : (WorkerSnapshotChannel.workerLost (clearReadyTimer { s with child := none })).pending = s.pending := by
    rw [workerLost_eq, clearReadyTimer_eq]
  have hmem : t ∈ s.timers ∧ s.readyTimer ≠ some t.id ∧ s.snapshots.timer ≠ some t.id ∧
      ∀ p ∈ s.pending, t.id ≠ p.timer := by
    simp only [State.lost, settlePending, State.settleAll, List.mem_filter, hp, decide_eq_true_eq] at ht
    obtain ⟨ht, hw⟩ := ht
    obtain ⟨ht, hs⟩ := mem_clearTimeout ht
    obtain ⟨ht, hr⟩ := mem_clearTimeout ht
    rw [clearReadyTimer_eq] at hs
    exact ⟨ht, hr, hs, hw⟩
  obtain ⟨ht, hr, hs, hw⟩ := hmem
  have := (h.owned t ht).2
  cases hk : t.callback with
  | ready c => exact hr ((h.readyHandle t ht).mp ⟨c, hk⟩)
  | snapshot => exact hs ((h.snapshotHandle t ht).mp hk)
  | watchdog r =>
    simp only [hk] at this
    obtain ⟨_, p, hp, _, he⟩ := this
    exact hw p hp he.symm

theorem count_settled {α : Type} (l : List α) (key : α → RequestId) (outcome : α → Settlement)
    (settled : List (RequestId × Settlement)) (id : RequestId) :
    (((l.map fun a => (key a, outcome a)).reverse ++ settled).map Prod.fst).count id =
      (l.map key).count id + (settled.map Prod.fst).count id := by
  rw [List.map_append, List.map_reverse, List.count_append, List.count_reverse, List.map_map]
  rfl

theorem lost_inv {s : State} (h : Inv s) (hc : s.child.isSome = true) (code : Option Int)
    (signal : Option String) : Inv (s.lost code signal) := by
  have ht := lost_timers h code signal
  have hoff : ¬(s.shuttingDown = true ∨ s.broken = true) := by
    intro ho
    simp [(h.off ho).1] at hc
  rw [lost_eq] at ht ⊢
  refine h.of_no_child rfl rfl ?_ (fun _ he => he) rfl ht (by simp) (by simp) h.shipped h.ready
    rfl rfl rfl fun ho => absurd ho hoff
  intro id
  rw [count_settled, h.accounted id]
  exact (Nat.add_assoc _ _ _)

theorem latched_inv {s : State} (h : Inv s) (hc : s.child = none) (reason : String) :
    Inv (s.latched reason) := by
  refine h.of_no_child rfl rfl ?_ (by simp [State.latched, State.settleAll]) (h.pending_eq_nil hc)
    (h.timers_eq_nil hc) h.snapshotHandleFresh h.readyHandleFresh h.shipped h.ready
    hc rfl rfl fun _ => ⟨hc, rfl⟩
  intro id
  have := h.accounted id
  simp only [State.latched, State.settleAll, count_settled, h.pending_eq_nil hc, List.map_nil,
    List.count_nil] at this ⊢
  omega

theorem shutdown_inv {s : State} (h : Inv s) : Inv (Executor.shutdown s) := by
  have ht := lost_timers h none none
  rw [shutdown_eq, ht]
  refine h.of_no_child rfl rfl ?_ (by simp) rfl rfl (by simp) (by simp) h.shipped h.ready
    rfl rfl rfl fun _ => ⟨rfl, rfl⟩
  intro id
  rw [count_settled, count_settled, h.accounted id]
  simp only [List.map_nil, List.count_nil]
  omega

theorem reset_inv {s : State} (h : Inv s) (hc : s.child = none) : Inv (spawnReset s) := by
  have := workerSpawned_inv (h.dropReadyTimer false false (by simp) (.inr (h.pending_eq_nil hc)))
  unfold spawnReset clearReadyTimer
  exact this

theorem forkFailed_inv {s : State} (h : Inv s) (hc : s.child = none) : Inv { s with forks := s.forks + 1 } :=
  ⟨h.accounted, h.distinct, h.fresh, h.queued, h.single, h.inFlight, h.timerFresh, h.timerDistinct,
    h.owned, h.snapshotHandle, h.readyHandle, h.snapshotHandleFresh, h.readyHandleFresh, h.shipped, h.ready,
    fun c hm => by simp [hc] at hm, fun c hm => (h.departed c hm).imp_left Nat.lt_succ_of_lt, h.off⟩

theorem depart_inv {s : State} {c : ChildId} (h : Inv s) (hc : s.child.map Child.id ≠ some c)
    (hb : c < s.forks) : Inv { s with gone := c :: s.gone } := by
  refine ⟨h.accounted, h.distinct, h.fresh, h.queued, h.single, h.inFlight, h.timerFresh, h.timerDistinct,
    h.owned, h.snapshotHandle, h.readyHandle, h.snapshotHandleFresh, h.readyHandleFresh, h.shipped, h.ready,
    h.born, fun d hd => ?_, h.off⟩
  rcases List.mem_cons.mp hd with rfl | hd
  · exact ⟨hb, hc⟩
  · exact h.departed d hd

theorem installed_inv {s : State} (h : Inv s) (hc : s.child = none) (hr : s.everReady = false)
    (hsd : s.shuttingDown = false) (hb : s.broken = false) (connected : Bool) :
    Inv (s.installed connected) := by
  have ht := h.timers_eq_nil hc
  have hp := h.pending_eq_nil hc
  unfold State.installed
  rw [ht]
  exact {
    accounted := h.accounted
    distinct := h.distinct
    fresh := h.fresh
    queued := h.queued
    single := h.single
    inFlight := fun p hm => by simp [hp] at hm
    timerFresh := by simp
    timerDistinct := by simp
    owned := by
      intro t hm
      obtain rfl := List.mem_singleton.mp hm
      exact ⟨rfl, rfl, rfl, hr⟩
    snapshotHandle := by
      intro t hm
      obtain rfl := List.mem_singleton.mp hm
      simp only [reduceCtorEq, false_iff]
      intro he
      exact absurd (h.snapshotHandleFresh _ he) (Nat.lt_irrefl _)
    readyHandle := by
      intro t hm
      obtain rfl := List.mem_singleton.mp hm
      simp
    snapshotHandleFresh := fun t ht => Nat.lt_succ_of_lt (h.snapshotHandleFresh t ht)
    readyHandleFresh := fun t ht => by
      obtain rfl := Option.some.inj ht
      exact Nat.lt_succ_self _
    shipped := h.shipped
    ready := h.ready
    born := fun c hc => by
      obtain rfl := Option.some.inj hc
      exact Nat.lt_succ_self _
    departed := fun c hc => by
      have hlt := (h.departed c hc).1
      exact ⟨Nat.lt_succ_of_lt hlt, fun he => Nat.ne_of_lt hlt (Option.some.inj he).symm⟩
    off := fun ho => by simp [hsd, hb] at ho }

theorem admitted_inv {s : State} (h : Inv s) (opts : Value) (hsd : s.shuttingDown = false)
    (hb : s.broken = false) : Inv (s.admitted cfg opts) where
  accounted id := by
    have := h.accounted id
    simp only [State.admitted, List.map_append, List.map_cons, List.map_nil, List.count_cons,
      List.count_append, List.count_nil] at this ⊢
    omega
  distinct := by
    refine List.nodup_cons.mpr ⟨?_, h.distinct⟩
    simp only [List.mem_map, not_exists, not_and]
    intro e he hid
    exact absurd (h.fresh e he) (by simp [hid, State.entryOf])
  fresh e he := by
    rcases List.mem_cons.mp he with rfl | he
    · exact Nat.lt_succ_self _
    · exact Nat.lt_succ_of_lt (h.fresh e he)
  queued e he := by
    rcases List.mem_append.mp he with he | he
    · exact List.mem_cons_of_mem _ (h.queued e he)
    · exact List.mem_cons.mpr (.inl (List.mem_singleton.mp he))
  single := h.single
  inFlight p hp := by
    obtain ⟨hr, ⟨e, he, hid⟩, hc⟩ := h.inFlight p hp
    exact ⟨hr, ⟨e, List.mem_cons_of_mem _ he, hid⟩, hc⟩
  timerFresh := h.timerFresh
  timerDistinct := h.timerDistinct
  owned t ht := by
    refine ⟨(h.owned t ht).1, ?_⟩
    have := (h.owned t ht).2
    cases hk : t.callback with
    | ready c =>
      simp only [hk] at this ⊢
      exact this
    | watchdog r =>
      simp only [hk] at this ⊢
      exact this
    | snapshot =>
      simp only [hk] at this ⊢
      obtain ⟨hs, ha, hp, hr, hq⟩ := this
      refine ⟨hs, ha, hp, hr, ?_⟩
      cases hqs : s.queue with
      | nil => simp [← hq, hqs] at hr
      | cons e rest => simpa [State.admitted, hqs] using hq
  snapshotHandle := h.snapshotHandle
  readyHandle := h.readyHandle
  snapshotHandleFresh := h.snapshotHandleFresh
  readyHandleFresh := h.readyHandleFresh
  shipped := h.shipped
  ready := h.ready
  born := h.born
  departed := h.departed
  off ho := by simp [State.admitted, hsd, hb] at ho

theorem Move.inv {l : List (RequestId × Settlement)} {s t : State} (h : Inv s)
    (hm : Move host cfg origin event l s t) : Inv t := by
  cases hm with
  | quiet hv => exact h.of_visible_eq hv
  | cut => exact h.of_core_eq (core_closeChannel s)
  | kill => exact h.of_core_eq (core_kill s)
  | forkFailed hc => exact forkFailed_inv h hc
  | mint => exact h.of_core_eq rfl
  | post hc hf => exact h.of_core_eq rfl
  | boundary inBlock he => exact beginBlock_inv (h.of_core_eq rfl)
  | choose hq => exact choose_inv _ h
  | ship hq hp hc hset ha hs =>
    exact (armSnapshot_inv h hs hset ha hp hc _ (by rw [hq]; rfl)).of_core_eq rfl
  | unship hs => exact set_channel_inv h hs _ rfl (by simp)
  | launch hr => exact launched_inv h hr
  | reject hr message => exact rejected_inv h hr message
  | ack he => exact onMessage_inv _ h
  | ready =>
    have := h.dropReadyTimer true true (fun _ => rfl) (.inl rfl)
    unfold State.readied clearReadyTimer
    cases hr : origin.readyTimer <;> simpa [State.clearTimeout, hr] using this
  | reply he hc hp ho => exact settled_inv h (findPending_mem hp).1 _
  | distrust =>
    exact ⟨h.accounted, h.distinct, h.fresh, h.queued, h.single, h.inFlight, h.timerFresh, h.timerDistinct,
      h.owned, h.snapshotHandle, h.readyHandle, h.snapshotHandleFresh, h.readyHandleFresh, h.shipped,
      fun hready => absurd hready Bool.false_ne_true, h.born, h.departed, h.off⟩
  | watchdog he ht hw hp =>
    rw [expired_eq h ht hw hp]
    exact settled_inv h hp _
  | drop ht hw hr hs => exact drop_inv h ht hw
  | lose hc he => exact lost_inv h (by rw [← Option.isSome_map (f := Child.id), hc]; rfl) _ _
  | depart hc hb => exact depart_inv h hc hb
  | reset hc => exact reset_inv h hc
  | install hc hr hsd hb hs connected => exact installed_inv h hc hr hsd hb connected
  | latch hc reason => exact latched_inv h hc reason
  | unlatch =>
    exact ⟨h.accounted, h.distinct, h.fresh, h.queued, h.single, h.inFlight, h.timerFresh, h.timerDistinct,
      h.owned, h.snapshotHandle, h.readyHandle, h.snapshotHandleFresh, h.readyHandleFresh, h.shipped,
      h.ready, h.born, h.departed, fun ho => h.off (.inl (by simpa using ho))⟩
  | enroll he hsd hb => exact admitted_inv h _ hsd hb
  | shutdown he => exact shutdown_inv h

theorem Reaches.inv {s t : State} (hr : Reaches host cfg origin event s t) (h : Inv s) : Inv t := by
  obtain ⟨l, hm⟩ := hr
  exact hm.invariant (fun _ _ _ hi hm => hm.inv hi) h

theorem step_inv {s : State} (h : Inv s) (event : Event) : Inv (step host cfg s event) :=
  (step_reaches host cfg s event (fun ho => (h.off ho).1) h.born).inv h

theorem blank_inv : Inv blank where
  accounted := by simp [blank]
  distinct := by simp [blank]
  fresh := by simp [blank]
  queued := by simp [blank]
  single := by simp [blank]
  inFlight := by simp [blank]
  timerFresh := by simp [blank]
  timerDistinct := by simp [blank]
  owned := by simp [blank]
  snapshotHandle := by simp [blank]
  readyHandle := by simp [blank]
  snapshotHandleFresh := by simp [blank]
  readyHandleFresh := by simp [blank]
  shipped := by simp [blank]
  ready := by simp [blank]
  born := by simp [blank]
  departed := by simp [blank]
  off := by simp [blank]

variable (host cfg) in
theorem initial_reaches (event : Event) : Reaches host cfg blank event blank (initial host) :=
  spawn_reaches rfl rfl

theorem initial_inv : Inv (initial host) := (initial_reaches host ⟨0⟩ .shutdown).inv blank_inv

theorem run_inv (events : List Event) : Inv (run host cfg events) :=
  Machine.run_invariant (I := Inv) (fun _ e h => step_inv h e) initial_inv events

/-- A law of the blank state that every move keeps holds after every run. -/
theorem run_law {I : State → Prop} (hblank : I blank)
    (hmove : ∀ origin event l s t, Inv s → I s → Move host cfg origin event l s t → I t)
    (events : List Event) : I (run host cfg events) := by
  have hreach : ∀ origin event s t, Inv s → I s → Reaches host cfg origin event s t → I t := by
    intro origin event s t hi h ⟨l, hm⟩
    exact (hm.invariant (I := fun u => Inv u ∧ I u)
      (fun l u v hu hm => ⟨hm.inv hu.1, hmove origin event l u v hu.1 hu.2 hm⟩) ⟨hi, h⟩).2
  have hall : Inv (run host cfg events) ∧ I (run host cfg events) := by
    refine Machine.run_invariant (I := fun s => Inv s ∧ I s) (fun s e h => ?_) ⟨initial_inv, ?_⟩ events
    · exact ⟨step_inv h.1 e, hreach s e s _ h.1 h.2
        (step_reaches host cfg s e (fun ho => (h.1.off ho).1) h.1.born)⟩
    · exact hreach blank .shutdown blank _ blank_inv hblank (initial_reaches host cfg .shutdown)
  exact hall.2

end XChainVM.Executor
