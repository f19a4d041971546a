import XChainVM.Executor.Accounting

/-! # Every worker is watched

A worker that is not ready has its ready timer running, one that may take no
work is dying, and a snapshot it was sent is awaited by a timer. Every move keeps
this, so a worker that does not answer is replaced.
-/

namespace XChainVM.Executor

open Js

variable {host : Host} {cfg : Config} {origin : State} {event : Event}

def Dying (s : State) : Prop := ∃ c, s.child.map Child.id = some c ∧ c ∈ s.dying

structure Attended (s : State) : Prop where
  starting : s.child.isSome = true → s.everReady = false → Dying s ∨ ∃ t ∈ s.timers, ∃ c, t.callback = .ready c
  distrusted : s.child.isSome = true → s.everReady = true → s.sawReady = false → Dying s
  cut : s.child.isSome = true → s.connected = false → Dying s
  awaited : s.child.isSome = true → s.snapshots.sent = true → s.snapshots.acked = false →
    Dying s ∨ ∃ t ∈ s.timers, t.callback = .snapshot

theorem Attended.of_child_none {s : State} (hc : s.child = none) : Attended s where
  starting h := by simp [hc] at h
  distrusted h := by simp [hc] at h
  cut h := by simp [hc] at h
  awaited h := by simp [hc] at h

theorem Attended.of_dying {s : State} (hd : Dying s) : Attended s :=
  ⟨fun _ _ => .inl hd, fun _ _ _ => hd, fun _ _ => hd, fun _ _ _ => .inl hd⟩

/-- A live timer of a given kind survives the loss of another one. -/
theorem survives {s : State} {t : Timer} {x : Option TimerId} (ht : t ∈ s.timers) (hx : x ≠ some t.id) :
    t ∈ (s.clearTimeout x).timers := by
  cases x with
  | none => exact ht
  | some n => exact List.mem_filter.mpr ⟨ht, by simpa using fun he => hx (by rw [he])⟩

theorem snapshotBeginBlock_timers (s : State) :
    (WorkerSnapshotChannel.beginBlock s).timers = (s.clearTimeout s.snapshots.timer).timers := by
  unfold WorkerSnapshotChannel.beginBlock WorkerSnapshotChannel.workerSpawned WorkerSnapshotChannel.clearTimer
  cases s.snapshots.timer <;> rfl

theorem readied_timers (s : State) : s.readied.timers = (s.clearTimeout s.readyTimer).timers := by
  unfold State.readied clearReadyTimer
  cases s.readyTimer <;> rfl

theorem not_snapshot_handle {s : State} (h : Inv s) {t : Timer} (ht : t ∈ s.timers) {c : ChildId}
    (hc : t.callback = .ready c) : s.snapshots.timer ≠ some t.id := by
  intro he
  have := (h.snapshotHandle t ht).mpr he
  simp [hc] at this

theorem not_ready_handle {s : State} (h : Inv s) {t : Timer} (ht : t ∈ s.timers)
    (hc : t.callback = .snapshot) : s.readyTimer ≠ some t.id := by
  intro he
  obtain ⟨c, hr⟩ := (h.readyHandle t ht).mpr he
  simp [hc] at hr

/-- The timer of a request in flight is no other timer. -/
theorem watchdog_of_pending {s : State} (h : Inv s) {p : PendingEntry} (hp : p ∈ s.pending) {t : Timer}
    (ht : t ∈ s.timers) (he : t.id = p.timer) : t.callback = .watchdog p.id := by
  obtain ⟨_, _, c, _, _, hw⟩ := h.inFlight p hp
  rw [List.inj_on_of_nodup_map h.timerDistinct ht hw he]

theorem Attended.keepTimers {s t : State} (h : Attended s) (hchild : t.child = s.child)
    (hdying : t.dying = s.dying) (hsaw : t.sawReady = s.sawReady) (hever : t.everReady = s.everReady)
    (hsnap : t.snapshots.sent = true → t.snapshots.acked = false → s.snapshots.sent = true ∧ s.snapshots.acked = false)
    (hready : ∀ u ∈ s.timers, ∀ c, u.callback = .ready c → u ∈ t.timers)
    (hsnapshot : t.snapshots.sent = true → t.snapshots.acked = false →
      ∀ u ∈ s.timers, u.callback = .snapshot → u ∈ t.timers) : Attended t := by
  have hd : Dying s → Dying t := by
    rintro ⟨c, hc, hm⟩
    exact ⟨c, hchild ▸ hc, hdying ▸ hm⟩
  refine ⟨fun hs he => ?_, fun hs he hn => ?_, fun hs hn => ?_, fun hs hsent hack => ?_⟩
  · rcases h.starting (hchild ▸ hs) (hever ▸ he) with hdy | ⟨u, hu, c, hc⟩
    · exact .inl (hd hdy)
    · exact .inr ⟨u, hready u hu c hc, c, hc⟩
  · exact hd (h.distrusted (hchild ▸ hs) (hever ▸ he) (hsaw ▸ hn))
  · refine hd (h.cut (hchild ▸ hs) ?_)
    rw [State.connected, ← hchild]
    exact hn
  · obtain ⟨hs1, hs2⟩ := hsnap hsent hack
    rcases h.awaited (hchild ▸ hs) hs1 hs2 with hdy | ⟨u, hu, hc⟩
    · exact .inl (hd hdy)
    · exact .inr ⟨u, hsnapshot hsent hack u hu hc, hc⟩

/-- The child, its flags and the timers are all the moves of the queue leave alone. -/
theorem Attended.keep {s t : State} (h : Attended s) (hchild : t.child = s.child)
    (hdying : t.dying = s.dying) (hsaw : t.sawReady = s.sawReady) (hever : t.everReady = s.everReady)
    (hsnap : t.snapshots.sent = true → t.snapshots.acked = false → s.snapshots.sent = true ∧ s.snapshots.acked = false)
    (htimers : ∀ u ∈ s.timers, u ∈ t.timers) : Attended t :=
  h.keepTimers hchild hdying hsaw hever hsnap (fun u hu _ _ => htimers u hu) (fun _ _ u hu _ => htimers u hu)

theorem attended_settled {s : State} (hi : Inv s) (h : Attended s) {p : PendingEntry} (hp : p ∈ s.pending)
    (outcome : Settlement) : Attended ((removePending p s).settle p.id outcome) := by
  have hkeep : ∀ u ∈ s.timers, u.callback ≠ .watchdog p.id →
      u ∈ ((removePending p s).settle p.id outcome).timers := by
    intro u hu hn
    refine survives hu fun he => hn (watchdog_of_pending hi hp hu ?_)
    exact (Option.some.inj he).symm
  exact h.keepTimers rfl rfl rfl rfl (fun a b => ⟨a, b⟩) (fun u hu c hc => hkeep u hu (by simp [hc]))
    (fun _ _ u hu hc => hkeep u hu (by simp [hc]))

theorem dying_closeChannel {s : State} (hc : s.child.isSome = true) : Dying s.closeChannel := by
  obtain ⟨_ | c, _⟩ := s
  · simp at hc
  · exact ⟨c.id, rfl, List.mem_cons_self⟩

theorem dying_kill {s : State} (hc : s.child.isSome = true) : Dying s.kill := by
  obtain ⟨_ | c, _⟩ := s
  · simp at hc
  · exact ⟨c.id, rfl, List.mem_cons_self⟩

theorem attended_drop {s : State} (hi : Inv s) (h : Attended s) {timer : Timer} (ht : timer ∈ s.timers)
    (hr : ∀ c, timer.callback = .ready c → s.everReady = true ∨ s.child.map Child.id ≠ some c ∨ c ∈ s.dying)
    (hs : timer.callback = .snapshot → s.snapshots.sent = false ∨ s.snapshots.acked = true ∨
      ∀ c, s.child.map Child.id = some c → c ∈ s.dying) :
    Attended { s with timers := s.timers.filter (·.id ≠ timer.id) } := by
  have hkeep : ∀ u ∈ s.timers, u = timer ∨ u ∈ s.timers.filter (·.id ≠ timer.id) := by
    intro u hu
    by_cases he : u.id = timer.id
    · exact .inl (List.inj_on_of_nodup_map hi.timerDistinct hu ht he)
    · exact .inr (List.mem_filter.mpr ⟨hu, by simpa using he⟩)
  have hchild : ∀ (c : ChildId), s.child.map Child.id = some c → c ∈ s.dying → Dying s := fun c hc hd => ⟨c, hc, hd⟩
  refine ⟨fun hsome he => ?_, h.distrusted, h.cut, fun hsome hsent hack => ?_⟩
  · rcases h.starting hsome he with hdy | ⟨u, hu, c, hc⟩
    · exact .inl hdy
    · rcases hkeep u hu with rfl | hu'
      · obtain ⟨hown, hown'⟩ := hi.owned u hu
        simp only [hc] at hown'
        obtain ⟨rfl, _⟩ := hown'
        rcases hr _ hc with hr | hr | hr
        · exact absurd (show s.everReady = false from he) (by simp [hr])
        · exact absurd hown hr
        · exact .inl ⟨_, hown, hr⟩
      · exact .inr ⟨u, hu', c, hc⟩
  · rcases h.awaited hsome hsent hack with hdy | ⟨u, hu, hc⟩
    · exact .inl hdy
    · rcases hkeep u hu with rfl | hu'
      · obtain ⟨hown, _⟩ := hi.owned u hu
        rcases hs hc with hs | hs | hs
        · exact absurd (show s.snapshots.sent = true from hsent) (by simp [hs])
        · exact absurd (show s.snapshots.acked = false from hack) (by simp [hs])
        · exact .inl ⟨_, hown, hs _ hown⟩
      · exact .inr ⟨u, hu', hc⟩

theorem attended_installed {s : State} (hr : s.everReady = false) (hs : s.snapshots.sent = false)
    (connected : Bool) : Attended (s.installed connected) where
  starting _ _ := .inr ⟨_, List.mem_cons_self, _, rfl⟩
  distrusted _ he := by simp [State.installed, hr] at he
  cut _ hc := by
    obtain rfl : connected = false := hc
    exact ⟨s.forks, rfl, List.mem_cons_self⟩
  awaited _ hsent := by simp [State.installed, hs] at hsent

theorem Move.attended {l : List (RequestId × Settlement)} {s t : State} (hi : Inv s) (h : Attended s)
    (hm : Move host cfg origin event l s t) : Attended t := by
  cases hm with
  | quiet hv =>
    have hf : ∀ {α : Type} (f : State → α), (∀ u, f (visible u) = f u) → f t = f s := by
      intro α f hf
      rw [← hf t, hv, hf]
    have hsnap := hf State.snapshots fun _ => rfl
    refine h.keep (hf State.child fun _ => rfl) (hf State.dying fun _ => rfl) (hf State.sawReady fun _ => rfl)
      (hf State.everReady fun _ => rfl) (by rw [hsnap]; exact fun a b => ⟨a, b⟩) ?_
    rw [hf State.timers fun _ => rfl]
    exact fun u hu => hu
  | cut =>
    cases hc : s.child with
    | none => rwa [State.closeChannel, hc]
    | some c => exact .of_dying (dying_closeChannel (by rw [hc]; rfl))
  | kill =>
    cases hc : s.child with
    | none => rwa [State.kill, hc]
    | some c => exact .of_dying (dying_kill (by rw [hc]; rfl))
  | forkFailed hc => exact .of_child_none hc
  | @boundary _ inBlock he =>
    have ht := snapshotBeginBlock_timers { s with inBlock := inBlock }
    rw [snapshotBeginBlock_eq]
    refine h.keepTimers rfl rfl rfl rfl (fun hsent => absurd hsent Bool.false_ne_true) (fun u hu c hc => ?_)
      (fun hsent => absurd hsent Bool.false_ne_true)
    exact ht ▸ survives (s := { s with inBlock := inBlock }) hu (not_snapshot_handle hi hu hc)
  | choose hq =>
    unfold WorkerSnapshotChannel.choose
    split
    · exact h.keep rfl rfl rfl rfl (fun a b => ⟨a, b⟩) fun u hu => hu
    · exact h
  | ship hq hp hc hset ha hs =>
    refine ⟨fun a b => ?_, h.distrusted, h.cut, fun _ _ _ => .inr ⟨_, List.mem_cons_self, rfl⟩⟩
    obtain hd | ⟨u, hu, hk⟩ := h.starting a b
    · exact .inl hd
    · exact .inr ⟨u, List.mem_cons_of_mem _ hu, hk⟩
  | unship hs => exact h.keep rfl rfl rfl rfl (fun hsent => absurd hsent Bool.false_ne_true) fun u hu => hu
  | launch hr => exact h.keep rfl rfl rfl rfl (fun a b => ⟨a, b⟩) fun u hu => List.mem_cons_of_mem _ hu
  | ack he =>
    unfold WorkerSnapshotChannel.onMessage WorkerSnapshotChannel.clearTimer
    split
    · rw [clearTimeout_eq]
      exact h.keepTimers rfl rfl rfl rfl (fun _ hacked => absurd hacked.symm Bool.false_ne_true)
        (fun u hu c hc => survives hu (not_snapshot_handle hi hu hc))
        (fun _ hacked => absurd hacked.symm Bool.false_ne_true)
    · exact h
  | ready =>
    have ht := readied_timers origin
    rw [readied_eq, ht]
    refine ⟨fun _ hever => absurd hever.symm Bool.false_ne_true, fun _ _ hsaw => absurd hsaw.symm Bool.false_ne_true,
      h.cut, fun hc hs ha => ?_⟩
    rcases h.awaited hc hs ha with hd | ⟨u, hu, hk⟩
    · exact .inl hd
    · exact .inr ⟨u, survives hu (not_ready_handle hi hu hk), hk⟩
  | reply he hc hp ho => exact attended_settled hi h (findPending_mem hp).1 _
  | distrust hd =>
    refine ⟨h.starting, fun hc he _ => ?_, h.cut, h.awaited⟩
    obtain ⟨c, hc⟩ : ∃ c, s.child = some c := Option.isSome_iff_exists.mp hc
    have hid : s.child.map Child.id = some c.id := by rw [hc]; rfl
    exact ⟨c.id, hid, hd _ hid⟩
  | watchdog he ht hw hp =>
    rw [expired_eq hi ht hw hp]
    exact attended_settled hi h hp _
  | drop ht hw hr hs => exact attended_drop hi h ht hr hs
  | lose hc he => exact .of_child_none (by rw [lost_eq])
  | reset hc => exact .of_child_none (by rw [spawnReset_eq]; exact hc)
  | install hc hr hsd hb hs connected => exact attended_installed hr hs connected
  | latch hc reason => exact .of_child_none hc
  | shutdown he => exact .of_child_none (by rw [shutdown_eq])
  | _ => exact h.keep rfl rfl rfl rfl (fun a b => ⟨a, b⟩) fun u hu => hu

end XChainVM.Executor
