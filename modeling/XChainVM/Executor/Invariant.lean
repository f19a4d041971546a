import XChainVM.Executor.Steps
import Mathlib.Data.List.Count
import Mathlib.Data.List.Nodup

/-! # The invariant of the process executor

Every accepted request is counted once among the queue, the request in flight
and the settlements; every running timer belongs to the current child and, where
it was armed for a request, to that request at its place. The invariant is kept
by every handler, in every order.
-/

namespace XChainVM.Executor

open Js

def Owned (s : State) (t : Timer) : Prop :=
  s.child.map Child.id = some t.child ∧
  match t.callback with
  | .ready c => t.child = c ∧ t.request = none ∧ s.everReady = false
  | .watchdog r => t.request = some r ∧ ∃ p ∈ s.pending, p.id = r ∧ p.timer = t.id
  | .snapshot => s.snapshots.sent = true ∧ s.snapshots.acked = false ∧
      s.pending = [] ∧ t.request.isSome = true ∧ s.queue.head?.map QueueEntry.id = t.request

/-- A dispatched request is accepted, was sent to the current child under its
token, and has its watchdog running. -/
def InFlight (s : State) (p : PendingEntry) : Prop :=
  s.everReady = true ∧
  (∃ e ∈ s.accepted, e.id = p.id ∧ e.ceiling = p.ceiling) ∧
  ∃ c, s.child.map Child.id = some c ∧ (⟨p.id, c, p.token⟩ : Dispatch) ∈ s.dispatched ∧
    (⟨p.timer, .watchdog p.id, c, some p.id⟩ : Timer) ∈ s.timers

structure Inv (s : State) : Prop where
  accounted : ∀ id, (s.accepted.map QueueEntry.id).count id =
    (s.queue.map QueueEntry.id).count id + (s.pending.map PendingEntry.id).count id +
      (s.settled.map Prod.fst).count id
  distinct : (s.accepted.map QueueEntry.id).Nodup
  fresh : ∀ e ∈ s.accepted, e.id < s.nextId
  queued : ∀ e ∈ s.queue, e ∈ s.accepted
  single : s.pending.length ≤ 1
  inFlight : ∀ p ∈ s.pending, InFlight s p
  timerFresh : ∀ t ∈ s.timers, t.id < s.nextTimer
  timerDistinct : (s.timers.map Timer.id).Nodup
  owned : ∀ t ∈ s.timers, Owned s t
  snapshotHandle : ∀ t ∈ s.timers, t.callback = .snapshot ↔ s.snapshots.timer = some t.id
  readyHandle : ∀ t ∈ s.timers, (∃ c, t.callback = .ready c) ↔ s.readyTimer = some t.id
  snapshotHandleFresh : ∀ t, s.snapshots.timer = some t → t < s.nextTimer
  readyHandleFresh : ∀ t, s.readyTimer = some t → t < s.nextTimer
  shipped : s.snapshots.sent = true → s.snapshots.set = true
  ready : s.sawReady = true → s.everReady = true
  born : ∀ c, s.child.map Child.id = some c → c < s.forks
  departed : ∀ c ∈ s.gone, c < s.forks ∧ s.child.map Child.id ≠ some c
  off : s.shuttingDown = true ∨ s.broken = true → s.child = none ∧ s.queue = []

def core (s : State) : State :=
  { s with
    child := s.child.map fun c => ⟨c.id, true⟩
    inBlock := false
    consecutiveSpawnFailures := 0
    lastSpawnError := none
    lastBrokenRetryAt := 0
    snapshots := { s.snapshots with snapshot := .null, token := none }
    dying := []
    sends := 0
    tokens := 0
    refused := []
    frames := [] }

theorem core_child_id (s : State) : (core s).child.map Child.id = s.child.map Child.id := by
  simp [core, Function.comp_def]

theorem core_child_eq_none (s : State) : (core s).child = none ↔ s.child = none := by simp [core]

theorem owned_core {s : State} {t : Timer} : Owned (core s) t ↔ Owned s t := by
  rw [Owned, Owned, core_child_id]; rfl

theorem inFlight_core {s : State} {p : PendingEntry} : InFlight (core s) p ↔ InFlight s p := by
  rw [InFlight, InFlight, core_child_id]; rfl

theorem inv_core {s : State} : Inv (core s) ↔ Inv s := by
  constructor
  · intro h
    exact ⟨h.accounted, h.distinct, h.fresh, h.queued, h.single,
      fun p hp => inFlight_core.mp (h.inFlight p hp), h.timerFresh, h.timerDistinct,
      fun t ht => owned_core.mp (h.owned t ht), h.snapshotHandle, h.readyHandle,
      h.snapshotHandleFresh, h.readyHandleFresh, h.shipped, h.ready,
      by rw [← core_child_id]; exact h.born, by rw [← core_child_id]; exact h.departed,
      fun ho => (core_child_eq_none s).and Iff.rfl |>.mp (h.off ho)⟩
  · intro h
    exact ⟨h.accounted, h.distinct, h.fresh, h.queued, h.single,
      fun p hp => inFlight_core.mpr (h.inFlight p hp), h.timerFresh, h.timerDistinct,
      fun t ht => owned_core.mpr (h.owned t ht), h.snapshotHandle, h.readyHandle,
      h.snapshotHandleFresh, h.readyHandleFresh, h.shipped, h.ready,
      by rw [core_child_id]; exact h.born, by rw [core_child_id]; exact h.departed,
      fun ho => (core_child_eq_none s).and Iff.rfl |>.mpr (h.off ho)⟩

theorem core_visible (s : State) : core (visible s) = core s := by
  simp [core, visible]

theorem core_closeChannel (s : State) : core s.closeChannel = core s := by
  obtain ⟨_ | c, _⟩ := s <;> rfl

theorem core_kill (s : State) : core s.kill = core s := by
  obtain ⟨_ | c, _⟩ := s <;> rfl

namespace Inv

variable {s : State}

theorem of_core_eq {s' : State} (h : Inv s) (he : core s' = core s) : Inv s' :=
  inv_core.mp (he ▸ inv_core.mpr h)

theorem of_visible_eq {s' : State} (h : Inv s) (he : visible s' = visible s) : Inv s' :=
  h.of_core_eq (by rw [← core_visible s', he, core_visible])

theorem timers_eq_nil (h : Inv s) (hc : s.child = none) : s.timers = [] := by
  apply List.eq_nil_iff_forall_not_mem.mpr
  intro t ht
  have := (h.owned t ht).1
  simp [hc] at this

theorem pending_eq_nil (h : Inv s) (hc : s.child = none) : s.pending = [] := by
  apply List.eq_nil_iff_forall_not_mem.mpr
  intro p hp
  obtain ⟨_, _, c, hc', _⟩ := h.inFlight p hp
  simp [hc] at hc'

theorem pending_eq_singleton (h : Inv s) {p : PendingEntry} (hp : p ∈ s.pending) : s.pending = [p] := by
  have := h.single
  match hs : s.pending with
  | [] => simp [hs] at hp
  | [q] => simp_all
  | _ :: _ :: _ => simp [hs] at this

/-- An entry that may leave the queue leaves no acknowledgement to wait for. -/
theorem released (h : Inv s) (ha : s.snapshots.set = false ∨ s.snapshots.acked = true) :
    s.snapshots.sent = false ∨ s.snapshots.acked = true := by
  refine ha.imp_left fun hn => Bool.eq_false_iff.mpr fun hs => ?_
  rw [h.shipped hs] at hn
  exact Bool.noConfusion hn

/-- Timers may be dropped, as long as no watchdog of a request in flight is. -/
theorem filterTimers (h : Inv s) (keep : Timer → Bool)
    (hk : ∀ p ∈ s.pending, ∀ t ∈ s.timers, t.callback = .watchdog p.id → keep t = true) :
    Inv { s with timers := s.timers.filter keep } where
  accounted := h.accounted
  distinct := h.distinct
  fresh := h.fresh
  queued := h.queued
  single := h.single
  inFlight p hp := by
    obtain ⟨hr, he, c, hc, hd, ht⟩ := h.inFlight p hp
    exact ⟨hr, he, c, hc, hd, List.mem_filter.mpr ⟨ht, hk p hp _ ht rfl⟩⟩
  timerFresh t ht := h.timerFresh t (List.mem_of_mem_filter ht)
  timerDistinct := h.timerDistinct.sublist (List.filter_sublist.map _)
  owned t ht := h.owned t (List.mem_of_mem_filter ht)
  snapshotHandle t ht := h.snapshotHandle t (List.mem_of_mem_filter ht)
  readyHandle t ht := h.readyHandle t (List.mem_of_mem_filter ht)
  snapshotHandleFresh := h.snapshotHandleFresh
  readyHandleFresh := h.readyHandleFresh
  shipped := h.shipped
  ready := h.ready
  born := h.born
  departed := h.departed
  off := h.off

end Inv

theorem watchdog_id_ne {s : State} (h : Inv s) {x : TimerId}
    (hx : s.snapshots.timer = some x ∨ s.readyTimer = some x) {t : Timer} {r : RequestId}
    (ht : t ∈ s.timers) (hc : t.callback = .watchdog r) : t.id ≠ x := by
  rintro rfl
  rcases hx with hx | hx
  · have := (h.snapshotHandle t ht).mpr hx
    simp [hc] at this
  · obtain ⟨c, hr⟩ := (h.readyHandle t ht).mpr hx
    simp [hc] at hr

theorem Inv.clearTimeout {s : State} (h : Inv s) {handle : Option TimerId}
    (hx : ∀ x, handle = some x → s.snapshots.timer = some x ∨ s.readyTimer = some x) :
    Inv (s.clearTimeout handle) := by
  cases handle with
  | none => exact h
  | some x =>
    exact h.filterTimers _ fun p _ t ht hc => by
      simpa using watchdog_id_ne h (hx x rfl) ht hc

theorem mem_clearTimeout {s : State} {handle : Option TimerId} {t : Timer}
    (ht : t ∈ (s.clearTimeout handle).timers) : t ∈ s.timers ∧ handle ≠ some t.id := by
  cases handle with
  | none => exact ⟨ht, by simp⟩
  | some x =>
    obtain ⟨hm, hn⟩ := List.mem_filter.mp ht
    exact ⟨hm, fun he => by simp [Option.some.inj he] at hn⟩

/-- With its timer cleared, the channel may be set to anything. -/
theorem Inv.dropSnapshotTimer {s : State} (h : Inv s) (channel : SnapshotChannel)
    (hch : channel.sent = true → channel.set = true) :
    Inv { s.clearTimeout s.snapshots.timer with snapshots := { channel with timer := none } } := by
  have hi : Inv (s.clearTimeout s.snapshots.timer) := h.clearTimeout fun x hx => .inl hx
  have hns : ∀ t ∈ (s.clearTimeout s.snapshots.timer).timers, t.callback ≠ .snapshot := by
    intro t ht hc
    obtain ⟨hm, hn⟩ := mem_clearTimeout ht
    exact hn ((h.snapshotHandle t hm).mp hc)
  exact {
    accounted := hi.accounted
    distinct := hi.distinct
    fresh := hi.fresh
    queued := hi.queued
    single := hi.single
    inFlight := hi.inFlight
    timerFresh := hi.timerFresh
    timerDistinct := hi.timerDistinct
    owned := by
      intro t ht
      refine ⟨(hi.owned t ht).1, ?_⟩
      have := (hi.owned t ht).2
      cases hc : t.callback with
      | snapshot => exact absurd hc (hns t ht)
      | ready c => simpa only [hc] using this
      | watchdog r => simpa only [hc] using this
    snapshotHandle := fun t ht => by simpa using hns t ht
    readyHandle := hi.readyHandle
    snapshotHandleFresh := by simp
    readyHandleFresh := hi.readyHandleFresh
    shipped := hch
    ready := hi.ready
    born := hi.born
    departed := hi.departed
    off := hi.off }

/-- With its timer cleared, readiness may be recorded, or forgotten while nothing is in flight. -/
theorem Inv.dropReadyTimer {s : State} (h : Inv s) (saw ready : Bool)
    (hsr : saw = true → ready = true) (hr : ready = true ∨ s.pending = []) :
    Inv { s.clearTimeout s.readyTimer with readyTimer := none, sawReady := saw, everReady := ready } := by
  have hi : Inv (s.clearTimeout s.readyTimer) := h.clearTimeout fun x hx => .inr hx
  have hnr : ∀ t ∈ (s.clearTimeout s.readyTimer).timers, ∀ c, t.callback ≠ .ready c := by
    intro t ht c hc
    obtain ⟨hm, hn⟩ := mem_clearTimeout ht
    exact hn ((h.readyHandle t hm).mp ⟨c, hc⟩)
  have hp : (s.clearTimeout s.readyTimer).pending = s.pending := by
    cases s.readyTimer <;> rfl
  exact {
    accounted := hi.accounted
    distinct := hi.distinct
    fresh := hi.fresh
    queued := hi.queued
    single := hi.single
    inFlight := by
      intro p hm
      rcases hr with hr | hr
      · exact ⟨hr, (hi.inFlight p hm).2⟩
      · simp only [hp, hr, List.not_mem_nil] at hm
    timerFresh := hi.timerFresh
    timerDistinct := hi.timerDistinct
    owned := by
      intro t ht
      refine ⟨(hi.owned t ht).1, ?_⟩
      have := (hi.owned t ht).2
      cases hc : t.callback with
      | ready c => exact absurd hc (hnr t ht c)
      | snapshot => simpa only [hc] using this
      | watchdog r => simpa only [hc] using this
    snapshotHandle := hi.snapshotHandle
    readyHandle := fun t ht => by simpa using hnr t ht
    snapshotHandleFresh := hi.snapshotHandleFresh
    readyHandleFresh := by simp
    shipped := hi.shipped
    ready := hsr
    born := hi.born
    departed := hi.departed
    off := hi.off }

end XChainVM.Executor
