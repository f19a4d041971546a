import XChainVM.Executor.Accounting

/-! # Exactly-once settlement

Whatever the order of events, an accepted request is queued, in flight or
settled, never two of these, and it settles once. A timer armed for a request
can only touch that request and the child it was armed with.
-/

namespace XChainVM.Executor

open Js

variable {host : Host} {cfg : Config} {origin : State} {event : Event}

def occurrences (s : State) (id : RequestId) : Nat :=
  (s.queue.map QueueEntry.id).count id + (s.pending.map PendingEntry.id).count id +
    (s.settled.map Prod.fst).count id

/-- All that the firing of a timer armed for `request` on `child` may change. -/
structure ActsOnlyOn (armed : ChildId) (request : RequestId) (s s' : State) : Prop where
  settled : ∀ x ∈ s'.settled, x ∈ s.settled ∨ x.1 = request
  queue : s'.queue = s.queue
  pending : ∀ p : PendingEntry, p.id ≠ request → (p ∈ s'.pending ↔ p ∈ s.pending)
  child : s'.child = s.child
  dying : ∀ c ∈ s'.dying, c ∈ s.dying ∨ c = armed
  frames : s'.frames = s.frames

namespace ActsOnlyOn

variable {armed : ChildId} {request : RequestId} {s t : State}

theorem kill (h : ActsOnlyOn armed request s t) (hc : s.child.map Child.id = some armed) :
    ActsOnlyOn armed request s { t.kill with sawReady := false } := by
  have hk : ∀ d ∈ t.kill.dying, d ∈ s.dying ∨ d = armed := by
    intro d hd
    unfold State.kill at hd
    rw [h.child] at hd
    cases hs : s.child with
    | none => exact h.dying d (by simpa [hs] using hd)
    | some c =>
      simp only [hs, List.mem_cons] at hd
      rcases hd with rfl | hd
      · exact .inr (by simpa [hs] using hc)
      · exact h.dying d hd
  rw [kill_eq]
  exact ⟨h.settled, h.queue, h.pending, h.child, hk, h.frames⟩

end ActsOnlyOn

theorem find_timer {s : State} (h : Inv s) {t : Timer} (ht : t ∈ s.timers) :
    s.timers.find? (·.id = t.id) = some t := by
  cases hf : s.timers.find? (·.id = t.id) with
  | none => simpa using List.find?_eq_none.mp hf t ht
  | some u =>
    have hu : u.id = t.id := by simpa using List.find?_some hf
    rw [List.inj_on_of_nodup_map h.timerDistinct (List.mem_of_find?_eq_some hf) ht hu]

theorem fireTimer_actsOnlyOn {s : State} (h : Inv s) {t : Timer} (ht : t ∈ s.timers) {request : RequestId}
    (hr : t.request = some request) :
    ActsOnlyOn t.child request s (fireTimer host t.id s) := by
  obtain ⟨hchild, howned⟩ := h.owned t ht
  unfold fireTimer
  rw [find_timer h ht]
  have hd : ActsOnlyOn t.child request s { s with timers := s.timers.filter (·.id ≠ t.id) } :=
    ⟨fun _ hx => .inl hx, rfl, fun _ _ => Iff.rfl, rfl, fun _ hc => .inl hc, rfl⟩
  cases hk : t.callback with
  | ready c => simp [hk, hr] at howned
  | snapshot =>
    simp only [hk]
    unfold onSnapshotTimeout
    split
    · exact hd.kill hchild
    · exact hd
  | watchdog r =>
    simp only [hk] at howned
    obtain ⟨hreq, p, hp, rfl, hid⟩ := howned
    obtain rfl : p.id = request := Option.some.inj (hreq.symm.trans hr)
    simp only [hk]
    unfold onWatchdog
    split
    · exact hd
    · rename_i entry hf
      have he : entry.id = p.id := by simpa using List.find?_some hf
      refine ActsOnlyOn.kill (t := State.settle _ _ _) ⟨?_, rfl, ?_, rfl, fun _ hc => .inl hc, rfl⟩ hchild
      · intro x hx
        rcases List.mem_cons.mp hx with rfl | hx
        · exact .inr rfl
        · exact .inl hx
      · intro q hq
        simp [State.settle, hq]

/-- A timer no longer running does nothing when its number comes up. -/
theorem fireTimer_stale {s : State} {t : TimerId} (ht : ∀ timer ∈ s.timers, timer.id ≠ t) :
    fireTimer host t s = s := by
  have : s.timers.find? (·.id = t) = none := List.find?_eq_none.mpr fun u hu => by simpa using ht u hu
  simp only [fireTimer, this]

theorem step_settled_suffix {s : State} (h : Inv s) (event : Event) :
    s.settled <:+ (step host cfg s event).settled := by
  obtain ⟨l, hm⟩ := step_reaches host cfg s event (fun ho => (h.off ho).1) h.born
  exact ⟨l, hm.settled_eq.symm⟩

theorem occurrences_eq {s : State} (h : Inv s) (id : RequestId) :
    occurrences s id = if id ∈ s.accepted.map QueueEntry.id then 1 else 0 := by
  rw [occurrences, ← h.accounted id]
  split
  · rename_i hm
    exact List.count_eq_one_of_mem h.distinct hm
  · rename_i hm
    exact List.count_eq_zero_of_not_mem hm

theorem settled_nodup {s : State} (h : Inv s) : (s.settled.map Prod.fst).Nodup := by
  refine List.nodup_iff_count_le_one.mpr fun id => ?_
  have := occurrences_eq h id
  unfold occurrences at this
  split at this <;> omega

theorem exactly_once_settlement (host : Host) (cfg : Config) (events : List Event) :
    let s := run host cfg events
    (∀ e ∈ s.accepted, occurrences s e.id = 1) ∧
    (∀ id, id ∉ s.accepted.map QueueEntry.id → occurrences s id = 0) ∧
    s.pending.length ≤ 1 ∧
    (s.settled.map Prod.fst).Nodup ∧
    (∀ event, s.settled <:+ (step host cfg s event).settled) ∧
    (∀ t ∈ s.timers, s.child.map Child.id = some t.child ∧ ∀ c, t.callback = .ready c → c = t.child) ∧
    (∀ t ∈ s.timers, ∀ request, t.request = some request →
      ActsOnlyOn t.child request s (step host cfg s (.timer t.id))) ∧
    (∀ t, (∀ timer ∈ s.timers, timer.id ≠ t) → step host cfg s (.timer t) = s) := by
  intro s
  have h : Inv s := run_inv events
  refine ⟨fun e he => ?_, fun id hid => ?_, h.single, settled_nodup h, fun event => step_settled_suffix h event,
    fun t ht => ⟨(h.owned t ht).1, fun c hc => ?_⟩, fun t ht request hr => fireTimer_actsOnlyOn h ht hr,
    fun t ht => fireTimer_stale ht⟩
  · rw [occurrences_eq h, if_pos (List.mem_map_of_mem he)]
  · rw [occurrences_eq h, if_neg hid]
  · have := (h.owned t ht).2
    simp only [hc] at this
    exact this.1.symm

end XChainVM.Executor
