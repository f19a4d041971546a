import XChainVM.Executor.Updates

/-! # The dispatch loop

`flush` is a sequence of moves that keeps the worker and its flags, and it stops
only where no queued request can leave the queue.
-/

namespace XChainVM.Executor

open Js

variable {host : Host} {cfg : Config} {origin : State} {event : Event}

variable (host) in
/-- A send changes nothing but the counter and the channel, and an accepted one adds its frame. -/
theorem send_cases (f : Frame) (s : State) :
    ((send host f s).1 = false ∧ (visible (send host f s).2 = visible s ∨
      visible (send host f s).2 = visible s.closeChannel)) ∨
    ∃ c, s.child = some c ∧ c.connected = true ∧ (send host f s).1 = true ∧
      (send host f s).2 = { s.post c.id f with sends := s.sends + 1 } := by
  unfold send
  split
  · exact .inl ⟨rfl, .inl rfl⟩
  · rename_i c hc
    split
    · rename_i hcon
      split
      · exact .inr ⟨c, hc, hcon, rfl, rfl⟩
      · refine .inl ⟨rfl, ?_⟩
        split
        · exact .inr rfl
        · exact .inl rfl
    · exact .inl ⟨rfl, .inl rfl⟩

theorem Reaches.of_cut {s t : State} (h : visible t = visible s ∨ visible t = visible s.closeChannel) :
    Reaches host cfg origin event s t := by
  rcases h with h | h
  · exact .of_quiet h
  · have hc : Reaches host cfg origin event s s.closeChannel := .of_move (.cut s)
    exact hc.then_quiet h

variable (host) in
theorem send_reaches {f : Frame} (hf : f.isControl = true) (s : State) :
    Reaches host cfg origin event s (send host f s).2 := by
  rcases send_cases host f s with ⟨_, h⟩ | ⟨c, hc, _, _, h⟩
  · exact .of_cut h
  · rw [h]
    have hid : s.child.map Child.id = some c.id := by rw [hc]; rfl
    exact (Reaches.of_move (.post hid hf)).then_quiet rfl

namespace WorkerSnapshotChannel

structure Kept (s s' : State) : Prop where
  child : s'.child.map Child.id = s.child.map Child.id
  sawReady : s'.sawReady = s.sawReady
  everReady : s'.everReady = s.everReady
  broken : s'.broken = s.broken
  shuttingDown : s'.shuttingDown = s.shuttingDown

theorem Kept.refl (s : State) : Kept s s := ⟨rfl, rfl, rfl, rfl, rfl⟩

theorem Kept.trans {s t u : State} (h : Kept s t) (h' : Kept t u) : Kept s u where
  child := h'.child.trans h.child
  sawReady := h'.sawReady.trans h.sawReady
  everReady := h'.everReady.trans h.everReady
  broken := h'.broken.trans h.broken
  shuttingDown := h'.shuttingDown.trans h.shuttingDown

/-- A send that fails may cut the channel; all else is as it was. -/
structure Unsent (s s' : State) : Prop extends Kept s s' where
  queue : s'.queue = s.queue
  pending : s'.pending = s.pending
  snapshots : s'.snapshots = s.snapshots

theorem Unsent.of_cut {s s' : State} (h : visible s' = visible s ∨ visible s' = visible s.closeChannel) :
    Unsent s s' := by
  have hc : ∀ {α : Type} (f : State → α), (∀ u, f (visible u) = f u) → f s.closeChannel = f s → f s' = f s := by
    intro α f hv hcut
    rcases h with h | h
    · rw [← hv s', h, hv]
    · rw [← hv s', h, hv, hcut]
  have he := closeChannel_eq s
  exact {
    child := hc (fun u => u.child.map Child.id) (fun _ => rfl) (closeChannel_child s)
    sawReady := hc State.sawReady (fun _ => rfl) (by rw [he])
    everReady := hc State.everReady (fun _ => rfl) (by rw [he])
    broken := hc State.broken (fun _ => rfl) (by rw [he])
    shuttingDown := hc State.shuttingDown (fun _ => rfl) (by rw [he])
    queue := hc State.queue (fun _ => rfl) (by rw [he])
    pending := hc State.pending (fun _ => rfl) (by rw [he])
    snapshots := hc State.snapshots (fun _ => rfl) (by rw [he]) }

/-- What `hold` may have done once it lets the entry go, or keeps it waiting. -/
structure Held (s : State) (held : Bool) (s' : State) : Prop extends Kept s s' where
  queue : s'.queue = s.queue
  pending : s'.pending = s.pending
  released : held = false → s'.snapshots.set = false ∨ s'.snapshots.acked = true
  awaited : held = true → s'.snapshots.sent = true ∧ s'.snapshots.acked = false

variable (host cfg origin event) in
theorem ship_reaches {s : State} {entry : QueueEntry} {rest : List QueueEntry} {c : ChildId}
    (hq : s.queue = entry :: rest) (hp : s.pending = []) (hc : s.child.map Child.id = some c)
    (hset : s.snapshots.set = true) (ha : s.snapshots.acked = false) (hs : s.snapshots.sent = false) :
    Reaches host cfg origin event s (ship host entry s).2 ∧
      Held s (ship host entry s).1 (ship host entry s).2 := by
  unfold ship
  generalize hf : Frame.snapshot _ _ = f
  rcases send_cases host f s with ⟨hr, hv⟩ | ⟨c', hc', _, hr, he⟩
  · generalize send host f s = r at hr hv
    obtain ⟨sent, t⟩ := r
    obtain rfl : sent = false := hr
    have hk := Unsent.of_cut hv
    have hts : t.snapshots.sent = false := by rw [hk.snapshots, hs]
    exact ⟨(Reaches.of_cut hv).then_move (.unship hts),
      ⟨⟨hk.child, hk.sawReady, hk.everReady, hk.broken, hk.shuttingDown⟩, hk.queue, hk.pending,
        fun _ => .inl rfl, nofun⟩⟩
  · generalize send host f s = r at hr he
    obtain ⟨sent, t⟩ := r
    obtain rfl : sent = true := hr
    obtain rfl : t = _ := he
    obtain rfl : c'.id = c := by simpa [hc'] using hc
    subst hf
    refine ⟨?_, ⟨⟨rfl, rfl, rfl, rfl, rfl⟩, rfl, rfl, nofun, fun _ => ⟨rfl, ha⟩⟩⟩
    have hq' : Reaches host cfg origin event s { s with sends := s.sends + 1 } := .of_quiet rfl
    have hm := hq'.then_move (.ship (s := { s with sends := s.sends + 1 }) hq hp hc hset ha hs)
    simpa [State.shipped, State.setTimeout, State.post, hc'] using hm

variable (host cfg origin event) in
theorem hold_reaches {s : State} {entry : QueueEntry} {rest : List QueueEntry} {c : ChildId}
    (hq : s.queue = entry :: rest) (hp : s.pending = []) (hc : s.child.map Child.id = some c) :
    Reaches host cfg origin event s (hold host entry s).2 ∧
      Held s (hold host entry s).1 (hold host entry s).2 := by
  have hk : Kept s (choose host entry.opts s) ∧ (choose host entry.opts s).queue = s.queue ∧
      (choose host entry.opts s).pending = s.pending := by
    unfold choose
    split <;> exact ⟨⟨rfl, rfl, rfl, rfl, rfl⟩, rfl, rfl⟩
  have hr : Reaches host cfg origin event s (choose host entry.opts s) := .of_move (.choose hq)
  unfold hold
  generalize choose host entry.opts s = t at hk hr
  obtain ⟨hk, hkq, hkp⟩ := hk
  dsimp only
  split
  · rename_i hn
    exact ⟨hr, ⟨hk, hkq, hkp, fun _ => by simpa using hn, nofun⟩⟩
  · rename_i hn
    simp only [Bool.or_eq_true, Bool.not_eq_true', not_or, Bool.not_eq_false, Bool.not_eq_true] at hn
    split
    · rename_i hs
      exact ⟨hr, ⟨hk, hkq, hkp, nofun, fun _ => ⟨hs, hn.2⟩⟩⟩
    · rename_i hs
      obtain ⟨hr', hh⟩ := ship_reaches host cfg origin event
        (hkq.trans hq) (hkp.trans hp) (hk.child.trans hc) hn.1 hn.2 (by simpa using hs)
      exact ⟨hr.trans hr', ⟨hk.trans hh.toKept, hh.queue.trans hkq, hh.pending.trans hkp, hh.released, hh.awaited⟩⟩

/-- One pass of the loop: the head waits, or the channel is gone, or the queue is shorter. -/
structure Passed (s : State) (rest : List QueueEntry) (again : Bool) (s' : State) : Prop extends Kept s s' where
  stopped : again = false → s'.connected = false ∨ s'.snapshots.sent = true ∧ s'.snapshots.acked = false
  shorter : again = true → s'.queue = rest

theorem exists_child {s : State} (hd : s.dispatchable = true) : ∃ c, s.child.map Child.id = some c := by
  obtain ⟨_, hcon⟩ := Bool.and_eq_true_iff.mp hd
  cases hc : s.child with
  | none => simp [State.connected, hc] at hcon
  | some c => exact ⟨c.id, rfl⟩

variable (host cfg origin event) in
theorem dispatchHead_reaches {s : State} {entry : QueueEntry} {rest : List QueueEntry}
    (hq : s.queue = entry :: rest) (hp : s.pending = []) (hd : s.dispatchable = true) :
    Reaches host cfg origin event s (dispatchHead host entry rest s).2 ∧
      Passed s rest (dispatchHead host entry rest s).1 (dispatchHead host entry rest s).2 := by
  obtain ⟨hready, _⟩ := Bool.and_eq_true_iff.mp hd
  obtain ⟨c, hc⟩ := exists_child hd
  obtain ⟨hr, hh⟩ := hold_reaches host cfg origin event hq hp hc
  unfold dispatchHead
  generalize hold host entry s = r at hr hh
  obtain ⟨held, t⟩ := r
  cases held with
  | true => exact ⟨hr, ⟨hh.toKept, fun _ => .inr (hh.awaited rfl), nofun⟩⟩
  | false =>
    simp only at hr hh ⊢
    have hrel : Released t entry rest c :=
      ⟨hh.queue.trans hq, hh.pending.trans hp, hh.child.trans hc, hh.sawReady.trans hready, hh.released rfl⟩
    cases host.send t.sends with
    | accepted =>
      have hrel' : Released { t with sends := t.sends + 1 } entry rest c :=
        ⟨hrel.queue, hrel.pending, hrel.child, hrel.sawReady, hrel.answered⟩
      have hl := (hr.then_quiet (u := { t with sends := t.sends + 1 }) rfl).then_move (.launch hrel')
      refine ⟨?_, ⟨hh.toKept.trans ⟨rfl, rfl, rfl, rfl, rfl⟩, nofun, fun _ => rfl⟩⟩
      simpa [inFlight, State.launched, State.setTimeout, hrel.child, reference] using hl
    | threw closed message =>
      have hm := (hr.then_move (.mint t)).then_quiet
        (u := { t with tokens := t.tokens + 1, sends := t.sends + 1 }) rfl
      dsimp only
      generalize hu : (if closed then _ else _ : State) = u
      have hv : visible u = visible { t with tokens := t.tokens + 1, sends := t.sends + 1 } ∨
          visible u = visible ({ t with tokens := t.tokens + 1, sends := t.sends + 1 } : State).closeChannel := by
        subst hu
        cases closed with
        | true => exact .inr rfl
        | false => exact .inl rfl
      have hku := Unsent.of_cut hv
      have hkept : Kept s u := hh.toKept.trans
        ⟨hku.child, hku.sawReady, hku.everReady, hku.broken, hku.shuttingDown⟩
      have hru := hm.trans (Reaches.of_cut hv)
      split
      · refine ⟨hru.then_move (.reject (c := c)
          ⟨hku.queue.trans hrel.queue, hku.pending.trans hrel.pending, hku.child.trans hrel.child,
            hku.sawReady.trans hrel.sawReady, by rw [hku.snapshots]; exact hrel.answered⟩ message), ?_⟩
        exact ⟨hkept.trans ⟨rfl, rfl, rfl, rfl, rfl⟩, nofun, fun _ => rfl⟩
      · rename_i hcon
        exact ⟨hru, ⟨hkept, fun _ => .inl (by simpa using hcon), nofun⟩⟩

/-- The loop stops at an empty queue, at a request in flight, at a worker that takes
no work, or at a head that waits for its acknowledgement. -/
def Quiescent (s : State) : Prop :=
  s.queue = [] ∨ s.pending ≠ [] ∨ s.dispatchable = false ∨
    s.snapshots.sent = true ∧ s.snapshots.acked = false

variable (host cfg origin event) in
theorem flushLoop_spec (n : Nat) (s : State) (hn : s.queue.length ≤ n) :
    Reaches host cfg origin event s (flushLoop host n s) ∧ Kept s (flushLoop host n s) ∧
      Quiescent (flushLoop host n s) := by
  induction n generalizing s with
  | zero => exact ⟨.refl s, .refl s, .inl (List.length_eq_zero_iff.mp (Nat.le_zero.mp hn))⟩
  | succ n ih =>
    unfold flushLoop
    split
    · rename_i hq
      exact ⟨.refl s, .refl s, .inl hq⟩
    · rename_i entry rest hq
      split
      · rename_i hg
        simp only [Bool.and_eq_true, List.isEmpty_iff] at hg
        obtain ⟨hr, hpass⟩ := dispatchHead_reaches host cfg origin event hq hg.1 hg.2
        split
        · rename_i t ht
          rw [ht] at hr hpass
          have hlen : t.queue.length ≤ n := by
            rw [hpass.shorter rfl]
            simpa [hq] using hn
          obtain ⟨hr', hk', hquiet⟩ := ih t hlen
          exact ⟨hr.trans hr', hpass.toKept.trans hk', hquiet⟩
        · rename_i t ht
          rw [ht] at hr hpass
          refine ⟨hr, hpass.toKept, ?_⟩
          rcases hpass.stopped rfl with hc | hs
          · exact .inr (.inr (.inl (by simp [State.dispatchable, hc])))
          · exact .inr (.inr (.inr hs))
      · rename_i hg
        simp only [Bool.and_eq_true, List.isEmpty_iff, not_and, Bool.not_eq_true] at hg
        refine ⟨.refl s, .refl s, ?_⟩
        by_cases hp : s.pending = []
        · exact .inr (.inr (.inl (hg hp)))
        · exact .inr (.inl hp)

variable (host cfg origin event) in
theorem flush_spec (s : State) :
    Reaches host cfg origin event s (flush host s) ∧ Kept s (flush host s) ∧ Quiescent (flush host s) :=
  flushLoop_spec host cfg origin event _ s (Nat.le_refl _)

theorem flush_reaches (s : State) : Reaches host cfg origin event s (flush host s) := (flush_spec host cfg origin event s).1

end WorkerSnapshotChannel

end XChainVM.Executor
