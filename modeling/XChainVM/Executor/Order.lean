import XChainVM.Executor.Accounting
import XChainVM.Machine.Line

/-! # First come, first served

The executor is a line: requests join it as they are accepted and leave it as they settle. Every
move keeps to that, whatever becomes of the worker, so requests settle in the order in which they
were accepted and are numbered.
-/

namespace XChainVM.Executor

open Js Machine

variable {host : Host} {cfg : Config} {origin : State} {event : Event}

namespace State

def owed (s : State) : List RequestId := s.pending.map PendingEntry.id ++ s.queue.map QueueEntry.id

def line (s : State) : Line RequestId := ⟨(s.settled.map Prod.fst).reverse, s.owed⟩

end State

/-- Nobody joins the line, and whoever leaves it was at its front. -/
structure Serving (s t : State) : Prop where
  line : Line.Serves s.line t.line
  accepted : t.accepted = s.accepted
  nextId : t.nextId = s.nextId

namespace Serving

variable {s t : State}

/-- Requests that settle at the front of the line are served. -/
theorem of_settled {l : List (RequestId × Settlement)} (hs : t.settled = l ++ s.settled)
    (ho : s.owed = (l.map Prod.fst).reverse ++ t.owed) (ha : t.accepted = s.accepted)
    (hn : t.nextId = s.nextId) : Serving s t := by
  refine ⟨⟨(l.map Prod.fst).reverse, ho, ?_⟩, ha, hn⟩
  rw [State.line, State.line, hs, List.map_append, List.reverse_append]

end Serving

/-- Every move serves the line or admits one request to it. -/
theorem Move.serving {l : List (RequestId × Settlement)} {s t : State} (hi : Inv s)
    (hm : Move host cfg origin event l s t) :
    Serving s t ∨ ∃ opts now, event = .execute opts now ∧ t = s.admitted cfg opts := by
  have hsettled : t.settled = l ++ s.settled := hm.effect.settled
  cases hm with
  | quiet h =>
    have hline : (visible t).line = (visible s).line := by rw [h]
    have haccepted : (visible t).accepted = (visible s).accepted := by rw [h]
    have hnext : (visible t).nextId = (visible s).nextId := by rw [h]
    refine .inl ⟨?_, haccepted, hnext⟩
    have hserves : Line.Serves (visible s).line (visible t).line := hline ▸ .refl _
    exact hserves
  | cut =>
    rw [closeChannel_eq]
    exact .inl ⟨.refl _, rfl, rfl⟩
  | kill =>
    rw [kill_eq]
    exact .inl ⟨.refl _, rfl, rfl⟩
  | boundary inBlock =>
    rw [snapshotBeginBlock_eq]
    exact .inl ⟨.refl _, rfl, rfl⟩
  | choose hq =>
    rw [choose_eq]
    exact .inl ⟨.refl _, rfl, rfl⟩
  | @launch _ entry rest c hr =>
    refine .inl (.of_settled (l := []) rfl ?_ rfl rfl)
    simp [State.owed, State.launched, hr.queue, hr.pending]
  | @reject _ entry rest c hr message =>
    refine .inl (.of_settled hsettled ?_ rfl rfl)
    simp [State.owed, State.rejected, State.settle, hr.queue, hr.pending]
  | ack he =>
    rw [snapshotOnMessage_eq]
    exact .inl ⟨.refl _, rfl, rfl⟩
  | ready =>
    rw [readied_eq]
    exact .inl ⟨.refl _, rfl, rfl⟩
  | @reply c msg entry outcome he hc hp ho =>
    have hpending := hi.pending_eq_singleton (findPending_mem hp).1
    refine .inl (.of_settled hsettled ?_ rfl rfl)
    simp [State.owed, removePending, State.settle, State.clearTimeout, hpending]
  | @watchdog timer entry he ht hw hp =>
    have hpending := hi.pending_eq_singleton hp
    refine .inl (.of_settled hsettled ?_ rfl rfl)
    simp [State.owed, State.expired, State.settle, hpending]
  | lose hc he =>
    rw [lost_eq] at hsettled ⊢
    refine .inl (.of_settled hsettled ?_ rfl rfl)
    simp [State.owed, Function.comp_def]
  | reset hc =>
    rw [spawnReset_eq]
    exact .inl ⟨.refl _, rfl, rfl⟩
  | latch hc reason =>
    have hpending : s.pending = [] := hi.pending_eq_nil hc
    refine .inl (.of_settled hsettled ?_ rfl rfl)
    simp [State.owed, State.latched, State.settleAll, hpending, Function.comp_def]
  | @enroll _ opts now he hsd hb => exact .inr ⟨opts, now, he, rfl⟩
  | shutdown he =>
    rw [shutdown_eq] at hsettled ⊢
    refine .inl (.of_settled hsettled ?_ rfl rfl)
    simp [State.owed, Function.comp_def]
  | _ => exact .inl ⟨.refl _, rfl, rfl⟩

theorem line_admitted (s : State) (opts : Value) : (s.admitted cfg opts).line = s.line.arrive s.nextId := by
  simp [State.line, Line.arrive, State.owed, State.admitted, State.entryOf]

theorem Move.line {l : List (RequestId × Settlement)} {s t : State} (hi : Inv s)
    (hm : Move host cfg origin event l s t) : Line.Step s.line t.line := by
  obtain h | ⟨opts, now, -, rfl⟩ := hm.serving hi
  · exact .serve h.line
  · rw [line_admitted]
    exact .arrive _

theorem Reaches.line {s t : State} (hr : Reaches host cfg origin event s t) (hi : Inv s) :
    Line.Reaches s.line t.line := by
  obtain ⟨l, hm⟩ := hr
  refine (hm.invariant (I := fun u => Inv u ∧ Line.Reaches s.line u.line) ?_ ⟨hi, .refl⟩).2
  rintro l u v ⟨hu, hline⟩ hm
  exact ⟨hm.inv hu, hline.tail (hm.line hu)⟩

theorem line_run_append (events later : List Event) :
    Line.Reaches (run host cfg events).line (run host cfg (events ++ later)).line := by
  unfold run
  rw [run_append]
  refine (run_invariant (I := fun s => Inv s ∧ Line.Reaches (run host cfg events).line s.line) ?_
    ⟨run_inv events, .refl⟩ later).2
  rintro s e ⟨hi, hline⟩
  have hstep := step_reaches host cfg s e (fun ho => (hi.off ho).1) hi.born
  exact ⟨step_inv hi e, hline.trans (hstep.line hi)⟩

/-- What has come is what was accepted, and requests are numbered as they come. -/
structure Numbered (s : State) : Prop where
  arrived : s.line.arrived = (s.accepted.map QueueEntry.id).reverse
  numbered : (s.accepted.map QueueEntry.id).reverse = List.range' 1 s.accepted.length
  next : s.nextId = s.accepted.length + 1

namespace Numbered

variable {s t : State}

theorem serving (h : Numbered s) (hs : Serving s t) : Numbered t where
  arrived := by rw [hs.line.arrived_eq, hs.accepted, h.arrived]
  numbered := by rw [hs.accepted, h.numbered]
  next := by rw [hs.nextId, hs.accepted, h.next]

theorem admitted (h : Numbered s) (opts : Value) : Numbered (s.admitted cfg opts) where
  arrived := by
    rw [line_admitted, Line.arrived_arrive, h.arrived]
    simp [State.admitted, State.entryOf]
  numbered := by
    have hlength : (s.admitted cfg opts).accepted.length = s.accepted.length + 1 := rfl
    rw [hlength, List.range'_1_concat, ← h.numbered]
    simp [State.admitted, State.entryOf, h.next, Nat.add_comm]
  next := by simp [State.admitted, h.next]

end Numbered

theorem Move.numbered {l : List (RequestId × Settlement)} {s t : State} (hi : Inv s) (h : Numbered s)
    (hm : Move host cfg origin event l s t) : Numbered t := by
  obtain hs | ⟨opts, now, -, rfl⟩ := hm.serving hi
  · exact h.serving hs
  · exact h.admitted opts

theorem run_numbered (events : List Event) : Numbered (run host cfg events) :=
  run_law ⟨rfl, rfl, rfl⟩ (fun _ _ _ _ _ hi h hm => hm.numbered hi h) events

/-- The executor is a line, in every run: the requests it was given are numbered in order, those it
owes an answer follow those it has settled, and what has settled in a state has settled first in
every later one. -/
theorem settles_in_order (host : Host) (cfg : Config) (events later : List Event) :
    let s := run host cfg events
    let t := run host cfg (events ++ later)
    (s.settled.map Prod.fst).reverse ++ s.owed = List.range' 1 s.accepted.length ∧
      (s.accepted.map QueueEntry.id).reverse = List.range' 1 s.accepted.length ∧
      (s.settled.map Prod.fst).reverse = List.range' 1 s.settled.length ∧
      (s.settled.map Prod.fst).reverse <+: (t.settled.map Prod.fst).reverse ∧ Line.Reaches s.line t.line := by
  intro s t
  have h : Numbered s := run_numbered events
  have hline : (s.settled.map Prod.fst).reverse ++ s.owed = List.range' 1 s.accepted.length :=
    h.arrived.trans h.numbered
  have hreaches : Line.Reaches s.line t.line := line_run_append events later
  refine ⟨hline, h.numbered, ?_, hreaches.served_prefix, hreaches⟩
  have hinitial : (s.settled.map Prod.fst).reverse <+: List.range' 1 s.accepted.length :=
    hline ▸ List.prefix_append _ _
  have hlength := hinitial.length_le
  simp only [List.length_reverse, List.length_map, List.length_range'] at hlength
  rw [List.prefix_iff_eq_take.mp hinitial, List.length_reverse, List.length_map,
    List.take_range'_of_length_ge hlength]

end XChainVM.Executor
