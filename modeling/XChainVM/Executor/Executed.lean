import Mathlib.Data.List.Induction
import XChainVM.Executor.Order
import XChainVM.Executor.Worker

/-! # Executed at most once

A request is sent to one worker at most, in its turn, and a worker runs what it is sent once and in
order. A request that is still queued, or has settled without having been sent, has run nowhere.
-/

namespace XChainVM.Executor

open Js Machine

variable {host : Host} {cfg : Config} {origin : State} {event : Event}

/-- The dispatch an `execute` frame carries out. -/
def dispatchOf : ChildId × Frame → Option Dispatch
  | (c, .execute id token _) => some ⟨id, c, token⟩
  | _ => none

theorem dispatchOf_of_isControl {c : ChildId} {f : Frame} (hf : f.isControl = true) : dispatchOf (c, f) = none := by
  cases f with
  | execute id token opts => cases hf
  | _ => rfl

/-- The frames carry out the dispatches one by one, each dispatch comes after the ones before it, and
the requests in the queue come after them all. -/
structure Dispatching (s : State) : Prop where
  frames : s.frames.filterMap dispatchOf = s.dispatched.reverse
  ordered : (s.dispatched.map Dispatch.id).Pairwise (· > ·)
  before : ∀ d ∈ s.dispatched, d.id < s.nextId ∧ ∀ e ∈ s.queue, d.id < e.id

namespace Dispatching

variable {s t : State}

/-- Nothing is dispatched and nobody joins the queue. -/
theorem keep (h : Dispatching s) (hf : t.frames.filterMap dispatchOf = s.frames.filterMap dispatchOf)
    (hd : t.dispatched = s.dispatched) (hn : t.nextId = s.nextId) (hq : ∀ e ∈ t.queue, e ∈ s.queue) :
    Dispatching t where
  frames := by rw [hf, hd, h.frames]
  ordered := hd ▸ h.ordered
  before d hm := by
    obtain ⟨hlt, hqueue⟩ := h.before d (hd ▸ hm)
    exact ⟨hn ▸ hlt, fun e he => hqueue e (hq e he)⟩

theorem admitted (h : Dispatching s) (opts : Value) : Dispatching (s.admitted cfg opts) where
  frames := h.frames
  ordered := h.ordered
  before d hm := by
    obtain ⟨hlt, hqueue⟩ := h.before d hm
    refine ⟨Nat.lt_succ_of_lt hlt, fun e he => ?_⟩
    obtain he | he := List.mem_append.mp he
    · exact hqueue e he
    · rw [List.mem_singleton.mp he]
      exact hlt

theorem launched (h : Dispatching s) (hi : Inv s) (hnum : Numbered s) {entry : QueueEntry}
    {rest : List QueueEntry} {c : ChildId} (hr : Released s entry rest c) :
    Dispatching (s.launched host entry rest c) where
  frames := by
    have hframes := h.frames
    simp [State.launched, List.filterMap_append, hframes, dispatchOf]
  ordered := by
    refine List.pairwise_cons.mpr ⟨?_, h.ordered⟩
    intro id hid
    obtain ⟨d, hd, rfl⟩ := List.mem_map.mp hid
    exact (h.before d hd).2 entry (hr.queue ▸ List.mem_cons_self)
  before d hm := by
    have hsorted : s.line.arrived.Pairwise (· < ·) := by
      rw [hnum.arrived, hnum.numbered]
      exact List.pairwise_lt_range'
    have hqueue : (s.queue.map QueueEntry.id).Pairwise (· < ·) := by
      refine hsorted.sublist ?_
      exact (List.sublist_append_right _ _).trans (List.sublist_append_right _ _)
    rw [hr.queue, List.map_cons, List.pairwise_cons] at hqueue
    have hentry : entry.id < s.nextId := hi.fresh entry (hi.queued entry (hr.queue ▸ List.mem_cons_self))
    obtain rfl | hm := List.mem_cons.mp hm
    · exact ⟨hentry, fun e he => hqueue.1 e.id (List.mem_map_of_mem he)⟩
    · obtain ⟨hlt, hwaiting⟩ := h.before d hm
      exact ⟨hlt, fun e he => hwaiting e (hr.queue ▸ List.mem_cons_of_mem _ he)⟩

end Dispatching

theorem Move.dispatching {l : List (RequestId × Settlement)} {s t : State} (hi : Inv s) (hnum : Numbered s)
    (h : Dispatching s) (hm : Move host cfg origin event l s t) : Dispatching t := by
  cases hm with
  | quiet hv =>
    have hf : ∀ {α : Type} (f : State → α), (∀ u, f (visible u) = f u) → f t = f s := by
      intro α f hf
      rw [← hf t, hv, hf]
    refine h.keep (congrArg _ (hf State.frames fun _ => rfl)) (hf State.dispatched fun _ => rfl)
      (hf State.nextId fun _ => rfl) ?_
    rw [hf State.queue fun _ => rfl]
    exact fun e he => he
  | cut =>
    rw [closeChannel_eq]
    exact h.keep rfl rfl rfl fun e he => he
  | kill =>
    rw [kill_eq]
    exact h.keep rfl rfl rfl fun e he => he
  | post hc hf =>
    refine h.keep ?_ rfl rfl fun e he => he
    simp [State.post, List.filterMap_append, dispatchOf_of_isControl hf]
  | boundary inBlock =>
    rw [snapshotBeginBlock_eq]
    exact h.keep rfl rfl rfl fun e he => he
  | choose hq =>
    rw [choose_eq]
    exact h.keep rfl rfl rfl fun e he => he
  | ship =>
    refine h.keep ?_ rfl rfl fun e he => he
    simp [State.shipped, List.filterMap_append, dispatchOf]
  | launch hr => exact h.launched hi hnum hr
  | reject hr message => exact h.keep rfl rfl rfl fun e he => hr.queue ▸ List.mem_cons_of_mem _ he
  | ack he =>
    rw [snapshotOnMessage_eq]
    exact h.keep rfl rfl rfl fun e he => he
  | ready =>
    rw [readied_eq]
    exact h.keep rfl rfl rfl fun e he => he
  | lose hc he =>
    rw [lost_eq]
    exact h.keep rfl rfl rfl fun e he => he
  | reset hc =>
    rw [spawnReset_eq]
    exact h.keep rfl rfl rfl fun e he => he
  | latch hc reason => exact h.keep rfl rfl rfl fun e he => absurd he List.not_mem_nil
  | enroll he hsd hb => exact h.admitted _
  | shutdown he =>
    rw [shutdown_eq]
    exact h.keep rfl rfl rfl fun e he => absurd he List.not_mem_nil
  | _ => exact h.keep rfl rfl rfl fun e he => he

theorem run_dispatching (events : List Event) : Dispatching (run host cfg events) := by
  have hboth : Numbered (run host cfg events) ∧ Dispatching (run host cfg events) := by
    refine run_law (I := fun s => Numbered s ∧ Dispatching s) ⟨⟨rfl, rfl, rfl⟩, ⟨rfl, .nil, by simp [blank]⟩⟩ ?_ events
    rintro origin event l s t hi ⟨hnum, h⟩ hm
    exact ⟨hm.numbered hi hnum, hm.dispatching hi hnum h⟩
  exact hboth.2

/-- The request an `execute` frame is about. -/
def Frame.request? : Frame → Option RequestId
  | .execute id _ _ => some id
  | _ => none

namespace System

def executed (c : ChildId) (y : System) : List RequestId :=
  ((y.ran.reverse.filter fun r => r.child = c).map Ran.id)

def sentRequests (c : ChildId) (s : State) : List RequestId := (sentTo c s).filterMap Frame.request?

/-- What a worker has run, and then what waits in its chain, is what it has received. -/
structure InTurn (c : ChildId) (y : System) : Prop where
  received : executed c y ++ (y.workers c).chain.map Task.id =
    ((sentTo c y.parent).take (y.workers c).delivered).filterMap Frame.request?
  delivered : (y.workers c).delivered ≤ (sentTo c y.parent).length

variable {c : ChildId} {y : System}

theorem InTurn.parent (h : InTurn c y) {s : State} (hs : y.parent.frames <+: s.frames) (block : Nat) :
    InTurn c { y with parent := s, block } := by
  have hinitial : sentTo c y.parent <+: sentTo c s := (hs.filter _).map _
  refine ⟨?_, h.delivered.trans hinitial.length_le⟩
  have htake : (sentTo c s).take (y.workers c).delivered = (sentTo c y.parent).take (y.workers c).delivered := by
    obtain ⟨later, hlater⟩ := hinitial
    rw [← hlater, List.take_append_of_le_length h.delivered]
  rw [htake]
  exact h.received

theorem onMessage_chain (frame : Frame) (w : Worker) :
    (w.onMessage frame).chain.map Task.id = w.chain.map Task.id ++ frame.request?.toList := by
  cases frame with
  | execute id token opts => exact List.map_append
  | _ => exact (List.append_nil _).symm

theorem InTurn.deliver (h : InTurn c y) (d : ChildId) : InTurn c (deliver d y) := by
  unfold System.deliver
  dsimp only
  cases hframe : (sentTo d y.parent)[(y.workers d).delivered]? with
  | none => exact h
  | some frame =>
    dsimp only
    obtain rfl | hcd := eq_or_ne c d
    · obtain ⟨hlt, hget⟩ := List.getElem?_eq_some_iff.mp hframe
      refine ⟨?_, ?_⟩
      · simp only [Function.update_self, onMessage_chain]
        rw [List.take_add_one, hframe, List.filterMap_append, ← h.received, ← List.append_assoc]
        cases frame <;> rfl
      · simp only [Function.update_self]
        exact hlt
    · refine ⟨?_, ?_⟩
      · simp only [Function.update_of_ne hcd]
        exact h.received
      · simp only [Function.update_of_ne hcd]
        exact h.delivered

theorem InTurn.runNext (h : InTurn c y) (d : ChildId) : InTurn c (runNext d y) := by
  unfold System.runNext
  dsimp only
  cases hchain : (y.workers d).chain with
  | nil => exact h
  | cons task rest =>
    dsimp only
    have hreceived := h.received
    obtain rfl | hcd := eq_or_ne c d
    · rw [hchain] at hreceived
      refine ⟨?_, ?_⟩
      · simp only [Function.update_self]
        rw [← hreceived]
        simp [executed]
      · simp only [Function.update_self]
        exact h.delivered
    · refine ⟨?_, ?_⟩
      · simp only [Function.update_of_ne hcd]
        rw [← hreceived]
        simp [executed, hcd.symm]
      · simp only [Function.update_of_ne hcd]
        exact h.delivered

theorem step_inTurn {s : System} (hi : Inv s.parent) (h : InTurn c s) (e : SystemEvent) :
    InTurn c (step host cfg s e) := by
  cases e with
  | parent e =>
    have hstep := step_reaches host cfg s.parent e (fun ho => (hi.off ho).1) hi.born
    exact h.parent hstep.frames_prefix _
  | deliver d => exact h.deliver d
  | run d => exact h.runNext d

def parentEvent? : SystemEvent → Option Event
  | .parent e => some e
  | _ => none

theorem run_parent (events : List SystemEvent) :
    (run host cfg events).parent = Executor.run host cfg (events.filterMap parentEvent?) := by
  induction events using List.reverseRecOn with
  | nil => rfl
  | append_singleton events e ih =>
    have hrun : run host cfg (events ++ [e]) = step host cfg (run host cfg events) e := run_concat ..
    rw [hrun, List.filterMap_append]
    cases e with
    | parent e => exact (congrArg (Executor.step host cfg · e) ih).trans (run_concat ..).symm
    | deliver c =>
      have hkept : (deliver c (run host cfg events)).parent = (run host cfg events).parent := by
        unfold deliver
        dsimp only
        split <;> rfl
      exact hkept.trans (ih.trans (congrArg _ (List.append_nil _).symm))
    | run c =>
      have hkept : (runNext c (run host cfg events)).parent = (run host cfg events).parent := by
        unfold runNext
        dsimp only
        split <;> rfl
      exact hkept.trans (ih.trans (congrArg _ (List.append_nil _).symm))

theorem run_inTurn (events : List SystemEvent) (c : ChildId) : InTurn c (run host cfg events) := by
  induction events using List.reverseRecOn with
  | nil => exact ⟨rfl, Nat.zero_le _⟩
  | append_singleton events e ih =>
    have hrun : run host cfg (events ++ [e]) = step host cfg (run host cfg events) e := run_concat ..
    have hi : Inv (run host cfg events).parent := by
      rw [run_parent]
      exact run_inv _
    rw [hrun]
    exact step_inTurn hi ih e

/-- The frames to a worker carry out the dispatches to it. -/
theorem sentRequests_eq (s : State) :
    sentRequests c s = ((s.frames.filterMap dispatchOf).filter fun d => d.child = c).map Dispatch.id := by
  unfold sentRequests sentTo
  induction s.frames with
  | nil => rfl
  | cons f frames ih =>
    obtain ⟨d, frame⟩ := f
    cases frame with
    | execute id token opts =>
      obtain rfl | hcd := eq_or_ne d c
      · simpa [dispatchOf, Frame.request?] using ih
      · simpa [dispatchOf, hcd] using ih
    | _ =>
      rw [List.filterMap_cons_none (f := dispatchOf) rfl, List.filter_cons]
      split
      · rw [List.map_cons, List.filterMap_cons_none (f := Frame.request?) rfl]
        exact ih
      · exact ih

theorem InTurn.executed_initial (h : InTurn c y) (hd : Dispatching y.parent) :
    executed c y <+: (y.parent.dispatched.reverse.filter fun d => d.child = c).map Dispatch.id := by
  rw [← hd.frames, ← sentRequests_eq]
  have hreceived : executed c y <+: ((sentTo c y.parent).take (y.workers c).delivered).filterMap Frame.request? :=
    h.received ▸ List.prefix_append _ _
  exact hreceived.trans ((List.take_prefix _ _).filterMap _)

variable (host cfg) in
theorem run_dispatching (events : List SystemEvent) : Dispatching (run host cfg events).parent := by
  rw [run_parent]
  exact Executor.run_dispatching _

/-- A run of a request is on a worker it was sent to. -/
theorem ran_dispatched (events : List SystemEvent) : ∀ r ∈ (run host cfg events).ran,
    ∃ token, (⟨r.id, r.child, token⟩ : Dispatch) ∈ (run host cfg events).parent.dispatched := by
  intro r hr
  have hexecuted : r.id ∈ executed r.child (run host cfg events) :=
    List.mem_map_of_mem (List.mem_filter.mpr ⟨List.mem_reverse.mpr hr, decide_eq_true rfl⟩)
  have hinitial := (run_inTurn events r.child).executed_initial (run_dispatching host cfg events)
  obtain ⟨⟨id, c, token⟩, hd, hid⟩ := List.mem_map.mp (hinitial.subset hexecuted)
  obtain ⟨hmem, hchild⟩ := List.mem_filter.mp hd
  obtain rfl : id = r.id := hid
  obtain rfl : c = r.child := of_decide_eq_true hchild
  exact ⟨token, List.mem_reverse.mp hmem⟩

theorem executed_sorted (events : List SystemEvent) (c : ChildId) :
    (executed c (run host cfg events)).Pairwise (· < ·) := by
  have h := run_dispatching host cfg events
  have hordered : ((run host cfg events).parent.dispatched.reverse.map Dispatch.id).Pairwise (· < ·) := by
    rw [List.map_reverse, List.pairwise_reverse]
    exact h.ordered
  exact hordered.sublist (((run_inTurn events c).executed_initial h).sublist.trans (List.filter_sublist.map _))

theorem ran_nodup (events : List SystemEvent) : ((run host cfg events).ran.map Ran.id).Nodup := by
  refine List.nodup_iff_count_le_one.mpr fun id => ?_
  by_cases hid : id ∈ (run host cfg events).ran.map Ran.id
  · obtain ⟨r, hr, rfl⟩ := List.mem_map.mp hid
    obtain ⟨token, hd⟩ := ran_dispatched events r hr
    -- all runs of the request are on the worker it was sent to
    have hchild : ∀ r' ∈ (run host cfg events).ran, r'.id = r.id → r'.child = r.child := by
      intro r' hr' heq
      obtain ⟨token', hd'⟩ := ran_dispatched events r' hr'
      have hnodup := (run_dispatching host cfg events).ordered.imp Nat.ne_of_gt
      exact congrArg Dispatch.child (List.inj_on_of_nodup_map hnodup hd' hd heq)
    have hcount : ((run host cfg events).ran.map Ran.id).count r.id =
        (executed r.child (run host cfg events)).count r.id := by
      rw [executed, List.filter_reverse, List.map_reverse, List.count_reverse, List.count, List.countP_map,
        List.countP_map, List.countP_filter]
      refine List.countP_congr fun r' hr' => ?_
      have hboth := hchild r' hr'
      simp only [Function.comp_apply, beq_iff_eq, Bool.and_eq_true, decide_eq_true_eq]
      exact ⟨fun heq => ⟨heq, hboth heq⟩, And.left⟩
    rw [hcount]
    exact List.nodup_iff_count_le_one.mp ((executed_sorted events r.child).imp Nat.ne_of_lt) r.id
  · exact (List.count_eq_zero_of_not_mem hid).trans_le (Nat.zero_le _)

end System

def Refused (id : RequestId) (s : State) : Prop :=
  id ∈ s.settled.map Prod.fst ∧ id ∉ s.dispatched.map Dispatch.id

theorem Move.refused {l : List (RequestId × Settlement)} {s t : State} {id : RequestId} (hi : Inv s)
    (h : Refused id s) (hm : Move host cfg origin event l s t) : Refused id t := by
  obtain ⟨hsettled, hunsent⟩ := h
  refine ⟨?_, ?_⟩
  · rw [hm.effect.settled, List.map_append]
    exact List.mem_append_right _ hsettled
  · obtain hd | ⟨entry, rest, c, hr, rfl⟩ := hm.effect.dispatched
    · rwa [hd]
    · -- only a queued request is sent, and it has not settled
      intro hsent
      obtain rfl | hsent := List.mem_cons.mp hsent
      · have hcount := hi.accounted entry.id
        have hdistinct := List.nodup_iff_count_le_one.mp hi.distinct entry.id
        have hqueue : 0 < (s.queue.map QueueEntry.id).count entry.id :=
          List.count_pos_iff.mpr (List.mem_map_of_mem (hr.queue ▸ List.mem_cons_self))
        have hpos : 0 < (s.settled.map Prod.fst).count entry.id := List.count_pos_iff.mpr hsettled
        omega
      · exact hunsent hsent

theorem refused_run_append {events : List Event} {id : RequestId} (h : Refused id (run host cfg events))
    (later : List Event) : Refused id (run host cfg (events ++ later)) := by
  unfold run
  rw [run_append]
  refine (run_invariant (I := fun s => Inv s ∧ Refused id s) ?_ ⟨run_inv events, h⟩ later).2
  rintro s e ⟨hi, hs⟩
  obtain ⟨l, hm⟩ := step_reaches host cfg s e (fun ho => (hi.off ho).1) hi.born
  refine hm.invariant (I := fun s => Inv s ∧ Refused id s) ?_ ⟨hi, hs⟩
  rintro l u v ⟨hu, hid⟩ hm
  exact ⟨hm.inv hu, hm.refused hu hid⟩

/-- In every interleaving of the parent and its workers no request is run twice, each run is of a
request sent to that worker, each worker runs its requests in the order they were accepted, a queued
request has run nowhere, and one that settled before it was sent never runs. -/
theorem executed_at_most_once (host : Host) (cfg : Config) (events later : List SystemEvent) :
    let y := System.run host cfg events
    let z := System.run host cfg (events ++ later)
    (y.ran.map Ran.id).Nodup ∧
      (∀ r ∈ y.ran, ∃ token, (⟨r.id, r.child, token⟩ : Dispatch) ∈ y.parent.dispatched) ∧
      (∀ c, (System.executed c y).Pairwise (· < ·)) ∧
      (∀ e ∈ y.parent.queue, ∀ r ∈ y.ran, r.id ≠ e.id) ∧
      ∀ id, Refused id y.parent → ∀ r ∈ z.ran, r.id ≠ id := by
  intro y z
  refine ⟨System.ran_nodup events, System.ran_dispatched events, System.executed_sorted events, ?_, ?_⟩
  · intro e he r hr
    obtain ⟨token, hd⟩ := System.ran_dispatched events r hr
    exact Nat.ne_of_lt (((System.run_dispatching host cfg events).before _ hd).2 e he)
  · rintro id hrefused r hr rfl
    have hy : y.parent = run host cfg (events.filterMap System.parentEvent?) := System.run_parent _
    have hz : z.parent = run host cfg
        (events.filterMap System.parentEvent? ++ later.filterMap System.parentEvent?) := by
      rw [← List.filterMap_append]
      exact System.run_parent _
    rw [hy] at hrefused
    have hstill := refused_run_append hrefused (later.filterMap System.parentEvent?)
    rw [← hz] at hstill
    obtain ⟨token, hd⟩ := System.ran_dispatched (events ++ later) r hr
    exact hstill.2 (List.mem_map_of_mem hd)

end XChainVM.Executor
