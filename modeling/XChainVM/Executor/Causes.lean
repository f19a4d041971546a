import XChainVM.Executor.Settlement

/-! # Where the settlements come from

A worker's result is accepted from one message only, the answer to the dispatch
in flight. The committed host termination has two causes, the request's own
watchdog and a self-inflicted death of the worker it was sent to. Everything
else a request can end in is a host fault.
-/

namespace XChainVM.Executor

open Js

variable {host : Host} {cfg : Config} {origin : State} {event : Event}

/-- The message answers the request in flight, as the parent checks it. -/
structure Answers (s : State) (c : ChildId) (msg : Value) (p : PendingEntry) : Prop where
  child : s.child.map Child.id = some c
  pending : p ∈ s.pending
  id : (msg.get "id").equalsNat p.id = true
  fault : replyFault msg p.token = none

/-- The two causes of a committed host termination, with the result of each. -/
inductive Terminates (s : State) (event : Event) (p : PendingEntry) : TerminatedResult → Prop
  | watchdog {timer : Timer} (ht : timer ∈ s.timers) (he : event = .timer timer.id)
      (hw : timer.callback = .watchdog p.id) :
      Terminates s event p (hostTerminatedResult p.ceiling "watchdog timeout")
  | death {c : ChildId} {code : Option Int} {signal : Option String} (he : event = .exit c code signal)
      (hc : s.child.map Child.id = some c) (hs : isSelfInflicted code signal = true) :
      Terminates s event p (hostTerminatedResult p.ceiling (exitKind code signal))

theorem Terminates.event_ne {s : State} {p : PendingEntry} {r : TerminatedResult}
    (h : Terminates s event p r) (c : ChildId) (msg : Value) : event ≠ .message c msg := by
  cases h with
  | watchdog ht he hw => simp [he]
  | death he hc hs => simp [he]

/-- What stands behind one settlement made while `event` is handled from `s`. -/
inductive Cause (s : State) (event : Event) : RequestId × Settlement → Prop
  | answer {c : ChildId} {msg : Value} {p : PendingEntry} (he : event = .message c msg)
      (ha : Answers s c msg p) (ht : msg.get "type" = .string "result") :
      Cause s event (p.id, .result (msg.get "result"))
  | termination {p : PendingEntry} {r : TerminatedResult} (hp : p ∈ s.pending)
      (ht : Terminates s event p r) : Cause s event (p.id, .terminated r)
  | fault (id : RequestId) (message : String) : Cause s event (id, .hostFault message)

theorem lossOutcome_cause {code : Option Int} {signal : Option String} {p : PendingEntry} {s : State}
    {c : ChildId} (hc : s.child.map Child.id = some c) (hp : p ∈ s.pending)
    (he : isSelfInflicted code signal = true →
      event = .exit c code signal ∧ s.child = origin.child ∧ s.pending = origin.pending) :
    Cause origin event (p.id, State.lossOutcome code signal p) := by
  unfold State.lossOutcome
  split
  · rename_i hs
    obtain ⟨he, hchild, hpending⟩ := he hs
    exact .termination (hpending ▸ hp) (.death he (hchild ▸ hc) hs)
  · exact .fault _ _

theorem Move.cause {l : List (RequestId × Settlement)} {s t : State}
    (hm : Move host cfg origin event l s t) : ∀ x ∈ l, Cause origin event x := by
  intro x hx
  cases hm with
  | reply he hc hp ho =>
    obtain rfl := List.mem_singleton.mp hx
    obtain ⟨hmem, hid⟩ := findPending_mem hp
    rcases ho with ⟨rfl, ht, hf⟩ | ⟨m, rfl⟩
    · exact .answer he ⟨hc, hmem, hid, hf⟩ ht
    · exact .fault _ _
  | watchdog he ht hw hp =>
    obtain rfl := List.mem_singleton.mp hx
    exact .termination hp (.watchdog ht he hw)
  | lose hc he =>
    simp only [List.mem_reverse, List.mem_map] at hx
    obtain ⟨p, hp, rfl⟩ := hx
    exact lossOutcome_cause hc hp he
  | reject hr message =>
    obtain rfl := List.mem_singleton.mp hx
    exact .fault _ _
  | latch hc reason =>
    simp only [List.mem_reverse, List.mem_map] at hx
    obtain ⟨e, _, rfl⟩ := hx
    exact .fault _ _
  | shutdown he =>
    simp only [List.mem_append, List.mem_reverse, List.mem_map] at hx
    rcases hx with ⟨e, _, rfl⟩ | ⟨p, _, rfl⟩ <;> exact .fault _ _
  | _ => simp at hx

theorem Moves.cause {l : List (RequestId × Settlement)} {s t : State}
    (h : Moves host cfg origin event s l t) : ∀ x ∈ l, Cause origin event x := by
  induction h with
  | refl => simp
  | tail _ hm ih =>
    intro x hx
    rcases List.mem_append.mp hx with hx | hx
    · exact hm.cause x hx
    · exact ih x hx

def NewlySettled (host : Host) (cfg : Config) (s : State) (event : Event) (x : RequestId × Settlement) : Prop :=
  x ∈ (step host cfg s event).settled ∧ x ∉ s.settled

theorem NewlySettled.cause {s : State} (h : Inv s) {x : RequestId × Settlement}
    (hx : NewlySettled host cfg s event x) : Cause s event x := by
  obtain ⟨l, hm⟩ := step_reaches host cfg s event (fun ho => (h.off ho).1) h.born
  obtain ⟨hmem, hnew⟩ := hx
  rw [hm.settled_eq] at hmem
  exact hm.cause x ((List.mem_append.mp hmem).resolve_right hnew)

/-- What an event other than a call settles was waiting or in flight before it. -/
theorem NewlySettled.waiting {s : State} (h : Inv s) (he : ∀ opts now, event ≠ .execute opts now)
    {x : RequestId × Settlement} (hx : NewlySettled host cfg s event x) :
    x.1 ∈ s.queue.map QueueEntry.id ∨ x.1 ∈ s.pending.map PendingEntry.id := by
  have hr := step_reaches host cfg s event (fun ho => (h.off ho).1) h.born
  have hacc := hr.accepted_eq he
  have h' : Inv (step host cfg s event) := step_inv h event
  obtain ⟨l, hm⟩ := hr
  obtain ⟨hmem, hnew⟩ := hx
  have hl : x ∈ l := by
    rw [hm.settled_eq] at hmem
    exact (List.mem_append.mp hmem).resolve_right hnew
  have hone : (s.settled.map Prod.fst).count x.1 = 0 := by
    have hnd := List.nodup_iff_count_le_one.mp (settled_nodup h') x.1
    rw [hm.settled_eq, List.map_append, List.count_append] at hnd
    have := List.count_pos_iff.mpr (List.mem_map_of_mem (f := Prod.fst) hl)
    omega
  have hocc : occurrences s x.1 = 1 := by
    have := occurrences_eq h' x.1
    rw [hacc] at this
    rw [occurrences_eq h, ← this]
    have hpos := List.count_pos_iff.mpr (List.mem_map_of_mem (f := Prod.fst) hmem)
    unfold occurrences at this ⊢
    split at this <;> omega
  unfold occurrences at hocc
  rcases Nat.eq_zero_or_pos ((s.queue.map QueueEntry.id).count x.1) with hz | hz
  · exact .inr (List.count_pos_iff.mp (by omega))
  · exact .inl (List.count_pos_iff.mp hz)

end XChainVM.Executor
