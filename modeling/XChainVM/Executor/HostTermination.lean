import XChainVM.Executor.Causes

/-! # Consensus results of host termination

The committed host termination is charged at the request's own effective
ceiling, and a request gets it only while it is in flight. Every request lost in
another way, whether still queued or dispatched, ends in a host fault.
-/

namespace XChainVM.Executor

open Js

variable {host : Host} {cfg : Config} {origin : State} {event : Event}

def Priced (cfg : Config) (s : State) : Prop :=
  ∀ e ∈ s.accepted, e.ceiling = Gas.effectiveCeiling (e.opts.get "gasCeiling") cfg.gasCeiling

theorem Move.priced {l : List (RequestId × Settlement)} {s t : State} (h : Priced cfg s)
    (hm : Move host cfg origin event l s t) : Priced cfg t := by
  intro e he
  rcases hm.effect.accepted with ht | ⟨opts, now, _, ht⟩
  · exact h e (ht ▸ he)
  · rcases List.mem_cons.mp (ht ▸ he) with rfl | he
    · rfl
    · exact h e he

theorem run_priced (events : List Event) : Priced cfg (run host cfg events) :=
  run_law (by simp [Priced, blank]) (fun _ _ _ _ _ _ h hm => hm.priced h) events

theorem NewlySettled.of_not_pending {s : State} (h : Inv s) {x : RequestId × Settlement}
    (hx : NewlySettled host cfg s event x) (hp : x.1 ∉ s.pending.map PendingEntry.id) :
    ∃ m, x.2 = .hostFault m := by
  cases hx.cause h with
  | answer he ha ht => exact absurd (List.mem_map_of_mem ha.pending) hp
  | termination hm ht => exact absurd (List.mem_map_of_mem hm) hp
  | fault id message => exact ⟨message, rfl⟩

theorem shutdown_rejects {s : State} {id : RequestId}
    (hid : id ∈ s.queue.map QueueEntry.id ∨ id ∈ s.pending.map PendingEntry.id) :
    (id, Settlement.hostFault "executor shutting down") ∈ (step host cfg s .shutdown).settled := by
  rw [step, shutdown_eq]
  simp only [List.mem_append, List.mem_reverse, List.mem_map]
  rcases hid with hid | hid
  · obtain ⟨e, he, rfl⟩ := List.mem_map.mp hid
    exact .inl ⟨e, he, rfl⟩
  · obtain ⟨p, hp, rfl⟩ := List.mem_map.mp hid
    exact .inr (.inl ⟨p, hp, rfl⟩)

theorem external_exit_rejects {s : State} (h : Inv s) {c : ChildId} {code : Option Int} {signal : Option String}
    (hc : s.child.map Child.id = some c) (hs : isSelfInflicted code signal = false) {p : PendingEntry}
    (hp : p ∈ s.pending) :
    ∃ m, (p.id, Settlement.hostFault m) ∈ (step host cfg s (.exit c code signal)).settled := by
  have hgone : c ∉ s.gone := fun hm => (h.departed c hm).2 hc
  have hchild : s.child.isSome = true := by
    rw [← Option.isSome_map (f := Child.id), hc]
    rfl
  have hb : s.broken = false := by
    by_contra hn
    simp [(h.off (.inr (by simpa using hn))).1] at hchild
  simp only [step, h.born c hc, if_true, onGone, hgone, if_false]
  rw [onExit_eq c code signal { s with gone := c :: s.gone } hc, lost_gone]
  have hlost : (p.id, State.lossOutcome code signal p) ∈ (s.lost code signal).settled := by
    rw [lost_eq]
    exact List.mem_append_left _ (List.mem_reverse.mpr (List.mem_map_of_mem hp))
  simp only [State.lossOutcome, hs, Bool.false_eq_true, if_false] at hlost
  have hafter : Reaches host cfg s (.exit c code signal) { s.lost code signal with gone := c :: s.gone }
      (afterWorkerLost host (!s.everReady) { s.lost code signal with gone := c :: s.gone }) := by
    refine afterWorkerLost_reaches ?_ ?_ _
    · rw [lost_eq]
    · rw [lost_eq]
      exact hb
  exact ⟨_, hafter.settled_mono hlost⟩

theorem bad_reply_rejects {s : State} (h : Inv s) {c : ChildId} {msg : Value} {p : PendingEntry}
    (hc : s.child.map Child.id = some c) (ho : msg.isObject = true)
    (ht : msg.get "type" = .string "result" ∨ msg.get "type" = .string "hostfault")
    (hp : p ∈ s.pending) (hid : (msg.get "id").equalsNat p.id = true) (hf : replyFault msg p.token ≠ none) :
    ∃ m, (p.id, Settlement.hostFault m) ∈ (step host cfg s (.message c msg)).settled := by
  obtain ⟨fault, hf⟩ := Option.ne_none_iff_exists'.mp hf
  have hfind : s.findPending (msg.get "id") = some p := by
    rw [State.findPending, h.pending_eq_singleton hp, List.find?_cons, hid]
  have hreply : step host cfg s (.message c msg) = onBadReply p fault s := by
    have hm : step host cfg s (.message c msg) = onReply host msg s := by
      simp only [step, onMessage, hc, ho, ne_eq, not_true_eq_false, if_false, Bool.not_true]
      rcases ht with ht | ht <;> simp [ht, Value.equalsString]
    simp only [hm, onReply, hfind, hf]
  have hmem : (p.id, Settlement.hostFault ("executor worker sent a bad reply (" ++ fault ++ ")")) ∈
      (onBadReply p fault s).settled := by
    change _ ∈ (State.settle p.id (.hostFault ("executor worker sent a bad reply (" ++ fault ++ ")"))
      (removePending p s)).kill.settled
    rw [kill_eq]
    exact List.mem_cons_self
  exact ⟨_, hreply ▸ hmem⟩

theorem latch_rejects {s : State} (h : Inv s) (he : ∀ opts now, event ≠ .execute opts now)
    (hb : (step host cfg s event).broken = true) {id : RequestId} (hid : id ∈ s.queue.map QueueEntry.id) :
    ∃ m, (id, Settlement.hostFault m) ∈ (step host cfg s event).settled := by
  have hr := step_reaches host cfg s event (fun ho => (h.off ho).1) h.born
  have h' : Inv (step host cfg s event) := step_inv h event
  have hmem : id ∈ s.accepted.map QueueEntry.id := by
    obtain ⟨e, hq, rfl⟩ := List.mem_map.mp hid
    exact List.mem_map_of_mem (h.queued e hq)
  have hone := occurrences_eq h id
  rw [if_pos hmem] at hone
  have hpos := List.count_pos_iff.mpr hid
  have hnotp : id ∉ s.pending.map PendingEntry.id := by
    refine List.count_eq_zero.mp ?_
    unfold occurrences at hone
    omega
  have hnots : id ∉ s.settled.map Prod.fst := by
    refine List.count_eq_zero.mp ?_
    unfold occurrences at hone
    omega
  have hafter := occurrences_eq h' id
  obtain ⟨hchild, hqueue⟩ := h'.off (.inr hb)
  rw [hr.accepted_eq he, if_pos hmem, occurrences, hqueue, h'.pending_eq_nil hchild] at hafter
  simp only [List.map_nil, List.count_nil] at hafter
  obtain ⟨x, hx, rfl⟩ := List.mem_map.mp (List.count_pos_iff.mp (by omega :
    0 < ((step host cfg s event).settled.map Prod.fst).count id))
  have hnew : NewlySettled host cfg s event x := ⟨hx, fun hm => hnots (List.mem_map_of_mem hm)⟩
  obtain ⟨m, hm⟩ := hnew.of_not_pending h hnotp
  exact ⟨m, hm ▸ hx⟩

theorem termination_committed_in_flight (host : Host) (cfg : Config) (events : List Event) :
    let s := run host cfg events
    (∀ event id r, NewlySettled host cfg s event (id, .terminated r) →
      ∃ e ∈ s.accepted, e.id = id ∧ ∃ p ∈ s.pending, p.id = id ∧
        ∃ c, s.child.map Child.id = some c ∧ (⟨id, c, p.token⟩ : Dispatch) ∈ s.dispatched ∧
        ∃ kind, r = hostTerminatedResult (Gas.effectiveCeiling (e.opts.get "gasCeiling") cfg.gasCeiling) kind ∧
          r.success = false ∧ r.error = "out_of_resource: execution host terminated (" ++ kind ++ ")" ∧
          r.gasUsed = Gas.effectiveCeiling (e.opts.get "gasCeiling") cfg.gasCeiling ∧
          ((∃ t ∈ s.timers, event = .timer t.id ∧ t.callback = .watchdog id) ∨
            ∃ code signal, event = .exit c code signal ∧ isSelfInflicted code signal = true)) ∧
    (∀ event x, NewlySettled host cfg s event x → x.1 ∉ s.pending.map PendingEntry.id →
      ∃ m, x.2 = .hostFault m) ∧
    (∀ id, id ∈ s.queue.map QueueEntry.id ∨ id ∈ s.pending.map PendingEntry.id →
      ∃ m, (id, .hostFault m) ∈ (step host cfg s .shutdown).settled) ∧
    (∀ c code signal, s.child.map Child.id = some c → isSelfInflicted code signal = false →
      ∀ p ∈ s.pending, ∃ m, (p.id, .hostFault m) ∈ (step host cfg s (.exit c code signal)).settled) ∧
    (∀ c msg, s.child.map Child.id = some c → msg.isObject = true →
      (msg.get "type" = .string "result" ∨ msg.get "type" = .string "hostfault") →
      ∀ p ∈ s.pending, (msg.get "id").equalsNat p.id = true → replyFault msg p.token ≠ none →
        ∃ m, (p.id, .hostFault m) ∈ (step host cfg s (.message c msg)).settled) ∧
    (∀ event, (∀ opts now, event ≠ .execute opts now) → (step host cfg s event).broken = true →
      ∀ id ∈ s.queue.map QueueEntry.id, ∃ m, (id, .hostFault m) ∈ (step host cfg s event).settled) := by
  intro s
  have h : Inv s := run_inv events
  have hprice : Priced cfg s := run_priced events
  refine ⟨fun event id r hx => ?_, fun event x hx hp => hx.of_not_pending h hp,
    fun id hid => ⟨_, shutdown_rejects hid⟩, fun c code signal hc hs p hp => external_exit_rejects h hc hs hp,
    fun c msg hc ho ht p hp hid hf => bad_reply_rejects h hc ho ht hp hid hf,
    fun event he hb id hid => latch_rejects h he hb hid⟩
  cases hx.cause h with
  | @termination p _ hp ht =>
    obtain ⟨_, ⟨e, he, hid, hceil⟩, c, hc, hd, _⟩ := h.inFlight p hp
    refine ⟨e, he, hid, p, hp, rfl, c, hc, hd, ?_⟩
    rw [← hprice e he, hceil]
    cases ht with
    | watchdog ht he hw => exact ⟨_, rfl, rfl, rfl, rfl, .inl ⟨_, ht, he, hw⟩⟩
    | death he hc' hs =>
      obtain rfl := Option.some.inj (hc.symm.trans hc')
      exact ⟨_, rfl, rfl, rfl, rfl, .inr ⟨_, _, he, hs⟩⟩

end XChainVM.Executor
