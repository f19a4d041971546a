import XChainVM.Executor.Causes

/-! # Result authenticity

A result is accepted only from the current child and only under the token minted
for the dispatch in flight. Messages nobody waits for settle nothing but that
dispatch, except that any acknowledgement wakes the dispatch loop.
-/

namespace XChainVM.Executor

open Js

variable {host : Host} {cfg : Config} {origin : State} {event : Event}

/-- The tokens of the dispatches made so far were minted for them, one each. -/
structure Minted (host : Host) (s : State) : Prop where
  minted : ∀ d ∈ s.dispatched, ∃ n < s.tokens, d.token = host.token n
  distinct : (s.dispatched.map Dispatch.token).Nodup

theorem Minted.of_le {s t : State} (h : Minted host s) (hd : t.dispatched = s.dispatched)
    (hn : s.tokens ≤ t.tokens) : Minted host t where
  minted d hm := by
    obtain ⟨n, hlt, he⟩ := h.minted d (hd ▸ hm)
    exact ⟨n, Nat.lt_of_lt_of_le hlt hn, he⟩
  distinct := hd ▸ h.distinct

theorem Minted.launched {s : State} (h : Minted host s) (hfresh : Function.Injective host.token)
    (entry : QueueEntry) (rest : List QueueEntry) (c : ChildId) :
    Minted host (s.launched host entry rest c) where
  minted d hm := by
    rcases List.mem_cons.mp hm with rfl | hm
    · exact ⟨s.tokens, Nat.lt_succ_self _, rfl⟩
    · obtain ⟨n, hlt, he⟩ := h.minted d hm
      exact ⟨n, Nat.lt_succ_of_lt hlt, he⟩
  distinct := by
    refine List.nodup_cons.mpr ⟨?_, h.distinct⟩
    simp only [List.mem_map, not_exists, not_and]
    intro d hd he
    obtain ⟨n, hlt, hn⟩ := h.minted d hd
    exact absurd (hfresh (hn.symm.trans he)) (Nat.ne_of_lt hlt)

theorem Move.minted {l : List (RequestId × Settlement)} {s t : State} (hfresh : Function.Injective host.token)
    (h : Minted host s) (hm : Move host cfg origin event l s t) : Minted host t := by
  rcases hm.effect.dispatched with hd | ⟨entry, rest, c, _, rfl⟩
  · exact h.of_le hd hm.effect.tokens
  · exact h.launched hfresh entry rest c

theorem run_minted (hfresh : Function.Injective host.token) (events : List Event) :
    Minted host (run host cfg events) :=
  run_law ⟨by simp [blank], by simp [blank]⟩ (fun _ _ _ _ _ _ h hm => hm.minted hfresh h) events

/-- The message is one the parent waits for: the first `ready` of the current child,
the acknowledgement of the snapshot sent to it, or the answer to the dispatch in flight. -/
def Awaited (s : State) (c : ChildId) (msg : Value) : Prop :=
  s.child.map Child.id = some c ∧
  (msg.get "type" = .string "ready" ∧ s.everReady = false ∨
    msg.get "type" = .string "snapshotAck" ∧ s.snapshots.sent = true ∧ s.snapshots.acked = false ∧
      WorkerSnapshotChannel.answers msg s.snapshots.token = true ∨
    (msg.get "type" = .string "result" ∨ msg.get "type" = .string "hostfault") ∧ ∃ p, Answers s c msg p)

variable (host) in
/-- Of the messages not awaited, only an acknowledgement of the current child reaches
the dispatch loop. -/
theorem onMessage_unawaited {s : State} {c : ChildId} {msg : Value} (h : ¬Awaited s c msg)
    (hack : ¬(s.child.map Child.id = some c ∧ msg.get "type" = .string "snapshotAck")) :
    onMessage host msg c s = s ∨
      ∃ p ∈ s.pending, ∃ fault, onMessage host msg c s = onBadReply p fault s := by
  unfold onMessage
  split
  · exact .inl rfl
  · rename_i hc
    have hc : s.child.map Child.id = some c := not_not.mp hc
    split
    · exact .inl rfl
    · split
      · rename_i ht
        exact absurd ⟨hc, Value.equalsString_iff.mp ht⟩ hack
      · split
        · rename_i ht
          unfold onReady
          split
          · exact .inl rfl
          · rename_i hr
            exact absurd ⟨hc, .inl ⟨Value.equalsString_iff.mp ht, by simpa using hr⟩⟩ h
        · split
          · rename_i ht
            simp only [Bool.or_eq_true, Value.equalsString_iff] at ht
            unfold onReply
            split
            · exact .inl rfl
            · rename_i p hp
              obtain ⟨hmem, hid⟩ := findPending_mem hp
              split
              · exact .inr ⟨p, hmem, _, rfl⟩
              · rename_i hf
                exact absurd ⟨hc, .inr (.inr ⟨ht, p, hc, hmem, hid, hf⟩)⟩ h
          · exact .inl rfl

theorem mem_onBadReply {p : PendingEntry} {fault : String} {s : State} {x : RequestId × Settlement}
    (hx : x ∈ (onBadReply p fault s).settled) :
    x ∈ s.settled ∨ x = (p.id, .hostFault ("executor worker sent a bad reply (" ++ fault ++ ")")) := by
  change x ∈ (State.settle _ _ (removePending p s)).kill.settled at hx
  rw [kill_eq] at hx
  exact (List.mem_cons.mp hx).symm

theorem unawaited_settles {s : State} (h : Inv s) {c : ChildId} {msg : Value} (hn : ¬Awaited s c msg)
    {x : RequestId × Settlement} (hx : NewlySettled host cfg s (.message c msg) x) :
    (∃ m, x.2 = .hostFault m) ∧
    (x.1 ∈ s.pending.map PendingEntry.id ∨ s.child.map Child.id = some c ∧
      msg.get "type" = .string "snapshotAck" ∧ x.1 ∈ s.queue.map QueueEntry.id) := by
  by_cases hack : s.child.map Child.id = some c ∧ msg.get "type" = .string "snapshotAck"
  · refine ⟨?_, ?_⟩
    · cases hx.cause h with
      | answer he ha ht =>
        cases he
        simp [hack.2] at ht
      | termination hp ht => exact absurd rfl (ht.event_ne c msg)
      | fault id message => exact ⟨message, rfl⟩
    · exact (hx.waiting h (by simp)).symm.imp_right fun hq => ⟨hack.1, hack.2, hq⟩
  · obtain ⟨hmem, hnew⟩ := hx
    rw [step] at hmem
    rcases onMessage_unawaited host hn hack with he | ⟨p, hp, fault, he⟩
    · exact absurd (he ▸ hmem) hnew
    · rw [he] at hmem
      obtain rfl := (mem_onBadReply hmem).resolve_left hnew
      exact ⟨⟨_, rfl⟩, .inl (List.mem_map_of_mem hp)⟩

theorem result_authentic (host : Host) (cfg : Config) (hfresh : Function.Injective host.token)
    (events : List Event) :
    let s := run host cfg events
    (∀ event id r, NewlySettled host cfg s event (id, .result r) →
      ∃ c msg, event = .message c msg ∧ s.child.map Child.id = some c ∧
        msg.get "type" = .string "result" ∧ msg.get "result" = r ∧ isResultShape r = true ∧
        ∃ p ∈ s.pending, p.id = id ∧ (msg.get "id").equalsNat id = true ∧ msg.get "token" = .string p.token ∧
          (⟨id, c, p.token⟩ : Dispatch) ∈ s.dispatched ∧
          ∀ d ∈ s.dispatched, d.token = p.token → d = ⟨id, c, p.token⟩) ∧
    ∀ c msg, ¬Awaited s c msg → ∀ x, NewlySettled host cfg s (.message c msg) x →
      (∃ m, x.2 = .hostFault m) ∧
      (x.1 ∈ s.pending.map PendingEntry.id ∨ s.child.map Child.id = some c ∧
        msg.get "type" = .string "snapshotAck" ∧ x.1 ∈ s.queue.map QueueEntry.id) := by
  intro s
  have h : Inv s := run_inv events
  have hm : Minted host s := run_minted hfresh events
  refine ⟨fun event id r hx => ?_, fun c msg hn x hx => unawaited_settles h hn hx⟩
  cases hx.cause h with
  | @answer c msg p he ha ht =>
    obtain ⟨htoken, hshape⟩ := replyFault_eq_none_iff.mp ha.fault
    obtain ⟨_, _, c', hc', hd, _⟩ := h.inFlight p ha.pending
    obtain rfl : c' = c := Option.some.inj (hc'.symm.trans ha.child)
    exact ⟨c', msg, he, ha.child, ht, rfl, hshape ht, p, ha.pending, rfl, ha.id, htoken, hd,
      fun d hmem he => List.inj_on_of_nodup_map hm.distinct hmem hd he⟩

theorem result_authentic_steady :
    let s := run steady ⟨1000⟩ [.message 0 readyFrame, .execute (.object []) 0]
    s.pending.map PendingEntry.id = [1] ∧ (∀ event id r, NewlySettled steady ⟨1000⟩ s event (id, .result r) →
      ∃ c msg, event = .message c msg ∧ s.child.map Child.id = some c ∧
        msg.get "type" = .string "result" ∧ msg.get "result" = r ∧ isResultShape r = true ∧
        ∃ p ∈ s.pending, p.id = id ∧ (msg.get "id").equalsNat id = true ∧ msg.get "token" = .string p.token ∧
          (⟨id, c, p.token⟩ : Dispatch) ∈ s.dispatched ∧
          ∀ d ∈ s.dispatched, d.token = p.token → d = ⟨id, c, p.token⟩) :=
  ⟨by decide, (result_authentic steady ⟨1000⟩ steadyToken_injective
    [.message 0 readyFrame, .execute (.object []) 0]).1⟩

/-- The fifth frame, an `execute` in the run below, cannot cross the pipe. -/
def unsendable : Host :=
  { steady with send := fun n => if n = 4 then .threw false "circular structure" else .accepted }

/-- A block ends while its first request waits for the snapshot's acknowledgement. -/
def endedWhileHeld : List Event :=
  [.message 0 readyFrame, .beginBlock, .execute (.object [("crossChainData", .object [])]) 0, .endBlock]

/-- The acknowledgement nobody waits for any more wakes the dispatch loop, which
rejects a queued request. -/
theorem stale_ack_settles_queued :
    ¬∀ (host : Host) (cfg : Config) (events : List Event) (c : ChildId) (msg : Value),
      Function.Injective host.token → ¬Awaited (run host cfg events) c msg →
      ∀ x, NewlySettled host cfg (run host cfg events) (.message c msg) x →
        x.1 ∈ (run host cfg events).pending.map PendingEntry.id := by
  intro h
  have hsent : (run unsendable ⟨1000⟩ endedWhileHeld).snapshots.sent = false := by decide
  have hbefore : (run unsendable ⟨1000⟩ endedWhileHeld).settled.map Prod.fst = [] := by decide
  have hafter : (step unsendable ⟨1000⟩ (run unsendable ⟨1000⟩ endedWhileHeld)
      (.message 0 (snapshotAckFrame (steadyToken 0)))).settled.map Prod.fst = [1] := by decide
  have hidle : (run unsendable ⟨1000⟩ endedWhileHeld).pending.map PendingEntry.id = [] := by decide
  obtain ⟨x, hx, _⟩ := List.mem_map.mp (hafter ▸ List.mem_singleton_self 1)
  have hunawaited : ¬Awaited (run unsendable ⟨1000⟩ endedWhileHeld) 0 (snapshotAckFrame (steadyToken 0)) := by
    rintro ⟨_, ⟨ht, _⟩ | ⟨_, hs, _⟩ | ⟨ht | ht, _⟩⟩
    · simp at ht
    · simp [hsent] at hs
    · simp at ht
    · simp at ht
  have := h unsendable ⟨1000⟩ endedWhileHeld 0 (snapshotAckFrame (steadyToken 0)) steadyToken_injective
    hunawaited x ⟨hx, fun hm => by simpa [hbefore] using List.mem_map_of_mem (f := Prod.fst) hm⟩
  simp [hidle] at this

end XChainVM.Executor
