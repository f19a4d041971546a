import XChainVM.Executor.Accounting
import XChainVM.Executor.Worker

/-! # Snapshot agreement

A reference means the value its token was minted for, so a request runs against
its own data as long as the snapshot chosen in a block is the data of every
request dispatched in it. Requests left over from an earlier block are the one
way to break this.
-/

namespace XChainVM.Executor

open Js

variable {host : Host} {cfg : Config} {origin : State} {event : Event}

def crossChainData (opts : Value) : Value := opts.get "crossChainData"

def mark (opts : Value) : Option Value := (crossChainData opts).ownProperty? "__xchainWorkerSnapshot"

def Unguessed (host : Host) (opts : Value) : Prop := ∀ n, mark opts ≠ some (.string (host.token n))

/-- The options a frame carries for an accepted request: its own, or a reference that
means its data wherever it is used. -/
def Faithful (host : Host) (s : State) (e : QueueEntry) (opts : Value) : Prop :=
  opts = e.opts ∨ ∃ n < s.tokens,
    crossChainData opts = snapshotReference (host.token n) ∧
    (∀ c y, (c, Frame.snapshot (host.token n) y) ∈ s.frames → y = crossChainData e.opts) ∧
    (s.snapshots.set = true → s.snapshots.token = some (host.token n) →
      s.snapshots.snapshot = crossChainData e.opts)

/-- The snapshot chosen in a block is `x`, the data of every request of the block, and
every frame sent so far is faithful to its request. -/
structure Agreed (host : Host) (inBlock : Bool) (x : Value) (s : State) : Prop where
  open_eq : s.inBlock = inBlock
  chosen : s.snapshots.set = true → inBlock = true ∧ s.snapshots.snapshot = x ∧
    ∃ n < s.tokens, s.snapshots.token = some (host.token n)
  queued : inBlock = true → ∀ e ∈ s.queue, hasSerializableCrossChainSnapshot e.opts = true →
    crossChainData e.opts = x
  unguessed : ∀ e ∈ s.accepted, Unguessed host e.opts
  minted : ∀ c t y, (c, Frame.snapshot t y) ∈ s.frames → ∃ n < s.tokens, t = host.token n
  current : s.snapshots.set = true → ∀ c t y, (c, Frame.snapshot t y) ∈ s.frames →
    s.snapshots.token = some t → y = s.snapshots.snapshot
  faithful : ∀ c id token opts, (c, Frame.execute id token opts) ∈ s.frames →
    ∃ e ∈ s.accepted, e.id = id ∧ Faithful host s e opts

theorem Faithful.mono {s t : State} {e : QueueEntry} {opts : Value} (h : Faithful host s e opts)
    (hn : s.tokens ≤ t.tokens)
    (hf : ∀ c u y, (c, Frame.snapshot u y) ∈ t.frames → (c, Frame.snapshot u y) ∈ s.frames)
    (hset : t.snapshots.set = true → s.snapshots.set = true ∧ t.snapshots.token = s.snapshots.token ∧
      t.snapshots.snapshot = s.snapshots.snapshot) : Faithful host t e opts := by
  rcases h with h | ⟨n, hlt, href, hsent, hcur⟩
  · exact .inl h
  · refine .inr ⟨n, Nat.lt_of_lt_of_le hlt hn, href, fun c y hm => hsent c y (hf c _ y hm), fun hs ht => ?_⟩
    obtain ⟨hs', htoken, hsnap⟩ := hset hs
    rw [hsnap]
    exact hcur hs' (htoken ▸ ht)

namespace Agreed

variable {b : Bool} {x : Value} {s t : State}

/-- Moves that send no snapshot and no request, and at most give the chosen one up. -/
theorem keep (h : Agreed host b x s) (hb : t.inBlock = s.inBlock)
    (hset : t.snapshots.set = true → s.snapshots.set = true ∧ t.snapshots.token = s.snapshots.token ∧
      t.snapshots.snapshot = s.snapshots.snapshot)
    (hq : ∀ e ∈ t.queue, e ∈ s.queue) (ha : t.accepted = s.accepted) (hn : s.tokens ≤ t.tokens)
    (hf : ∀ f ∈ t.frames, f ∈ s.frames ∨ f.2.isControl = true) : Agreed host b x t := by
  have hsnap : ∀ c u y, (c, Frame.snapshot u y) ∈ t.frames → (c, Frame.snapshot u y) ∈ s.frames := by
    intro c u y hm
    exact (hf _ hm).resolve_right (by simp [Frame.isControl])
  refine ⟨hb.trans h.open_eq, fun hs => ?_, fun hb e he => h.queued hb e (hq e he), ?_, ?_, ?_, ?_⟩
  · obtain ⟨hs', htoken, hval⟩ := hset hs
    obtain ⟨hopen, hx, n, hlt, hu⟩ := h.chosen hs'
    exact ⟨hopen, hval.trans hx, n, Nat.lt_of_lt_of_le hlt hn, htoken.trans hu⟩
  · rw [ha]
    exact h.unguessed
  · intro c u y hm
    obtain ⟨n, hlt, hu⟩ := h.minted c u y (hsnap c u y hm)
    exact ⟨n, Nat.lt_of_lt_of_le hlt hn, hu⟩
  · intro hs c u y hm hu
    obtain ⟨hs', htoken, hval⟩ := hset hs
    rw [hval]
    exact h.current hs' c u y (hsnap c u y hm) (htoken ▸ hu)
  · intro c id token opts hm
    obtain ⟨e, he, hid, hfaith⟩ := h.faithful c id token opts
      ((hf _ hm).resolve_right (by simp [Frame.isControl]))
    exact ⟨e, ha ▸ he, hid, hfaith.mono hn hsnap hset⟩

/-- Moves that leave the queue, the channel and the frames as they were. -/
theorem same (h : Agreed host b x s) (hb : t.inBlock = s.inBlock)
    (hset : t.snapshots.set = s.snapshots.set) (htoken : t.snapshots.token = s.snapshots.token)
    (hsnap : t.snapshots.snapshot = s.snapshots.snapshot) (hq : ∀ e ∈ t.queue, e ∈ s.queue)
    (ha : t.accepted = s.accepted) (hn : t.tokens = s.tokens) (hf : t.frames = s.frames) :
    Agreed host b x t :=
  h.keep hb (fun hs => ⟨hset ▸ hs, htoken, hsnap⟩) hq ha (Nat.le_of_eq hn.symm) (fun _ hm => .inl (hf ▸ hm))

/-- A block boundary gives the chosen snapshot up; what is still queued must suit the new block. -/
theorem boundary (h : Agreed host b x s) (inBlock : Bool) (x' : Value)
    (hq : inBlock = true → ∀ e ∈ s.queue, hasSerializableCrossChainSnapshot e.opts = true →
      crossChainData e.opts = x') :
    Agreed host inBlock x' (WorkerSnapshotChannel.beginBlock { s with inBlock := inBlock }) := by
  rw [snapshotBeginBlock_eq]
  refine ⟨rfl, nofun, hq, h.unguessed, h.minted, nofun, fun c id token opts hm => ?_⟩
  obtain ⟨e, he, hid, hfaith⟩ := h.faithful c id token opts hm
  exact ⟨e, he, hid, hfaith.mono (Nat.le_refl _) (fun _ _ _ hm => hm) nofun⟩

/-- The first request of a block that carries a snapshot chooses it, under a token no
frame has carried yet. -/
theorem choose (h : Agreed host b x s) (hfresh : Function.Injective host.token) {entry : QueueEntry}
    {rest : List QueueEntry} (hq : s.queue = entry :: rest) :
    Agreed host b x (WorkerSnapshotChannel.choose host entry.opts s) := by
  unfold WorkerSnapshotChannel.choose
  split
  · rename_i hg
    simp only [Bool.and_eq_true, Bool.not_eq_true'] at hg
    obtain ⟨⟨hset, hopen⟩, hser⟩ := hg
    have hb : b = true := h.open_eq.symm.trans hopen
    have hx : crossChainData entry.opts = x := h.queued hb entry (by simp [hq]) hser
    have hnew : ∀ n < s.tokens, some (host.token s.tokens) ≠ some (host.token n) := by
      intro n hlt he
      exact Nat.ne_of_gt hlt (hfresh (Option.some.inj he))
    refine ⟨h.open_eq, fun _ => ⟨hb, hx, s.tokens, Nat.lt_succ_self _, rfl⟩, h.queued, h.unguessed, ?_, ?_, ?_⟩
    · intro c u y hm
      obtain ⟨n, hlt, hu⟩ := h.minted c u y hm
      exact ⟨n, Nat.lt_succ_of_lt hlt, hu⟩
    · intro _ c u y hm hu
      obtain ⟨n, hlt, rfl⟩ := h.minted c u y hm
      exact absurd hu (hnew n hlt)
    · intro c id token opts hm
      obtain ⟨e, he, hid, hfaith⟩ := h.faithful c id token opts hm
      refine ⟨e, he, hid, ?_⟩
      rcases hfaith with hf | ⟨n, hlt, href, hsent, _⟩
      · exact .inl hf
      · exact .inr ⟨n, Nat.lt_succ_of_lt hlt, href, hsent, fun _ hu => absurd hu (hnew n hlt)⟩
  · exact h

theorem ship (h : Agreed host b x s) (entry : QueueEntry) (c : ChildId)
    (hset : s.snapshots.set = true) : Agreed host b x (s.shipped c entry) := by
  obtain ⟨hopen, hx, n, hlt, htoken⟩ := h.chosen hset
  have hframe : ∀ d u y, (d, Frame.snapshot u y) ∈ (s.shipped c entry).frames →
      (d, Frame.snapshot u y) ∈ s.frames ∨ u = host.token n ∧ y = s.snapshots.snapshot := by
    intro d u y hm
    rcases List.mem_append.mp hm with hm | hm
    · exact .inl hm
    · simp only [List.mem_singleton, Prod.mk.injEq, Frame.snapshot.injEq, htoken, Option.getD_some] at hm
      exact .inr hm.2
  refine ⟨h.open_eq, h.chosen, h.queued, h.unguessed, fun d u y hm => ?_, fun _ d u y hm hu => ?_,
    fun d id token opts hm => ?_⟩
  · rcases hframe d u y hm with hm | ⟨rfl, _⟩
    · exact h.minted d u y hm
    · exact ⟨n, hlt, rfl⟩
  · rcases hframe d u y hm with hm | ⟨_, rfl⟩
    · exact h.current hset d u y hm hu
    · rfl
  · have hm : (d, Frame.execute id token opts) ∈ s.frames := by
      simpa [State.shipped] using hm
    obtain ⟨e, he, hid, hfaith⟩ := h.faithful d id token opts hm
    refine ⟨e, he, hid, ?_⟩
    rcases hfaith with hf | ⟨m, hm, href, hsent, hcur⟩
    · exact .inl hf
    · refine .inr ⟨m, hm, href, fun d y hy => ?_, hcur⟩
      rcases hframe d _ y hy with hy | ⟨hu, rfl⟩
      · exact hsent d y hy
      · exact hcur hset (hu ▸ htoken)

theorem launch (hi : Inv s) (h : Agreed host b x s) {entry : QueueEntry} {rest : List QueueEntry} {c : ChildId}
    (hr : Released s entry rest c) : Agreed host b x (s.launched host entry rest c) := by
  have hentry : entry ∈ s.queue := by simp [hr.queue]
  have hsnap : ∀ d u y, (d, Frame.snapshot u y) ∈ (s.launched host entry rest c).frames →
      (d, Frame.snapshot u y) ∈ s.frames := by
    intro d u y hm
    simpa [State.launched] using hm
  have hle : s.tokens ≤ (s.launched host entry rest c).tokens := Nat.le_succ _
  refine ⟨h.open_eq, fun hs => ?_, fun hb e he => h.queued hb e ?_, h.unguessed, fun d u y hm => ?_,
    fun hs d u y hm => h.current hs d u y (hsnap d u y hm), fun d id token opts hm => ?_⟩
  · obtain ⟨hopen, hx, n, hlt, hu⟩ := h.chosen hs
    exact ⟨hopen, hx, n, Nat.lt_succ_of_lt hlt, hu⟩
  · rw [hr.queue]
    exact List.mem_cons_of_mem _ he
  · obtain ⟨n, hlt, hu⟩ := h.minted d u y (hsnap d u y hm)
    exact ⟨n, Nat.lt_succ_of_lt hlt, hu⟩
  · rcases List.mem_append.mp hm with hm | hm
    · obtain ⟨e, he, hid, hfaith⟩ := h.faithful d id token opts hm
      exact ⟨e, he, hid, hfaith.mono hle hsnap fun hs => ⟨hs, rfl, rfl⟩⟩
    · simp only [List.mem_singleton, Prod.mk.injEq, Frame.execute.injEq] at hm
      obtain ⟨_, rfl, _, rfl⟩ := hm
      refine ⟨entry, hi.queued entry hentry, rfl, ?_⟩
      unfold WorkerSnapshotChannel.reference
      split
      · exact .inl rfl
      · rename_i hg
        simp only [Bool.or_eq_true, Bool.not_eq_true', not_or, Bool.not_eq_false] at hg
        obtain ⟨hopen, hx, n, hlt, hu⟩ := h.chosen hg.1
        have hdata : s.snapshots.snapshot = crossChainData entry.opts :=
          hx.trans (h.queued hopen entry hentry hg.2).symm
        refine .inr ⟨n, Nat.lt_succ_of_lt hlt, by simp [crossChainData, hu], fun d y hy => ?_, fun _ _ => hdata⟩
        exact (h.current hg.1 d _ y (hsnap d _ y hy) hu).trans hdata

theorem enroll (h : Agreed host b x s) {opts : Value} (hu : Unguessed host opts)
    (hx : b = true → hasSerializableCrossChainSnapshot opts = true → crossChainData opts = x) :
    Agreed host b x (s.admitted cfg opts) := by
  refine ⟨h.open_eq, h.chosen, fun hb e he hser => ?_, fun e he => ?_, h.minted, h.current,
    fun c id token o hm => ?_⟩
  · rcases List.mem_append.mp he with he | he
    · exact h.queued hb e he hser
    · obtain rfl := List.mem_singleton.mp he
      exact hx hb hser
  · rcases List.mem_cons.mp he with rfl | he
    · exact hu
    · exact h.unguessed e he
  · obtain ⟨e, he, hid, hfaith⟩ := h.faithful c id token o hm
    exact ⟨e, List.mem_cons_of_mem _ he, hid, hfaith.mono (Nat.le_refl _) (fun _ _ _ hm => hm)
      fun hs => ⟨hs, rfl, rfl⟩⟩

end Agreed

/-- What the caller promises of one call: its data names no minted token and, inside a
block, is the data of that block. -/
def Promised (host : Host) (b : Bool) (x : Value) : Event → Prop
  | .execute opts _ => Unguessed host opts ∧ (b = true → crossChainData opts = x)
  | _ => True

theorem Move.agreed {b : Bool} {x : Value} {l : List (RequestId × Settlement)} {s t : State}
    (hfresh : Function.Injective host.token) (hbegin : event ≠ .beginBlock) (hend : event ≠ .endBlock)
    (hcall : Promised host b x event) (hi : Inv s) (h : Agreed host b x s)
    (hm : Move host cfg origin event l s t) : Agreed host b x t := by
  cases hm with
  | quiet hv =>
    have hf : ∀ {α : Type} (f : State → α), (∀ u, f (visible u) = f u) → f t = f s := by
      intro α f hf
      rw [← hf t, hv, hf]
    have hsnap := hf State.snapshots fun _ => rfl
    exact h.same (hf State.inBlock fun _ => rfl) (by rw [hsnap]) (by rw [hsnap]) (by rw [hsnap])
      (by rw [hf State.queue fun _ => rfl]; exact fun _ he => he) (hf State.accepted fun _ => rfl)
      (hf State.tokens fun _ => rfl) (hf State.frames fun _ => rfl)
  | cut =>
    rw [closeChannel_eq]
    exact h.same rfl rfl rfl rfl (fun _ he => he) rfl rfl rfl
  | kill =>
    rw [kill_eq]
    exact h.same rfl rfl rfl rfl (fun _ he => he) rfl rfl rfl
  | mint =>
    exact h.keep rfl (fun hs => ⟨hs, rfl, rfl⟩) (fun _ he => he) rfl (Nat.le_succ _) (fun _ hm => .inl hm)
  | post hc hf =>
    refine h.keep rfl (fun hs => ⟨hs, rfl, rfl⟩) (fun _ he => he) rfl (Nat.le_refl _) (fun f hm => ?_)
    rcases List.mem_append.mp hm with hm | hm
    · exact .inl hm
    · obtain rfl := List.mem_singleton.mp hm
      exact .inr hf
  | @boundary _ inBlock he =>
    cases inBlock with
    | true => exact absurd he hbegin
    | false => exact absurd he hend
  | choose hq => exact h.choose hfresh hq
  | ship hq hp hc hset ha hs => exact h.ship _ _ hset
  | unship hs => exact h.keep rfl nofun (fun _ he => he) rfl (Nat.le_refl _) (fun _ hm => .inl hm)
  | launch hr => exact h.launch hi hr
  | reject hr message =>
    refine h.same rfl rfl rfl rfl (fun e he => ?_) rfl rfl rfl
    rw [hr.queue]
    exact List.mem_cons_of_mem _ he
  | ack he =>
    unfold WorkerSnapshotChannel.onMessage WorkerSnapshotChannel.clearTimer
    split
    · rw [clearTimeout_eq]
      exact h.same rfl rfl rfl rfl (fun _ he => he) rfl rfl rfl
    · exact h
  | ready =>
    rw [readied_eq]
    exact h.same rfl rfl rfl rfl (fun _ he => he) rfl rfl rfl
  | lose hc he =>
    rw [lost_eq]
    exact h.same rfl rfl rfl rfl (fun _ he => he) rfl rfl rfl
  | reset hc =>
    rw [spawnReset_eq]
    exact h.same rfl rfl rfl rfl (fun _ he => he) rfl rfl rfl
  | latch hc reason => exact h.same rfl rfl rfl rfl nofun rfl rfl rfl
  | enroll he hsd hb =>
    subst he
    exact h.enroll hcall.1 fun hb _ => hcall.2 hb
  | shutdown he =>
    rw [shutdown_eq]
    exact h.same rfl rfl rfl rfl nofun rfl rfl rfl
  | _ => exact h.same rfl rfl rfl rfl (fun _ he => he) rfl rfl rfl

theorem Reaches.agreed {b : Bool} {x : Value} {s t : State} (hr : Reaches host cfg origin event s t)
    (hfresh : Function.Injective host.token) (hbegin : event ≠ .beginBlock) (hend : event ≠ .endBlock)
    (hcall : Promised host b x event) (hi : Inv s) (h : Agreed host b x s) : Agreed host b x t := by
  obtain ⟨l, hm⟩ := hr
  exact (hm.invariant (I := fun u => Inv u ∧ Agreed host b x u)
    (fun _ _ _ hu hm => ⟨hm.inv hu.1, hm.agreed hfresh hbegin hend hcall hu.1 hu.2⟩) ⟨hi, h⟩).2

theorem send_agreed {b : Bool} {x : Value} {s : State} {f : Frame} (hf : f.isControl = true)
    (hfresh : Function.Injective host.token) (hi : Inv s) (h : Agreed host b x s) :
    Agreed host b x (send host f s).2 := by
  have hr : Reaches host ⟨0⟩ s .shutdown s (send host f s).2 := send_reaches host hf s
  exact hr.agreed hfresh (by simp) (by simp) trivial hi h

theorem beginBlock_agreed {b : Bool} {x : Value} {s : State} (hfresh : Function.Injective host.token)
    (hi : Inv s) (h : Agreed host b x s) (x' : Value)
    (hq : ∀ e ∈ s.queue, hasSerializableCrossChainSnapshot e.opts = true → crossChainData e.opts = x') :
    Agreed host true x' (beginBlock host s) := by
  have hinv : Inv (WorkerSnapshotChannel.beginBlock { s with inBlock := true }) :=
    WorkerSnapshotChannel.beginBlock_inv (hi.of_core_eq rfl)
  exact send_agreed rfl hfresh hinv (h.boundary true x' fun _ => hq)

theorem endBlock_agreed {b : Bool} {x : Value} {s : State} (hfresh : Function.Injective host.token)
    (hi : Inv s) (h : Agreed host b x s) (x' : Value) : Agreed host false x' (endBlock host s) := by
  unfold endBlock WorkerSnapshotChannel.endBlock
  rw [send_inBlock]
  exact (send_agreed rfl hfresh hi h).boundary false x' nofun

theorem initial_agreed (hfresh : Function.Injective host.token) (x : Value) :
    Agreed host false x (initial host) := by
  have hblank : Agreed host false x blank :=
    ⟨rfl, nofun, nofun, by simp [blank], by simp [blank], nofun, by simp [blank]⟩
  exact (initial_reaches host ⟨0⟩ .shutdown).agreed hfresh (by simp) (by simp) trivial blank_inv hblank

/-- A worker holds nothing that was not sent to it. -/
structure Worker.Received (s : State) (c : ChildId) (w : Worker) : Prop where
  snapshot : ∀ t, w.crossChainSnapshotToken = some t → (c, Frame.snapshot t w.crossChainSnapshot) ∈ s.frames
  chain : ∀ task ∈ w.chain, (c, Frame.execute task.id task.token task.opts) ∈ s.frames

theorem Worker.Received.mono {s t : State} {c : ChildId} {w : Worker} (h : w.Received s c)
    (hf : ∀ f ∈ s.frames, f ∈ t.frames) : w.Received t c :=
  ⟨fun u hu => hf _ (h.snapshot u hu), fun task ht => hf _ (h.chain task ht)⟩

theorem mem_sentTo {c : ChildId} {s : State} {f : Frame} (h : f ∈ System.sentTo c s) : (c, f) ∈ s.frames := by
  obtain ⟨⟨d, g⟩, hm, rfl⟩ := List.mem_map.mp h
  obtain ⟨hm, hd⟩ := List.mem_filter.mp hm
  simp only [decide_eq_true_eq] at hd
  exact hd ▸ hm

theorem Worker.Received.onMessage {s : State} {c : ChildId} {w : Worker} {f : Frame} (h : w.Received s c)
    (hf : (c, f) ∈ s.frames) (n : Nat) : ({ w.onMessage f with delivered := n } : Worker).Received s c := by
  cases f with
  | init => exact ⟨h.snapshot, h.chain⟩
  | beginBlock => exact ⟨h.snapshot, h.chain⟩
  | endBlock => exact ⟨nofun, h.chain⟩
  | snapshot token data =>
    refine ⟨fun t ht => ?_, h.chain⟩
    obtain rfl := Option.some.inj ht
    exact hf
  | execute id token opts =>
    refine ⟨h.snapshot, fun task ht => ?_⟩
    rcases List.mem_append.mp ht with ht | ht
    · exact h.chain task ht
    · obtain rfl := List.mem_singleton.mp ht
      exact hf

/-- What data can resolve to: itself when it bears no mark, or the worker's snapshot when
it names its token, or names the absent one and the worker has none. -/
inductive Resolved (w : Worker) (snap : Value) : Value → Prop
  | plain (hm : snap.ownProperty? "__xchainWorkerSnapshot" = none) : Resolved w snap snap
  | absent (hm : snap.ownProperty? "__xchainWorkerSnapshot" = some .null)
      (ht : w.crossChainSnapshotToken = none) : Resolved w snap w.crossChainSnapshot
  | named {t : Token} (hm : snap.ownProperty? "__xchainWorkerSnapshot" = some (.string t))
      (ht : w.crossChainSnapshotToken = some t) : Resolved w snap w.crossChainSnapshot

theorem resolved_of_eq {w : Worker} {snap d : Value} (h : w.buildCrossChainAccessor snap = some d) :
    Resolved w snap d := by
  unfold Worker.buildCrossChainAccessor at h
  split at h
  · obtain rfl := Option.some.inj h
    exact .plain rfl
  · obtain rfl := Option.some.inj h
    exact .plain rfl
  · unfold Worker.resolveWorkerCrossChainSnapshot at h
    split at h
    · rename_i hm
      obtain rfl := Option.some.inj h
      exact .plain hm
    · rename_i m hm
      split at h
      · rename_i t u ht
        split at h
        · rename_i hu
          obtain rfl := Option.some.inj h
          exact .named (hu ▸ hm) ht
        · simp at h
      · rename_i ht
        obtain rfl := Option.some.inj h
        exact .absent hm ht
      · simp at h

/-- The data of this task names the absent snapshot to a worker that has none. -/
def NamesAbsent (w : Worker) (task : Task) : Prop :=
  mark task.opts = some .null ∧ w.crossChainSnapshotToken = none

/-- A faithful task runs against its request's own data, or ends in a host fault. -/
theorem crossChainData_of_faithful {b : Bool} {x : Value} {s : State} {c : ChildId} {w : Worker}
    (h : Agreed host b x s) (hw : w.Received s c) {e : QueueEntry} (he : e ∈ s.accepted) {task : Task}
    (hf : Faithful host s e task.opts) (habsent : ¬NamesAbsent w task) {d : Value}
    (hd : w.buildCrossChainAccessor (crossChainData task.opts) = some d) : d = crossChainData e.opts := by
  rcases hf with hf | ⟨n, _, href, hsent, _⟩
  · cases resolved_of_eq hd with
    | plain hm => rw [hf]
    | absent hm ht => exact absurd ⟨hm, ht⟩ habsent
    | named hm ht =>
      obtain ⟨n, _, rfl⟩ := h.minted c _ _ (hw.snapshot _ ht)
      exact absurd (hf ▸ hm) (h.unguessed e he n)
  · have hmark : (crossChainData task.opts).ownProperty? "__xchainWorkerSnapshot" =
        some (.string (host.token n)) := by
      rw [href]
      rfl
    cases resolved_of_eq hd with
    | plain hm => simp [hmark] at hm
    | absent hm ht => simp [hmark] at hm
    | @named t hm ht =>
      obtain rfl : host.token n = t := by simpa [hmark] using hm
      exact hsent c _ (hw.snapshot _ ht)

namespace System

/-- Every execution so far ran against its request's own data, or ended in a host fault. -/
def Exact (y : System) : Prop :=
  ∀ r ∈ y.ran, ∀ d, r.crossChainData = some d → ∃ e ∈ y.parent.accepted, e.id = r.id ∧ d = crossChainData e.opts

structure Sound (host : Host) (v : Nat → Value) (y : System) : Prop where
  inv : Inv y.parent
  agreed : ∃ b, Agreed host b (v y.block) y.parent
  received : ∀ c, (y.workers c).Received y.parent c
  exact : y.Exact

/-- All calls of one block carry the data of that block, and none names a minted token. -/
def Uniform (host : Host) (v : Nat → Value) (y : System) : SystemEvent → Prop
  | .parent e => Promised host y.parent.inBlock (v y.block) e
  | _ => True

/-- A new block finds no queued request whose snapshot is not the new block's own data,
and no execution starts on data that names the absent snapshot. -/
def Undisturbed (v : Nat → Value) (y : System) : SystemEvent → Prop
  | .parent .beginBlock => ∀ e ∈ y.parent.queue, hasSerializableCrossChainSnapshot e.opts = true →
      crossChainData e.opts = v (y.block + 1)
  | .run c => ∀ task, (y.workers c).chain.head? = some task → ¬NamesAbsent (y.workers c) task
  | _ => True

variable {v : Nat → Value} {y : System}

theorem parent_sound (h : Sound host v y) (e : Event) (block : Nat)
    (hagreed : ∃ b, Agreed host b (v block) (Executor.step host cfg y.parent e)) :
    Sound host v { y with parent := Executor.step host cfg y.parent e, block := block } := by
  have hr := step_reaches host cfg y.parent e (fun ho => (h.inv.off ho).1) h.inv.born
  refine ⟨step_inv h.inv e, hagreed, fun c => ?_, fun r hm d hd => ?_⟩
  · exact (h.received c).mono fun f hf => hr.frames_prefix.subset hf
  · obtain ⟨entry, he, hid⟩ := h.exact r hm d hd
    exact ⟨entry, hr.accepted_mono he, hid⟩

theorem deliver_sound (h : Sound host v y) (c : ChildId) : Sound host v (deliver c y) := by
  unfold deliver
  dsimp only
  split
  · exact h
  · rename_i f hf
    have hmem : (c, f) ∈ y.parent.frames := mem_sentTo (List.mem_of_getElem? hf)
    refine ⟨h.inv, h.agreed, fun d => ?_, h.exact⟩
    by_cases hd : d = c
    · subst hd
      simpa using (h.received d).onMessage hmem _
    · simpa [Function.update_of_ne hd] using h.received d

theorem runNext_sound (h : Sound host v y) (c : ChildId)
    (habsent : ∀ task, (y.workers c).chain.head? = some task → ¬NamesAbsent (y.workers c) task) :
    Sound host v (runNext c y) := by
  unfold runNext
  dsimp only
  split
  · exact h
  · rename_i task rest hchain
    obtain ⟨b, hagreed⟩ := h.agreed
    have htask : task ∈ (y.workers c).chain := by simp [hchain]
    refine ⟨h.inv, h.agreed, fun d => ?_, fun r hm d hd => ?_⟩
    · by_cases hd : d = c
      · subst hd
        have hw := h.received d
        simpa using (⟨hw.snapshot, fun u hu => hw.chain u (by simp [hchain, hu])⟩ :
          ({ y.workers d with chain := rest } : Worker).Received y.parent d)
      · simpa [Function.update_of_ne hd] using h.received d
    · rcases List.mem_cons.mp hm with rfl | hm
      · obtain ⟨e, he, hid, hfaith⟩ := hagreed.faithful c task.id task.token task.opts
          ((h.received c).chain task htask)
        exact ⟨e, he, hid, crossChainData_of_faithful hagreed (h.received c) he hfaith
          (habsent task (by simp [hchain])) hd⟩
      · exact h.exact r hm d hd

theorem step_sound (hfresh : Function.Injective host.token) (h : Sound host v y) {e : SystemEvent}
    (hu : Uniform host v y e) (hl : Undisturbed v y e) : Sound host v (step host cfg y e) := by
  cases e with
  | deliver c => exact deliver_sound h c
  | run c => exact runNext_sound h c hl
  | parent e =>
    obtain ⟨b, hagreed⟩ := h.agreed
    have hr := step_reaches host cfg y.parent e (fun ho => (h.inv.off ho).1) h.inv.born
    obtain rfl : y.parent.inBlock = b := hagreed.open_eq
    have hother : e ≠ .beginBlock → e ≠ .endBlock →
        Agreed host y.parent.inBlock (v y.block) (Executor.step host cfg y.parent e) :=
      fun hb he => hr.agreed hfresh hb he hu h.inv hagreed
    cases e with
    | beginBlock => exact parent_sound h .beginBlock _ ⟨true, beginBlock_agreed hfresh h.inv hagreed _ hl⟩
    | endBlock => exact parent_sound h .endBlock _ ⟨false, endBlock_agreed hfresh h.inv hagreed _⟩
    | message c msg => exact parent_sound h (.message c msg) _ ⟨_, hother (by simp) (by simp)⟩
    | exit c code signal => exact parent_sound h (.exit c code signal) _ ⟨_, hother (by simp) (by simp)⟩
    | spawnError code => exact parent_sound h (.spawnError code) _ ⟨_, hother (by simp) (by simp)⟩
    | disconnect c => exact parent_sound h (.disconnect c) _ ⟨_, hother (by simp) (by simp)⟩
    | timer t => exact parent_sound h (.timer t) _ ⟨_, hother (by simp) (by simp)⟩
    | execute opts now => exact parent_sound h (.execute opts now) _ ⟨_, hother (by simp) (by simp)⟩
    | shutdown => exact parent_sound h .shutdown _ ⟨_, hother (by simp) (by simp)⟩

theorem start_sound (hfresh : Function.Injective host.token) (v : Nat → Value) : Sound host v (start host) where
  inv := initial_inv
  agreed := ⟨false, initial_agreed hfresh _⟩
  received _ := ⟨nofun, nofun⟩
  exact := nofun

/-- In a run whose blocks find no foreign leftovers, every execution sees its own data. -/
theorem snapshot_agreement (host : Host) (cfg : Config) (hfresh : Function.Injective host.token)
    (v : Nat → Value) (events : List SystemEvent)
    (hmeets : Machine.Meets (step host cfg) (fun y e => Uniform host v y e ∧ Undisturbed v y e)
      (start host) events) :
    Machine.Throughout (step host cfg) Exact (start host) events := by
  have hsound := hmeets.throughout (I := Sound host v)
    (fun y e h hc => step_sound hfresh h hc.1 hc.2) (start_sound hfresh v)
  intro first second he
  exact (hsound first second he).exact

def earlierData : Value := .object [("settled", .object [])]

def laterData : Value := .object []

def callWith (data : Value) : SystemEvent := .parent (.execute (.object [("crossChainData", data)]) 0)

def resultFrame (id : RequestId) (token : Token) : Value :=
  .object [("type", .string "result"), ("id", .number (.finite id)), ("token", .string token),
    ("result", .object [("success", .bool true), ("error", .null), ("gasUsed", .number (.finite 0)),
      ("stateChanges", .array []), ("stateDeletes", .array []), ("emittedActions", .array []),
      ("logs", .array [])])]

theorem snapshot_agreement_acknowledged :
    let events : List SystemEvent := [.parent .beginBlock, callWith earlierData, .parent (.message 0 readyFrame),
      .deliver 0, .deliver 0, .deliver 0, .parent (.message 0 (snapshotAckFrame (steadyToken 0))),
      .deliver 0, .run 0]
    (run steady ⟨1000⟩ events).ran.map Ran.id = [1] ∧
      Machine.Throughout (step steady ⟨1000⟩) Exact (start steady) events := by
  refine ⟨by decide, snapshot_agreement steady ⟨1000⟩ steadyToken_injective (fun _ => earlierData) _ ?_⟩
  refine ⟨⟨trivial, nofun⟩, ⟨⟨fun _ => nofun, fun _ => rfl⟩, trivial⟩, ⟨trivial, trivial⟩, ⟨trivial, trivial⟩,
    ⟨trivial, trivial⟩, ⟨trivial, trivial⟩, ⟨trivial, trivial⟩, ⟨trivial, trivial⟩, ⟨trivial, ?_⟩, trivial⟩
  intro task _ h
  exact Option.some_ne_none (steadyToken 0) h.2

/-- The request of the first block is still queued when the second begins, so its snapshot
is chosen there and the second request is sent as a reference to it. -/
def leftoverRun : List SystemEvent :=
  [.parent .beginBlock, callWith earlierData, .parent .endBlock, .parent .beginBlock, callWith laterData,
    .parent (.message 0 readyFrame), .deliver 0, .deliver 0, .deliver 0, .deliver 0, .deliver 0,
    .parent (.message 0 (snapshotAckFrame (steadyToken 0))),
    .parent (.message 0 (resultFrame 1 (steadyToken 1))), .deliver 0, .deliver 0, .run 0, .run 0]

theorem leftover_runs_foreign_snapshot :
    ¬∀ (host : Host) (cfg : Config) (v : Nat → Value) (events : List SystemEvent),
      Function.Injective host.token → Machine.Meets (step host cfg) (Uniform host v) (start host) events →
      Exact (run host cfg events) := by
  intro h
  have hmeets : Machine.Meets (step steady ⟨1000⟩)
      (Uniform steady fun k => if k = 1 then earlierData else laterData) (start steady) leftoverRun :=
    ⟨trivial, ⟨fun _ => nofun, fun _ => rfl⟩, trivial, trivial, ⟨fun _ => nofun, fun _ => rfl⟩, trivial, trivial,
      trivial, trivial, trivial, trivial, trivial, trivial, trivial, trivial, trivial, trivial, trivial⟩
  have hran : ((run steady ⟨1000⟩ leftoverRun).ran.map fun r =>
      (r.id, r.crossChainData.map fun d => d.hasOwnProperty "settled")) = [(2, some true), (1, some true)] := by
    decide
  have haccepted : ((run steady ⟨1000⟩ leftoverRun).parent.accepted.map fun e =>
      (e.id, (crossChainData e.opts).hasOwnProperty "settled")) = [(2, false), (1, true)] := by
    decide
  have hexact := h steady ⟨1000⟩ _ leftoverRun steadyToken_injective hmeets
  obtain ⟨r, hr, hrid⟩ := List.mem_map.mp (hran ▸ List.mem_cons_self :
    ((2, some true) : RequestId × Option Bool) ∈ (run steady ⟨1000⟩ leftoverRun).ran.map fun r =>
      (r.id, r.crossChainData.map fun d => d.hasOwnProperty "settled"))
  obtain ⟨hid, hdata⟩ := Prod.mk.inj hrid
  obtain ⟨d, hd, hown⟩ := Option.map_eq_some_iff.mp hdata
  obtain ⟨e, he, heid, rfl⟩ := hexact r hr d hd
  have hentry := List.mem_map_of_mem (f := fun e : QueueEntry =>
    (e.id, (crossChainData e.opts).hasOwnProperty "settled")) he
  rw [haccepted] at hentry
  simp [heid, hid, hown] at hentry

end System

end XChainVM.Executor
