import XChainVM.Executor.DispatchLoop

/-! # Every handler is a sequence of moves

The spawn attempts are an induction over the failures left; the handlers follow
the branches of the source.
-/

namespace XChainVM.Executor

open Js

variable {host : Host} {cfg : Config} {origin : State} {event : Event}

open WorkerSnapshotChannel (flush_reaches)

/-- A spawn starts from here: no child, no shutdown, no latch. -/
structure Vacant (s : State) : Prop where
  child : s.child = none
  shuttingDown : s.shuttingDown = false
  broken : s.broken = false

theorem workerForked_reaches {s : State} (h : Vacant s) (hr : s.everReady = false)
    (hs : s.snapshots.sent = false) (connected : Bool) :
    Reaches host cfg origin event s (workerForked host connected s) := by
  rw [workerForked_eq]
  have hi : Reaches host cfg origin event s { s.installed connected with lastSpawnError := none } :=
    (Reaches.of_move (.install h.child hr h.shuttingDown h.broken hs connected)).then_quiet rfl
  have hsend := hi.trans (send_reaches host (f := .init) rfl _)
  dsimp only
  split
  · exact hsend.trans (send_reaches host rfl _)
  · exact hsend

theorem spawnAttempts_reaches (n : Nat) {s : State} (h : Vacant s) :
    Reaches host cfg origin event s (spawnAttempts host n s) := by
  induction n generalizing s with
  | zero =>
    unfold spawnAttempts
    have hr : Reaches host cfg origin event s (spawnReset s) := .of_move (.reset h.child)
    have he := spawnReset_eq s
    generalize spawnReset s = t at hr he
    have hv : Vacant t := by rw [he]; exact ⟨h.child, h.shuttingDown, h.broken⟩
    dsimp only
    split
    · exact hr.trans (workerForked_reaches hv (by rw [he]) (by rw [he]) _)
    · rw [latchBroken_eq]
      refine ((hr.then_move (.forkFailed hv.child)).then_quiet ?_).then_move (.latch rfl _)
      simp [visible, hv.child]
  | succ n ih =>
    unfold spawnAttempts
    have hr : Reaches host cfg origin event s (spawnReset s) := .of_move (.reset h.child)
    have he := spawnReset_eq s
    generalize spawnReset s = t at hr he
    have hv : Vacant t := by rw [he]; exact ⟨h.child, h.shuttingDown, h.broken⟩
    dsimp only
    split
    · exact hr.trans (workerForked_reaches hv (by rw [he]) (by rw [he]) _)
    · refine ((hr.then_move (.forkFailed hv.child)).then_quiet ?_).trans
        (ih ⟨rfl, hv.shuttingDown, hv.broken⟩)
      simp [visible, hv.child]

theorem spawn_reaches {s : State} (hc : s.child = none) (hb : s.broken = false) :
    Reaches host cfg origin event s (spawn host s) := by
  unfold spawn
  split
  · exact .refl s
  · rename_i hsd
    exact spawnAttempts_reaches _ ⟨hc, by simpa using hsd, hb⟩

theorem afterWorkerLost_reaches {s : State} (hc : s.child = none) (hb : s.broken = false) (neverReady : Bool) :
    Reaches host cfg origin event s (afterWorkerLost host neverReady s) := by
  unfold afterWorkerLost
  split
  · exact .refl s
  · dsimp only
    generalize ht : (if neverReady = true then _ else _ : State) = t
    have hv : visible t = visible s := by subst ht; split <;> rfl
    have htc : t.child = none := by subst ht; split <;> exact hc
    have htb : t.broken = false := by subst ht; split <;> exact hb
    have hr : Reaches host cfg origin event s t := .of_quiet hv
    split
    · exact hr.then_move (.latch htc _)
    · exact hr.trans (spawn_reaches htc htb)

theorem findPending_mem {s : State} {msgId : Value} {entry : PendingEntry}
    (h : s.findPending msgId = some entry) : entry ∈ s.pending ∧ msgId.equalsNat entry.id = true :=
  ⟨List.mem_of_find?_eq_some h, by simpa using List.find?_some h⟩

theorem kill_reaches (s : State) :
    Reaches host cfg origin event s { s.kill with sawReady := false } := by
  have h : Reaches host cfg origin event s s.kill := .of_move (.kill s)
  refine h.then_move (.distrust fun c hc => ?_)
  rw [kill_eq] at hc
  exact kill_dying s c hc

theorem onReady_reaches (s : State) : Reaches host cfg s event s (onReady host s) := by
  unfold onReady
  split
  · exact .refl s
  · have h : Reaches host cfg s event s s.readied := .of_move .ready
    refine (h.then_quiet ?_).trans (flush_reaches _)
    unfold State.readied clearReadyTimer
    cases s.readyTimer <;> simp [State.clearTimeout, visible]

theorem onReply_reaches {s : State} {msg : Value} {c : ChildId}
    (hc : s.child.map Child.id = some c) :
    Reaches host cfg s (.message c msg) s (onReply host msg s) := by
  unfold onReply
  split
  · exact .refl s
  · rename_i entry hp
    split
    · rename_i fault hf
      exact (Reaches.of_move (.reply rfl hc hp (.inr ⟨_, rfl⟩))).trans (kill_reaches _)
    · rename_i hf
      refine (Reaches.of_move (.reply rfl hc hp ?_)).trans (flush_reaches _)
      split
      · rename_i htype
        exact .inl ⟨rfl, Value.equalsString_iff.mp htype, hf⟩
      · exact .inr ⟨_, rfl⟩

theorem onMessage_reaches (s : State) (msg : Value) (c : ChildId) :
    Reaches host cfg s (.message c msg) s (onMessage host msg c s) := by
  unfold onMessage
  split
  · exact .refl s
  · rename_i hc
    split
    · exact .refl s
    · split
      · exact (Reaches.of_move (.ack rfl)).trans (flush_reaches _)
      · split
        · exact onReady_reaches s
        · split
          · exact onReply_reaches (by simpa using hc)
          · exact .refl s

theorem onGone_reaches {s : State} {c : ChildId} {code : Option Int} {signal : Option String}
    (hborn : c < s.forks) (hb : s.child.map Child.id = some c → s.broken = false)
    (he : isSelfInflicted code signal = true →
      event = .exit c code signal ∧ s.child = origin.child ∧ s.pending = origin.pending) :
    Reaches host cfg origin event s (onGone host c code signal s) := by
  unfold onGone
  split
  · exact .refl s
  · by_cases hc : s.child.map Child.id = some c
    · rw [onExit_eq c code signal { s with gone := c :: s.gone } hc, lost_gone]
      have hl : Reaches host cfg origin event s (s.lost code signal) := .of_move (.lose hc he)
      have hd := hl.then_move (.depart (c := c) (by rw [lost_eq]; simp) (by rw [lost_eq]; exact hborn))
      rw [show (s.lost code signal).gone = s.gone by rw [lost_eq]] at hd
      refine hd.trans (afterWorkerLost_reaches ?_ ?_ _)
      · rw [lost_eq]
      · rw [lost_eq]
        exact hb hc
    · rw [onExit, if_pos hc]
      exact .of_move (.depart hc hborn)

theorem onReadyTimeout_reaches {s : State} {timer : Timer} {c : ChildId} (ht : timer ∈ s.timers)
    (hcall : timer.callback = .ready c) (hb : s.child.isSome = true → s.broken = false)
    (hborn : ∀ c, s.child.map Child.id = some c → c < s.forks) :
    Reaches host cfg origin event s
      (onReadyTimeout host c { s with timers := s.timers.filter (·.id ≠ timer.id) }) := by
  unfold onReadyTimeout
  dsimp only
  split
  · rename_i hg
    simp only [Bool.and_eq_true, decide_eq_true_eq] at hg
    have hk : Reaches host cfg origin event s s.kill := .of_move (.kill s)
    have hmem : timer ∈ s.kill.timers := by rw [kill_eq]; exact ht
    have hd := hk.then_move (.drop hmem (fun p _ => by simp [hcall])
      (fun d hd => .inr (.inr (by
        obtain rfl : c = d := by simpa [hcall] using hd
        exact kill_dying s c hg.2))) (by simp [hcall]))
    rw [kill_dropped]
    refine hd.trans (onGone_reaches ?_ (fun _ => ?_) fun h => absurd h (by decide))
    · rw [kill_eq]
      exact hborn c hg.2
    · rw [kill_eq]
      exact hb (by rw [← Option.isSome_map (f := Child.id), hg.2]; rfl)
  · rename_i hg
    simp only [Bool.and_eq_true, Bool.not_eq_true', decide_eq_true_eq, not_and] at hg
    refine .of_move (.drop ht (fun p _ => by simp [hcall]) (fun d hd => ?_) (by simp [hcall]))
    obtain rfl : c = d := by simpa [hcall] using hd
    cases he : s.everReady with
    | true => exact .inl rfl
    | false => exact .inr (.inl (hg he))

theorem onSnapshotTimeout_reaches {s : State} {timer : Timer} (ht : timer ∈ s.timers)
    (hcall : timer.callback = .snapshot) :
    Reaches host cfg origin event s
      (onSnapshotTimeout { s with timers := s.timers.filter (·.id ≠ timer.id) }) := by
  unfold onSnapshotTimeout
  dsimp only
  split
  · rename_i hg
    have hk : Reaches host cfg origin event s { s.kill with sawReady := false } := kill_reaches s
    have hmem : timer ∈ s.kill.timers := by rw [kill_eq]; exact ht
    have hd := hk.then_move (.drop hmem (fun p _ => by simp [hcall])
      (by simp [hcall]) (fun _ => .inr (.inr fun c hc => by
        rw [kill_eq] at hc
        exact kill_dying s c hc)))
    rw [kill_dropped]
    exact hd
  · rename_i hg
    simp only [Bool.and_eq_true, Bool.not_eq_true', not_and, Bool.not_eq_false] at hg
    refine .of_move (.drop ht (fun p _ => by simp [hcall]) (by simp [hcall]) fun _ => ?_)
    cases hs : s.snapshots.sent with
    | false => exact .inl rfl
    | true => exact .inr (.inl (hg hs))

theorem fireTimer_reaches {s : State} (t : TimerId) (hb : s.child.isSome = true → s.broken = false)
    (hborn : ∀ c, s.child.map Child.id = some c → c < s.forks) :
    Reaches host cfg s (.timer t) s (fireTimer host t s) := by
  unfold fireTimer
  split
  · exact .refl s
  · rename_i timer hfind
    have hmem := List.mem_of_find?_eq_some hfind
    obtain rfl : timer.id = t := by simpa using List.find?_some hfind
    dsimp only
    split
    · rename_i c hcall
      exact onReadyTimeout_reaches hmem hcall hb hborn
    · rename_i r hcall
      unfold onWatchdog
      cases hp : s.pending.find? (·.id = r) with
      | none =>
        simp only
        refine .of_move (.drop hmem (fun p hm => ?_) (by simp [hcall]) (by simp [hcall]))
        have := List.find?_eq_none.mp hp p hm
        rw [hcall]
        rintro ⟨⟩
        simp at this
      | some entry =>
        simp only
        obtain rfl : entry.id = r := by simpa using List.find?_some hp
        exact (Reaches.of_move (.watchdog rfl hmem hcall (List.mem_of_find?_eq_some hp))).trans
          (kill_reaches _)
    · rename_i hcall
      exact onSnapshotTimeout_reaches hmem hcall

theorem send_inBlock (f : Frame) (b : Bool) (s : State) :
    (send host f { s with inBlock := b }).2 = { (send host f s).2 with inBlock := b } := by
  rcases s with ⟨_ | c, _⟩
  · rfl
  · unfold send State.closeChannel
    dsimp only
    split
    · generalize host.send _ = r
      cases r with
      | accepted => rfl
      | threw closed _ => cases closed <;> rfl
    · rfl

theorem beginBlock_reaches (s : State) : Reaches host cfg s .beginBlock s (beginBlock host s) := by
  unfold beginBlock
  have hb : Reaches host cfg s .beginBlock s
      (WorkerSnapshotChannel.beginBlock { s with inBlock := true }) := .of_move (.boundary s true rfl)
  exact hb.trans (send_reaches host rfl _)

theorem endBlock_reaches (s : State) : Reaches host cfg s .endBlock s (endBlock host s) := by
  unfold endBlock
  rw [send_inBlock]
  have hp : Reaches host cfg s .endBlock s (send host .endBlock s).2 := send_reaches host rfl s
  exact hp.then_move (.boundary _ false rfl)

theorem execute_reaches (s : State) (opts : Value) (now : Int) (hb : s.broken = true → s.child = none) :
    Reaches host cfg s (.execute opts now) s (execute host cfg opts now s) := by
  have henq : ∀ t : State, t.shuttingDown = false → t.broken = false →
      Reaches host cfg s (.execute opts now) t (enqueue host cfg opts t) := by
    intro t hsd htb
    exact (Reaches.of_move (.enroll rfl hsd htb)).trans (flush_reaches _)
  unfold execute
  split
  · exact .of_quiet rfl
  · rename_i hsd
    split
    · rename_i hbr
      split
      · exact .of_quiet rfl
      · dsimp only
        have hu : Reaches host cfg s (.execute opts now) s
            { s with lastBrokenRetryAt := now, broken := false } :=
          (Reaches.of_move (.unlatch s)).then_quiet rfl
        have hs := hu.trans (spawn_reaches (hb hbr) rfl)
        split
        · exact hs.then_quiet rfl
        · rename_i hnb
          have hsd' := hs.shuttingDown (by simp)
          exact hs.trans (henq _ (hsd'.trans (by simpa using hsd)) (by simpa using hnb))
    · rename_i hnb
      exact henq s (by simpa using hsd) (by simpa using hnb)

variable (host cfg) in
theorem step_reaches (s : State) (event : Event)
    (hoff : s.shuttingDown = true ∨ s.broken = true → s.child = none)
    (hborn : ∀ c, s.child.map Child.id = some c → c < s.forks) :
    Reaches host cfg s event s (step host cfg s event) := by
  have hb : s.child.isSome = true → s.broken = false := by
    intro hc
    by_contra hn
    simp [hoff (.inr (by simpa using hn))] at hc
  cases event with
  | message c msg => exact onMessage_reaches s msg c
  | exit c code signal =>
    simp only [step]
    split
    · rename_i hlt
      refine onGone_reaches hlt (fun hc => hb ?_) fun _ => ⟨rfl, rfl, rfl⟩
      rw [← Option.isSome_map (f := Child.id), hc]
      rfl
    · exact .refl s
  | spawnError code => exact .of_quiet rfl
  | disconnect c =>
    simp only [step]
    split
    · exact .of_move (.cut s)
    · exact .refl s
  | timer t => exact fireTimer_reaches t hb hborn
  | beginBlock => exact beginBlock_reaches s
  | endBlock => exact endBlock_reaches s
  | execute opts now => exact execute_reaches s opts now fun h => hoff (.inr h)
  | shutdown => exact .of_move (.shutdown rfl)

end XChainVM.Executor
