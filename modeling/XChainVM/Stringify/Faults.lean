import XChainVM.Stringify.Resolve

/-! # When a resolution faults, and that it ends

The gas asked for and the containers gone into say which fault is due. A charge pays for every
frame, so the steps of a whole resolution are bounded by its gas.
-/

namespace XChainVM.Stringify

open Machine

/-- Everything asked for was paid, and no container gone into is too deep. -/
structure Solvent (gas limit : ℕ) (s : State) : Prop where
  paid : s.owed + s.gas = gas
  shallow : ∀ path ∈ s.entered, path.length ≤ limit

def Accounted (gas limit : ℕ) (s : State) : Prop :=
  match s.phase with
  | .done .outOfGas => gas < s.owed ∧ ∀ path ∈ s.entered, path.length ≤ limit
  | .done .outOfStack => s.owed ≤ gas ∧ ∃ path ∈ s.entered, limit < path.length
  | _ => Solvent gas limit s

variable {gas limit : ℕ} {s : State}

theorem Solvent.accounted (h : Solvent gas limit s) (hgas : s.phase ≠ .done .outOfGas)
    (hstack : s.phase ≠ .done .outOfStack) : Accounted gas limit s := by
  unfold Accounted
  split
  · contradiction
  · contradiction
  · exact h

theorem Accounted.outOfGas_iff (h : Accounted gas limit s) : s.phase = .done .outOfGas ↔ gas < s.owed := by
  unfold Accounted at h
  split at h
  · next hphase => exact iff_of_true hphase h.1
  · next hphase =>
    rw [hphase]
    exact iff_of_false nofun (Nat.not_lt.mpr h.1)
  · next hne _ => exact iff_of_false hne (by have := h.paid; omega)

theorem Accounted.outOfStack_iff (h : Accounted gas limit s) :
    s.phase = .done .outOfStack ↔ ∃ path ∈ s.entered, limit < path.length := by
  have hnone : (∀ path ∈ s.entered, path.length ≤ limit) → ¬∃ path ∈ s.entered, limit < path.length := by
    rintro hshallow ⟨path, hpath, hdeep⟩
    exact Nat.not_lt.mpr (hshallow path hpath) hdeep
  unfold Accounted at h
  split at h
  · next hphase =>
    rw [hphase]
    exact iff_of_false nofun (hnone h.2)
  · next hphase => exact iff_of_true hphase h.2
  · next _ hne => exact iff_of_false hne (hnone h.shallow)

theorem accounted_spend {k : State → State} (h : Solvent gas limit s) (n : ℕ)
    (hk : ∀ s', Solvent gas limit s' → Accounted gas limit (k s')) : Accounted gas limit (s.spend n k) := by
  have hpaid := h.paid
  unfold State.spend
  split
  · exact ⟨hpaid, h.shallow⟩
  · split
    · exact ⟨by dsimp only [State.ends]; omega, h.shallow⟩
    · exact hk _ ⟨by dsimp only; omega, h.shallow⟩

theorem accounted_spendScan {k : State → State} (h : Solvent gas limit s) (n : ℕ)
    (hk : ∀ s', Solvent gas limit s' → Accounted gas limit (k s')) : Accounted gas limit (s.spendScan n k) := by
  unfold State.spendScan
  split
  · exact accounted_spend h n hk
  · exact hk s h

theorem accounted_asks {k : State → State} (h : Solvent gas limit s) (r : Reply)
    (hk : ∀ s', Solvent gas limit s' → Accounted gas limit (k s')) : Accounted gas limit (s.asks r k) := by
  have hpaid := h.paid
  unfold State.asks
  split
  · exact ⟨by dsimp only [State.ends]; omega, h.shallow⟩
  · have hafter : Solvent gas limit (s.after r) := ⟨by dsimp only [State.after]; omega, h.shallow⟩
    split
    · exact ⟨hafter.paid, hafter.shallow⟩
    · exact hk _ hafter

theorem accounted_materialize {k : State → Frame → State} (h : Solvent gas limit s) (r : Reply) (f : Frame)
    (hk : ∀ s' f', Solvent gas limit s' → Accounted gas limit (k s' f')) :
    Accounted gas limit (s.materialize r f k) := by
  unfold State.materialize
  split
  · exact hk s f h
  · refine accounted_spend h _ fun s' hs' => ?_
    split
    · exact hk _ _ hs'
    · exact accounted_asks hs' r fun s'' hs'' => hk _ _ hs''

theorem accounted_materializeIf {k : State → Frame → State} (h : Solvent gas limit s) (dirty : Bool) (r : Reply)
    (f : Frame) (hk : ∀ s' f', Solvent gas limit s' → Accounted gas limit (k s' f')) :
    Accounted gas limit (s.materializeIf dirty r f k) := by
  unfold State.materializeIf
  split
  · exact accounted_materialize h r f hk
  · exact hk s f h

theorem accounted_callReplacer (h : Solvent gas limit s) (key : String) (v : Harness.Val) (hooked : Bool) :
    Accounted gas limit (Walk.callReplacer s key v hooked) := by
  unfold Walk.callReplacer
  split
  · exact accounted_spend h 1 fun s' hs' => ⟨hs'.paid, hs'.shallow⟩
  · exact ⟨h.paid, h.shallow⟩

theorem accounted_resolve (h : Solvent gas limit s) (key : String) (v : Harness.Val) :
    Accounted gas limit (Walk.resolve s key v) := by
  unfold Walk.resolve
  split
  · exact ⟨h.paid, h.shallow⟩
  · exact accounted_callReplacer h key v false

variable {w : Walk}

/-- The path of a new container is as long as the walk is deep. -/
theorem accounted_pushFrame (h : Solvent gas w.depthLimit s) (r : Reply) (src : ℕ) (isArr dirty : Bool)
    (key : String) : Accounted gas w.depthLimit (w.pushFrame s r src isArr dirty key) := by
  unfold Walk.pushFrame
  refine accounted_spend h 1 fun s' hs' => ?_
  split
  · exact ⟨hs'.paid, hs'.shallow⟩
  · dsimp only
    split
    · next hdeep =>
      refine ⟨?_, key :: s'.pool.frames.map Frame.pKey, List.mem_cons_self, ?_⟩
      · have hpaid := hs'.paid
        dsimp only [State.ends]
        omega
      · simpa using hdeep
    · next hroom =>
      have hentered : Solvent gas w.depthLimit
          { s' with entered := (key :: s'.pool.frames.map Frame.pKey) :: s'.entered } := by
        refine ⟨hs'.paid, fun path hpath => ?_⟩
        obtain rfl | hpath := List.mem_cons.mp hpath
        · simpa using hroom
        · exact hs'.shallow path hpath
      refine accounted_spendScan hentered _ fun s'' hs'' => ?_
      exact accounted_materializeIf hs'' dirty r _ fun t f ht => ⟨ht.paid, ht.shallow⟩

theorem accounted_popFrame (h : Solvent gas limit s) (r : Reply) (f : Frame) (rest : List Frame) :
    Accounted gas limit (Walk.popFrame s r f rest) := by
  unfold Walk.popFrame
  split
  · exact ⟨h.paid, h.shallow⟩
  · exact accounted_materializeIf h f.out.isSome r _ fun s' pf hs' => ⟨hs'.paid, hs'.shallow⟩

theorem accounted_next (h : Solvent gas limit s) (r : Reply) : Accounted gas limit (Walk.next s r) := by
  unfold Walk.next
  split
  · exact ⟨h.paid, h.shallow⟩
  · split
    · exact accounted_popFrame h r _ _
    · dsimp only
      split
      · refine accounted_resolve ?_ _ _
        exact ⟨h.paid, h.shallow⟩
      · exact accounted_materialize h r _ fun s' f hs' => ⟨hs'.paid, hs'.shallow⟩

theorem accounted_settle (h : Solvent gas w.depthLimit s) (r : Reply) (key : String) (v : Harness.Val)
    (hooked : Bool) : Accounted gas w.depthLimit (w.settle s r key v hooked) := by
  unfold Walk.settle
  dsimp only
  split
  · split
    · exact ⟨h.paid, h.shallow⟩
    · exact ⟨h.paid, h.shallow⟩
    · exact accounted_pushFrame h r _ _ _ _
  · refine accounted_materializeIf h hooked r _ fun s' f hs' => ?_
    split
    · exact ⟨hs'.paid, hs'.shallow⟩
    · exact accounted_materializeIf hs' _ r _ fun s'' g hs'' => ⟨hs''.paid, hs''.shallow⟩
    · refine accounted_pushFrame ?_ r _ _ _ _
      exact ⟨hs'.paid, hs'.shallow⟩

theorem accounted_step (w : Walk) (s : State) (r : Reply) (h : Accounted gas w.depthLimit s) :
    Accounted gas w.depthLimit (w.step s r) := by
  have hsolvent : (∀ o, s.phase ≠ .done o) → Solvent gas w.depthLimit s := by
    intro hgoing
    unfold Accounted at h
    split at h
    · next hphase => exact absurd hphase (hgoing _)
    · next hphase => exact absurd hphase (hgoing _)
    · exact h
  unfold Walk.step
  split
  · next hphase =>
    have hs := hsolvent (by simp [hphase])
    refine accounted_resolve ?_ _ _
    exact ⟨hs.paid, hs.shallow⟩
  · next hphase =>
    have hs := hsolvent (by simp [hphase])
    split
    · exact ⟨hs.paid, hs.shallow⟩
    · exact accounted_asks hs r fun s' hs' => ⟨hs'.paid, hs'.shallow⟩
  · next hphase => exact accounted_next (hsolvent (by simp [hphase])) r
  · next hphase => exact accounted_asks (hsolvent (by simp [hphase])) r fun s' hs' => accounted_resolve hs' _ _
  · next hphase =>
    refine accounted_asks (hsolvent (by simp [hphase])) r fun s' hs' => ?_
    split
    · exact accounted_spend hs' 1 fun s'' hs'' => ⟨hs''.paid, hs''.shallow⟩
    · exact accounted_callReplacer hs' _ _ _
  · next hphase =>
    exact accounted_asks (hsolvent (by simp [hphase])) r fun s' hs' => accounted_callReplacer hs' _ _ _
  · next hphase =>
    exact accounted_asks (hsolvent (by simp [hphase])) r fun s' hs' => ⟨hs'.paid, hs'.shallow⟩
  · next hphase => exact accounted_settle (hsolvent (by simp [hphase])) r _ _ _
  · exact h

theorem accounted_start (w : Walk) (heap : Heap) (gas : ℕ) (poison : Bool) :
    Accounted gas w.depthLimit (w.start heap gas poison) := by
  have hstart (s : State) (howed : s.owed = 0) (hgas : s.gas = gas) (hentered : s.entered = []) :
      Solvent gas w.depthLimit s := ⟨by omega, by simp [hentered]⟩
  unfold Walk.start
  dsimp only
  split
  · exact hstart _ rfl rfl rfl
  · split
    · exact accounted_resolve (hstart _ rfl rfl rfl) _ _
    · split
      · exact accounted_spendScan (hstart _ rfl rfl rfl) _ fun s' hs' => ⟨hs'.paid, hs'.shallow⟩
      · exact accounted_resolve (hstart _ rfl rfl rfl) _ _

namespace Phase

def left : Phase → ℕ
  | .list _ todo _ => todo.length + 5
  | .fetch _ => 5
  | .readToJSON _ _ => 4
  | .callToJSON _ _ => 3
  | .replace _ _ => 2
  | .settle _ _ _ => 1
  | .next => 0
  | .done _ => 0

end Phase

def load (frames : List Frame) : ℕ := (frames.map fun f => 6 * f.todo.length + 1).sum

def weight (s : State) : ℕ :=
  match s.phase with
  | .done _ => 0
  | phase => 7 * s.gas + phase.left + load s.pool.frames + 1

theorem weight_le (s : State) : weight s ≤ 7 * s.gas + s.phase.left + load s.pool.frames + 1 := by
  unfold weight
  split
  · exact Nat.zero_le _
  · exact le_rfl

variable {bound : ℕ}

theorem weight_spend {k : State → State} (n : ℕ) (hbound : 0 < bound)
    (hk : ∀ s', s'.pool = s.pool → s'.gas + n = s.gas → weight (k s') < bound) : weight (s.spend n k) < bound := by
  unfold State.spend
  split
  · exact hbound
  · split
    · exact hbound
    · exact hk _ rfl (by dsimp only; omega)

theorem weight_asks {k : State → State} {r : Reply} (hbound : 0 < bound) (hpool : r.pool = s.pool)
    (hk : ∀ s', s'.pool = s.pool → s'.gas ≤ s.gas → weight (k s') < bound) : weight (s.asks r k) < bound := by
  unfold State.asks
  split
  · exact hbound
  · split
    · exact hbound
    · exact hk _ hpool (Nat.sub_le _ _)

theorem weight_materialize {k : State → Frame → State} {r : Reply} {f : Frame} (hbound : 0 < bound)
    (hpool : f.past = [] ∨ r.pool = s.pool)
    (hk : ∀ s' g, s'.pool = s.pool → s'.gas ≤ s.gas → g.todo = f.todo → weight (k s' g) < bound) :
    weight (s.materialize r f k) < bound := by
  unfold State.materialize
  split
  · exact hk s f rfl le_rfl rfl
  · refine weight_spend _ hbound fun s' hs' hgas => ?_
    have hless : s'.gas ≤ s.gas := by omega
    split
    · exact hk _ _ hs' hless rfl
    · next hloud =>
      obtain hpast | hpool := hpool
      · simp [Frame.quiet, hpast] at hloud
      · exact weight_asks hbound (hpool.trans hs'.symm) fun s'' hs'' hgas' =>
          hk _ _ (hs''.trans hs') (hgas'.trans hless) rfl

theorem weight_materializeIf {k : State → Frame → State} {r : Reply} {f : Frame} (dirty : Bool)
    (hbound : 0 < bound) (hpool : f.past = [] ∨ r.pool = s.pool)
    (hk : ∀ s' g, s'.pool = s.pool → s'.gas ≤ s.gas → g.todo = f.todo → weight (k s' g) < bound) :
    weight (s.materializeIf dirty r f k) < bound := by
  unfold State.materializeIf
  split
  · exact weight_materialize hbound hpool hk
  · exact hk s f rfl le_rfl rfl

theorem weight_callReplacer (key : String) (v : Harness.Val) (hooked : Bool)
    (hbound : 7 * s.gas + load s.pool.frames + 3 < bound) : weight (Walk.callReplacer s key v hooked) < bound := by
  unfold Walk.callReplacer
  split
  · refine weight_spend 1 (by omega) fun s' hs' hgas => (weight_le _).trans_lt ?_
    simp only [Phase.left, hs']
    omega
  · refine (weight_le _).trans_lt ?_
    simp only [Phase.left]
    omega

theorem weight_resolve (key : String) (v : Harness.Val) (hbound : 7 * s.gas + load s.pool.frames + 5 < bound) :
    weight (Walk.resolve s key v) < bound := by
  unfold Walk.resolve
  split
  · refine (weight_le _).trans_lt ?_
    simp only [Phase.left]
    omega
  · exact weight_callReplacer key v false (by omega)

theorem load_cons (f : Frame) (frames : List Frame) : load (f :: frames) = 6 * f.todo.length + 1 + load frames := by
  simp [load]

/-- A new frame is paid for with the gas of its node and of its scan. -/
theorem weight_pushFrame (r : Reply) (src : ℕ) (isArr dirty : Bool) (key : String)
    (hbound : 7 * s.gas + load s.pool.frames + 1 < bound) :
    weight (w.pushFrame s r src isArr dirty key) < bound := by
  have hpos : 0 < bound := Nat.zero_lt_of_lt hbound
  unfold Walk.pushFrame
  refine weight_spend 1 hpos fun s₁ hs₁ hgas₁ => ?_
  split
  · exact hpos
  · dsimp only
    split
    · exact hpos
    · set keys := s₁.heap.names s₁.propList src
      have hpush (s₂ : State) (hs₂ : s₂.pool = s.pool) (hkeys : 7 * s₂.gas + 6 * keys.length + 1 ≤ 7 * s.gas) :
          weight (s₂.materializeIf dirty r ⟨src, isArr, [], keys, none, key⟩ fun s f =>
            { s with pool := { s.pool with frames := f :: s.pool.frames }, phase := .next }) < bound := by
        refine weight_materializeIf dirty hpos (.inl rfl) fun s₃ g hs₃ hless hg => ?_
        refine (weight_le _).trans_lt ?_
        simp only [Phase.left, load_cons, hs₃, hs₂, hg]
        omega
      unfold State.spendScan
      split
      · next hscan =>
        refine weight_spend keys.length hpos fun s₂ hs₂ hgas₂ => ?_
        dsimp only at hs₂ hgas₂
        exact hpush s₂ (hs₂.trans hs₁) (by omega)
      · next hscan =>
        refine hpush _ hs₁ ?_
        dsimp only
        omega

theorem weight_popFrame {r : Reply} {f : Frame} {rest : List Frame} (hpool : r.pool = s.pool)
    (hframes : s.pool.frames = f :: rest) (hbound : 7 * s.gas + load s.pool.frames < bound) :
    weight (Walk.popFrame s r f rest) < bound := by
  unfold Walk.popFrame
  split
  · exact Nat.zero_lt_of_lt hbound
  · refine weight_materializeIf _ (Nat.zero_lt_of_lt hbound) (.inr hpool) fun s' g hs' hless hg => ?_
    rw [hframes, load_cons, load_cons] at hbound
    refine (weight_le _).trans_lt ?_
    simp only [Phase.left, load_cons, Frame.commit, hs', hg, hframes, List.tail_cons]
    omega

theorem weight_next {r : Reply} (hpool : r.pool = s.pool)
    (hbound : 7 * s.gas + load s.pool.frames < bound) : weight (Walk.next s r) < bound := by
  have hpos : 0 < bound := Nat.zero_lt_of_lt hbound
  unfold Walk.next
  split
  · exact hpos
  · next f rest hframes =>
    split
    · exact weight_popFrame hpool hframes hbound
    · next key todo htodo =>
      rw [hframes, load_cons, htodo, List.length_cons] at hbound
      dsimp only
      split
      · refine weight_resolve key _ ?_
        simp only [State.setTop, load_cons, hframes, List.tail_cons]
        omega
      · refine weight_materialize hpos (.inr hpool) fun s' g hs' hless hg => (weight_le _).trans_lt ?_
        simp only [Phase.left, State.setTop, load_cons, hs', hg, hframes, List.tail_cons]
        omega

theorem weight_settle {r : Reply} (hpool : r.pool = s.pool) (key : String) (v : Harness.Val) (hooked : Bool)
    (hbound : 7 * s.gas + load s.pool.frames + 1 < bound) : weight (w.settle s r key v hooked) < bound := by
  have hpos : 0 < bound := Nat.zero_lt_of_lt hbound
  unfold Walk.settle
  dsimp only
  split
  · split
    · exact hpos
    · exact hpos
    · exact weight_pushFrame r _ _ _ _ hbound
  · next f rest hframes =>
    rw [hframes, load_cons] at hbound
    refine weight_materializeIf hooked hpos (.inr hpool) fun s₁ g hs₁ hless₁ hg => ?_
    split
    · refine (weight_le _).trans_lt ?_
      simp only [Phase.left, State.setTop, load_cons, Frame.commit, hs₁, hg, hframes, List.tail_cons]
      omega
    · refine weight_materializeIf _ hpos (.inr (hpool.trans hs₁.symm)) fun s₂ g₂ hs₂ hless₂ hg₂ => ?_
      refine (weight_le _).trans_lt ?_
      simp only [Phase.left, State.setTop, load_cons, Frame.commit, hs₂, hs₁, hg₂, hg, hframes, List.tail_cons]
      omega
    · refine weight_pushFrame r _ _ _ _ ?_
      simp only [State.setTop, load_cons, hs₁, hg, hframes, List.tail_cons]
      omega

theorem weight_going {s : State} (hgoing : ∀ o, s.phase ≠ .done o) :
    weight s = 7 * s.gas + s.phase.left + load s.pool.frames + 1 := by
  unfold weight
  split
  · next o hphase => exact absurd hphase (hgoing o)
  · rfl

/-- Every step of a walk whose frames are left alone comes nearer to its end. -/
theorem weight_step (w : Walk) (s : State) (r : Reply) (hpool : r.pool = s.pool)
    (hgoing : ∀ o, s.phase ≠ .done o) : weight (w.step s r) < weight s := by
  have hweight := weight_going hgoing
  have hpos : 0 < weight s := by omega
  unfold Walk.step
  split
  · next hphase =>
    rw [hphase, Phase.left] at hweight
    refine weight_resolve "" w.root ?_
    dsimp only
    omega
  · next hphase =>
    rw [hphase, Phase.left, List.length_cons] at hweight
    split
    · refine (weight_le _).trans_lt ?_
      dsimp only [Phase.left]
      omega
    · refine weight_asks hpos hpool fun s' hs' hgas => (weight_le _).trans_lt ?_
      simp only [Phase.left, hs']
      omega
  · next hphase =>
    refine weight_next hpool ?_
    omega
  · next hphase =>
    rw [hphase, Phase.left] at hweight
    refine weight_asks hpos hpool fun s' hs' hgas => weight_resolve _ _ ?_
    rw [hs']
    omega
  · next hphase =>
    rw [hphase, Phase.left] at hweight
    refine weight_asks hpos hpool fun s' hs' hgas => ?_
    split
    · refine weight_spend 1 hpos fun s'' hs'' hgas'' => (weight_le _).trans_lt ?_
      simp only [Phase.left, hs'', hs']
      omega
    · refine weight_callReplacer _ _ _ ?_
      rw [hs']
      omega
  · next hphase =>
    rw [hphase, Phase.left] at hweight
    refine weight_asks hpos hpool fun s' hs' hgas => weight_callReplacer _ _ _ ?_
    rw [hs']
    omega
  · next hphase =>
    rw [hphase, Phase.left] at hweight
    refine weight_asks hpos hpool fun s' hs' hgas => (weight_le _).trans_lt ?_
    simp only [Phase.left, hs']
    omega
  · next hphase =>
    rw [hphase, Phase.left] at hweight
    refine weight_settle hpool _ _ _ ?_
    omega
  · next o hphase => exact absurd hphase (hgoing o)

theorem weight_start (w : Walk) (heap : Heap) (gas : ℕ) (poison : Bool) :
    weight (w.start heap gas poison) ≤ 7 * gas + 7 := by
  unfold Walk.start
  dsimp only
  split
  · exact Nat.zero_le _
  · split
    · refine Nat.le_of_lt_succ (weight_resolve _ _ ?_)
      simp [load]
    · split
      · refine Nat.le_of_lt_succ ?_
        unfold State.spendScan
        split
        · refine weight_spend _ (Nat.succ_pos _) fun s' hs' hgas => (weight_le _).trans_lt ?_
          simp only [Phase.left, hs', load, List.length_map, List.length_range, List.map_nil, List.sum_nil]
          dsimp only at hgas
          omega
        · refine (weight_le _).trans_lt ?_
          simp only [Phase.left, load, List.length_map, List.length_range, List.map_nil, List.sum_nil]
          omega
      · refine Nat.le_of_lt_succ (weight_resolve _ _ ?_)
        simp [load]

theorem step_done {w : Walk} {s : State} {o : Outcome} (hphase : s.phase = .done o) (r : Reply) :
    w.step s r = s := by
  unfold Walk.step
  simp only [hphase]

/-- A run that is longer than what is left to pay for is over. -/
theorem run_done {w : Walk} {C : State → Reply → Prop} (hpool : ∀ s r, C s r → r.pool = s.pool) {replies : List Reply} :
    ∀ {s : State}, Meets w.step C s replies → weight s ≤ replies.length →
      ∃ o, (run w.step s replies).phase = .done o := by
  induction replies with
  | nil =>
    intro s _ hlength
    by_contra hgoing
    have hweight := weight_going (s := s) fun o hphase => hgoing ⟨o, hphase⟩
    rw [List.length_nil] at hlength
    omega
  | cons r replies ih =>
    intro s hmeets hlength
    refine ih hmeets.2 ?_
    rw [List.length_cons] at hlength
    by_cases hdone : ∃ o, s.phase = .done o
    · obtain ⟨o, hphase⟩ := hdone
      rw [step_done hphase]
      have hzero : weight s = 0 := by rw [weight, hphase]
      omega
    · have hless := weight_step w s r (hpool s r hmeets.1) fun o hphase => hdone ⟨o, hphase⟩
      omega

end XChainVM.Stringify
