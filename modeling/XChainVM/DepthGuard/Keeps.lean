import XChainVM.DepthGuard.Run

/-! # What metered code keeps

The counter is the number of guarded frames that are open. Once the guard has been violated every metered
point throws, and as long as nothing drops or replaces the fault, it leaves the code it was thrown in.
-/

namespace XChainVM.DepthGuard

open Code

def Op.metered : Op → Bool
  | gas | enter => true
  | allocate size => 1 < size
  | _ => false

def Op.swallows : Op → Bool
  | objectStatic size => 1 < size
  | _ => false

/-- Where the guard throws, the global `Error` is the builtin and nothing further out drops what is thrown; once
the guard has been violated only metered points throw, and no builtin swallows a charge. -/
structure Point.Clean (p : Point) : Prop where
  intact : p.poisoned = true ∨ p.violated = true → p.intact = true
  kept : p.violated = true → p.dropping = false
  throws : p.poisoned = true → p.threw ≠ none → p.op.metered = true
  charges : p.poisoned = true → p.op.swallows = false

instance (p : Point) : Decidable p.Clean :=
  decidable_of_iff ((p.poisoned = true ∨ p.violated = true → p.intact = true) ∧
      (p.violated = true → p.dropping = false) ∧
      (p.poisoned = true → p.threw ≠ none → p.op.metered = true) ∧ (p.poisoned = true → p.op.swallows = false))
    ⟨fun ⟨hintact, hkept, hthrows, hcharges⟩ => ⟨hintact, hkept, hthrows, hcharges⟩,
      fun h => ⟨h.intact, h.kept, h.throws, h.charges⟩⟩

def Clean (trace : List Point) : Prop := ∀ p ∈ trace, p.Clean

instance (trace : List Point) : Decidable (Clean trace) :=
  inferInstanceAs (Decidable (∀ p ∈ trace, p.Clean))

structure Sound (vm : Vm) : Prop where
  counted : ∀ p ∈ vm.trace, p.depth = p.frames
  raised : ∀ p ∈ vm.trace, p.violated = true → vm.stackPoison = true
  sticky : vm.trace.Pairwise fun later earlier => earlier.violated = true → later.poisoned = true
  throws : ∀ p ∈ vm.trace, p.poisoned = true → p.op.metered = true → p.intact = true →
    p.threw = some .fault

theorem sound_start (limit ceiling : ℕ) : Sound (Vm.start limit ceiling) := ⟨nofun, nofun, .nil, nofun⟩

theorem stackError_eq_fault {vm : Vm} (h : vm.errorIntact = true) : stackError vm = .fault := if_pos h

theorem Sound.choices {vm : Vm} (h : Sound vm) (n : ℕ) : Sound { vm with choices := n } :=
  ⟨h.counted, h.raised, h.sticky, h.throws⟩

theorem Sound.dropping {vm : Vm} (h : Sound vm) (b : Bool) : Sound { vm with dropping := b } :=
  ⟨h.counted, h.raised, h.sticky, h.throws⟩

theorem Clean.suffix {later earlier : List Point} (h : Clean later) (hsuffix : earlier <:+ later) : Clean earlier :=
  fun p hp => h p (hsuffix.subset hp)

/-- What a point does to the harness: it keeps the record and the poison; a poisoned metered point
throws; and so does the point that violates the guard. -/
structure Passes (op : Op) (vm : Vm) (r : Option Thrown × Vm) : Prop where
  trace : r.2.trace = vm.trace
  dropping : r.2.dropping = vm.dropping
  poison : vm.stackPoison = true → r.2.stackPoison = true
  metered : vm.stackPoison = true → op.metered = true → r.1 = some (stackError vm)
  violated : vm.stackPoison = false → r.2.stackPoison = true → r.1 = some (stackError vm)

theorem passes_depthEnter (vm : Vm) : Passes .enter vm (depthEnter vm) := by
  unfold depthEnter
  split
  · rename_i hpoison
    exact ⟨rfl, rfl, id, fun _ _ => rfl, fun hclean => absurd hpoison (by rw [hclean]; decide)⟩
  · rename_i hclean
    split
    · exact ⟨rfl, rfl, fun _ => rfl, fun hpoison => absurd hpoison hclean, fun _ _ => rfl⟩
    · exact ⟨rfl, rfl, id, fun hpoison => absurd hpoison hclean, fun _ hpoison => absurd hpoison hclean⟩

theorem passes_depthExit (vm : Vm) : Passes .exit vm (none, depthExit vm) := by
  unfold depthExit
  split
  · exact ⟨rfl, rfl, id, nofun, fun hclean hpoison => by simp_all⟩
  · exact ⟨rfl, rfl, id, nofun, fun hclean hpoison => by simp_all⟩

theorem passes_gasFunc (op : Op) (n : ℕ) (vm : Vm) : Passes op vm (gasFunc n vm) := by
  unfold gasFunc
  split
  · rename_i hpoison
    exact ⟨rfl, rfl, id, fun _ _ => rfl, fun hclean => absurd hpoison (by rw [hclean]; decide)⟩
  · rename_i hclean
    exact ⟨rfl, rfl, id, fun hpoison => absurd hpoison hclean, fun _ hpoison => absurd hpoison hclean⟩

theorem passes_same {op : Op} (hop : op.metered = false) (thrown : Option Thrown) (vm : Vm) :
    Passes op vm (thrown, vm) :=
  ⟨rfl, rfl, id, fun _ hmetered => absurd hmetered (by rw [hop]; decide), fun hclean hpoison => by simp_all⟩

theorem passes_allocGas (n : ℕ) (vm : Vm) : Passes (.allocate n) vm (allocGas n vm) := by
  unfold allocGas
  split
  · exact passes_gasFunc _ n vm
  · rename_i hsmall
    exact passes_same (by simpa [Op.metered] using hsmall) none vm

theorem passes_objectStatic (n : ℕ) (vm : Vm) :
    Passes (.objectStatic n) vm (none, (allocGas n vm).2) := by
  have h := passes_allocGas n vm
  refine ⟨h.trace, h.dropping, h.poison, nofun, ?_⟩
  intro hclean hpoison
  unfold allocGas gasFunc at hpoison
  split at hpoison
  · split at hpoison
    · simp_all
    · simp_all
  · simp_all

theorem passes_replaceError (vm : Vm) :
    Passes .replaceError vm (none, { vm with errorIntact := false }) :=
  ⟨rfl, rfl, id, nofun, fun hclean hpoison => by simp_all⟩

theorem trace_record {op : Op} {frames : ℕ} {vm : Vm} {r : Option Thrown × Vm} (h : Passes op vm r) :
    (record op frames vm r).2.trace = ⟨op, frames, vm.stackDepth, vm.stackPoison, vm.errorIntact, vm.dropping, r.1,
      !vm.stackPoison && r.2.stackPoison⟩ :: vm.trace := by
  rw [record, ← h.trace]

theorem stackDepth_gasFunc (n : ℕ) (vm : Vm) : (gasFunc n vm).2.stackDepth = vm.stackDepth := by
  unfold gasFunc
  split <;> rfl

theorem stackDepth_allocGas (n : ℕ) (vm : Vm) : (allocGas n vm).2.stackDepth = vm.stackDepth := by
  unfold allocGas
  split
  · exact stackDepth_gasFunc n vm
  · rfl

theorem sound_record {op : Op} {frames : ℕ} {vm : Vm} {r : Option Thrown × Vm} (hvm : Sound vm)
    (hdepth : vm.stackDepth = frames) (h : Passes op vm r) : Sound (record op frames vm r).2 := by
  have htrace : (record op frames vm r).2.trace = _ :: vm.trace := trace_record h
  have hpoison : (record op frames vm r).2.stackPoison = r.2.stackPoison := rfl
  constructor
  · rw [htrace, List.forall_mem_cons]
    exact ⟨hdepth, hvm.counted⟩
  · rw [htrace, List.forall_mem_cons, hpoison]
    constructor
    · intro hviolated
      exact ((Bool.and_eq_true _ _).mp hviolated).2
    · intro p hp hviolated
      exact h.poison (hvm.raised p hp hviolated)
  · rw [htrace, List.pairwise_cons]
    exact ⟨fun p hp hviolated => hvm.raised p hp hviolated, hvm.sticky⟩
  · rw [htrace, List.forall_mem_cons]
    refine ⟨?_, hvm.throws⟩
    intro hpoisoned hmetered hintact
    rw [← stackError_eq_fault hintact]
    exact h.metered hpoisoned hmetered

def Completion.stops : Completion → Bool
  | threw _ | stopped => true
  | _ => false

/-- What a piece of code keeps: the counter is where it was when the code completes, a violation
leaves the code by a throw, and what is thrown after one is the fault. -/
structure Keeps (frames : ℕ) (vm : Vm) (r : Completion × Vm) : Prop where
  depth : r.1 ≠ .stopped → r.2.stackDepth = frames
  sound : Sound r.2
  trace : vm.trace <:+ r.2.trace
  dropping : r.2.dropping = vm.dropping
  poison : vm.stackPoison = true → r.2.stackPoison = true
  raised : vm.stackPoison = false → r.2.stackPoison = true →
    ∃ p ∈ r.2.trace, p.violated = true ∧ (vm.dropping = true → p.dropping = true)
  stops : vm.stackPoison = false → r.2.stackPoison = true → Clean r.2.trace → r.1.stops = true
  fault : r.2.stackPoison = true → Clean r.2.trace → ∀ v, r.1 = .threw v → v = .fault

namespace Keeps

variable {frames : ℕ} {vm : Vm} {r r' : Completion × Vm}

theorem of_completion {c : Completion} (hvm : Sound vm) (hdepth : vm.stackDepth = frames)
    (hc : c.stops = false) : Keeps frames vm (c, vm) where
  depth _ := hdepth
  sound := hvm
  trace := List.suffix_rfl
  dropping := rfl
  poison := id
  raised hclean hpoison := by
    rw [hclean] at hpoison
    cases hpoison
  stops hclean hpoison := by
    rw [hclean] at hpoison
    cases hpoison
  fault _ _ v hv := by
    obtain rfl : c = .threw v := hv
    cases hc

theorem raised_trans (h : Keeps frames vm r) {frames' : ℕ} (h' : Keeps frames' r.2 r')
    (hclean : vm.stackPoison = false) (hpoison : r'.2.stackPoison = true) :
    ∃ p ∈ r'.2.trace, p.violated = true ∧ (vm.dropping = true → p.dropping = true) := by
  cases hraised : r.2.stackPoison with
  | true =>
    obtain ⟨p, hp, hviolated⟩ := h.raised hclean hraised
    exact ⟨p, h'.trace.subset hp, hviolated⟩
  | false =>
    obtain ⟨p, hp, hviolated, hdropping⟩ := h'.raised hraised hpoison
    exact ⟨p, hp, hviolated, fun hdrops => hdropping (h.dropping.trans hdrops)⟩

/-- The rule of sequence: after code that goes on, what comes next starts where that ended. -/
theorem trans (h : Keeps frames vm r) (hr : r.1.stops = false) (h' : Keeps frames r.2 r') :
    Keeps frames vm r' where
  depth := h'.depth
  sound := h'.sound
  trace := h.trace.trans h'.trace
  dropping := h'.dropping.trans h.dropping
  poison hpoison := h'.poison (h.poison hpoison)
  raised := h.raised_trans h'
  stops hclean hpoison hcleans := by
    refine h'.stops ?_ hpoison hcleans
    by_contra hraised
    rw [h.stops hclean (by simpa using hraised) (hcleans.suffix h'.trace)] at hr
    cases hr
  fault := h'.fault

/-- What catches a throw keeps all this if it stops after a violation. -/
theorem caught (h : Keeps frames vm r) (h' : Keeps frames r.2 r')
    (hstops : r.2.stackPoison = true → r'.1.stops = true) : Keeps frames vm r' where
  depth := h'.depth
  sound := h'.sound
  trace := h.trace.trans h'.trace
  dropping := h'.dropping.trans h.dropping
  poison hpoison := h'.poison (h.poison hpoison)
  raised := h.raised_trans h'
  stops _ hpoison hcleans := by
    cases hraised : r.2.stackPoison with
    | true => exact hstops hraised
    | false => exact h'.stops hraised hpoison hcleans
  fault := h'.fault

theorem relabel (h : Keeps frames vm r) (hr : r.1.stops = false) {c : Completion}
    (hc : c.stops = false) : Keeps frames vm (c, r.2) := by
  refine h.trans hr (of_completion h.sound (h.depth ?_) hc)
  rintro hstopped
  rw [hstopped] at hr
  cases hr

theorem asked {choose : ℕ → ℕ} (h : Keeps frames (ask choose vm).2 r) : Keeps frames vm r :=
  ⟨h.depth, h.sound, h.trace, h.dropping, h.poison, h.raised, h.stops, h.fault⟩

theorem andThen {k : Vm → Completion × Vm} (h : Keeps frames vm r)
    (hk : r.1 = .normal → Keeps frames r.2 (k r.2)) :
    Keeps frames vm (DepthGuard.andThen r k) := by
  unfold DepthGuard.andThen
  split
  · rename_i hnormal
    exact h.trans (by rw [hnormal]; rfl) (hk hnormal)
  · exact h

theorem endCall (h : Keeps frames vm r) : Keeps frames vm (DepthGuard.endCall r) := by
  unfold DepthGuard.endCall
  split
  · rename_i hreturned
    exact h.relabel (by rw [hreturned]; rfl) rfl
  · rename_i hjumped
    exact h.relabel (by rw [hjumped]; rfl) rfl
  · exact h

theorem choices (h : Keeps frames vm r) (choose : ℕ → ℕ) : Keeps frames vm (r.1, (ask choose r.2).2) :=
  ⟨h.depth, h.sound.choices _, h.trace, h.dropping, h.poison, h.raised, h.stops, h.fault⟩

theorem catchJump {choose : ℕ → ℕ} {k : ℕ → Vm → Completion × Vm} (h : Keeps frames vm r)
    (hk : ∀ choice vm', Sound vm' → vm'.stackDepth = frames → Keeps frames vm' (k choice vm')) :
    Keeps frames vm (DepthGuard.catchJump choose r k) := by
  unfold DepthGuard.catchJump
  split
  · rename_i hjumped
    refine h.trans (by rw [hjumped]; rfl) (asked (hk _ _ (h.sound.choices _) ?_))
    exact h.depth (by rw [hjumped]; simp)
  · exact h

theorem record {op : Op} {h : Option Thrown × Vm} (hvm : Sound vm) (hdepth : vm.stackDepth = frames)
    (hpass : Passes op vm h) (hafter : h.2.stackDepth = frames) :
    Keeps frames vm (DepthGuard.record op frames vm h) := by
  have hsound := sound_record hvm hdepth hpass
  have hthrown : ∀ v, (DepthGuard.record op frames vm h).1 = .threw v → h.1 = some v := by
    intro v hv
    cases hh : h.1 with
    | none =>
      rw [DepthGuard.record, hh] at hv
      cases hv
    | some v' =>
      rw [DepthGuard.record, hh] at hv
      cases hv
      rfl
  have htrace : (DepthGuard.record op frames vm h).2.trace = _ :: vm.trace := trace_record hpass
  refine ⟨fun _ => hafter, hsound, ?_, hpass.dropping, hpass.poison, ?_, ?_, ?_⟩
  · rw [htrace]
    exact List.suffix_cons _ _
  · intro hclean hpoison
    rw [htrace]
    exact ⟨_, List.mem_cons_self, by rw [hclean]; exact hpoison, id⟩
  · intro hclean hpoison _
    have hthrew := hpass.violated hclean hpoison
    rw [DepthGuard.record, hthrew]
    rfl
  · intro hpoison hcleans v hv
    have hpoint := hcleans _ List.mem_cons_self
    obtain ⟨herror, hintact⟩ : h.1 = some (stackError vm) ∧ vm.errorIntact = true := by
      cases hvmPoison : vm.stackPoison with
      | true =>
        have hmetered := hpoint.throws hvmPoison fun hnone => by cases hnone.symm.trans (hthrown v hv)
        exact ⟨hpass.metered hvmPoison hmetered, hpoint.intact (.inl hvmPoison)⟩
      | false =>
        refine ⟨hpass.violated hvmPoison hpoison, hpoint.intact (.inr ?_)⟩
        rw [hvmPoison]
        exact hpoison
    rw [hthrown v hv, stackError_eq_fault hintact] at herror
    exact Option.some.inj herror

/-- A guard gives back the unit it took. -/
theorem leave (h : Keeps (frames + 1) vm r) : Keeps frames vm (DepthGuard.leave frames r) := by
  unfold DepthGuard.leave
  split
  · rename_i hstopped
    exact ⟨fun hgoes => absurd hstopped hgoes, h.sound, h.trace, h.dropping, h.poison, h.raised, h.stops, h.fault⟩
  · rename_i hgoes
    have hdepth := h.depth hgoes
    have hpass := passes_depthExit r.2
    have hexit : (depthExit r.2).stackPoison = r.2.stackPoison := by
      unfold depthExit
      split <;> rfl
    have htrace : r.2.trace <:+ (DepthGuard.record .exit (frames + 1) r.2 (none, depthExit r.2)).2.trace := by
      rw [trace_record hpass]
      exact List.suffix_cons _ _
    refine ⟨fun _ => ?_, sound_record h.sound hdepth hpass, h.trace.trans htrace,
      hpass.dropping.trans h.dropping, ?_, ?_, ?_, ?_⟩
    · change (depthExit r.2).stackDepth = frames
      rw [depthExit, if_pos (by omega)]
      exact Nat.sub_eq_of_eq_add hdepth
    · intro hpoison
      exact hexit.trans (h.poison hpoison)
    · intro hclean hpoison
      obtain ⟨p, hp, hviolated⟩ := h.raised hclean (hexit.symm.trans hpoison)
      exact ⟨p, htrace.subset hp, hviolated⟩
    · intro hclean hpoison hcleans
      exact h.stops hclean (hexit.symm.trans hpoison) (hcleans.suffix htrace)
    · intro hpoison hcleans
      exact h.fault (hexit.symm.trans hpoison) (hcleans.suffix htrace)

theorem guarded {body : Vm → Completion × Vm} (hvm : Sound vm) (hdepth : vm.stackDepth = frames)
    (hbody : ∀ vm', Sound vm' → vm'.stackDepth = frames + 1 → Keeps (frames + 1) vm' (body vm')) :
    Keeps frames vm (DepthGuard.andThen (DepthGuard.record .enter frames vm (depthEnter vm))
      fun vm => DepthGuard.leave frames (body vm)) := by
  have hpass := passes_depthEnter vm
  cases henter : (depthEnter vm).1 with
  | some v =>
    have hafter : (depthEnter vm).2.stackDepth = frames := by
      unfold depthEnter at henter ⊢
      split
      · exact hdepth
      · split
        · exact hdepth
        · rename_i hclean hroom
          rw [if_neg hclean, if_neg hroom] at henter
          cases henter
    refine (record hvm hdepth hpass hafter).andThen fun hnormal => ?_
    rw [DepthGuard.record, henter] at hnormal
    cases hnormal
  | none =>
    obtain ⟨hsame, hafter⟩ : (depthEnter vm).2.stackPoison = vm.stackPoison ∧
        (depthEnter vm).2.stackDepth = frames + 1 := by
      unfold depthEnter at henter ⊢
      split
      · rename_i hpoison
        rw [if_pos hpoison] at henter
        cases henter
      · split
        · rename_i hclean hfull
          rw [if_neg hclean, if_pos hfull] at henter
          cases henter
        · exact ⟨rfl, congrArg (· + 1) hdepth⟩
    have hinner := (hbody _ (sound_record hvm hdepth hpass) hafter).leave
    have hnormal : (DepthGuard.record .enter frames vm (depthEnter vm)).1 = .normal := by
      rw [DepthGuard.record, henter]
    rw [DepthGuard.andThen, hnormal]
    have htrace : vm.trace <:+ (DepthGuard.record .enter frames vm (depthEnter vm)).2.trace := by
      rw [trace_record hpass]
      exact List.suffix_cons _ _
    refine ⟨hinner.depth, hinner.sound, htrace.trans hinner.trace, hinner.dropping.trans hpass.dropping,
      fun hpoison => hinner.poison (hsame.trans hpoison), ?_, ?_, hinner.fault⟩
    · intro hclean hpoison
      obtain ⟨p, hp, hviolated, hdropping⟩ := hinner.raised (hsame.trans hclean) hpoison
      exact ⟨p, hp, hviolated, fun hdrops => hdropping (hpass.dropping.trans hdrops)⟩
    · intro hclean hpoison
      exact hinner.stops (hsame.trans hclean) hpoison

/-- A finalizer that ends normally or stops after a violation loses none. -/
theorem finish {finalizer : Vm → Completion × Vm} (h : Keeps frames vm r)
    (hfinal : r.1 ≠ .stopped → Keeps frames r.2 (finalizer r.2))
    (hstops : r.1 ≠ .stopped → r.1.stops = true → r.2.stackPoison = true →
      (finalizer r.2).1 = .normal ∨ (finalizer r.2).1.stops = true) :
    Keeps frames vm (DepthGuard.finish r finalizer) := by
  unfold DepthGuard.finish
  split
  · exact h
  · rename_i hgoes
    have hf := hfinal hgoes
    have hraises := h.raised_trans hf
    have hrecent (hnormal : (finalizer r.2).1 = .normal) (hpoison : (finalizer r.2).2.stackPoison = true)
        (hcleans : Clean (finalizer r.2).2.trace) : r.2.stackPoison = true := by
      by_contra hclean
      have hstop := hf.stops (by simpa using hclean) hpoison hcleans
      rw [hnormal] at hstop
      cases hstop
    simp only
    split
    · rename_i hnormal
      refine ⟨fun _ => hf.depth (by rw [hnormal]; simp), hf.sound, h.trace.trans hf.trace,
        hf.dropping.trans h.dropping, fun hpoison => hf.poison (h.poison hpoison), hraises, ?_, ?_⟩
      · intro hclean hpoison hcleans
        exact h.stops hclean (hrecent hnormal hpoison hcleans) (hcleans.suffix hf.trace)
      · intro hpoison hcleans
        exact h.fault (hrecent hnormal hpoison hcleans) (hcleans.suffix hf.trace)
    · rename_i hends
      refine ⟨hf.depth, hf.sound, h.trace.trans hf.trace, hf.dropping.trans h.dropping,
        fun hpoison => hf.poison (h.poison hpoison), hraises, ?_, hf.fault⟩
      intro hclean hpoison hcleans
      cases hraised : r.2.stackPoison with
      | true => exact (hstops hgoes (h.stops hclean hraised (hcleans.suffix hf.trace)) hraised).resolve_left hends
      | false => exact hf.stops hraised hpoison hcleans

/-- Where a violation is dropped, its point is not clean. -/
theorem dropThrow {code : Vm → Completion × Vm}
    (h : Keeps frames { vm with dropping := true } (code { vm with dropping := true })) :
    Keeps frames vm (DepthGuard.dropThrow code vm) := by
  have hraised := h.raised
  unfold DepthGuard.dropThrow
  refine ⟨fun hgoes => h.depth fun hstopped => hgoes (if_pos hstopped), h.sound.dropping _, h.trace, rfl, h.poison,
    ?_, ?_, ?_⟩
  · intro hclean hpoison
    obtain ⟨p, hp, hviolated, hdropping⟩ := hraised hclean hpoison
    exact ⟨p, hp, hviolated, fun _ => hdropping rfl⟩
  · intro hclean hpoison hcleans
    obtain ⟨p, hp, hviolated, hdropping⟩ := hraised hclean hpoison
    exact absurd ((hcleans p hp).kept hviolated) (by rw [hdropping rfl]; decide)
  · intro _ _ v hv
    dsimp only at hv
    split at hv <;> cases hv

theorem dropThrow_ends (code : Vm → Completion × Vm) (vm : Vm) :
    (DepthGuard.dropThrow code vm).1 = .normal ∨ (DepthGuard.dropThrow code vm).1.stops = true := by
  unfold DepthGuard.dropThrow
  dsimp only
  split
  · exact .inr rfl
  · exact .inl rfl

/-- An iterator is closed without loss of a fault, unless its point is not clean. -/
theorem closeIterator {close : Vm → Completion × Vm} (h : Keeps frames vm r)
    (hclose : ∀ vm', Sound vm' → vm'.stackDepth = frames → Keeps frames vm' (close vm')) :
    Keeps frames vm (DepthGuard.closeIterator r close) := by
  unfold DepthGuard.closeIterator
  split
  · refine h.finish (fun hgoes => .dropThrow ?_) fun _ _ _ => dropThrow_ends close r.2
    exact hclose _ (h.sound.dropping _) (h.depth hgoes)
  · rename_i hends
    refine h.finish (fun hgoes => hclose _ h.sound (h.depth hgoes)) fun hgoes hstops _ => ?_
    cases hr : r.1 with
    | threw v => exact absurd hr (hends v)
    | stopped => exact absurd hr hgoes
    | normal | returned | jumped =>
      rw [hr] at hstops
      cases hstops

/-- A handler that stops after a violation loses none. -/
theorem handle {handler : Vm → Completion × Vm} (h : Keeps frames vm r)
    (hhandler : r.1 ≠ .stopped → Keeps frames r.2 (handler r.2))
    (hstops : r.1 ≠ .stopped → r.2.stackPoison = true → (handler r.2).1.stops = true) :
    Keeps frames vm (DepthGuard.handle r handler) := by
  unfold DepthGuard.handle
  split
  · rename_i v hthrew
    have hgoes : r.1 ≠ .stopped := by rw [hthrew]; simp
    exact h.caught (hhandler hgoes) (hstops hgoes)
  · exact h

end Keeps

end XChainVM.DepthGuard
