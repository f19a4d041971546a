import XChainVM.Runtime.Charging

/-! # The gas ceiling over whole executions

A result either fails with no effects, billed at the ceiling or at a total that
never crossed it, or is a success whose total never crossed it. With the gate
on, an execution whose total crossed the ceiling has only the first way out.
-/

namespace XChainVM.Runtime

open Gas Js

/-- The flag of this session tells whether its total crossed the ceiling. -/
structure Session.Metered (s : Session) (ceiling : ℚ) : Prop where
  consistent : s.gasTracker.Consistent
  ceiling_eq : s.gasTracker.ceiling = ceiling
  ceiling_nonneg : 0 ≤ ceiling
  used_nonneg : 0 ≤ s.gasTracker.used

/-- No effects, and a bill of the ceiling or of a total that never crossed it. -/
structure Result.Failed (r : Result) (ceiling : ℚ) : Prop where
  success_eq : r.success = false
  gasUsed_nonneg : 0 ≤ r.gasUsed
  gasUsed_le : r.gasUsed ≤ ceiling
  stateChanges_eq : r.stateChanges = []
  stateDeletes_eq : r.stateDeletes = []
  emittedActions_eq : r.emittedActions = []

namespace Session

variable {s : Session} {ceiling : ℚ}

theorem Metered.used_le (h : s.Metered ceiling) (hex : s.gasTracker.exhausted = false) :
    s.gasTracker.used ≤ ceiling := by
  rw [← h.ceiling_eq]
  exact h.consistent.below hex

theorem Metered.clamped (h : s.Metered ceiling) (failure : Failure) :
    (s.errorResult failure (some s.gasTracker.ceiling)).Failed ceiling := by
  have hused : (s.errorResult failure (some s.gasTracker.ceiling)).gasUsed = (ceiling : WithTop ℚ) := by
    rw [← h.ceiling_eq]
    rfl
  refine ⟨rfl, ?_, hused.le, rfl, rfl, rfl⟩
  rw [hused]
  exact_mod_cast h.ceiling_nonneg

theorem Metered.billed (h : s.Metered ceiling) (hex : s.gasTracker.exhausted = false)
    (failure : Failure) : (s.errorResult failure none).Failed ceiling :=
  ⟨rfl, h.used_nonneg, h.used_le hex, rfl, rfl, rfl⟩

theorem Metered.charge (h : s.Metered ceiling) (sum : Addition) (amount : Number) :
    Session.Metered { s with gasTracker := (s.gasTracker.charge sum amount).2 } ceiling :=
  ⟨h.consistent.charge, (s.gasTracker.charge_ceiling _ _).trans h.ceiling_eq, h.ceiling_nonneg,
    h.used_nonneg.trans (s.gasTracker.used_le_charge _ _)⟩

theorem Metered.serve (h : s.Metered ceiling) (ctx : CallContext) (calls : List HostCall) :
    (s.serve ctx calls).Metered ceiling :=
  ⟨serve_consistent h.consistent calls, (serve_ceiling calls).trans h.ceiling_eq, h.ceiling_nonneg,
    h.used_nonneg.trans (used_le_serve calls)⟩

theorem Metered.start (vm : Vm) (opts : ExecuteOpts) :
    (Session.start vm opts).Metered (execCeiling vm opts) :=
  have hceil : 0 ≤ execCeiling vm opts := effectiveCeiling_nonneg vm.gasCeiling_nonneg _
  ⟨.new hceil, rfl, hceil, le_refl 0⟩

end Session

section

variable {opts : ExecuteOpts} {signals : HostSignals} {s : Session} {ceiling : ℚ} {error : HostError}
  {r : Result}

theorem markedError_failed (hs : s.Metered ceiling) (hex : s.gasTracker.exhausted = false)
    (h : markedError s error = some r) : r.Failed ceiling := by
  unfold markedError at h
  split at h
  · split at h
    · rw [← Option.some.inj h]
      exact hs.billed hex _
    · split at h
      · rw [← Option.some.inj h]
        exact hs.clamped _
      · exact absurd h (by simp)
  · exact absurd h (by simp)

/-- Every resource termination is billed at the ceiling. -/
theorem resourceFault_failed (hs : s.Metered ceiling)
    (h : resourceFault opts signals s error = some r) : r.Failed ceiling := by
  have hclamp : ∀ {b : Bool} {failure : Failure},
      (if b = true then some (s.errorResult failure (some s.gasTracker.ceiling)) else none) = some r →
      r.Failed ceiling := by
    intro b failure hr
    split at hr
    · rw [← Option.some.inj hr]
      exact hs.clamped failure
    · exact absurd hr (by simp)
  unfold resourceFault at h
  dsimp only at h
  split at h
  · rw [← Option.some.inj h]
    exact hs.clamped _
  · split at h
    · exact hclamp h
    · split at h
      · exact hclamp h
      · split at h
        · exact hclamp h
        · exact absurd h (by simp)

theorem classifyError_failed (hgate : opts.gasCeilingExhausted = true) (hs : s.Metered ceiling)
    (h : classifyError opts signals s error = .ok r) : r.Failed ceiling := by
  unfold classifyError at h
  dsimp only at h
  split at h
  · exact absurd h (by simp)
  · split at h
    · rw [← Except.ok.inj h]
      exact hs.clamped _
    · next hflag =>
      -- past the flag check the total is within the ceiling, so it may be billed as it is
      have hex : s.gasTracker.exhausted = false := by simpa [hgate] using hflag
      split at h
      · rw [← Except.ok.inj h]
        exact hs.billed hex _
      · rw [← Except.ok.inj h]
        exact hs.clamped _
      · split at h
        · next hmark =>
          rw [← Except.ok.inj h]
          exact markedError_failed hs hex hmark
        · split at h
          · next hfault =>
            rw [← Except.ok.inj h]
            exact resourceFault_failed hs hfault
          · rw [← Except.ok.inj h]
            exact hs.billed hex _

theorem classified_failed {env : Environment} (hgate : opts.gasCeilingExhausted = true)
    (hs : s.Metered ceiling) (h : classified opts env s error = .result r) : r.Failed ceiling := by
  unfold classified at h
  split at h
  · next hclass =>
    rw [← Outcome.result.inj h]
    exact classifyError_failed hgate hs hclass
  · exact absurd h (by simp)

end

section

variable {lang : Language} {sum : Addition} {vm : Vm} {opts : ExecuteOpts} {env : Environment}
  {s : Session} {ceiling : ℚ} {r : Result}

variable (lang) in
/-- A run that returned fails, or succeeds with its flag down and keeps what it queued. -/
theorem collectResults_cases (hgate : opts.gasCeilingExhausted = true) (hs : s.Metered ceiling)
    (rawReturn : Value) :
    (collectResults lang opts s rawReturn).Failed ceiling ∨
    (s.gasTracker.exhausted = false ∧
      (collectResults lang opts s rawReturn).success = true ∧
      (collectResults lang opts s rawReturn).gasUsed = s.gasTracker.used ∧
      (collectResults lang opts s rawReturn).emittedActions = s.emissionCollector.actions) := by
  unfold collectResults
  dsimp only
  split
  · exact .inl (hs.clamped _)
  · next hflag =>
    have hex : s.gasTracker.exhausted = false := by simpa [hgate] using hflag
    split
    · exact .inl (hs.billed hex _)
    · exact .inr ⟨hex, rfl, rfl, rfl⟩

/-- The only way out of the guarded part that is no failure is a run that returned. -/
theorem runContract_cases (hgate : opts.gasCeilingExhausted = true) (hs : s.Metered ceiling)
    (hex : s.gasTracker.exhausted = false) (h : runContract lang sum vm opts env s = .result r) :
    r.Failed ceiling ∨
    ∃ rawReturn, r = collectResults lang opts (s.serve (callContext lang sum vm opts) env.calls) rawReturn := by
  have hserved := hs.serve (callContext lang sum vm opts) env.calls
  unfold runContract at h
  dsimp only at h
  cases hsetup : env.setup with
  | isolateUnavailable message =>
    rw [hsetup] at h
    exact .inl (classified_failed hgate hs h)
  | stepFailed step message =>
    rw [hsetup] at h
    exact .inl (classified_failed hgate hs h)
  | threw e =>
    rw [hsetup] at h
    exact .inl (classified_failed hgate hs h)
  | ready =>
    simp only [hsetup] at h
    split at h
    · split at h
      · exact .inl (classified_failed hgate hs h)
      · rw [← Outcome.result.inj h]
        exact .inl (hs.billed hex _)
    · split at h
      · split at h
        · exact .inl (classified_failed hgate hs h)
        · split at h
          · exact .inl (classified_failed hgate hs h)
          · rw [← Outcome.result.inj h]
            exact .inl (hs.billed hex _)
      · split at h
        · exact .inl (classified_failed hgate hserved h)
        · exact .inr ⟨_, (Outcome.result.inj h).symm⟩

/-- The session the lint passes on has paid for the lint, where it is active. -/
theorem checkExecLint_session {s' : Session} (h : checkExecLint sum vm opts env.lint s = .pass s') :
    s' = s ∨ ∃ amount, (s.gasTracker.charge sum amount).1 = none ∧
      s' = { s with gasTracker := (s.gasTracker.charge sum amount).2 } := by
  unfold checkExecLint at h
  split at h
  · split at h
    · exact absurd h (by simp)
    · exact absurd h (by simp)
    · next t hcharge =>
      split at h
      · obtain rfl := LintStep.pass.inj h
        exact .inr ⟨_, congrArg Prod.fst hcharge, by rw [hcharge]⟩
      · exact absurd h (by simp)
      · exact absurd h (by simp)
  · exact .inl (LintStep.pass.inj h).symm

theorem checkExecLint_pass {s' : Session} (hs : s.Metered ceiling)
    (hex : s.gasTracker.exhausted = false) (h : checkExecLint sum vm opts env.lint s = .pass s') :
    s'.Metered ceiling ∧ s'.gasTracker.exhausted = false := by
  obtain rfl | ⟨amount, hnone, rfl⟩ := checkExecLint_session h
  · exact ⟨hs, hex⟩
  · exact ⟨hs.charge sum amount, GasTracker.charge_keeps_flag hnone hex⟩

/-- A refusal by the lint is billed at the ceiling when its charge is the one that crossed it. -/
theorem checkExecLint_refuse (hs : s.Metered ceiling) (hex : s.gasTracker.exhausted = false)
    (h : checkExecLint sum vm opts env.lint s = .refuse r) : r.Failed ceiling := by
  have hcharged := hs.charge sum (.finite (vm.gasSchedule.computation * lintUnits opts.codeBytes))
  unfold checkExecLint at h
  split at h
  · split at h
    · next hcharge =>
      rw [hcharge] at hcharged
      rw [← LintStep.refuse.inj h]
      exact hcharged.clamped _
    · exact absurd h (by simp)
    · next hcharge =>
      split at h
      · exact absurd h (by simp)
      · rw [hcharge] at hcharged
        rw [← LintStep.refuse.inj h]
        obtain ⟨q, -, -, -, rfl⟩ := GasTracker.charge_none hcharge
        exact hcharged.billed hex _
      · exact absurd h (by simp)
  · exact absurd h (by simp)

variable (lang sum vm opts env)

theorem execute_cases (hgate : opts.gasCeilingExhausted = true)
    (h : execute lang sum vm opts env = .result r) :
    r.Failed (execCeiling vm opts) ∨
    ∃ s rawReturn, checkExecLint sum vm opts env.lint (.start vm opts) = .pass s ∧
      r = collectResults lang opts (s.serve (callContext lang sum vm opts) env.calls) rawReturn := by
  have hstart := Session.Metered.start vm opts
  unfold execute at h
  dsimp only at h
  split at h
  · rw [← Outcome.result.inj h]
    exact .inl (hstart.billed rfl _)
  · split at h
    · next hlint =>
      rw [← Outcome.result.inj h]
      exact .inl (checkExecLint_refuse hstart rfl hlint)
    · exact absurd h (by simp)
    · next s hlint =>
      obtain ⟨hs, hex⟩ := checkExecLint_pass hstart rfl hlint
      obtain hfail | ⟨rawReturn, hr⟩ := runContract_cases hgate hs hex h
      · exact .inl hfail
      · exact .inr ⟨s, rawReturn, hlint, hr⟩

theorem gas_ceiling_over_executions (hgate : opts.gasCeilingExhausted = true) :
    (∀ r, execute lang sum vm opts env = .result r →
      r.gasUsed ≤ execCeiling vm opts ∧
      (r.success = false → r.stateChanges = [] ∧ r.stateDeletes = [] ∧ r.emittedActions = [])) ∧
    ∀ s, checkExecLint sum vm opts env.lint (.start vm opts) = .pass s →
      ∀ first later, env.calls = first ++ later →
        (execCeiling vm opts : WithTop ℚ) <
          (s.serve (callContext lang sum vm opts) first).gasTracker.used →
        (∀ middle call last, later = middle ++ call :: last → call.Charges →
          ((s.serve (callContext lang sum vm opts) (first ++ middle)).answer
            (callContext lang sum vm opts) call).1 ≠ none) ∧
        ∀ r, execute lang sum vm opts env = .result r → r.success = false := by
  have hserved : ∀ s, checkExecLint sum vm opts env.lint (.start vm opts) = .pass s → ∀ calls,
      (s.serve (callContext lang sum vm opts) calls).Metered (execCeiling vm opts) := by
    intro s hpass calls
    exact (checkExecLint_pass (Session.Metered.start vm opts) rfl hpass).1.serve _ calls
  constructor
  · intro r hr
    obtain hfail | ⟨s, rawReturn, hpass, rfl⟩ := execute_cases lang sum vm opts env hgate hr
    · exact ⟨hfail.gasUsed_le, fun _ =>
        ⟨hfail.stateChanges_eq, hfail.stateDeletes_eq, hfail.emittedActions_eq⟩⟩
    · obtain hfail | ⟨hex, hsucc, hused, -⟩ :=
        collectResults_cases lang hgate (hserved s hpass env.calls) rawReturn
      · exact ⟨hfail.gasUsed_le, fun _ =>
          ⟨hfail.stateChanges_eq, hfail.stateDeletes_eq, hfail.emittedActions_eq⟩⟩
      · refine ⟨?_, fun hfalse => absurd (hsucc.symm.trans hfalse) (by simp)⟩
        rw [hused]
        exact (hserved s hpass env.calls).used_le hex
  · intro s hpass first later hcalls hcross
    have hfirst := hserved s hpass first
    have hex : (s.serve (callContext lang sum vm opts) first).gasTracker.exhausted = true := by
      rw [hfirst.consistent.exhausted_iff, hfirst.ceiling_eq]
      exact hcross
    constructor
    · intro middle call last _ hcharges
      rw [Session.serve_append]
      exact Session.answer_throws (hfirst.serve _ middle).consistent
        (Session.serve_exhausted hex middle) hcharges
    · intro r hr
      obtain hfail | ⟨s', rawReturn, hpass', rfl⟩ := execute_cases lang sum vm opts env hgate hr
      · exact hfail.success_eq
      · obtain rfl : s' = s := LintStep.pass.inj (hpass'.symm.trans hpass)
        obtain hfail | ⟨hdown, -⟩ := collectResults_cases lang hgate (hserved s' hpass env.calls) rawReturn
        · exact hfail.success_eq
        · rw [hcalls, Session.serve_append, Session.serve_exhausted hex later] at hdown
          exact absurd hdown (by simp)

end

def smallVm : Vm where
  gasSchedule := ⟨1, 1, 1, 1⟩
  gasCeiling := 10
  limits := { maxStateKeySize := 64, maxStateValueSize := 64, maxStateKeys := 8
              maxCodeSize := 1024, maxEmissions := 4, maxCallDepth := 3, minCallGas := 1 }
  gasCeiling_nonneg := by norm_num

def regtestOpts : ExecuteOpts where
  network := .string "regtest"
  contractAddress := .string "C:BTC:1"
  height := .finite 1
  timestamp := .finite 1
  gasCeiling := .undefined
  callDepth := .undefined
  codeBytes := 300
  state := []

/-- The run charges past the ceiling, catches the error, writes a key and returns. -/
def swallowing : Environment where
  lint := .valid
  setup := .ready
  metering := none
  compilation := none
  calls := [.stateSet (.string "a") (.bool true), .gas (.number (.finite 20)),
    .stateSet (.string "b") (.bool true)]
  ending := .returned .undefined
  signals := ⟨false, false, false⟩

def plainLanguage : Language := ⟨fun _ => "0", fun _ => some .nan, fun _ => some "true"⟩

theorem gas_ceiling_over_executions_swallowing :
    (execute plainLanguage .exact smallVm regtestOpts swallowing).success = some false ∧
    ∀ r, execute plainLanguage .exact smallVm regtestOpts swallowing = .result r →
      r.gasUsed ≤ execCeiling smallVm regtestOpts ∧
      (r.success = false → r.stateChanges = [] ∧ r.stateDeletes = [] ∧ r.emittedActions = []) :=
  ⟨by decide +kernel,
    (gas_ceiling_over_executions plainLanguage .exact smallVm regtestOpts swallowing rfl).1⟩

end XChainVM.Runtime
