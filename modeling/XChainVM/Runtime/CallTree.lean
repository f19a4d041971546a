import XChainVM.Runtime.GasCeiling
import XChainVM.Runtime.Reservation
import XChainVM.Tree.Budget

/-! # Gas over call trees

An execution queues calls, and each queued call runs later under the ceiling and
the depth its action states. What every execution of such a tree does is
arbitrary. The tree is finite, and its executions together bill, on top of what
they reserve for one another, no more than the ceiling of the root.
-/

namespace XChainVM.Runtime

open Gas Js Finset

section

variable {lang : Language} {vm : Vm} {opts : ExecuteOpts} {env : Environment} {r : Result}

theorem checkExecLint_backed {s : Session} {ctx : CallContext}
    (h : checkExecLint .exact vm opts env.lint (.start vm opts) = .pass s) : s.Backed ctx := by
  have hstart : (Session.start vm opts).Backed ctx := .start vm opts
  obtain rfl | ⟨amount, -, rfl⟩ := checkExecLint_session h
  · exact hstart
  · exact hstart.of_used_le (GasTracker.used_le_charge _ _ _) (GasTracker.charge_ceiling _ _ _) rfl

/-- A result bills at least what it hands on, at most its ceiling, and every call it
queued is backed. -/
structure Result.Covered (r : Result) (ctx : CallContext) (ceiling : ℚ) : Prop where
  gasUsed_le : r.gasUsed ≤ ceiling
  reserved_le : (reserved r.emittedActions : WithTop ℚ) ≤ r.gasUsed
  backed : ∀ a ∈ calls r.emittedActions, a.Backed ctx ceiling

theorem Result.Failed.covered {ctx : CallContext} {ceiling : ℚ} (h : r.Failed ceiling) :
    r.Covered ctx ceiling := by
  refine ⟨h.gasUsed_le, ?_, ?_⟩
  · rw [h.emittedActions_eq]
    exact h.gasUsed_nonneg
  · rw [h.emittedActions_eq]
    exact fun a ha => absurd ha (by simp [calls])

theorem execute_covered (hgate : opts.gasCeilingExhausted = true) (hmin : 0 ≤ vm.limits.minCallGas)
    (h : execute lang .exact vm opts env = .result r) :
    r.Covered (callContext lang .exact vm opts) (execCeiling vm opts) := by
  obtain hfail | ⟨s, rawReturn, hpass, rfl⟩ := execute_cases lang .exact vm opts env hgate h
  · exact hfail.covered
  · have hserved := (checkExecLint_pass (Session.Metered.start vm opts) rfl hpass).1.serve
      (callContext lang .exact vm opts) env.calls
    have hbacked : (s.serve (callContext lang .exact vm opts) env.calls).Backed
        (callContext lang .exact vm opts) :=
      Session.Backed.serve rfl hmin env.calls s (checkExecLint_backed hpass)
    obtain hfail | ⟨hex, -, hused, hactions⟩ := collectResults_cases lang hgate hserved rawReturn
    · exact hfail.covered
    · refine ⟨?_, ?_, ?_⟩
      · rw [hused]
        exact hserved.used_le hex
      · rw [hused, hactions]
        exact hbacked.covered
      · rw [hactions, ← hserved.ceiling_eq]
        exact hbacked.backed

end

/-- A tree of executions on one machine. `opts` and `env` give, at each position, what the
execution there is handed apart from its ceiling and depth, and what it does and meets. -/
structure CallTree where
  lang : Language
  vm : Vm
  opts : List ℕ → ExecuteOpts
  env : List ℕ → Environment

/-- What a result bills beyond the budgets it hands on to the calls it queued. A reservation
that was charged and then dropped counts as the execution's own. -/
def Outcome.ownGas : Outcome → ℚ
  | .result r => r.gasUsed.untopD 0 - reserved r.emittedActions
  | .threw _ => 0

def Outcome.queued : Outcome → List EmittedAction
  | .result r => calls r.emittedActions
  | .threw _ => []

theorem sum_range_map_getElem? {α : Type*} (f : α → ℚ) (l : List α) :
    ∑ i ∈ range l.length, (l[i]?.map f).getD 0 = (l.map f).sum := by
  induction l with
  | nil => rfl
  | cons a l ih =>
    rw [List.length_cons, sum_range_succ', List.map_cons, List.sum_cons, add_comm, ← ih]
    rfl

namespace CallTree

variable (T : CallTree)

def outcome (p : List ℕ) (o : ExecuteOpts) : Outcome := execute T.lang .exact T.vm o (T.env p)

/-- The indexer runs a queued call under the gas limit it states and one level deeper. -/
def callee (base caller : ExecuteOpts) (call : EmittedAction) : ExecuteOpts :=
  { base with
    gasCeiling := call.params.get "gasLimit"
    callDepth := .number (.finite ((callDepthOf caller + 1 : ℤ) : ℚ)) }

/-- The execution at a position; its head is the place among the calls of its caller. -/
def execution : List ℕ → Option ExecuteOpts
  | [] => some (T.opts [])
  | i :: p =>
    match execution p with
    | some caller => (T.outcome p caller).queued[i]?.map (callee (T.opts (i :: p)) caller)
    | none => none

def ownGas (p : List ℕ) : ℚ := ((T.execution p).map fun o => (T.outcome p o).ownGas).getD 0

def ceiling (p : List ℕ) : ℚ := ((T.execution p).map (execCeiling T.vm)).getD 0

def arity (p : List ℕ) : ℕ := ((T.execution p).map fun o => (T.outcome p o).queued.length).getD 0

variable {T} {p : List ℕ} {o : ExecuteOpts}

theorem ownGas_of_execution (h : T.execution p = some o) : T.ownGas p = (T.outcome p o).ownGas := by
  rw [ownGas, h]
  rfl

theorem ceiling_of_execution (h : T.execution p = some o) : T.ceiling p = execCeiling T.vm o := by
  rw [ceiling, h]
  rfl

theorem arity_of_execution (h : T.execution p = some o) : T.arity p = (T.outcome p o).queued.length := by
  rw [arity, h]
  rfl

theorem execution_cons (h : T.execution p = some o) (i : ℕ) : T.execution (i :: p) =
    (T.outcome p o).queued[i]?.map (callee (T.opts (i :: p)) o) := by
  simp only [execution, h]

theorem execution_cons_eq_some {i : ℕ} {o' : ExecuteOpts} (h : T.execution (i :: p) = some o') :
    ∃ o call, T.execution p = some o ∧ (T.outcome p o).queued[i]? = some call ∧
      o' = callee (T.opts (i :: p)) o call := by
  cases hp : T.execution p with
  | none => simp [execution, hp] at h
  | some o =>
    rw [execution_cons hp, Option.map_eq_some_iff] at h
    obtain ⟨call, hcall, rfl⟩ := h
    exact ⟨o, call, rfl, hcall, rfl⟩

theorem callDepthOf_of_int {d : ℤ} (h : o.callDepth = .number (.finite d)) : callDepthOf o = d := by
  simp [callDepthOf, h, Rat.isInt]

theorem callDepthOf_callee (base caller : ExecuteOpts) (call : EmittedAction) :
    callDepthOf (callee base caller call) = callDepthOf caller + 1 :=
  callDepthOf_of_int rfl

section

variable (hgate : ∀ p, (T.opts p).gasCeilingExhausted = true) (hmin : 1 ≤ T.vm.limits.minCallGas)

include hgate

theorem gate_of_execution (h : T.execution p = some o) : o.gasCeilingExhausted = true := by
  cases p with
  | nil =>
    rw [← Option.some.inj h]
    exact hgate []
  | cons i p =>
    obtain ⟨caller, call, -, -, rfl⟩ := execution_cons_eq_some h
    exact hgate (i :: p)

include hmin

theorem covered_of_execution (h : T.execution p = some o) {r : Result} (hr : T.outcome p o = .result r) :
    r.Covered (callContext T.lang .exact T.vm o) (execCeiling T.vm o) :=
  execute_covered (gate_of_execution hgate h) (Int.le_of_lt hmin) hr

theorem backed_of_queued (h : T.execution p = some o) {call : EmittedAction}
    (hcall : call ∈ (T.outcome p o).queued) :
    call.Backed (callContext T.lang .exact T.vm o) (execCeiling T.vm o) := by
  cases hr : T.outcome p o with
  | threw e => simp [hr, Outcome.queued] at hcall
  | result r =>
    rw [hr] at hcall
    exact (covered_of_execution hgate hmin h hr).backed call hcall

/-- A callee runs under exactly what its caller reserved, also when that is the whole of
the configured ceiling. -/
theorem execCeiling_callee (h : T.execution p = some o) {call : EmittedAction}
    (hcall : call ∈ (T.outcome p o).queued) (base : ExecuteOpts) :
    execCeiling T.vm (callee base o call) = call.reservation := by
  obtain ⟨hlimit, hint, hleast, hfits, -⟩ := backed_of_queued hgate hmin h hcall
  have hpos : (0 : ℚ) < call.reservation :=
    lt_of_lt_of_le (by exact_mod_cast Int.lt_of_lt_of_le Int.zero_lt_one hmin) hleast
  have hconfigured : execCeiling T.vm o ≤ T.vm.gasCeiling := effectiveCeiling_le _ _
  simp only [execCeiling, callee, hlimit]
  exact effectiveCeiling_reservation hint hpos (hfits.trans hconfigured)

theorem ownGas_add_reserved_le (h : T.execution p = some o) :
    T.ownGas p + ((T.outcome p o).queued.map EmittedAction.reservation).sum ≤ T.ceiling p := by
  rw [ownGas_of_execution h, ceiling_of_execution h]
  cases hr : T.outcome p o with
  | threw e =>
    simpa [Outcome.ownGas, Outcome.queued, execCeiling] using
      effectiveCeiling_nonneg T.vm.gasCeiling_nonneg o.gasCeiling
  | result r =>
    have hle := (covered_of_execution hgate hmin h hr).gasUsed_le
    have hused : r.gasUsed.untopD 0 ≤ execCeiling T.vm o := by
      cases hu : r.gasUsed with
      | top => simp [hu] at hle
      | coe used => simpa [hu] using hle
    simp only [Outcome.ownGas, Outcome.queued, ← reserved_eq_sum_calls]
    linarith

theorem ownGas_nonneg (h : T.execution p = some o) : 0 ≤ T.ownGas p := by
  rw [ownGas_of_execution h]
  cases hr : T.outcome p o with
  | threw e => exact le_refl 0
  | result r =>
    have hcovered := covered_of_execution hgate hmin h hr
    have hle := hcovered.gasUsed_le
    have hreserved := hcovered.reserved_le
    cases hu : r.gasUsed with
    | top => simp [hu] at hle
    | coe used =>
      rw [hu] at hreserved
      simpa [Outcome.ownGas, hu] using hreserved

/-- The ceilings of the callees are the reservations of the caller. -/
theorem sum_ceiling_callees (h : T.execution p = some o) :
    ∑ i ∈ range (T.arity p), T.ceiling (i :: p) =
      ((T.outcome p o).queued.map EmittedAction.reservation).sum := by
  rw [arity_of_execution h, ← sum_range_map_getElem?]
  apply sum_congr rfl
  intro i hi
  have hlt : i < (T.outcome p o).queued.length := mem_range.mp hi
  have hget : (T.outcome p o).queued[i]? = some (T.outcome p o).queued[i] := List.getElem?_eq_getElem hlt
  have hexec : T.execution (i :: p) = some (callee (T.opts (i :: p)) o (T.outcome p o).queued[i]) := by
    rw [execution_cons h, hget, Option.map_some]
  rw [ceiling_of_execution hexec, execCeiling_callee hgate hmin h (List.getElem_mem hlt), hget]
  rfl

end

theorem callDepthOf_execution : ∀ {p : List ℕ} {o : ExecuteOpts}, T.execution p = some o →
    callDepthOf o = callDepthOf (T.opts []) + p.length := by
  intro p
  induction p with
  | nil =>
    intro o h
    rw [← Option.some.inj h]
    simp
  | cons i p ih =>
    intro o h
    obtain ⟨caller, call, hcaller, -, rfl⟩ := execution_cons_eq_some h
    rw [callDepthOf_callee, ih hcaller, List.length_cons, Nat.cast_succ, add_assoc]

/-- What a call tree conserves: every execution bills its own gas once, a callee's ceiling
is its reservation, and no execution is deeper than the limit. -/
structure Conserving (T : CallTree) (nodes : Finset (List ℕ)) : Prop where
  mem_iff : ∀ p, p ∈ nodes ↔ (T.execution p).isSome = true
  ownGas_nonneg : ∀ p ∈ nodes, 0 ≤ T.ownGas p
  sum_ownGas_le : ∑ p ∈ nodes, T.ownGas p ≤ execCeiling T.vm (T.opts [])
  ceiling_eq : ∀ i p caller call, T.execution p = some caller →
    (T.outcome p caller).queued[i]? = some call → T.ceiling (i :: p) = call.reservation
  depth_le : ∀ p o, T.execution p = some o → callDepthOf o ≤ T.vm.limits.maxCallDepth

section

variable (hgate : ∀ p, (T.opts p).gasCeilingExhausted = true) (hmin : 1 ≤ T.vm.limits.minCallGas)

include hgate hmin

theorem callDepthOf_le (hroot : callDepthOf (T.opts []) ≤ T.vm.limits.maxCallDepth)
    (h : T.execution p = some o) : callDepthOf o ≤ T.vm.limits.maxCallDepth := by
  cases p with
  | nil => rwa [← Option.some.inj h]
  | cons i p =>
    obtain ⟨caller, call, hcaller, hcall, rfl⟩ := execution_cons_eq_some h
    rw [callDepthOf_callee]
    exact (backed_of_queued hgate hmin hcaller (List.mem_of_getElem? hcall)).2.2.2.2

def budgetTree : Tree.BudgetTree ℚ where
  Live p := (T.execution p).isSome = true
  arity := T.arity
  own := T.ownGas
  budget := T.ceiling
  live_root := rfl
  live_cons i p := by
    cases h : T.execution p with
    | none => simp [execution, h]
    | some o => simp [execution_cons h, arity_of_execution h]
  conserve p hp := by
    obtain ⟨o, h⟩ := Option.isSome_iff_exists.mp hp
    rw [sum_ceiling_callees hgate hmin h]
    exact ownGas_add_reserved_le hgate hmin h

end

theorem gas_conservation (T : CallTree) (hgate : ∀ p, (T.opts p).gasCeilingExhausted = true)
    (hmin : 1 ≤ T.vm.limits.minCallGas)
    (hroot : callDepthOf (T.opts []) ≤ T.vm.limits.maxCallDepth) :
    ∃ nodes : Finset (List ℕ), T.Conserving nodes := by
  have hdepth : ∀ p, (T.execution p).isSome = true →
      p.length ≤ (T.vm.limits.maxCallDepth - callDepthOf (T.opts [])).toNat := by
    intro p hp
    obtain ⟨o, h⟩ := Option.isSome_iff_exists.mp hp
    have hle := callDepthOf_le hgate hmin hroot h
    rw [callDepthOf_execution h] at hle
    omega
  have hleaf : ∀ p, (T.execution p).isSome = true → T.ownGas p ≤ T.ceiling p := by
    intro p hp
    obtain ⟨o, h⟩ := Option.isSome_iff_exists.mp hp
    have hsplit := ownGas_add_reserved_le hgate hmin h
    have hreserved : 0 ≤ ((T.outcome p o).queued.map EmittedAction.reservation).sum := by
      apply List.sum_nonneg
      intro q hq
      obtain ⟨call, hcall, rfl⟩ := List.mem_map.mp hq
      obtain ⟨-, -, hleast, -⟩ := backed_of_queued hgate hmin h hcall
      exact le_trans (by exact_mod_cast Int.le_of_lt hmin) hleast
    linarith
  obtain ⟨nodes, hmem, hsum⟩ := (budgetTree hgate hmin).exists_nodes hdepth hleaf
  refine ⟨nodes, hmem, fun p hp => ?_, ?_, ?_, fun p o h => callDepthOf_le hgate hmin hroot h⟩
  · obtain ⟨o, h⟩ := Option.isSome_iff_exists.mp ((hmem p).mp hp)
    exact ownGas_nonneg hgate hmin h
  · exact hsum
  · intro i p caller call hcaller hcall
    have hexec : T.execution (i :: p) = some (callee (T.opts (i :: p)) caller call) := by
      rw [execution_cons hcaller, hcall, Option.map_some]
    rw [ceiling_of_execution hexec]
    exact execCeiling_callee hgate hmin hcaller (List.mem_of_getElem? hcall) _

/-- A root that hands four of its ten units to a callee, which spends one. -/
def relay : CallTree where
  lang := ⟨fun _ => "0", fun _ => some (.finite 7), fun _ => some "true"⟩
  vm := smallVm
  opts _ := regtestOpts
  env
    | [] => { swallowing with calls := [.execute (.object [("contractIndex", .number (.finite 7)),
        ("method", .string "ping"), ("gasLimit", .number (.finite 4))])] }
    | _ => { swallowing with calls := [.gas (.number (.finite 1))] }

theorem gas_conservation_relay :
    (relay.execution [0]).isSome = true ∧ ∃ nodes : Finset (List ℕ), relay.Conserving nodes :=
  ⟨by decide +kernel, gas_conservation relay (fun _ => rfl) (by decide) (by decide +kernel)⟩

end CallTree

end XChainVM.Runtime
