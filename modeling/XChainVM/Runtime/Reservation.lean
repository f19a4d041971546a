import XChainVM.Machine.Fallible
import XChainVM.Runtime.Charging

/-! # Reservations of one execution

A queued call carries the gas that was charged for it, and an execution queues
a call only below the depth limit and for a reservation that fits what is left.
So the calls a session holds are paid for out of its total.
-/

namespace XChainVM.Runtime

open Gas Js Machine

def EmittedAction.reservation (a : EmittedAction) : ℚ :=
  if a.action = "EXECUTE" then
    match a.params.get "gasLimit" with
    | .number (.finite q) => q
    | _ => 0
  else 0

/-- The cross-contract calls among the emitted actions, in their order. -/
def calls (actions : List EmittedAction) : List EmittedAction :=
  actions.filter fun a => a.action = "EXECUTE"

def reserved (actions : List EmittedAction) : ℚ := (actions.map EmittedAction.reservation).sum

theorem reserved_concat (actions : List EmittedAction) (a : EmittedAction) :
    reserved (actions ++ [a]) = reserved actions + a.reservation := by
  simp [reserved]

theorem reserved_eq_sum_calls (actions : List EmittedAction) :
    reserved actions = ((calls actions).map EmittedAction.reservation).sum := by
  induction actions with
  | nil => rfl
  | cons a actions ih =>
    rw [reserved, List.map_cons, List.sum_cons, ← reserved, ih]
    by_cases h : a.action = "EXECUTE"
    · simp [h, calls]
    · simp [h, calls, EmittedAction.reservation]

theorem Emitter.action_ne_execute (emitter : Emitter) : emitter.action ≠ "EXECUTE" := by
  cases emitter <;> decide

/-- What the checks of `emit.execute` establish. -/
structure ExecuteRequest.Admissible (r : ExecuteRequest) (ctx : CallContext) : Prop where
  depth : ctx.callDepth + 1 ≤ ctx.limits.maxCallDepth
  isInt : r.gasLimit.isInt = true
  minimum : (ctx.limits.minCallGas : ℚ) ≤ r.gasLimit

theorem checkGasLimit_ok {minCallGas : ℤ} {v : Value} {q : ℚ} (h : checkGasLimit minCallGas v = .ok q) :
    q.isInt = true ∧ (minCallGas : ℚ) ≤ q := by
  unfold checkGasLimit at h
  split at h
  · split at h
    · next hq =>
      rw [← Except.ok.inj h]
      exact hq
    · exact absurd h (by simp)
  · exact absurd h (by simp)

theorem require_ok {holds : Bool} {e : ExecuteRefusal} {u : Unit} (h : require holds e = .ok u) :
    holds = true := by
  unfold require at h
  split at h
  · assumption
  · exact absurd h (by simp)

theorem checkExecute_admissible {ctx : CallContext} {params : Value} {r : ExecuteRequest}
    (h : checkExecute ctx params = .ok r) : r.Admissible ctx := by
  obtain ⟨_, -, h⟩ := bind_ok h
  obtain ⟨_, hdepth, h⟩ := bind_ok h
  obtain ⟨_, -, h⟩ := bind_ok h
  obtain ⟨_, -, h⟩ := bind_ok h
  obtain ⟨_, -, h⟩ := bind_ok h
  obtain ⟨gasLimit, hgas, h⟩ := bind_ok h
  obtain ⟨hint, hmin⟩ := checkGasLimit_ok hgas
  rw [← Except.ok.inj h]
  exact ⟨of_decide_eq_true (require_ok hdepth), hint, hmin⟩

/-- Stripping the parameters keeps the gas limit of a queued call. -/
theorem get_gasLimit_strip (c : EmissionCollector) (r : ExecuteRequest) :
    (c.strip r.params).get "gasLimit" = .number (.finite r.gasLimit) := by
  unfold EmissionCollector.strip
  split <;> simp [ExecuteRequest.params, deepStripParams, deepStripFields,
    shallowStripParams, isPrototypeKey, Value.get, Value.ownProperty?, Value.lookup]

theorem reservation_execute (c : EmissionCollector) (r : ExecuteRequest) :
    EmittedAction.reservation ⟨"EXECUTE", c.strip r.params⟩ = r.gasLimit := by
  simp [EmittedAction.reservation, get_gasLimit_strip]

/-- A queued call states an integer reservation between the minimum and the ceiling, and
stands above the depth limit of its caller. -/
def EmittedAction.Backed (a : EmittedAction) (ctx : CallContext) (ceiling : ℚ) : Prop :=
  a.params.get "gasLimit" = .number (.finite a.reservation) ∧ a.reservation.isInt = true ∧
    (ctx.limits.minCallGas : ℚ) ≤ a.reservation ∧ a.reservation ≤ ceiling ∧
    ctx.callDepth + 1 ≤ ctx.limits.maxCallDepth

namespace Session

/-- The queue is paid for: its reservations fit in the total, and each call is backed. -/
structure Backed (s : Session) (ctx : CallContext) : Prop where
  nonneg : 0 ≤ s.gasTracker.used
  covered : (reserved s.emissionCollector.actions : WithTop ℚ) ≤ s.gasTracker.used
  backed : ∀ a ∈ calls s.emissionCollector.actions, a.Backed ctx s.gasTracker.ceiling

variable {ctx : CallContext} {s : Session}

theorem Backed.start (vm : Vm) (opts : ExecuteOpts) : (Session.start vm opts).Backed ctx where
  nonneg := le_refl 0
  covered := le_refl 0
  backed _ h := absurd h (by simp [Session.start, EmissionCollector.new, calls])

/-- Spending more keeps the queue paid for. -/
theorem Backed.of_used_le {s' : Session} (h : s.Backed ctx)
    (hused : s.gasTracker.used ≤ s'.gasTracker.used)
    (hceil : s'.gasTracker.ceiling = s.gasTracker.ceiling)
    (hactions : s'.emissionCollector.actions = s.emissionCollector.actions) : s'.Backed ctx where
  nonneg := h.nonneg.trans hused
  covered := by
    rw [hactions]
    exact h.covered.trans hused
  backed := by
    rw [hactions, hceil]
    exact h.backed

theorem Backed.charge (h : s.Backed ctx) (amount : Number) : (s.charge ctx amount).2.Backed ctx :=
  h.of_used_le (s.gasTracker.used_le_charge ctx.sum amount) (s.gasTracker.charge_ceiling _ _) rfl

theorem Backed.write (h : s.Backed ctx) (result : Except StateError StateManager) :
    (s.write result).2.Backed ctx := by
  cases result with
  | ok m => exact h.of_used_le le_rfl rfl rfl
  | error e => exact h

/-- Queueing an action other than a call adds no reservation. -/
theorem Backed.queue (h : s.Backed ctx) {action : String} (haction : action ≠ "EXECUTE")
    (params : Value) : (s.queue action params).2.Backed ctx := by
  unfold Session.queue EmissionCollector.add
  by_cases hroom : s.emissionCollector.ensureRoom
  · have hreserved : reserved (s.emissionCollector.actions ++ [⟨action, s.emissionCollector.strip params⟩])
        = reserved s.emissionCollector.actions := by
      rw [reserved_concat, EmittedAction.reservation, if_neg haction, add_zero]
    have hcalls : calls (s.emissionCollector.actions ++ [⟨action, s.emissionCollector.strip params⟩])
        = calls s.emissionCollector.actions := by
      simp [calls, haction]
    simp only [hroom, if_true]
    refine ⟨h.nonneg, ?_, ?_⟩
    · rw [hreserved]
      exact h.covered
    · rw [hcalls]
      exact h.backed
  · simpa [hroom] using h

/-- Queueing a call whose reservation has been charged. -/
theorem Backed.queue_execute (h : s.Backed ctx) {r : ExecuteRequest} (hr : r.Admissible ctx)
    (hpaid : ((reserved s.emissionCollector.actions + r.gasLimit : ℚ) : WithTop ℚ) ≤ s.gasTracker.used)
    (hceil : r.gasLimit ≤ s.gasTracker.ceiling) : (s.queue "EXECUTE" r.params).2.Backed ctx := by
  unfold Session.queue EmissionCollector.add
  by_cases hroom : s.emissionCollector.ensureRoom
  · simp only [hroom, if_true]
    refine ⟨h.nonneg, ?_, fun a ha => ?_⟩
    · rw [reserved_concat, reservation_execute]
      exact hpaid
    · simp only [calls, List.filter_append, List.mem_append] at ha
      rcases ha with ha | ha
      · exact h.backed a ha
      · obtain rfl : a = ⟨"EXECUTE", s.emissionCollector.strip r.params⟩ := by simpa using ha
        unfold EmittedAction.Backed
        rw [reservation_execute]
        exact ⟨get_gasLimit_strip _ r, hr.isInt, hr.minimum, hceil, hr.depth⟩
  · simpa [hroom] using h

theorem Backed.afterCharge (h : s.Backed ctx) (amount : Number)
    {next : Session → Option CallError × Session}
    (hnext : (s.charge ctx amount).1 = none → (next (s.charge ctx amount).2).2.Backed ctx) :
    (s.afterCharge ctx amount next).2.Backed ctx := by
  obtain ⟨hnone, heq⟩ | ⟨-, heq⟩ := s.afterCharge_cases ctx amount next
  · rw [heq]
    exact hnext hnone
  · rw [heq]
    exact h.charge amount

/-- A reservation that fits what is left is charged in full before the call is queued. -/
theorem Backed.reserve (hsum : ctx.sum = .exact) (hmin : 0 ≤ ctx.limits.minCallGas) (h : s.Backed ctx)
    {r : ExecuteRequest} (hr : r.Admissible ctx) : (s.reserve ctx r).2.Backed ctx := by
  unfold Session.reserve
  split
  · exact h
  · next hfits =>
    split
    · exact h
    · apply h.afterCharge
      intro hnone
      have hgas : (0 : ℚ) ≤ r.gasLimit := (Int.cast_nonneg hmin).trans hr.minimum
      have hemission : (0 : ℚ) ≤ ctx.gasSchedule.emission := Nat.cast_nonneg _
      have hused := charge_used hnone
      rw [hsum] at hused
      apply (h.charge _).queue_execute hr
      · rw [hused]
        have hmore : ((r.gasLimit : ℚ) : WithTop ℚ) ≤ ((ctx.gasSchedule.emission + r.gasLimit : ℚ) : WithTop ℚ) := by
          exact_mod_cast le_add_of_nonneg_left hemission
        rw [WithTop.coe_add]
        exact add_le_add h.covered hmore
      · rw [charge_gasTracker, GasTracker.charge_ceiling]
        have hnonneg := h.nonneg
        revert hfits hnonneg
        cases hu : s.gasTracker.used with
        | top => simp [GasTracker.exceedsRemaining, hu]
        | coe used =>
          intro hfits hnonneg
          have hpos : (0 : ℚ) ≤ used := by exact_mod_cast hnonneg
          have hfit : r.gasLimit + ctx.gasSchedule.emission ≤ s.gasTracker.ceiling - used := by
            simpa [GasTracker.exceedsRemaining, hu] using hfits
          linarith

theorem Backed.answer (hsum : ctx.sum = .exact) (hmin : 0 ≤ ctx.limits.minCallGas) (h : s.Backed ctx)
    (call : HostCall) : (s.answer ctx call).2.Backed ctx := by
  cases call with
  | gas units => exact h.charge _
  | charge amount => exact h.charge amount
  | stateSet key value => exact h.afterCharge _ fun _ => (h.charge _).write _
  | stateDelete key => exact h.afterCharge _ fun _ => (h.charge _).write _
  | emit emitter amount params =>
    exact h.afterCharge _ fun _ => (h.charge _).queue emitter.action_ne_execute params
  | execute params =>
    simp only [Session.answer, emitExecute]
    split
    · exact h
    · next hcheck => exact h.reserve hsum hmin (checkExecute_admissible hcheck)
  | log message =>
    refine h.of_used_le le_rfl rfl ?_
    simp only [Session.answer, EmissionCollector.addLog]
    split <;> rfl
  | revert reason => exact h.of_used_le le_rfl rfl rfl

theorem Backed.serve (hsum : ctx.sum = .exact) (hmin : 0 ≤ ctx.limits.minCallGas)
    (hostCalls : List HostCall) : ∀ s : Session, s.Backed ctx → (s.serve ctx hostCalls).Backed ctx := by
  induction hostCalls with
  | nil => exact fun s h => h
  | cons call hostCalls ih => exact fun s h => ih _ (h.answer hsum hmin call)

end Session

end XChainVM.Runtime
