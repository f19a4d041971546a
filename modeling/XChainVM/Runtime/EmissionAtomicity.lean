import XChainVM.Runtime.Emitters
import XChainVM.Runtime.IdentifierRuns
import XChainVM.Runtime.Reservation

/-! # Emission is atomic

Every emitter charges and checks in an order of its own, and queues last. Until then the queue is
the one the call found and the charges are the only trace, whatever throws.
-/

namespace XChainVM.Runtime

open Gas Js Machine EmitApi

def EmitError.IsLimit : EmitError → Prop
  | .call (.emissionLimit _) => True
  | _ => False

/-- Nothing is queued so far, and the tracker has taken the charges. -/
structure Pending (ctx : CallContext) (s₀ : Session) (charges : List ℚ) (s : Session) : Prop where
  collector : s.emissionCollector = s₀.emissionCollector
  nonneg : ∀ c ∈ charges, 0 ≤ c
  used : s.gasTracker.used = charges.foldl ctx.sum.add s₀.gasTracker.used

/-- The call threw: the queue, and with it the next index, is the one it found, and an error of a
full queue means that it was full. -/
structure Rejected (s₀ : Session) (e : EmitError) (s : Session) : Prop where
  collector : s.emissionCollector = s₀.emissionCollector
  full : e.IsLimit → s₀.emissionCollector.ensureRoom = false

/-- One action more, which the validator accepts, and charges of at least the emission cost. -/
structure Emitted (ctx : CallContext) (action : String) (s₀ s : Session) : Prop where
  appended : ∃ a : EmittedAction, a.action = action ∧ validate a = none ∧
    s.emissionCollector =
      { s₀.emissionCollector with actions := s₀.emissionCollector.actions ++ [a] }
  withinMax : (s.emitted : ℤ) ≤ s₀.emissionCollector.max
  charged : ∃ charges : List ℚ, (∀ c ∈ charges, 0 ≤ c) ∧ ctx.gasSchedule.emission ≤ charges.sum ∧
    s.gasTracker.used = charges.foldl ctx.sum.add s₀.gasTracker.used

theorem foldl_exact (charges : List ℚ) (used : WithTop ℚ) :
    charges.foldl Addition.exact.add used = used + (charges.sum : ℚ) := by
  induction charges generalizing used with
  | nil => simp
  | cons c charges ih =>
    rw [List.foldl_cons, ih, List.sum_cons, WithTop.coe_add, ← add_assoc]
    rfl

/-- Where amounts are added exactly, the total grows by the emission cost at least. -/
theorem Emitted.used_add_le {ctx : CallContext} {action : String} {s₀ s : Session}
    (h : Emitted ctx action s₀ s) (hsum : ctx.sum = .exact) :
    s₀.gasTracker.used + (ctx.gasSchedule.emission : ℚ) ≤ s.gasTracker.used := by
  obtain ⟨charges, -, hcost, hused⟩ := h.charged
  rw [hused, hsum, foldl_exact]
  have hcost' : ((ctx.gasSchedule.emission : ℚ) : WithTop ℚ) ≤ (charges.sum : ℚ) := by exact_mod_cast hcost
  exact add_le_add_right hcost' _

def NeverLimit {α : Type} (result : Except EmitError α) : Prop := ∀ e, result = .error e → ¬ e.IsLimit

namespace NeverLimit

variable {α β : Type} {e : EmitError} (lang : Language) (v : Value)

theorem ok (a : α) : NeverLimit (.ok a : Except EmitError α) := nofun

theorem error (h : ¬ e.IsLimit) : NeverLimit (.error e : Except EmitError α) := by
  rintro e' ⟨⟩
  exact h

theorem bind {x : Except EmitError α} {f : α → Except EmitError β} (h : NeverLimit x)
    (hf : ∀ a, NeverLimit (f a)) : NeverLimit (x >>= f) := by
  cases x with
  | error e =>
    rintro e' ⟨⟩
    exact h e rfl
  | ok a => exact hf a

theorem map {x : Except EmitError α} (f : α → β) (h : NeverLimit x) : NeverLimit (x.map f) := by
  cases x with
  | error e =>
    rintro e' ⟨⟩
    exact h e rfl
  | ok a => exact ok (f a)

theorem ite {c : Prop} [Decidable c] {x y : Except EmitError α} (hx : NeverLimit x) (hy : NeverLimit y) :
    NeverLimit (if c then x else y) := by
  split
  · exact hx
  · exact hy

theorem demand (holds : Bool) (h : ¬ e.IsLimit) : NeverLimit (demand holds e) := ite (ok ()) (error h)

theorem converted (x : Option α) : NeverLimit (converted x) := by
  cases x with
  | none => exact error id
  | some a => exact ok a

theorem shared (x : Except ExecuteRefusal α) : NeverLimit (shared x) := by
  cases x with
  | error e => exact error id
  | ok a => exact ok a

theorem checkText (limit : ℕ) (h : ¬ e.IsLimit) : NeverLimit (checkText limit e v) := by
  unfold Runtime.checkText
  split
  · exact ite (error h) (ok _)
  · exact error h

theorem checkInteger (minimum maximum : ℚ) (h : ¬ e.IsLimit) :
    NeverLimit (checkInteger minimum maximum e v) := by
  unfold Runtime.checkInteger
  split
  · exact ite (ok _) (error h)
  · exact error h

theorem checkForm (form : String → Bool) (h : ¬ e.IsLimit) : NeverLimit (checkForm form e v) := by
  unfold Runtime.checkForm
  split
  · exact ite (ok _) (error h)
  · exact error h

theorem checkElements : NeverLimit (checkElements v) := by
  unfold Runtime.checkElements
  split
  · exact ok _
  · exact error id

theorem checkCallbackJson (elements : List Value) : NeverLimit (checkCallbackJson lang elements) := by
  unfold Runtime.checkCallbackJson
  split
  · exact error id
  · exact ite (error id) (ok _)

theorem numberOption (fallback : ℚ) : NeverLimit (numberOption lang fallback v) := by
  unfold Runtime.numberOption
  split
  · exact ok _
  · exact map _ (converted _)

theorem validateTypes (fields : List String) : NeverLimit (validateTypes v fields) := by
  induction fields with
  | nil => exact ok ()
  | cons field rest ih => exact ite ih (error id)

theorem checkVote : NeverLimit (Emit.checkVote lang v) := by
  refine bind (converted _) fun version => ?_
  apply ite
  · exact bind (shared _) fun _ => validateTypes v _
  · exact ite (bind (shared _) fun _ => validateTypes v _) (error id)

theorem validateSlashArgs (ctx : GatewayContext) (pubkey token amount : Value) :
    NeverLimit (validateSlashArgs ctx pubkey token amount) := by
  refine bind (checkForm _ _ id) fun _ => ?_
  refine bind (checkForm _ _ id) fun token => ?_
  refine bind (demand _ id) fun _ => ?_
  exact bind (checkForm _ _ id) fun _ => ok ()

theorem checkRequestPayload : NeverLimit (checkRequestPayload v) := by
  unfold Runtime.checkRequestPayload
  split
  · exact ite (error id) (ok _)
  · exact error id

theorem checkRedundancy : NeverLimit (checkRedundancy v) := by
  unfold Runtime.checkRedundancy
  split
  · exact ite (ok _) (error id)
  · exact error id

theorem feeText : NeverLimit (feeText lang v) := ite (ok "") (map _ (converted _))

theorem checkProviderWindow (providerId : String) (deadlineBlocks : ℚ) :
    NeverLimit (checkProviderWindow lang v providerId deadlineBlocks) := by
  unfold Runtime.checkProviderWindow
  split
  · exact ok ()
  · refine bind (converted _) fun limit => ?_
    split
    · exact demand _ id
    · exact ok ()

theorem validateAttestOptions (ctx : EmitContext) (options : Value) (providerId : String) :
    NeverLimit (validateAttestOptions ctx options providerId) := by
  refine bind (numberOption _ _ _) fun _ => ?_
  refine bind (numberOption _ _ _) fun _ => ?_
  refine bind (checkRedundancy _) fun _ => ?_
  refine bind (checkInteger _ _ _ id) fun _ => ?_
  refine bind (feeText _ _) fun _ => ?_
  refine bind (feeText _ _) fun _ => ?_
  refine bind (demand _ id) fun _ => ?_
  refine bind (demand _ id) fun _ => ?_
  refine bind (demand _ id) fun _ => ?_
  exact bind (checkProviderWindow _ _ _ _) fun _ => ok _

theorem checkRequest (ctx : EmitContext) (r : AttestRequest) : NeverLimit (checkRequest ctx r) := by
  refine bind (checkText _ _ id) fun _ => ?_
  refine bind (checkRequestPayload _) fun _ => ?_
  refine bind (checkText _ _ id) fun _ => ?_
  refine bind (checkElements _) fun _ => ?_
  refine bind (checkCallbackJson _ _) fun _ => ?_
  exact bind (validateAttestOptions _ _ _) fun _ => ok _

variable (ctx : EmitContext)

theorem checkChains : NeverLimit (checkChains ctx v) := by
  have htarget : NeverLimit (checkTargetChain (v.get "targetChain")) := by
    unfold Runtime.checkTargetChain
    split
    · exact ite (ok _) (error id)
    · exact error id
  refine bind htarget fun _ => ?_
  refine bind (converted _) fun _ => ?_
  exact bind (demand _ id) fun _ => ok _

theorem validateXcallCallback : NeverLimit (validateXcallCallback ctx v) := by
  refine bind (checkText _ _ id) fun _ => ?_
  refine bind (demand _ id) fun _ => ?_
  refine bind (ite (ok _) (checkElements _)) fun elements => ?_
  refine bind ?_ fun _ => ok _
  unfold checkTexts
  split
  · exact error id
  · exact map _ (checkCallbackJson _ _)

theorem checkXcall (s : Session) : NeverLimit (checkXcall ctx s v) := by
  refine bind (demand _ id) fun _ => ?_
  refine bind (shared _) fun _ => ?_
  refine bind (demand _ id) fun _ => ?_
  refine bind (checkChains _ _) fun _ => ?_
  have hcallee : NeverLimit (validateXcallCallee ctx v) :=
    bind (shared _) fun _ => bind (shared _) fun _ => bind (shared _) fun _ => ok _
  refine bind hcallee fun _ => ?_
  refine bind (validateXcallCallback _ _) fun _ => ?_
  have hbudget : NeverLimit (validateXcallBudget ctx s v) := by
    refine bind (numberOption _ _ _) fun _ => ?_
    refine bind (checkInteger _ _ _ id) fun _ => ?_
    refine bind (checkInteger _ _ _ id) fun _ => ?_
    exact bind (demand _ id) fun _ => ok _
  exact bind hbudget fun _ => ok _

end NeverLimit

theorem isObject_strip (c : EmissionCollector) {params : Value} (h : params.isObject = true) :
    (c.strip params).isObject = true := by
  unfold EmissionCollector.strip
  cases params with
  | array elements => split <;> rfl
  | object fields => split <;> rfl
  | _ => cases h

theorem isObject_objectOrEmpty (params : Value) : (objectOrEmpty params).isObject = true := by
  unfold objectOrEmpty
  split
  · assumption
  · rfl

namespace Pending

variable {ctx : EmitContext} {s₀ s : Session} {charges : List ℚ}

theorem refl (ctx : CallContext) (s : Session) : Pending ctx s [] s := ⟨rfl, nofun, rfl⟩

theorem rejected (h : Pending ctx.toCallContext s₀ charges s) {e : EmitError} (he : ¬ e.IsLimit) :
    Rejected s₀ e s := ⟨h.collector, fun hlimit => absurd hlimit he⟩

theorem check {α : Type} (h : Pending ctx.toCallContext s₀ charges s) {result : Except EmitError α}
    (hresult : NeverLimit result) :
    Ends (check result) s (fun a s' => Pending ctx.toCallContext s₀ charges s' ∧ result = .ok a)
      (Rejected s₀) := by
  cases result with
  | error e => exact h.rejected (hresult e rfl)
  | ok a => exact ⟨h, rfl⟩

theorem ensureRoomFirst (h : Pending ctx.toCallContext s₀ charges s) :
    Ends (ensureRoomFirst ctx) s (fun _ s' => Pending ctx.toCallContext s₀ charges s') (Rejected s₀) := by
  refine ends_call ?_ ?_
  all_goals split
  · rintro s' ⟨⟩
  · rintro s' ⟨⟩
    exact h
  · next hfull =>
    rintro e s' ⟨⟩
    refine ⟨h.collector, fun _ => ?_⟩
    rw [← h.collector]
    simpa using (Bool.and_eq_true_iff.mp hfull).2
  · rintro e s' ⟨⟩

/-- The state after a charge that returned. -/
theorem charged (h : Pending ctx.toCallContext s₀ charges s) {q : ℚ} {s' : Session}
    (hcharge : s.charge ctx.toCallContext (.finite q) = (none, s')) :
    Pending ctx.toCallContext s₀ (charges ++ [q]) s' := by
  have hnone : (s.charge ctx.toCallContext (.finite q)).1 = none := by rw [hcharge]
  have hreturn : s.gasTracker.charge ctx.sum (.finite q) =
      (none, (s.gasTracker.charge ctx.sum (.finite q)).2) :=
    Prod.ext ((Session.charge_fst_eq_none _).mp hnone) rfl
  obtain ⟨p, hp, hnonneg, -, -⟩ := GasTracker.charge_none hreturn
  obtain rfl : q = p := Number.finite.inj hp
  obtain rfl : (s.charge ctx.toCallContext (.finite q)).2 = s' := by rw [hcharge]
  refine ⟨h.collector, ?_, ?_⟩
  · intro c hc
    obtain hc | hc := List.mem_append.mp hc
    · exact h.nonneg c hc
    · exact List.mem_singleton.mp hc ▸ hnonneg
  · rw [Session.charge_used hnone, h.used, List.foldl_append]
    rfl

theorem charge (h : Pending ctx.toCallContext s₀ charges s) (q : ℚ) :
    Ends (charge ctx q) s (fun _ s' => Pending ctx.toCallContext s₀ (charges ++ [q]) s') (Rejected s₀) := by
  refine ends_call (fun s' => h.charged) ?_
  intro e s' hcharge
  obtain rfl : (s.charge ctx.toCallContext (.finite q)).2 = s' := by rw [hcharge]
  refine ⟨h.collector, ?_⟩
  have he : (s.charge ctx.toCallContext (.finite q)).1 = some e := by rw [hcharge]
  simp only [Session.charge, Option.map_eq_some_iff] at he
  obtain ⟨thrown, -, rfl⟩ := he
  exact False.elim

theorem emissionIndex (h : Pending ctx.toCallContext s₀ charges s) :
    Ends emissionIndex s (fun _ s' => Pending ctx.toCallContext s₀ charges s') (Rejected s₀) := h

theorem identifier (h : Pending ctx.toCallContext s₀ charges s) (preimage : Option String) :
    Ends (identifier ctx preimage) s (fun _ s' => Pending ctx.toCallContext s₀ charges s') (Rejected s₀) := by
  cases preimage with
  | none => exact h.rejected id
  | some text => exact h

/-- Queueing ends the call: it appends the action to a queue with room, or throws. -/
theorem queue (h : Pending ctx.toCallContext s₀ charges s) {action : String} {params : Value}
    (haction : action ∈ ALLOWED_ACTIONS) (hparams : params.isObject = true)
    (hcost : ctx.gasSchedule.emission ≤ charges.sum) :
    Ends (call fun s => s.queue action params) s (fun _ s' => Emitted ctx.toCallContext action s₀ s')
      (Rejected s₀) := by
  unfold EmitApi.call Ends Session.queue EmissionCollector.add
  by_cases hroom : s.emissionCollector.ensureRoom = true
  · simp only [hroom, if_true]
    refine ⟨⟨⟨action, s.emissionCollector.strip params⟩, rfl, ?_, ?_⟩, ?_, charges, h.nonneg, hcost, h.used⟩
    · simp [validate, haction, isObject_strip _ hparams]
    · rw [h.collector]
    · have hlt : (s.emissionCollector.actions.length : ℤ) < s.emissionCollector.max := of_decide_eq_true hroom
      rw [h.collector] at hlt
      simp only [Session.emitted, h.collector, List.length_append, List.length_singleton]
      omega
  · simp only [hroom]
    refine ⟨h.collector, fun _ => ?_⟩
    rw [← h.collector]
    exact Bool.eq_false_iff.mpr hroom

end Pending

theorem isObject_of_shared {params : Value} {fields : List String} {u : Unit}
    (h : shared (validateRequired params fields) = .ok u) : params.isObject = true := by
  cases hrequired : validateRequired params fields with
  | error e =>
    rw [hrequired] at h
    cases h
  | ok u' =>
    obtain ⟨_, hobject, -⟩ := bind_ok hrequired
    exact require_ok hobject

section

variable {ctx : EmitContext} (s : Session)

theorem ends_emitChecked {action : String} (haction : action ∈ ALLOWED_ACTIONS)
    (required texts : List String) (params : Value) :
    Ends (emitChecked action required texts ctx params) s
      (fun _ s' => Emitted ctx.toCallContext action s s') (Rejected s) := by
  refine Ends.bind ((Pending.refl _ s).charge _) ?_
  intro _ s₁ h₁
  refine Ends.bind (h₁.check (.shared _)) ?_
  rintro _ s₂ ⟨h₂, hrequired⟩
  refine Ends.bind (h₂.check (.validateTypes _ _)) ?_
  rintro _ s₃ ⟨h₃, -⟩
  exact h₃.queue haction (isObject_of_shared hrequired) (by simp)

theorem ends_emitUnchecked {action : String} (haction : action ∈ ALLOWED_ACTIONS) (params : Value) :
    Ends (emitUnchecked action ctx params) s (fun _ s' => Emitted ctx.toCallContext action s s')
      (Rejected s) := by
  refine Ends.bind ((Pending.refl _ s).charge _) ?_
  intro _ s₁ h₁
  exact h₁.queue haction (isObject_objectOrEmpty params) (by simp)

theorem ends_vote (params : Value) :
    Ends (Emit.vote ctx params) s (fun _ s' => Emitted ctx.toCallContext "VOTE" s s') (Rejected s) := by
  refine Ends.bind ((Pending.refl _ s).charge _) ?_
  intro _ s₁ h₁
  refine Ends.bind (h₁.check (.checkVote _ _)) ?_
  rintro _ s₂ ⟨h₂, -⟩
  exact h₂.queue (by decide) (isObject_objectOrEmpty params) (by simp)

/-- A charge inside the answer to a call is a step of its own. -/
theorem call_afterCharge (q : ℚ) (next : Session → Option CallError × Session) :
    call (fun s => s.afterCharge ctx.toCallContext (.finite q) next) = (do charge ctx q; call next) := by
  funext s
  rw [bind_apply]
  unfold EmitApi.charge EmitApi.call Session.afterCharge
  cases hcharge : s.charge ctx.toCallContext (.finite q) with
  | mk e s' => cases e <;> simp only [hcharge]

theorem ends_reserve {r : ExecuteRequest} (hgas : 0 ≤ r.gasLimit) :
    Ends (call fun s => s.reserve ctx.toCallContext r) s
      (fun _ s' => Emitted ctx.toCallContext "EXECUTE" s s') (Rejected s) := by
  have hpending := Pending.refl ctx.toCallContext s
  by_cases hfits : GasTracker.exceedsRemaining s.gasTracker (r.gasLimit + ctx.gasSchedule.emission) = true
  · have hreserve : s.reserve ctx.toCallContext r = (some (.execute (.exceedsRemaining r.gasLimit)), s) := by
      rw [Session.reserve, if_pos hfits]
    refine ends_call ?_ ?_
    · intro s' h
      cases hreserve.symm.trans h
    · intro e s' h
      cases hreserve.symm.trans h
      exact hpending.rejected id
  · have hsteps : (call fun s => s.reserve ctx.toCallContext r) s =
        (do EmitApi.ensureRoomFirst ctx
            EmitApi.call fun s => s.afterCharge ctx.toCallContext
              (.finite (ctx.gasSchedule.emission + r.gasLimit)) fun s => s.queue "EXECUTE" r.params) s := by
      rw [bind_apply]
      unfold EmitApi.ensureRoomFirst EmitApi.call Session.reserve
      by_cases hfull : (ctx.capFirst && !s.emissionCollector.ensureRoom) = true
      · simp only [hfits, hfull, if_true]
        rfl
      · simp only [hfits, hfull]
        rfl
    unfold Ends
    rw [hsteps]
    refine Ends.bind hpending.ensureRoomFirst ?_
    intro _ s₁ h₁
    rw [call_afterCharge]
    refine Ends.bind (h₁.charge _) ?_
    intro _ s₂ h₂
    exact h₂.queue (by decide) rfl (by simpa using hgas)

theorem ends_execute (hmin : 0 ≤ ctx.limits.minCallGas) (params : Value) :
    Ends (Emit.execute ctx params) s (fun _ s' => Emitted ctx.toCallContext "EXECUTE" s s')
      (Rejected s) := by
  cases hcheck : checkExecute ctx.toCallContext params with
  | error e =>
    have hanswer : s.emitExecute ctx.toCallContext params = (some (.execute e), s) := by
      rw [Session.emitExecute, hcheck]
    refine ends_call ?_ ?_
    · intro s' h
      cases hanswer.symm.trans h
    · intro e' s' h
      cases hanswer.symm.trans h
      exact (Pending.refl ctx.toCallContext s).rejected id
  | ok r =>
    have hgas : 0 ≤ r.gasLimit := (Int.cast_nonneg hmin).trans (checkExecute_admissible hcheck).minimum
    have hreserve : Emit.execute ctx params = call fun s => s.reserve ctx.toCallContext r := by
      unfold Emit.execute Session.emitExecute
      simp only [hcheck]
    rw [hreserve]
    exact ends_reserve s hgas

theorem checkInteger_ok {minimum maximum : ℚ} {e : EmitError} {v : Value} {q : ℚ}
    (h : checkInteger minimum maximum e v = .ok q) : minimum ≤ q := by
  unfold checkInteger at h
  split at h
  · split at h
    · next hq =>
      cases h
      exact hq.2.1
    · cases h
  · cases h

/-- What a cross-chain call prepays is at least the emission cost. -/
theorem emission_le_totalCharge {params : Value} {r : XcallRequest} (h : checkXcall ctx s params = .ok r) :
    (ctx.gasSchedule.emission : ℚ) ≤ r.budget.totalCharge := by
  obtain ⟨_, -, h⟩ := bind_ok h
  obtain ⟨_, -, h⟩ := bind_ok h
  obtain ⟨_, -, h⟩ := bind_ok h
  obtain ⟨_, -, h⟩ := bind_ok h
  obtain ⟨_, -, h⟩ := bind_ok h
  obtain ⟨_, -, h⟩ := bind_ok h
  obtain ⟨budget, hbudget, h⟩ := bind_ok h
  cases h
  obtain ⟨_, -, hbudget⟩ := bind_ok hbudget
  obtain ⟨_, -, hbudget⟩ := bind_ok hbudget
  obtain ⟨gasLimit, hgas, hbudget⟩ := bind_ok hbudget
  obtain ⟨_, -, hbudget⟩ := bind_ok hbudget
  cases hbudget
  have hlimit : XCALL_MIN_GAS ≤ gasLimit := checkInteger_ok hgas
  have hrequest : (0 : ℚ) ≤ ctx.xcallRequest := Nat.cast_nonneg _
  have hcallback : (0 : ℚ) ≤ ctx.xcallCallback := Nat.cast_nonneg _
  simp only [XCALL_MIN_GAS] at hlimit ⊢
  linarith

theorem ends_discard_crossExecute (params : Value) :
    Ends (discard (crossExecute ctx params)) s
      (fun _ s' => Emitted ctx.toCallContext "XCALL" s s') (Rejected s) := by
  have hget : Ends MonadState.get s (fun current s' => current = s ∧ s' = s) (Rejected s) := ⟨rfl, rfl⟩
  have hcall : Ends (crossExecute ctx params) s (fun _ s' => Emitted ctx.toCallContext "XCALL" s s')
      (Rejected s) := by
    refine hget.bind ?_
    rintro current s₀ ⟨hcurrent, hs₀⟩
    subst current s₀
    have hpending : Pending ctx.toCallContext s [] s := .refl _ s
    refine Ends.bind (hpending.check (.checkXcall _ _ _)) ?_
    rintro r s₁ ⟨h₁, hr⟩
    refine Ends.bind (Ends.bind h₁.emissionIndex fun index s₂ h₂ => h₂.identifier _) ?_
    intro id s₂ h₂
    refine Ends.bind h₂.ensureRoomFirst ?_
    intro _ s₃ h₃
    refine Ends.bind (h₃.charge _) ?_
    intro _ s₄ h₄
    have hcost := emission_le_totalCharge _ hr
    refine Ends.bind (h₄.queue (by decide) rfl (by simpa using hcost)) ?_
    intro _ s₅ h₅
    exact h₅
  refine hcall.bind ?_
  intro _ s' h
  exact h

theorem ends_discard_attestationRequest (r : AttestRequest) :
    Ends (discard (attestationRequest ctx r)) s
      (fun _ s' => Emitted ctx.toCallContext "ATTEST" s s') (Rejected s) := by
  have hcall : Ends (attestationRequest ctx r) s (fun _ s' => Emitted ctx.toCallContext "ATTEST" s s')
      (Rejected s) := by
    have hpending : Pending ctx.toCallContext s [] s := .refl _ s
    refine Ends.bind (hpending.check (.demand _ id)) ?_
    rintro _ s₁ ⟨h₁, -⟩
    refine Ends.bind h₁.ensureRoomFirst ?_
    intro _ s₂ h₂
    refine Ends.bind (h₂.charge _) ?_
    intro _ s₃ h₃
    refine Ends.bind (h₃.charge _) ?_
    intro _ s₄ h₄
    refine Ends.bind (h₄.check (.checkRequest _ _)) ?_
    rintro params s₅ ⟨h₅, -⟩
    refine Ends.bind h₅.emissionIndex ?_
    intro index s₆ h₆
    refine Ends.bind (h₆.identifier _) ?_
    intro id s₇ h₇
    refine Ends.bind (h₇.queue (by decide) rfl (by simp)) ?_
    intro _ s₈ h₈
    exact h₈
  refine hcall.bind ?_
  intro _ s' h
  exact h

end

theorem ends_slash (ctx : GatewayContext) (pubkey token amount : Value) (s : Session) :
    Ends (slash ctx pubkey token amount) s (fun _ s' => Emitted ctx.toCallContext "SLASH" s s')
      (Rejected s) := by
  refine Ends.bind ((Pending.refl _ s).charge _) ?_
  intro _ s₁ h₁
  refine Ends.bind (h₁.check (.validateSlashArgs _ _ _ _)) ?_
  rintro _ s₂ ⟨h₂, -⟩
  exact h₂.queue (by decide) rfl (by simp)

/-- A call throws and leaves the queue as it was, or appends one action it has paid for. -/
theorem EmitCall.ends_answer {ctx : GatewayContext} (hmin : 0 ≤ ctx.limits.minCallGas) (call : EmitCall)
    (s : Session) :
    Ends (call.answer ctx) s (fun _ s' => Emitted ctx.toCallContext call.action s s') (Rejected s) := by
  cases call with
  | send params => exact ends_emitChecked s (by decide) _ _ params
  | destroy params => exact ends_emitChecked s (by decide) _ _ params
  | issue params => exact ends_emitChecked s (by decide) _ _ params
  | mint params => exact ends_emitChecked s (by decide) _ _ params
  | order params => exact ends_emitChecked s (by decide) _ _ params
  | dispenser params => exact ends_emitUnchecked s (by decide) params
  | dividend params => exact ends_emitChecked s (by decide) _ _ params
  | airdrop params => exact ends_emitChecked s (by decide) _ _ params
  | callback params => exact ends_emitChecked s (by decide) _ _ params
  | file params => exact ends_emitUnchecked s (by decide) params
  | list params => exact ends_emitUnchecked s (by decide) params
  | coinpay params => exact ends_emitChecked s (by decide) _ _ params
  | sweep params => exact ends_emitChecked s (by decide) _ _ params
  | link params => exact ends_emitChecked s (by decide) _ _ params
  | broadcast params => exact ends_emitUnchecked s (by decide) params
  | message params => exact ends_emitChecked s (by decide) _ _ params
  | vote params => exact ends_vote s params
  | execute params => exact ends_execute s hmin params
  | crossExecute params => exact ends_discard_crossExecute s params
  | request r => exact ends_discard_attestationRequest s r
  | slash pubkey token amount => exact ends_slash ctx pubkey token amount s

section

variable {ctx : EmitContext} {s : Session} (hcap : ctx.capFirst = true)
  (hfull : s.emissionCollector.ensureRoom = false)

def Untouched {α : Type} (m : EmitApi α) (s : Session) : Prop :=
  Ends m s (fun _ _ => False) (fun _ s' => s' = s)

theorem Untouched.of_check {α β : Type} {result : Except EmitError α} {f : α → EmitApi β}
    (hf : ∀ a, Untouched (f a) s) : Untouched (EmitApi.check result >>= f) s := by
  have hcheck : Ends (EmitApi.check result) s (fun _ s' => s' = s) (fun _ s' => s' = s) := by
    cases result <;> rfl
  refine hcheck.bind ?_
  rintro a _ rfl
  exact hf a

include hcap hfull

theorem untouched_ensureRoomFirst {α : Type} (f : Unit → EmitApi α) :
    Untouched (EmitApi.ensureRoomFirst ctx >>= f) s := by
  have hroom : Ends (EmitApi.ensureRoomFirst ctx) s (fun _ _ => False) (fun _ s' => s' = s) := by
    refine ends_call ?_ ?_
    all_goals rw [hcap, hfull]
    · rintro s' ⟨⟩
    · rintro e s' ⟨⟩
      rfl
  exact hroom.bind fun _ _ => False.elim

theorem untouched_execute (params : Value) : Untouched (Emit.execute ctx params) s := by
  have hthrow : ∃ e, s.emitExecute ctx.toCallContext params = (some e, s) := by
    unfold Session.emitExecute
    split
    · exact ⟨_, rfl⟩
    · unfold Session.reserve
      split
      · exact ⟨_, rfl⟩
      · rw [hcap, hfull]
        exact ⟨_, rfl⟩
  obtain ⟨e, he⟩ := hthrow
  refine ends_call ?_ ?_
  · intro s' h
    cases he.symm.trans h
  · intro e' s' h
    cases he.symm.trans h
    rfl

theorem untouched_attestationRequest (r : AttestRequest) : Untouched (attestationRequest ctx r) s :=
  .of_check fun _ => untouched_ensureRoomFirst hcap hfull _

theorem untouched_crossExecute (params : Value) : Untouched (crossExecute ctx params) s := by
  have hget : Ends (MonadState.get : EmitApi Session) s (fun _ s' => s' = s) (fun _ s' => s' = s) := rfl
  refine hget.bind ?_
  rintro current s₀ hs₀
  subst s₀
  refine Untouched.of_check fun r => ?_
  have hid : Ends (deriveXcallCallId ctx r.sourceChain r.targetChain) s (fun _ s' => s' = s)
      (fun _ s' => s' = s) := by
    have hindex : Ends emissionIndex s (fun _ s' => s' = s) (fun _ s' => s' = s) := rfl
    refine hindex.bind ?_
    rintro index s₁ hs₁
    subst s₁
    unfold EmitApi.identifier
    cases buildCallIdPreimage ctx.lang (ctx.callFields r.sourceChain r.targetChain index) <;> rfl
  refine hid.bind ?_
  rintro id s₁ hs₁
  subst s₁
  exact untouched_ensureRoomFirst hcap hfull _

end

theorem EmitCall.untouched {ctx : GatewayContext} {s : Session} (hcap : ctx.capFirst = true)
    (hfull : s.emissionCollector.ensureRoom = false) {call : EmitCall} (h : call.CapFirst) :
    Untouched (call.answer ctx) s := by
  cases h with
  | execute params => exact untouched_execute hcap hfull params
  | crossExecute params =>
    exact (untouched_crossExecute hcap hfull params).bind fun _ _ => False.elim
  | request r => exact (untouched_attestationRequest hcap hfull r).bind fun _ _ => False.elim

/-- Any call of a contract: an emitter, or another call of the host. -/
inductive GatewayCall where
  | emit (call : EmitCall)
  | host (call : HostCall)

def GatewayCall.next (ctx : GatewayContext) (s : Session) : GatewayCall → Session
  | emit call =>
    match call.answer ctx s with
    | .ok _ s' | .error _ s' => s'
  | host call => (s.answer ctx.toCallContext call).2

def Session.serveGateway (ctx : GatewayContext) (s : Session) (calls : List GatewayCall) : Session :=
  calls.foldl (fun s call => call.next ctx s) s

/-- The queue has not grown, or is within its maximum, which is the same. -/
structure Capped (s₀ s : Session) : Prop where
  max_eq : s.emissionCollector.max = s₀.emissionCollector.max
  emitted_le : (s.emitted : ℤ) ≤ max (s₀.emitted : ℤ) s₀.emissionCollector.max

namespace Capped

variable {s₀ s s' : Session} {ctx : CallContext}

theorem of_collector (h : s.emissionCollector = s₀.emissionCollector) : Capped s₀ s where
  max_eq := by rw [h]
  emitted_le := by
    rw [Session.emitted, h]
    exact le_max_left _ _

theorem trans (h : Capped s₀ s) (h' : Capped s s') : Capped s₀ s' where
  max_eq := h'.max_eq.trans h.max_eq
  emitted_le := by
    have hle : (s'.emitted : ℤ) ≤ max (s.emitted : ℤ) s.emissionCollector.max := h'.emitted_le
    rw [h.max_eq] at hle
    exact hle.trans (max_le h.emitted_le (le_max_right _ _))

theorem queue (s : Session) (action : String) (params : Value) : Capped s (s.queue action params).2 := by
  unfold Session.queue EmissionCollector.add
  by_cases hroom : s.emissionCollector.ensureRoom = true
  · have hlt : (s.emissionCollector.actions.length : ℤ) < s.emissionCollector.max := of_decide_eq_true hroom
    simp only [hroom, if_true]
    refine ⟨rfl, ?_⟩
    simp only [Session.emitted, List.length_append, List.length_singleton]
    omega
  · simp only [hroom]
    exact .of_collector rfl

theorem afterCharge (s : Session) (amount : Number) {next : Session → Option CallError × Session}
    (hnext : ∀ s, Capped s (next s).2) : Capped s (s.afterCharge ctx amount next).2 := by
  have hcharge : Capped s (s.charge ctx amount).2 := .of_collector rfl
  obtain ⟨-, h⟩ | ⟨-, h⟩ := s.afterCharge_cases ctx amount next
  · rw [h]
    exact hcharge.trans (hnext _)
  · rw [h]
    exact hcharge

theorem write (s : Session) (result : Except StateError StateManager) : Capped s (s.write result).2 := by
  cases result <;> exact .of_collector rfl

theorem answer (s : Session) (call : HostCall) : Capped s (s.answer ctx call).2 := by
  cases call with
  | gas units => exact .of_collector rfl
  | charge amount => exact .of_collector rfl
  | stateSet key value => exact afterCharge s _ fun s => write s _
  | stateDelete key => exact afterCharge s _ fun s => write s _
  | emit emitter amount params => exact afterCharge s _ fun s => queue s _ _
  | execute params =>
    obtain ⟨-, h⟩ | ⟨r, -, h⟩ := s.emitExecute_cases ctx params
    · rw [Session.answer, h]
      exact .of_collector rfl
    · rw [Session.answer, h]
      exact afterCharge s _ fun s => queue s _ _
  | log message =>
    simp only [Session.answer, EmissionCollector.addLog]
    split
    · exact ⟨rfl, le_max_left _ _⟩
    · exact .of_collector rfl
  | revert reason => exact .of_collector rfl

theorem next {ctx : GatewayContext} (hmin : 0 ≤ ctx.limits.minCallGas) (s : Session) (call : GatewayCall) :
    Capped s (call.next ctx s) := by
  cases call with
  | emit call =>
    have hanswer := call.ends_answer hmin s
    unfold Ends at hanswer
    unfold GatewayCall.next
    cases h : call.answer ctx s with
    | ok u s' =>
      simp only [h] at hanswer ⊢
      obtain ⟨a, -, -, happended⟩ := hanswer.appended
      exact ⟨by rw [happended], hanswer.withinMax.trans (le_max_right _ _)⟩
    | error e s' =>
      simp only [h] at hanswer ⊢
      exact .of_collector hanswer.collector
  | host call => exact answer s call

theorem serveGateway {ctx : GatewayContext} (hmin : 0 ≤ ctx.limits.minCallGas) (calls : List GatewayCall)
    (s : Session) : Capped s (s.serveGateway ctx calls) := by
  induction calls generalizing s with
  | nil => exact .of_collector rfl
  | cons call rest ih => exact (next hmin s call).trans (ih _)

end Capped

/-- Every call of every emitter throws and leaves the queue as it was, or appends one valid action that
it has paid for. No run of calls takes the queue past its maximum. With the cap checked first, a
call of the three that reserve charges nothing when the queue is full. -/
theorem emission_atomic (ctx : GatewayContext) (hmin : 0 ≤ ctx.limits.minCallGas) :
    (∀ (call : EmitCall) (s : Session),
      (∃ s', call.answer ctx s = .ok () s' ∧ Emitted ctx.toCallContext call.action s s') ∨
        ∃ e s', call.answer ctx s = .error e s' ∧ s'.emissionCollector = s.emissionCollector) ∧
    (∀ (calls : List GatewayCall) (s : Session),
      ((s.serveGateway ctx calls).emitted : ℤ) ≤ max (s.emitted : ℤ) s.emissionCollector.max) ∧
    (ctx.capFirst = true → ∀ call : EmitCall, call.CapFirst → ∀ s : Session,
      (s.emissionCollector.ensureRoom = false → ∃ e, call.answer ctx s = .error e s) ∧
        ∀ e s', call.answer ctx s = .error e s' → e.IsLimit → s' = s) := by
  refine ⟨?_, ?_, ?_⟩
  · intro call s
    have hanswer := call.ends_answer hmin s
    unfold Ends at hanswer
    cases h : call.answer ctx s with
    | ok u s' =>
      simp only [h] at hanswer
      exact .inl ⟨s', rfl, hanswer⟩
    | error e s' =>
      simp only [h] at hanswer
      exact .inr ⟨e, s', rfl, hanswer.collector⟩
  · intro calls s
    exact (Capped.serveGateway hmin calls s).emitted_le
  · intro hcap call hcall s
    have hfull : s.emissionCollector.ensureRoom = false → ∃ e, call.answer ctx s = .error e s := by
      intro hfull
      have huntouched : Untouched (call.answer ctx) s := EmitCall.untouched hcap hfull hcall
      unfold Untouched Ends at huntouched
      cases h : call.answer ctx s with
      | ok u s' => simp only [h] at huntouched
      | error e s' =>
        simp only [h] at huntouched
        exact ⟨e, by rw [huntouched]⟩
    refine ⟨hfull, ?_⟩
    intro e s' h hlimit
    have hanswer := call.ends_answer hmin s
    unfold Ends at hanswer
    simp only [h] at hanswer
    obtain ⟨e', he'⟩ := hfull (hanswer.full hlimit)
    cases h.symm.trans he'
    rfl

def protocolContext : GatewayContext where
  lang := ⟨fun _ => "1", fun _ => some (.finite 1), fun _ => some "[]"⟩
  sum := .exact
  gasSchedule := ⟨1, 200, 100, 500⟩
  limits := { maxStateKeySize := 256, maxStateValueSize := 65536, maxStateKeys := 10000
              maxCodeSize := 65536, maxEmissions := 1, maxCallDepth := 4, minCallGas := 5000 }
  callDepth := 0
  nonFiniteFailClosed := true
  capFirst := true
  network := .string "regtest"
  contractAddress := .string "C:BTC:7"
  txHash := .string "ab"
  rootActionIndex := .null
  callPath := .string ""
  contractIndex := .null
  isGuard := false
  crossHops := 0
  providerDeadlines := .null
  attestRequest := 1000
  xcallRequest := 1000
  xcallCallback := 1000
  hash := id
  slashTokenDelimGuardOn := true
  slashAmountPrecisionOn := true

def openSession (room : ℤ) : Session :=
  ⟨.new 1000000, .new [] true, .new room true, ⟨false, ""⟩⟩

def sendParams : Value :=
  .object [("destination", .string "addr"), ("tick", .string "XCHAIN"), ("quantity", .string "1")]

/-- A payment is queued and paid for while there is room, and a request to a full queue is refused
without a charge. -/
theorem emission_atomic_protocol :
    (∃ s', (EmitCall.send sendParams).answer protocolContext (openSession 1) = .ok () s' ∧
      Emitted protocolContext.toCallContext "SEND" (openSession 1) s') ∧
    ∃ e, (EmitCall.request ⟨.string "llm", .string "", .string "done", .array [], .null⟩).answer
      protocolContext (openSession 0) = .error e (openSession 0) := by
  have hatomic := emission_atomic protocolContext (by decide)
  refine ⟨?_, (hatomic.2.2 rfl _ (.request _) (openSession 0)).1 (by decide)⟩
  obtain hsent | ⟨e, s', h, -⟩ := hatomic.1 (.send sendParams) (openSession 1)
  · exact hsent
  · have hreturns : (match (EmitCall.send sendParams).answer protocolContext (openSession 1) with
        | .ok _ _ => true
        | .error _ _ => false) = true := by decide +kernel
    rw [h] at hreturns
    cases hreturns

end XChainVM.Runtime
