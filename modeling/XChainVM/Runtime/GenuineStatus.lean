import XChainVM.Runtime.GasCeiling

/-! # A contract does not choose its status

Whatever a contract throws, past the gates of the lint hardening and of the resource fault
signal its failure is named after something the host itself met in that run, and billed as
that failure is; any other throw is an ordinary error at the gas used.
-/

namespace XChainVM.Runtime

open Gas Js

/-- What reaches the host of a value the contract throws. An error is copied as one of its
text, as the native class of a range error or as a plain one; a primitive has no message. -/
inductive ThrownValue where
  | error (name message : String) (rangeError : Bool)
  | primitive
  | null
  | undefined
  deriving DecidableEq, Repr

namespace ThrownValue

/-- Reading the message of `null` or `undefined` throws in the classifier, and the outer handler
classifies the error of that. -/
def atHost : ThrownValue → HostError
  | error name message rangeError => ⟨if rangeError then .rangeError else .other, name, message⟩
  | primitive => ⟨.other, "", ""⟩
  | null => ⟨.other, "TypeError", "Cannot read properties of null (reading 'message')"⟩
  | undefined => ⟨.other, "TypeError", "Cannot read properties of undefined (reading 'message')"⟩

theorem cls_atHost (v : ThrownValue) : v.atHost.cls = .rangeError ∨ v.atHost.cls = .other := by
  cases v with
  | error name message rangeError => cases rangeError <;> simp [atHost]
  | primitive => exact .inr rfl
  | null => exact .inr rfl
  | undefined => exact .inr rfl

end ThrownValue

def Session.answers (ctx : CallContext) : Session → List HostCall → List (Option CallError)
  | _, [] => []
  | s, call :: calls => (s.answer ctx call).1 :: answers ctx (s.answer ctx call).2 calls

namespace Failure

def Raised (signals : HostSignals) (calls : List HostCall) (answers : List (Option CallError)) : Failure → Prop
  | revert _ => ∃ reason, HostCall.revert reason ∈ calls
  | outOfGas _ _ => ∃ used ceiling, some (CallError.charge (.exhausted used ceiling)) ∈ answers
  | timeout => signals.isolateDisposed = true ∨ signals.wallBudgetSpent = true
  | outOfMemory => signals.isolateDisposed = true
  | outOfStack => signals.stackFault = true
  | error _ => True

def bill (t : GasTracker) : Failure → WithTop ℚ
  | revert _ | error _ => t.used
  | outOfGas _ _ | timeout | outOfMemory | outOfStack => t.ceiling

end Failure

namespace Session

variable {ctx : CallContext} {s : Session}

theorem charge_raises {amount : Number} (h : (s.charge ctx amount).2.gasTracker.exhausted = true) :
    s.gasTracker.exhausted = true ∨
      ∃ used ceiling, (s.charge ctx amount).1 = some (.charge (.exhausted used ceiling)) := by
  rw [charge_gasTracker] at h
  obtain hcharge | ⟨q, -, -, -, hcharge⟩ | ⟨q, -, -, -, hcharge⟩ := s.gasTracker.charge_cases ctx.sum amount
  · rw [hcharge] at h
    exact .inl h
  · rw [hcharge] at h
    exact .inl h
  · refine .inr ⟨ctx.sum.add s.gasTracker.used q, s.gasTracker.ceiling, ?_⟩
    rw [Session.charge, hcharge]
    rfl

theorem afterCharge_raises {amount : Number} {next : Session → Option CallError × Session}
    (hnext : ∀ s', (next s').2.gasTracker = s'.gasTracker)
    (h : (s.afterCharge ctx amount next).2.gasTracker.exhausted = true) :
    s.gasTracker.exhausted = true ∨
      ∃ used ceiling, (s.afterCharge ctx amount next).1 = some (.charge (.exhausted used ceiling)) := by
  rw [afterCharge_gasTracker amount hnext, ← charge_gasTracker] at h
  obtain hflag | ⟨used, ceiling, hthrown⟩ := charge_raises h
  · exact .inl hflag
  · obtain ⟨hnone, -⟩ | ⟨-, heq⟩ := s.afterCharge_cases ctx amount next
    · rw [hthrown] at hnone
      cases hnone
    · exact .inr ⟨used, ceiling, by rw [heq, hthrown]⟩

/-- The flag is raised by a charge that throws. -/
theorem answer_raises {call : HostCall} (h : (s.answer ctx call).2.gasTracker.exhausted = true) :
    s.gasTracker.exhausted = true ∨
      ∃ used ceiling, (s.answer ctx call).1 = some (.charge (.exhausted used ceiling)) := by
  cases call with
  | gas units => exact charge_raises h
  | charge amount => exact charge_raises h
  | stateSet key value => exact afterCharge_raises (fun s' => s'.write_gasTracker _) h
  | stateDelete key => exact afterCharge_raises (fun s' => s'.write_gasTracker _) h
  | emit emitter amount params => exact afterCharge_raises (fun s' => s'.queue_gasTracker _ _) h
  | execute params =>
    obtain ⟨-, hsame⟩ | ⟨r, -, hcharged⟩ := s.emitExecute_cases ctx params
    · rw [answer, hsame] at h
      exact .inl h
    · rw [answer, hcharged] at h ⊢
      exact afterCharge_raises (fun s' => s'.queue_gasTracker _ _) h
  | log message => exact .inl h
  | revert reason => exact .inl h

theorem serve_raises {calls : List HostCall} (h : (s.serve ctx calls).gasTracker.exhausted = true) :
    s.gasTracker.exhausted = true ∨
      ∃ used ceiling, some (CallError.charge (.exhausted used ceiling)) ∈ s.answers ctx calls := by
  induction calls generalizing s with
  | nil => exact .inl h
  | cons call calls ih =>
    obtain hflag | ⟨used, ceiling, hmem⟩ := ih h
    · obtain hflag | ⟨used, ceiling, hanswer⟩ := answer_raises hflag
      · exact .inl hflag
      · exact .inr ⟨used, ceiling, hanswer ▸ List.mem_cons_self⟩
    · exact .inr ⟨used, ceiling, List.mem_cons_of_mem _ hmem⟩

theorem queue_execContext (action : String) (params : Value) :
    (s.queue action params).2.execContext = s.execContext := by
  unfold queue
  split <;> rfl

theorem write_execContext (result : Except StateError StateManager) :
    (s.write result).2.execContext = s.execContext := by
  cases result <;> rfl

theorem afterCharge_execContext {amount : Number} {next : Session → Option CallError × Session}
    (hnext : ∀ s', (next s').2.execContext = s'.execContext) :
    (s.afterCharge ctx amount next).2.execContext = s.execContext := by
  obtain ⟨-, heq⟩ | ⟨-, heq⟩ := s.afterCharge_cases ctx amount next
  · rw [heq, hnext]
    rfl
  · rw [heq]
    rfl

/-- Only a revert touches the record of reverts. -/
theorem answer_execContext (call : HostCall) :
    (s.answer ctx call).2.execContext = s.execContext ∨ ∃ reason, call = .revert reason := by
  cases call with
  | gas units => exact .inl rfl
  | charge amount => exact .inl rfl
  | stateSet key value => exact .inl (afterCharge_execContext fun s' => s'.write_execContext _)
  | stateDelete key => exact .inl (afterCharge_execContext fun s' => s'.write_execContext _)
  | emit emitter amount params => exact .inl (afterCharge_execContext fun s' => s'.queue_execContext _ _)
  | execute params =>
    refine .inl ?_
    obtain ⟨-, hsame⟩ | ⟨r, -, hcharged⟩ := s.emitExecute_cases ctx params
    · rw [answer, hsame]
    · rw [answer, hcharged]
      exact afterCharge_execContext fun s' => s'.queue_execContext _ _
  | log message => exact .inl rfl
  | revert reason => exact .inr ⟨reason, rfl⟩

theorem serve_reverted {calls : List HostCall} (h : (s.serve ctx calls).execContext.reverted = true) :
    s.execContext.reverted = true ∨ ∃ reason, HostCall.revert reason ∈ calls := by
  induction calls generalizing s with
  | nil => exact .inl h
  | cons call calls ih =>
    obtain hbefore | ⟨reason, hmem⟩ := ih h
    · have hcall : (s.answer ctx call).2.execContext = s.execContext ∨ ∃ reason, call = .revert reason :=
        s.answer_execContext call
      obtain hsame | ⟨reason, rfl⟩ := hcall
      · exact .inl (hsame ▸ hbefore)
      · exact .inr ⟨reason, List.mem_cons_self⟩
    · exact .inr ⟨reason, List.mem_cons_of_mem _ hmem⟩

end Session

def Failure.Met (signals : HostSignals) (s : Session) : Failure → Prop
  | revert _ => s.execContext.reverted = true
  | outOfGas _ _ => s.gasTracker.exhausted = true
  | timeout => signals.isolateDisposed = true ∨ signals.wallBudgetSpent = true
  | outOfMemory => signals.isolateDisposed = true
  | outOfStack => signals.stackFault = true
  | error _ => True

def Result.Genuine (signals : HostSignals) (s : Session) (r : Result) : Prop :=
  ∃ failure, r.error = some failure ∧ failure.Met signals s ∧ r.gasUsed = failure.bill s.gasTracker

section

variable {opts : ExecuteOpts} {signals : HostSignals} {s : Session} {error : HostError} {r : Result}

theorem genuine_errorResult {failure : Failure} {gasOverride : Option ℚ} (hmet : failure.Met signals s)
    (hgas : (s.errorResult failure gasOverride).gasUsed = failure.bill s.gasTracker) :
    (s.errorResult failure gasOverride).Genuine signals s :=
  ⟨failure, rfl, hmet, hgas⟩

theorem markedError_genuine (hs : s.gasTracker.Consistent) (h : markedError s error = some r) :
    r.Genuine signals s := by
  unfold markedError at h
  split at h
  · split at h
    · next hrevert =>
      rw [← Option.some.inj h]
      exact genuine_errorResult (Bool.and_eq_true_iff.mp hrevert).2 rfl
    · split at h
      · next hgas =>
        rw [← Option.some.inj h]
        refine genuine_errorResult ?_ rfl
        exact hs.exhausted_iff.mpr (of_decide_eq_true (Bool.and_eq_true_iff.mp hgas).2)
      · cases h
  · cases h

/-- Past both gates the text of an error alone names no resource. -/
theorem resourceFault_genuine (hlint : isLintHardeningActive opts.network opts.timestamp = true)
    (hsignal : isResourceFaultSignalActive opts.network opts.coin opts.height = true)
    (h : resourceFault opts signals s error = some r) : r.Genuine signals s := by
  unfold resourceFault at h
  simp only [hlint, hsignal, Bool.and_self, Bool.true_and, Bool.not_true, Bool.false_or, if_true] at h
  split at h
  · next hmemory =>
    rw [← Option.some.inj h]
    exact genuine_errorResult (Bool.and_eq_true_iff.mp hmemory).1 rfl
  · split at h
    · split at h
      · next htimeout =>
        rw [← Option.some.inj h]
        exact genuine_errorResult (Bool.or_eq_true_iff.mp htimeout) rfl
      · cases h
    · split at h
      · split at h
        · next hdisposed =>
          rw [← Option.some.inj h]
          exact genuine_errorResult hdisposed rfl
        · cases h
      · split at h
        · split at h
          · next hfault =>
            rw [← Option.some.inj h]
            exact genuine_errorResult hfault rfl
          · cases h
        · cases h

/-- An error of a contract is classified, by what the host has on record. -/
theorem classifyError_genuine (hlint : isLintHardeningActive opts.network opts.timestamp = true)
    (hsignal : isResourceFaultSignalActive opts.network opts.coin opts.height = true)
    (hs : s.gasTracker.Consistent) (hcls : error.cls = .rangeError ∨ error.cls = .other) :
    ∃ r, classifyError opts signals s error = .ok r ∧ r.Genuine signals s := by
  have hhost : error.cls ≠ .hostFault := by
    obtain h | h := hcls
    · simp [h]
    · simp [h]
  unfold classifyError
  dsimp only
  rw [if_neg hhost]
  split
  · next hexhausted => exact ⟨_, rfl, genuine_errorResult (Bool.and_eq_true_iff.mp hexhausted).1 rfl⟩
  · split
    · next hrevert => simp [hrevert] at hcls
    · next hgas => simp [hgas] at hcls
    · split
      · next hmarked => exact ⟨_, rfl, markedError_genuine hs hmarked⟩
      · split
        · next hfault => exact ⟨_, rfl, resourceFault_genuine hlint hsignal hfault⟩
        · exact ⟨_, rfl, genuine_errorResult trivial rfl⟩

end

section

variable (lang : Language) (sum : Addition) (vm : Vm) (opts : ExecuteOpts) (env : Environment)

/-- The host gets as far as the contract, whose run begins in `s`. -/
structure ReachesContract (s : Session) : Prop where
  size : (opts.codeBytes : ℤ) ≤ vm.limits.maxCodeSize
  lint : checkExecLint sum vm opts env.lint (.start vm opts) = .pass s
  setup : env.setup = .ready
  metering : env.metering = none
  compilation : env.compilation = none

variable {lang sum vm opts env} {s : Session}

theorem execute_threw (hreached : ReachesContract sum vm opts env s) {e : HostError} (hthrow : env.ending = .threw e) :
    execute lang sum vm opts env =
      classified opts env (s.serve (callContext lang sum vm opts) env.calls) e := by
  unfold execute
  dsimp only
  rw [if_neg (not_lt.mpr hreached.size), hreached.lint]
  simp only [runContract, hreached.setup, hreached.metering, hreached.compilation, hthrow]

theorem checkExecLint_execContext {s₀ : Session} (h : checkExecLint sum vm opts env.lint s₀ = .pass s) :
    s.execContext = s₀.execContext := by
  obtain rfl | ⟨amount, -, rfl⟩ := checkExecLint_session h
  · rfl
  · rfl

/-- Whatever the contract throws, it fails for a reason of the host or in an ordinary error. -/
theorem thrown_status_genuine (hlint : isLintHardeningActive opts.network opts.timestamp = true)
    (hsignal : isResourceFaultSignalActive opts.network opts.coin opts.height = true)
    (hreached : ReachesContract sum vm opts env s) (v : ThrownValue) (hthrow : env.ending = .threw v.atHost) :
    ∃ r failure, execute lang sum vm opts env = .result r ∧ r.error = some failure ∧
      failure.Raised env.signals env.calls (s.answers (callContext lang sum vm opts) env.calls) ∧
      r.gasUsed = failure.bill (s.serve (callContext lang sum vm opts) env.calls).gasTracker := by
  obtain ⟨hmetered, hflag⟩ := checkExecLint_pass (Session.Metered.start vm opts) rfl hreached.lint
  have hserved := hmetered.serve (callContext lang sum vm opts) env.calls
  have hclass : ∃ r, classifyError opts env.signals (s.serve (callContext lang sum vm opts) env.calls) v.atHost =
      .ok r ∧ r.Genuine env.signals (s.serve (callContext lang sum vm opts) env.calls) :=
    classifyError_genuine hlint hsignal hserved.consistent v.cls_atHost
  obtain ⟨r, hr, failure, hfailure, hmet, hbill⟩ := hclass
  refine ⟨r, failure, ?_, hfailure, ?_, hbill⟩
  · rw [execute_threw hreached hthrow, classified, hr]
  · cases failure with
    | revert reason =>
      obtain hbefore | hcall := Session.serve_reverted hmet
      · rw [checkExecLint_execContext hreached.lint] at hbefore
        cases hbefore
      · exact hcall
    | outOfGas used ceiling =>
      obtain hbefore | hanswer := Session.serve_raises hmet
      · rw [hflag] at hbefore
        cases hbefore
      · exact hanswer
    | timeout | outOfMemory | outOfStack | error text => exact hmet

end

/-- The contract is told that a charge failed, catches it and a revert, and throws a text of
the host. -/
def disguised : Environment where
  lint := .valid
  setup := .ready
  metering := none
  compilation := none
  calls := [.revert "real", .gas (.number (.finite 2))]
  ending := .threw (ThrownValue.error "RangeError" "Maximum call stack size exceeded" true).atHost
  signals := ⟨false, false, false⟩

def disguisedStart : Session := { Session.start smallVm regtestOpts with gasTracker := ⟨10, (2 : ℚ), false⟩ }

theorem checkExecLint_disguised :
    checkExecLint .exact smallVm regtestOpts .valid (.start smallVm regtestOpts) = .pass disguisedStart := by
  have hcharge : (Session.start smallVm regtestOpts).gasTracker.charge .exact
      (.finite (smallVm.gasSchedule.computation * lintUnits regtestOpts.codeBytes)) =
        (none, disguisedStart.gasTracker) := by decide +kernel
  have hactive : isExecLintActive regtestOpts.network regtestOpts.coin regtestOpts.height = true := by decide
  simp only [checkExecLint, hactive, if_true, hcharge]
  rfl

theorem thrown_status_genuine_disguised :
    ∃ r failure, execute plainLanguage .exact smallVm regtestOpts disguised = .result r ∧ r.error = some failure ∧
      failure.Raised disguised.signals disguised.calls
        (disguisedStart.answers (callContext plainLanguage .exact smallVm regtestOpts)
          disguised.calls) ∧
      r.gasUsed = failure.bill (disguisedStart.serve
        (callContext plainLanguage .exact smallVm regtestOpts) disguised.calls).gasTracker :=
  thrown_status_genuine (by decide) (by decide) ⟨by decide, checkExecLint_disguised, rfl, rfl, rfl⟩
    (.error "RangeError" "Maximum call stack size exceeded" true) rfl

end XChainVM.Runtime
