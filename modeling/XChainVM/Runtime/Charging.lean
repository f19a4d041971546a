import XChainVM.Runtime.Execute

/-! # The tracker along a run

Every host call charges the tracker at most once and touches it in no other
way, so a property that a charge preserves holds after any run of calls. Above
the ceiling no call that charges returns.
-/

namespace XChainVM.Runtime

open Gas Js

namespace Session

variable {ctx : CallContext} {s : Session}

@[simp] theorem charge_gasTracker (amount : Number) :
    (s.charge ctx amount).2.gasTracker = (s.gasTracker.charge ctx.sum amount).2 := rfl

theorem charge_fst_eq_none (amount : Number) :
    (s.charge ctx amount).1 = none ↔ (s.gasTracker.charge ctx.sum amount).1 = none := by
  simp [Session.charge]

theorem charge_used {a : ℚ} (h : (s.charge ctx (.finite a)).1 = none) :
    (s.charge ctx (.finite a)).2.gasTracker.used = ctx.sum.add s.gasTracker.used a := by
  have hnone := (charge_fst_eq_none (.finite a)).mp h
  have hreturn : s.gasTracker.charge ctx.sum (.finite a) =
      (none, (s.gasTracker.charge ctx.sum (.finite a)).2) := Prod.ext hnone rfl
  obtain ⟨q, hq, -, -, hcharged⟩ := GasTracker.charge_none hreturn
  rw [charge_gasTracker, hcharged, Number.finite.inj hq]

@[simp] theorem queue_gasTracker (action : String) (params : Value) :
    (s.queue action params).2.gasTracker = s.gasTracker := by
  unfold queue
  split <;> rfl

@[simp] theorem write_gasTracker (result : Except StateError StateManager) :
    (s.write result).2.gasTracker = s.gasTracker := by
  cases result <;> rfl

variable (ctx) in
/-- A charge decides: its error is the answer, or the rest runs in the state it left. -/
theorem afterCharge_cases (amount : Number) (next : Session → Option CallError × Session) :
    ((s.charge ctx amount).1 = none ∧ s.afterCharge ctx amount next = next (s.charge ctx amount).2) ∨
    ((s.charge ctx amount).1 ≠ none ∧ s.afterCharge ctx amount next = s.charge ctx amount) := by
  unfold afterCharge
  rcases h : s.charge ctx amount with ⟨_ | e, s'⟩
  · exact .inl ⟨rfl, rfl⟩
  · exact .inr ⟨by simp, rfl⟩

theorem afterCharge_gasTracker (amount : Number) {next : Session → Option CallError × Session}
    (hnext : ∀ s', (next s').2.gasTracker = s'.gasTracker) :
    (s.afterCharge ctx amount next).2.gasTracker = (s.gasTracker.charge ctx.sum amount).2 := by
  obtain ⟨-, h⟩ | ⟨-, h⟩ := s.afterCharge_cases ctx amount next
  · rw [h, hnext, charge_gasTracker]
  · rw [h, charge_gasTracker]

theorem afterCharge_throws {amount : Number} {next : Session → Option CallError × Session}
    (h : (s.gasTracker.charge ctx.sum amount).1 ≠ none) : (s.afterCharge ctx amount next).1 ≠ none := by
  have hthrow : (s.charge ctx amount).1 ≠ none := fun hnone => h ((charge_fst_eq_none amount).mp hnone)
  obtain ⟨hnone, -⟩ | ⟨-, heq⟩ := s.afterCharge_cases ctx amount next
  · exact absurd hnone hthrow
  · rwa [heq]

variable (ctx) in
/-- The reservation either leaves the session alone or charges it. -/
theorem reserve_cases (r : ExecuteRequest) :
    ((s.reserve ctx r).1 ≠ none ∧ (s.reserve ctx r).2 = s) ∨
    s.reserve ctx r = s.afterCharge ctx (.finite (ctx.gasSchedule.emission + r.gasLimit))
      (fun s => s.queue "EXECUTE" r.params) := by
  unfold reserve
  split
  · exact .inl ⟨by simp, rfl⟩
  · split
    · exact .inl ⟨by simp, rfl⟩
    · exact .inr rfl

variable (ctx) in
theorem emitExecute_cases (params : Value) :
    ((s.emitExecute ctx params).1 ≠ none ∧ (s.emitExecute ctx params).2 = s) ∨
    ∃ r, checkExecute ctx params = .ok r ∧
      s.emitExecute ctx params = s.afterCharge ctx (.finite (ctx.gasSchedule.emission + r.gasLimit))
        (fun s => s.queue "EXECUTE" r.params) := by
  unfold emitExecute
  rcases hcheck : checkExecute ctx params with e | r
  · exact .inl ⟨by simp, rfl⟩
  · obtain h | h := s.reserve_cases ctx r
    · exact .inl h
    · exact .inr ⟨r, rfl, h⟩

variable (ctx) in
/-- Every call leaves the tracker alone or charges it once. -/
theorem answer_gasTracker (call : HostCall) :
    (s.answer ctx call).2.gasTracker = s.gasTracker ∨
    ∃ amount, (s.answer ctx call).2.gasTracker = (s.gasTracker.charge ctx.sum amount).2 := by
  cases call with
  | gas units => exact .inr ⟨_, charge_gasTracker _⟩
  | charge amount => exact .inr ⟨amount, charge_gasTracker amount⟩
  | stateSet key value =>
    exact .inr ⟨_, afterCharge_gasTracker _ fun s' => s'.write_gasTracker _⟩
  | stateDelete key =>
    exact .inr ⟨_, afterCharge_gasTracker _ fun s' => s'.write_gasTracker _⟩
  | emit emitter amount params =>
    exact .inr ⟨amount, afterCharge_gasTracker _ fun s' => s'.queue_gasTracker _ _⟩
  | execute params =>
    obtain ⟨-, h⟩ | ⟨r, -, h⟩ := s.emitExecute_cases ctx params
    · exact .inl (congrArg gasTracker h)
    · refine .inr ⟨.finite (ctx.gasSchedule.emission + r.gasLimit), ?_⟩
      rw [answer, h]
      exact afterCharge_gasTracker _ fun s' => s'.queue_gasTracker _ _
  | log message => exact .inl rfl
  | revert reason => exact .inl rfl

/-- What every charge preserves, a run of calls preserves. -/
theorem serve_gasTracker {P : GasTracker → Prop}
    (hcharge : ∀ t amount, P t → P (t.charge ctx.sum amount).2) (calls : List HostCall) :
    ∀ s : Session, P s.gasTracker → P (s.serve ctx calls).gasTracker := by
  induction calls with
  | nil => exact fun s h => h
  | cons call calls ih =>
    intro s hs
    apply ih
    obtain h | ⟨amount, h⟩ := s.answer_gasTracker ctx call
    · rwa [h]
    · rw [h]
      exact hcharge _ _ hs

theorem serve_append (first second : List HostCall) :
    s.serve ctx (first ++ second) = (s.serve ctx first).serve ctx second :=
  List.foldl_append

@[simp] theorem serve_ceiling (calls : List HostCall) :
    (s.serve ctx calls).gasTracker.ceiling = s.gasTracker.ceiling :=
  serve_gasTracker (P := fun t => t.ceiling = s.gasTracker.ceiling)
    (fun t amount h => (t.charge_ceiling ctx.sum amount).trans h) calls s rfl

theorem used_le_serve (calls : List HostCall) : s.gasTracker.used ≤ (s.serve ctx calls).gasTracker.used :=
  serve_gasTracker (P := fun t => s.gasTracker.used ≤ t.used)
    (fun t amount h => h.trans (t.used_le_charge ctx.sum amount)) calls s le_rfl

theorem serve_consistent (h : s.gasTracker.Consistent) (calls : List HostCall) :
    (s.serve ctx calls).gasTracker.Consistent :=
  serve_gasTracker (fun _ _ ht => ht.charge) calls s h

theorem serve_exhausted (h : s.gasTracker.exhausted = true) (calls : List HostCall) :
    (s.serve ctx calls).gasTracker.exhausted = true :=
  serve_gasTracker (P := fun t => t.exhausted = true)
    (fun t amount ht => t.exhausted_charge ctx.sum amount ht) calls s h

end Session

def HostCall.Charges : HostCall → Prop
  | .log _ | .revert _ => False
  | _ => True

/-- Above the ceiling a call that charges throws, and queues and writes nothing. -/
theorem Session.answer_throws {ctx : CallContext} {s : Session} (hs : s.gasTracker.Consistent)
    (hex : s.gasTracker.exhausted = true) {call : HostCall} (hcall : call.Charges) :
    (s.answer ctx call).1 ≠ none := by
  have hthrow : ∀ amount, (s.gasTracker.charge ctx.sum amount).1 ≠ none := fun _ => hs.charge_throws hex
  cases call with
  | gas units => exact fun h => hthrow _ ((Session.charge_fst_eq_none _).mp h)
  | charge amount => exact fun h => hthrow _ ((Session.charge_fst_eq_none _).mp h)
  | stateSet key value => exact Session.afterCharge_throws (hthrow _)
  | stateDelete key => exact Session.afterCharge_throws (hthrow _)
  | emit emitter amount params => exact Session.afterCharge_throws (hthrow _)
  | execute params =>
    obtain ⟨h, -⟩ | ⟨r, -, h⟩ := s.emitExecute_cases ctx params
    · exact h
    · rw [Session.answer, h]
      exact Session.afterCharge_throws (hthrow _)
  | log message => exact absurd hcall id
  | revert reason => exact absurd hcall id

end XChainVM.Runtime
