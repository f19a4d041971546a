import XChainVM.Runtime.EmissionAtomicity
import XChainVM.Runtime.GasCeiling

/-! # The gateway within the calls of the host

The gateway methods check, charge and queue in an order of their own. Whatever a contract calls
and whatever throws, the session it leaves is one that calls of the host leave, so what holds of
every run of host calls holds of every run of the gateway.
-/

namespace XChainVM.Runtime

open Gas Js Machine EmitApi

def Reached (ctx : CallContext) (s₀ s : Session) : Prop := ∃ calls, s = s₀.serve ctx calls

/-- The same, but for one last charge, whose call may go on to queue its action. -/
def Due (ctx : CallContext) (q : ℚ) (s₀ s : Session) : Prop :=
  ∃ s₁, Reached ctx s₀ s₁ ∧ s₁.charge ctx (.finite q) = (none, s)

namespace Reached

variable {ctx : CallContext} {s₀ s s' : Session}

theorem refl (ctx : CallContext) (s : Session) : Reached ctx s s := ⟨[], rfl⟩

theorem trans (h : Reached ctx s₀ s) (h' : Reached ctx s s') : Reached ctx s₀ s' := by
  obtain ⟨calls, rfl⟩ := h
  obtain ⟨calls', rfl⟩ := h'
  exact ⟨calls ++ calls', (Session.serve_append calls calls').symm⟩

theorem answer (h : Reached ctx s₀ s) (call : HostCall) : Reached ctx s₀ (s.answer ctx call).2 :=
  h.trans ⟨[call], rfl⟩

theorem used_le (h : Reached ctx s₀ s) : s₀.gasTracker.used ≤ s.gasTracker.used := by
  obtain ⟨calls, rfl⟩ := h
  exact Session.used_le_serve calls

end Reached

theorem Due.reached {ctx : CallContext} {q : ℚ} {s₀ s : Session} (h : Due ctx q s₀ s) : Reached ctx s₀ s := by
  obtain ⟨s₁, h, hcharge⟩ := h
  have hanswer := h.answer (.charge (.finite q))
  rw [Session.answer, hcharge] at hanswer
  exact hanswer

section

variable {ctx : EmitContext} {s₀ s : Session} {α : Type}

/-- A step that leaves the session alone keeps what holds of it. -/
theorem keeps_check {P Q : Session → Prop} (h : P s) (hthrow : Q s) (result : Except EmitError α) :
    Ends (EmitApi.check result) s (fun _ s' => P s') (fun _ s' => Q s') := by
  cases result
  · exact hthrow
  · exact h

theorem keeps_ensureRoomFirst {P : Session → Prop} (h : P s) :
    Ends (EmitApi.ensureRoomFirst ctx) s (fun _ s' => P s') (fun _ s' => P s') := by
  refine ends_call ?_ ?_
  all_goals split
  · rintro s' ⟨⟩
  · rintro s' ⟨⟩
    exact h
  · rintro e s' ⟨⟩
    exact h
  · rintro e s' ⟨⟩

theorem Reached.check (h : Reached ctx.toCallContext s₀ s) (result : Except EmitError α) :
    Ends (EmitApi.check result) s (fun _ s' => Reached ctx.toCallContext s₀ s')
      (fun _ s' => Reached ctx.toCallContext s₀ s') := keeps_check h h result

theorem Due.check {q : ℚ} (h : Due ctx.toCallContext q s₀ s) (result : Except EmitError α) :
    Ends (EmitApi.check result) s (fun _ s' => Due ctx.toCallContext q s₀ s')
      (fun _ s' => Reached ctx.toCallContext s₀ s') := keeps_check h h.reached result

theorem Reached.charge (h : Reached ctx.toCallContext s₀ s) (q : ℚ) :
    Ends (EmitApi.charge ctx q) s (fun _ s' => Due ctx.toCallContext q s₀ s')
      (fun _ s' => Reached ctx.toCallContext s₀ s') := by
  refine ends_call (fun s' hcharge => ⟨s, h, hcharge⟩) ?_
  intro e s' hcharge
  have hanswer := h.answer (.charge (.finite q))
  rw [Session.answer, hcharge] at hanswer
  exact hanswer

/-- The charge and the queueing of one action are one call of the host. -/
theorem Due.add {q : ℚ} (h : Due ctx.toCallContext q s₀ s) (emitter : Emitter) (params : Value) :
    Ends (EmitApi.add emitter.action params) s (fun _ s' => Reached ctx.toCallContext s₀ s')
      (fun _ s' => Reached ctx.toCallContext s₀ s') := by
  obtain ⟨s₁, h, hcharge⟩ := h
  have hanswer := h.answer (.emit emitter (.finite q) params)
  have hafter : s₁.afterCharge ctx.toCallContext (.finite q) (fun s => s.queue emitter.action params) =
      s.queue emitter.action params := by
    unfold Session.afterCharge
    rw [hcharge]
  rw [Session.answer, hafter] at hanswer
  refine ends_call ?_ ?_
  · intro s' hqueue
    rwa [hqueue] at hanswer
  · intro e s' hqueue
    rwa [hqueue] at hanswer

end

def Served {α : Type} (ctx : CallContext) (m : EmitApi α) (s : Session) : Prop :=
  Ends m s (fun _ s' => Reached ctx s s') (fun _ s' => Reached ctx s s')

section

variable {ctx : EmitContext} (s : Session)

theorem served_emitChecked (emitter : Emitter) (required texts : List String) (params : Value) :
    Served ctx.toCallContext (emitChecked emitter.action required texts ctx params) s := by
  refine Ends.bind ((Reached.refl _ s).charge _) ?_
  intro _ s₁ h₁
  refine Ends.bind (h₁.check _) ?_
  intro _ s₂ h₂
  refine Ends.bind (h₂.check _) ?_
  intro _ s₃ h₃
  exact h₃.add emitter params

theorem served_emitUnchecked (emitter : Emitter) (params : Value) :
    Served ctx.toCallContext (emitUnchecked emitter.action ctx params) s := by
  refine Ends.bind ((Reached.refl _ s).charge _) ?_
  intro _ s₁ h₁
  exact h₁.add emitter _

theorem served_vote (params : Value) : Served ctx.toCallContext (Emit.vote ctx params) s := by
  refine Ends.bind ((Reached.refl _ s).charge _) ?_
  intro _ s₁ h₁
  refine Ends.bind (h₁.check _) ?_
  intro _ s₂ h₂
  exact h₂.add .vote _

theorem served_execute (params : Value) : Served ctx.toCallContext (Emit.execute ctx params) s := by
  have hanswer := (Reached.refl ctx.toCallContext s).answer (.execute params)
  refine ends_call ?_ ?_
  · intro s' h
    rwa [Session.answer, h] at hanswer
  · intro e s' h
    rwa [Session.answer, h] at hanswer

theorem served_discard {α : Type} {m : EmitApi α} (h : Served ctx.toCallContext m s) :
    Served ctx.toCallContext (discard m) s := by
  refine Ends.bind h ?_
  intro _ s' hs'
  exact hs'

theorem served_crossExecute (params : Value) : Served ctx.toCallContext (crossExecute ctx params) s := by
  have hget : Ends MonadState.get s (fun _ s' => Reached ctx.toCallContext s s')
      (fun (_ : EmitError) s' => Reached ctx.toCallContext s s') := .refl _ s
  refine hget.bind ?_
  intro current s₁ h₁
  refine Ends.bind (h₁.check _) ?_
  intro r s₂ h₂
  have hindex : Ends emissionIndex s₂ (fun _ s' => Reached ctx.toCallContext s s')
      (fun _ s' => Reached ctx.toCallContext s s') := h₂
  refine Ends.bind (Ends.bind hindex fun index s' h => h.check _) ?_
  intro id s₃ h₃
  refine Ends.bind (keeps_ensureRoomFirst h₃) ?_
  intro _ s₄ h₄
  refine Ends.bind (h₄.charge _) ?_
  intro _ s₅ h₅
  refine Ends.bind (h₅.add .xcall _) ?_
  intro _ s₆ h₆
  exact h₆

theorem served_attestationRequest (r : AttestRequest) : Served ctx.toCallContext (attestationRequest ctx r) s := by
  refine Ends.bind ((Reached.refl _ s).check _) ?_
  intro _ s₁ h₁
  refine Ends.bind (keeps_ensureRoomFirst h₁) ?_
  intro _ s₂ h₂
  refine Ends.bind (h₂.charge _) ?_
  intro _ s₃ h₃
  refine Ends.bind (h₃.reached.charge _) ?_
  intro _ s₄ h₄
  refine Ends.bind (h₄.check _) ?_
  intro params s₅ h₅
  have hindex : Ends emissionIndex s₅ (fun _ s' => Due ctx.toCallContext ctx.gasSchedule.emission s s')
      (fun _ s' => Reached ctx.toCallContext s s') := h₅
  refine Ends.bind hindex ?_
  intro index s₆ h₆
  refine Ends.bind (h₆.check _) ?_
  intro id s₇ h₇
  refine Ends.bind (h₇.add .attest _) ?_
  intro _ s₈ h₈
  exact h₈

theorem served_slash (ctx : GatewayContext) (pubkey token amount : Value) :
    Served ctx.toCallContext (slash ctx pubkey token amount) s := by
  refine Ends.bind ((Reached.refl _ s).charge _) ?_
  intro _ s₁ h₁
  refine Ends.bind (h₁.check _) ?_
  intro _ s₂ h₂
  exact h₂.add .slash _

end

theorem EmitCall.served (ctx : GatewayContext) (call : EmitCall) (s : Session) :
    Served ctx.toCallContext (call.answer ctx) s := by
  cases call with
  | send params => exact served_emitChecked s .send _ _ params
  | destroy params => exact served_emitChecked s .destroy _ _ params
  | issue params => exact served_emitChecked s .issue _ _ params
  | mint params => exact served_emitChecked s .mint _ _ params
  | order params => exact served_emitChecked s .order _ _ params
  | dispenser params => exact served_emitUnchecked s .dispenser params
  | dividend params => exact served_emitChecked s .dividend _ _ params
  | airdrop params => exact served_emitChecked s .airdrop _ _ params
  | callback params => exact served_emitChecked s .callback _ _ params
  | file params => exact served_emitUnchecked s .file params
  | list params => exact served_emitUnchecked s .list params
  | coinpay params => exact served_emitChecked s .coinpay _ _ params
  | sweep params => exact served_emitChecked s .sweep _ _ params
  | link params => exact served_emitChecked s .link _ _ params
  | broadcast params => exact served_emitUnchecked s .broadcast params
  | message params => exact served_emitChecked s .message _ _ params
  | vote params => exact served_vote s params
  | execute params => exact served_execute s params
  | crossExecute params => exact served_discard s (served_crossExecute s params)
  | request r => exact served_discard s (served_attestationRequest s r)
  | slash pubkey token amount => exact served_slash s ctx pubkey token amount

theorem GatewayCall.reached (ctx : GatewayContext) (call : GatewayCall) (s : Session) :
    Reached ctx.toCallContext s (call.next ctx s) := by
  cases call with
  | emit call =>
    have hserved := call.served ctx s
    unfold Served Ends at hserved
    unfold GatewayCall.next
    cases h : call.answer ctx s with
    | ok u s' =>
      simp only [h] at hserved ⊢
      exact hserved
    | error e s' =>
      simp only [h] at hserved ⊢
      exact hserved
  | host call => exact (Reached.refl _ s).answer call

theorem reached_serveGateway (ctx : GatewayContext) (calls : List GatewayCall) (s : Session) :
    Reached ctx.toCallContext s (s.serveGateway ctx calls) := by
  induction calls generalizing s with
  | nil => exact .refl _ s
  | cons call rest ih => exact (call.reached ctx s).trans (ih _)

def GatewayCall.Own : GatewayCall → Prop
  | host (.emit _ _ _) | host (.execute _) => False
  | _ => True

/-- Every action queued on the way has added its emission cost to the total. -/
structure PaidFor (ctx : CallContext) (s s' : Session) (queued : ℕ) : Prop where
  emitted : s'.emitted = s.emitted + queued
  used : s.gasTracker.used + ((queued * ctx.gasSchedule.emission : ℕ) : ℚ) ≤ s'.gasTracker.used

namespace PaidFor

variable {ctx : CallContext} {s s' s'' : Session} {k l : ℕ}

theorem of_emitted (h : s'.emitted = s.emitted) (hreached : Reached ctx s s') : PaidFor ctx s s' 0 where
  emitted := h
  used := by simpa using hreached.used_le

theorem trans (h : PaidFor ctx s s' k) (h' : PaidFor ctx s' s'' l) : PaidFor ctx s s'' (k + l) where
  emitted := by rw [h'.emitted, h.emitted, Nat.add_assoc]
  used := by
    have hsum : (((k + l) * ctx.gasSchedule.emission : ℕ) : ℚ) =
        ((k * ctx.gasSchedule.emission : ℕ) : ℚ) + ((l * ctx.gasSchedule.emission : ℕ) : ℚ) := by
      rw [← Nat.cast_add, ← Nat.add_mul]
    calc s.gasTracker.used + (((k + l) * ctx.gasSchedule.emission : ℕ) : ℚ)
        = s.gasTracker.used + ((k * ctx.gasSchedule.emission : ℕ) : ℚ) + ((l * ctx.gasSchedule.emission : ℕ) : ℚ) := by
          rw [hsum, WithTop.coe_add, add_assoc]
      _ ≤ s'.gasTracker.used + ((l * ctx.gasSchedule.emission : ℕ) : ℚ) := by gcongr; exact h.used
      _ ≤ s''.gasTracker.used := h'.used

theorem emitted_afterCharge {amount : Number} {next : Session → Option CallError × Session}
    (hnext : ∀ s, (next s).2.emitted = s.emitted) : (s.afterCharge ctx amount next).2.emitted = s.emitted := by
  have hcharge : (s.charge ctx amount).2.emitted = s.emitted := s.emitted_charge ctx amount
  obtain ⟨-, h⟩ | ⟨-, h⟩ := s.afterCharge_cases ctx amount next
  · rw [h, hnext, hcharge]
  · rw [h, hcharge]

theorem host {call : HostCall} (h : (GatewayCall.host call).Own) : PaidFor ctx s (s.answer ctx call).2 0 := by
  refine .of_emitted ?_ ((Reached.refl ctx s).answer call)
  cases call with
  | gas units => rfl
  | charge amount => rfl
  | stateSet key value => exact emitted_afterCharge fun s => s.emitted_write _
  | stateDelete key => exact emitted_afterCharge fun s => s.emitted_write _
  | emit emitter amount params => exact h.elim
  | execute params => exact h.elim
  | log message =>
    simp only [Session.answer, Session.emitted, EmissionCollector.addLog]
    split <;> rfl
  | revert reason => rfl

theorem next {ctx : GatewayContext} (hsum : ctx.sum = .exact) (hmin : 0 ≤ ctx.limits.minCallGas) (s : Session)
    {call : GatewayCall} (h : call.Own) : ∃ queued, PaidFor ctx.toCallContext s (call.next ctx s) queued := by
  cases call with
  | emit call =>
    have hreached := (GatewayCall.emit call).reached ctx s
    have hanswer := call.ends_answer hmin s
    unfold Ends at hanswer
    unfold GatewayCall.next at hreached ⊢
    cases hcall : call.answer ctx s with
    | ok u s' =>
      simp only [hcall] at hanswer ⊢
      obtain ⟨a, -, -, happended⟩ := hanswer.appended
      refine ⟨1, ?_, ?_⟩
      · rw [Session.emitted, happended]
        simp [Session.emitted]
      · simpa using hanswer.used_add_le hsum
    | error e s' =>
      simp only [hcall] at hanswer hreached ⊢
      exact ⟨0, .of_emitted (by rw [Session.emitted, hanswer.collector, Session.emitted]) hreached⟩
  | host call => exact ⟨0, host h⟩

theorem serveGateway {ctx : GatewayContext} (hsum : ctx.sum = .exact) (hmin : 0 ≤ ctx.limits.minCallGas)
    (calls : List GatewayCall) (h : ∀ call ∈ calls, call.Own) (s : Session) :
    ∃ queued, PaidFor ctx.toCallContext s (s.serveGateway ctx calls) queued := by
  induction calls generalizing s with
  | nil => exact ⟨0, .of_emitted rfl (.refl _ s)⟩
  | cons call rest ih =>
    obtain ⟨hcall, hrest⟩ := List.forall_mem_cons.mp h
    obtain ⟨k, hnext⟩ := next hsum hmin s hcall
    obtain ⟨l, hserve⟩ := ih hrest (call.next ctx s)
    exact ⟨k + l, hnext.trans hserve⟩

end PaidFor

/-- A run of the gateway ends where a run of host calls ends. Where amounts are added exactly, each
action it queues has added its emission cost to the total, so a run that has not exhausted its
gas has queued no more actions than the ceiling pays for. -/
theorem gateway_run_served (ctx : GatewayContext) (calls : List GatewayCall) (s : Session) :
    (∃ hostCalls, s.serveGateway ctx calls = s.serve ctx.toCallContext hostCalls) ∧
      (ctx.sum = .exact → 0 ≤ ctx.limits.minCallGas → (∀ call ∈ calls, call.Own) →
        ∃ queued, PaidFor ctx.toCallContext s (s.serveGateway ctx calls) queued ∧
          ∀ ceiling, s.Metered ceiling → (s.serveGateway ctx calls).gasTracker.exhausted = false →
            ((queued * ctx.gasSchedule.emission : ℕ) : ℚ) ≤ ceiling) := by
  have hreached := reached_serveGateway ctx calls s
  refine ⟨hreached, ?_⟩
  intro hsum hmin hown
  obtain ⟨queued, hpaid⟩ := PaidFor.serveGateway hsum hmin calls hown s
  refine ⟨queued, hpaid, ?_⟩
  intro ceiling hmetered hexhausted
  have hserved : (s.serveGateway ctx calls).Metered ceiling := by
    obtain ⟨hostCalls, h⟩ := hreached
    rw [h]
    exact hmetered.serve ctx.toCallContext hostCalls
  have hle : ((queued * ctx.gasSchedule.emission : ℕ) : ℚ) ≤ (ceiling : WithTop ℚ) :=
    calc (((queued * ctx.gasSchedule.emission : ℕ) : ℚ) : WithTop ℚ)
        ≤ s.gasTracker.used + ((queued * ctx.gasSchedule.emission : ℕ) : ℚ) :=
          le_add_of_nonneg_left hmetered.used_nonneg
      _ ≤ (s.serveGateway ctx calls).gasTracker.used := hpaid.used
      _ ≤ ceiling := hserved.used_le hexhausted
  exact_mod_cast hle

def protocolCalls : List GatewayCall :=
  [.emit (.send sendParams), .emit (.send sendParams),
    .emit (.request ⟨.string "llm", .string "", .string "done", .array [], .null⟩)]

/-- Two payments and a request, of which the queue takes one. -/
theorem gateway_run_served_protocol :
    ∃ queued, PaidFor protocolContext.toCallContext (openSession 1)
        ((openSession 1).serveGateway protocolContext protocolCalls) queued ∧
      ((queued * protocolContext.gasSchedule.emission : ℕ) : ℚ) ≤ 1000000 := by
  obtain ⟨queued, hpaid, hceiling⟩ :=
    (gateway_run_served protocolContext protocolCalls (openSession 1)).2 rfl (by decide) (by simp [protocolCalls, GatewayCall.Own])
  refine ⟨queued, hpaid, hceiling 1000000 ?_ (by decide +kernel)⟩
  exact ⟨.new (by norm_num), rfl, by norm_num, le_refl 0⟩

end XChainVM.Runtime
