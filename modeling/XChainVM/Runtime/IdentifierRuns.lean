import XChainVM.Machine.Fallible
import XChainVM.Runtime.IdentifierCalls

/-! # Identifiers of one execution

Every identifier a contract receives is the hash of a preimage that ends with the number of
actions queued before its own. An accepted call queues one action and nothing removes one, so
no index is used twice, whatever is called and whatever throws in between.
-/

namespace XChainVM.Runtime

open Gas Js Machine

inductive ContractCall where
  | request (r : AttestRequest)
  | crossExecute (params : Value)
  | host (call : HostCall)

def ContractCall.answer (ctx : EmitContext) : ContractCall → EmitApi (Option String)
  | request r => some <$> attestationRequest ctx r
  | crossExecute params => some <$> Runtime.crossExecute ctx params
  | host call => do
    EmitApi.call fun s => s.answer ctx.toCallContext call
    pure none

/-- The identifiers that a contract receives, in the order it receives them. What a call throws
is caught. -/
def identifiers (ctx : EmitContext) : Session → List ContractCall → List String
  | _, [] => []
  | s, call :: rest =>
    match call.answer ctx s with
    | .ok (some id) s' => id :: identifiers ctx s' rest
    | .ok none s' => identifiers ctx s' rest
    | .error _ s' => identifiers ctx s' rest

namespace Session

def emitted (s : Session) : ℕ := s.emissionCollector.actions.length

variable (ctx : CallContext) (s : Session)

theorem emitted_charge (amount : Number) : (s.charge ctx amount).2.emitted = s.emitted := rfl

/-- Queueing appends one action or throws and leaves the queue as it was. -/
theorem queue_cases (action : String) (params : Value) :
    (∃ s', s.queue action params = (none, s') ∧ s'.emitted = s.emitted + 1) ∨
      ∃ e, s.queue action params = (some e, s) := by
  by_cases hroom : s.emissionCollector.ensureRoom
  · left
    simp only [queue, EmissionCollector.add, hroom, if_true]
    exact ⟨_, rfl, by simp [emitted]⟩
  · right
    simp only [queue, EmissionCollector.add, hroom]
    exact ⟨_, rfl⟩

theorem emitted_le_queue (action : String) (params : Value) :
    s.emitted ≤ (s.queue action params).2.emitted := by
  obtain ⟨s', h, hs'⟩ | ⟨e, h⟩ := s.queue_cases action params
  · simp only [h]
    omega
  · simp only [h, le_refl]

theorem emitted_le_afterCharge (amount : Number) {next : Session → Option CallError × Session}
    (hnext : ∀ s, s.emitted ≤ (next s).2.emitted) :
    s.emitted ≤ (s.afterCharge ctx amount next).2.emitted := by
  have hcharge : (s.charge ctx amount).2.emitted = s.emitted := s.emitted_charge ctx amount
  unfold afterCharge
  cases hc : s.charge ctx amount with
  | mk e s' =>
    rw [hc] at hcharge
    cases e with
    | none => exact hcharge ▸ hnext s'
    | some e => exact hcharge.ge

theorem emitted_write (result : Except StateError StateManager) :
    (s.write result).2.emitted = s.emitted := by
  cases result <;> rfl

theorem emitted_le_reserve (r : ExecuteRequest) : s.emitted ≤ (s.reserve ctx r).2.emitted := by
  unfold reserve
  split
  · exact le_rfl
  · split
    · exact le_rfl
    · exact s.emitted_le_afterCharge ctx _ fun s => s.emitted_le_queue _ _

/-- No call removes a queued action. -/
theorem emitted_le_answer (call : HostCall) : s.emitted ≤ (s.answer ctx call).2.emitted := by
  cases call with
  | gas units => exact le_rfl
  | charge amount => exact le_rfl
  | stateSet key value => exact s.emitted_le_afterCharge ctx _ fun s => (s.emitted_write _).ge
  | stateDelete key => exact s.emitted_le_afterCharge ctx _ fun s => (s.emitted_write _).ge
  | emit emitter amount params => exact s.emitted_le_afterCharge ctx _ fun s => s.emitted_le_queue _ _
  | execute params =>
    simp only [answer, emitExecute]
    split
    · exact le_rfl
    · exact s.emitted_le_reserve ctx _
  | log message =>
    simp only [answer, emitted, EmissionCollector.addLog]
    split <;> exact le_rfl
  | revert reason => exact le_rfl

end Session

namespace EmitApi

def Threw (s : Session) (_ : EmitError) (s' : Session) : Prop := s.emitted ≤ s'.emitted

def Quiet {α : Type} (m : EmitApi α) (s : Session) (returned : α → Prop) : Prop :=
  Ends m s (fun a s' => s'.emitted = s.emitted ∧ returned a) (Threw s)

variable {α β : Type} {s : Session} {ctx : EmitContext}

theorem Quiet.bind {m : EmitApi α} {f : α → EmitApi β} {returned : α → Prop} {returned' : β → Session → Prop}
    (h : Quiet m s returned)
    (hf : ∀ a s', s'.emitted = s.emitted → returned a → Ends (f a) s' returned' (Threw s')) :
    Ends (m >>= f) s returned' (Threw s) := by
  refine Ends.bind h ?_
  rintro a s' ⟨hs', ha⟩
  have hthrew : Threw s' = Threw s := by
    funext e s''
    rw [Threw, Threw, hs']
  exact hthrew ▸ hf a s' hs' ha

theorem quiet_check (result : Except EmitError α) : Quiet (check result) s fun a => result = .ok a := by
  cases result with
  | error e => exact le_rfl (a := s.emitted)
  | ok a => exact ⟨rfl, rfl⟩

theorem ends_call {f : Session → Option CallError × Session} {returned : Unit → Session → Prop}
    {threw : EmitError → Session → Prop} (hreturn : ∀ s', f s = (none, s') → returned () s')
    (hthrow : ∀ e s', f s = (some e, s') → threw (.call e) s') :
    Ends (call f) s returned threw := by
  unfold Ends call
  cases hf : f s with
  | mk e s' =>
    cases e with
    | none => exact hreturn s' hf
    | some e => exact hthrow e s' hf

theorem quiet_ensureRoomFirst : Quiet (ensureRoomFirst ctx) s fun _ => True := by
  refine ends_call ?_ ?_
  all_goals split
  · rintro s' ⟨⟩
  · rintro s' ⟨⟩
    exact ⟨rfl, trivial⟩
  · rintro e s' ⟨⟩
    exact le_rfl
  · rintro e s' ⟨⟩

theorem quiet_charge (amount : ℚ) : Quiet (charge ctx amount) s fun _ => True := by
  have hcharge : (s.charge ctx.toCallContext (.finite amount)).2.emitted = s.emitted :=
    s.emitted_charge ctx.toCallContext (.finite amount)
  refine ends_call ?_ ?_
  · intro s' h
    rw [h] at hcharge
    exact ⟨hcharge, trivial⟩
  · intro e s' h
    rw [h] at hcharge
    exact hcharge.ge

theorem quiet_identifier (preimage : Option String) :
    Quiet (identifier ctx preimage) s fun id => ∃ text, preimage = some text ∧ id = ctx.hash text := by
  refine Ends.mono (quiet_check _) ?_
  rintro id s' ⟨hs', hid⟩
  refine ⟨hs', ?_⟩
  cases preimage with
  | none => cases hid
  | some text =>
    cases hid
    exact ⟨text, rfl, rfl⟩

theorem ends_add (action : String) (params : Value) :
    Ends (add action params) s (fun _ s' => s'.emitted = s.emitted + 1) (Threw s) := by
  obtain ⟨s₁, h, hs₁⟩ | ⟨e, h⟩ := s.queue_cases action params
  · refine ends_call ?_ ?_
    · rintro s' hs'
      cases h.symm.trans hs'
      exact hs₁
    · rintro e s' hs'
      cases h.symm.trans hs'
  · refine ends_call ?_ ?_
    · rintro s' hs'
      cases h.symm.trans hs'
    · rintro e s' hs'
      cases h.symm.trans hs'
      exact le_rfl

end EmitApi

/-- A preimage that the execution hashes when `index` actions are queued. -/
inductive Preimage (ctx : EmitContext) (index : ℕ) (text : String) : Prop where
  | request (h : buildRequestIdPreimage ctx.lang (ctx.requestFields index) = some text)
  | call (sourceChain targetChain : String) (source : ctx.sourceChain = some sourceChain)
      (target : targetChain ∈ ALLOWED_TARGET_CHAINS)
      (h : buildCallIdPreimage ctx.lang (ctx.callFields sourceChain targetChain index) = some text)

/-- The call returned the hash of a preimage at the old queue length and queued one action. -/
def Identified (ctx : EmitContext) (s : Session) (id : String) (s' : Session) : Prop :=
  s'.emitted = s.emitted + 1 ∧ ∃ text, Preimage ctx s.emitted text ∧ id = ctx.hash text

open EmitApi

theorem ends_queueAttestRequest (ctx : EmitContext) (params : List (String × Value)) (s : Session) :
    Ends (queueAttestRequest ctx params) s (Identified ctx s) (Threw s) := by
  have hindex : Quiet emissionIndex s fun index => index = s.emitted := ⟨rfl, rfl⟩
  refine hindex.bind ?_
  rintro index s₁ hs₁ rfl
  refine (quiet_identifier _).bind ?_
  rintro id s₂ hs₂ ⟨text, htext, rfl⟩
  refine Ends.bind (ends_add _ _) ?_
  intro _ s₃ hs₃
  exact Ends.pure ⟨by omega, text, .request htext, rfl⟩

theorem ends_attestationRequest (ctx : EmitContext) (r : AttestRequest) (s : Session) :
    Ends (attestationRequest ctx r) s (Identified ctx s) (Threw s) := by
  refine (quiet_check _).bind ?_
  intro _ s₁ hs₁ _
  refine quiet_ensureRoomFirst.bind ?_
  intro _ s₂ hs₂ _
  refine (quiet_charge _).bind ?_
  intro _ s₃ hs₃ _
  refine (quiet_charge _).bind ?_
  intro _ s₄ hs₄ _
  refine (quiet_check _).bind ?_
  intro params s₅ hs₅ _
  refine (ends_queueAttestRequest ctx params s₅).mono ?_
  rintro id s₆ ⟨hs₆, htext⟩
  have hs : s₅.emitted = s.emitted := by omega
  exact ⟨by omega, hs ▸ htext⟩

theorem checkTargetChain_ok {v : Value} {chain : String} (h : checkTargetChain v = .ok chain) :
    chain ∈ ALLOWED_TARGET_CHAINS := by
  unfold checkTargetChain at h
  split at h
  · split at h
    · next hmem =>
      cases h
      exact hmem
    · cases h
  · cases h

theorem converted_ok {α : Type} {a : α} {x : Option α} (h : converted x = .ok a) : x = some a := by
  cases x with
  | none => cases h
  | some b =>
    cases h
    rfl

/-- The chains that an accepted call names. -/
theorem checkChains_ok {ctx : EmitContext} {params : Value} {chains : String × String}
    (h : checkChains ctx params = .ok chains) :
    ctx.sourceChain = some chains.1 ∧ chains.2 ∈ ALLOWED_TARGET_CHAINS := by
  obtain ⟨targetChain, htarget, h⟩ := bind_ok h
  obtain ⟨sourceChain, hsource, h⟩ := bind_ok h
  obtain ⟨_, -, h⟩ := bind_ok h
  cases h
  exact ⟨converted_ok hsource, checkTargetChain_ok htarget⟩

theorem checkXcall_ok {ctx : EmitContext} {s : Session} {params : Value} {r : XcallRequest}
    (h : checkXcall ctx s params = .ok r) :
    ctx.sourceChain = some r.sourceChain ∧ r.targetChain ∈ ALLOWED_TARGET_CHAINS := by
  obtain ⟨_, -, h⟩ := bind_ok h
  obtain ⟨_, -, h⟩ := bind_ok h
  obtain ⟨_, -, h⟩ := bind_ok h
  obtain ⟨chains, hchains, h⟩ := bind_ok h
  obtain ⟨_, -, h⟩ := bind_ok h
  obtain ⟨_, -, h⟩ := bind_ok h
  obtain ⟨_, -, h⟩ := bind_ok h
  cases h
  exact checkChains_ok hchains

theorem ends_crossExecute (ctx : EmitContext) (params : Value) (s : Session) :
    Ends (crossExecute ctx params) s (Identified ctx s) (Threw s) := by
  have hget : Quiet MonadState.get s fun _ => True := ⟨rfl, trivial⟩
  refine hget.bind ?_
  intro current s₀ hs₀ _
  refine (quiet_check _).bind ?_
  intro r s₁ hs₁ hr
  obtain ⟨hsource, htarget⟩ := checkXcall_ok hr
  have hderived : Quiet (deriveXcallCallId ctx r.sourceChain r.targetChain) s₁ fun id =>
      ∃ text, Preimage ctx s₁.emitted text ∧ id = ctx.hash text := by
    have hindex : Quiet emissionIndex s₁ fun index => index = s₁.emitted := ⟨rfl, rfl⟩
    refine hindex.bind ?_
    rintro index s₂ hs₂ rfl
    refine (quiet_identifier _).mono ?_
    rintro id s₃ ⟨hs₃, text, htext, rfl⟩
    exact ⟨hs₃.trans hs₂, text, .call _ _ hsource htarget htext, rfl⟩
  refine hderived.bind ?_
  rintro id s₂ hs₂ ⟨text, htext, rfl⟩
  refine quiet_ensureRoomFirst.bind ?_
  intro _ s₃ hs₃ _
  refine (quiet_charge _).bind ?_
  intro _ s₄ hs₄ _
  refine Ends.bind (ends_add _ _) ?_
  intro _ s₅ hs₅
  have hs : s₁.emitted = s.emitted := hs₁.trans hs₀
  exact Ends.pure ⟨by omega, text, hs ▸ htext, rfl⟩

end XChainVM.Runtime
