import XChainVM.Machine.Run
import XChainVM.Runtime.StateReference

/-! # Runs of state calls

After any calls, refused or not, the manager, its counter and its changes are those of the
reference map.
-/

namespace XChainVM.Runtime

open Gas Js Machine StateManager

variable {ctx : StateContext} {host : StateHost} {initial M : Reference} {initialCount : ℤ}

namespace StateApi

/-- A charge leaves the state manager alone. -/
theorem charge_apply (ctx : StateContext) (amount : ℕ) (host : StateHost) :
    (∃ gasTracker, charge ctx amount host = .ok () { host with gasTracker }) ∨
      ∃ e gasTracker, charge ctx amount host = .error e { host with gasTracker } := by
  unfold charge
  split
  case h_1 gasTracker _ => exact .inl ⟨gasTracker, rfl⟩
  case h_2 e gasTracker _ => exact .inr ⟨_, gasTracker, rfl⟩

end StateApi

open StateApi

/-- What a call did: it answered as the reference map and was applied to it, or it threw and
left the state manager alone. -/
inductive Answered (ctx : StateContext) (initial : Reference) (initialCount : ℤ) (M : Reference) (call : StateCall)
    (s : StateManager) : EStateM.Result CallError StateHost StateAnswer → Prop where
  | done {host : StateHost}
    (tracks : Tracks ctx.limits initial initialCount host.stateManager (M.apply ctx.lang call)) :
    Answered ctx initial initialCount M call s (.ok (M.answer ctx.lang call) host)
  | threw {host : StateHost} (e : CallError) (unchanged : host.stateManager = s) :
    Answered ctx initial initialCount M call s (.error e host)

theorem answered (h : Tracks ctx.limits initial initialCount host.stateManager M) (call : StateCall) :
    Answered ctx initial initialCount M call host.stateManager (call.answer ctx host) := by
  have hview : host.stateManager.view = M := funext h.view
  cases call with
  | get key =>
    rw [StateCall.answer, bind_apply]
    obtain ⟨gasTracker, hcharge⟩ | ⟨e, gasTracker, hcharge⟩ := charge_apply ctx ctx.stateRead host
    · simp only [hcharge, bind_apply, method, Method.get_apply]
      cases hkey : normKey ctx.lang key with
      | none => exact .threw _ rfl
      | some k =>
        have hanswer : M.answer ctx.lang (.get key) = .value ((host.stateManager.view k).getD .null) := by
          rw [Reference.answer, hkey, hview]
          rfl
        simp only [pure_apply]
        rw [← hanswer]
        exact .done h
    · simp only [hcharge]
      exact .threw _ rfl
  | has key =>
    rw [StateCall.answer, bind_apply]
    obtain ⟨gasTracker, hcharge⟩ | ⟨e, gasTracker, hcharge⟩ := charge_apply ctx ctx.stateRead host
    · simp only [hcharge, bind_apply, method, Method.has_apply]
      cases hkey : normKey ctx.lang key with
      | none => exact .threw _ rfl
      | some k =>
        have hanswer : M.answer ctx.lang (.has key) = .flag (host.stateManager.has k) := by
          rw [Reference.answer, hkey, has_eq, hview]
          rfl
        simp only [pure_apply]
        rw [← hanswer]
        exact .done h
    · simp only [hcharge]
      exact .threw _ rfl
  | set key value =>
    rw [StateCall.answer, bind_apply]
    obtain ⟨gasTracker, hcharge⟩ | ⟨e, gasTracker, hcharge⟩ := charge_apply ctx ctx.stateWrite host
    · simp only [hcharge, bind_apply, method, Method.set_apply]
      cases hset : host.stateManager.set ctx.lang ctx.limits key value with
      | error e => exact .threw _ rfl
      | ok s => exact .done (h.set hset)
    · simp only [hcharge]
      exact .threw _ rfl
  | delete key =>
    rw [StateCall.answer, bind_apply]
    obtain ⟨gasTracker, hcharge⟩ | ⟨e, gasTracker, hcharge⟩ := charge_apply ctx ctx.stateDelete host
    · simp only [hcharge, bind_apply, method, Method.delete_apply]
      cases hdelete : host.stateManager.delete ctx.lang ctx.limits key with
      | error e => exact .threw _ rfl
      | ok s =>
        cases hkey : normKey ctx.lang key with
        | none =>
          rw [StateManager.delete, hkey] at hdelete
          cases hdelete
        | some k =>
          have hanswer : M.answer ctx.lang (.delete key) = .flag (host.stateManager.has k) := by
            rw [Reference.answer, hkey, has_eq, hview]
            rfl
          simp only [pure_apply]
          rw [← hanswer]
          exact .done (h.delete hdelete)
    · simp only [hcharge]
      exact .threw _ rfl

theorem tracks_answerBoth (h : Tracks ctx.limits initial initialCount host.stateManager M) (call : StateCall) :
    Tracks ctx.limits initial initialCount (answerBoth ctx (host, M) call).1.stateManager
      (answerBoth ctx (host, M) call).2 := by
  have hanswered := answered h call
  unfold answerBoth
  generalize call.answer ctx host = result at hanswered ⊢
  cases hanswered with
  | done tracks => exact tracks
  | threw e unchanged => rwa [← unchanged] at h

/-- What holds of a state manager and its reference map between any two calls. -/
structure Faithful (ctx : StateContext) (entries : List (String × Value)) (host : StateHost) (M : Reference) :
    Prop where
  /-- The counter is the number of live keys. -/
  count : host.stateManager.keyCount = ({k | host.stateManager.has k = true} : Set String).ncard
  bound : host.stateManager.keyCount ≤ max (StateManager.new entries false).keyCount ctx.limits.maxStateKeys
  view : host.stateManager.view = M
  /-- The next call answers as the map does, or throws and leaves the manager as it was. -/
  answers : ∀ call : StateCall, match call.answer ctx host with
    | .ok a _ => a = M.answer ctx.lang call
    | .error _ host' => host'.stateManager = host.stateManager
  /-- No key is listed twice. -/
  distinct : (host.stateManager.getChanges.1.map Prod.fst ++ host.stateManager.getChanges.2).Nodup
  committed : (Reference.ofEntries entries).commit host.stateManager.getChanges = M

theorem faithful_of_tracks {entries : List (String × Value)}
    (h : Tracks ctx.limits (Reference.ofEntries entries) (StateManager.new entries false).keyCount host.stateManager M) :
    Faithful ctx entries host M where
  count := by
    obtain ⟨live, hnodup, hlive, hcount⟩ := h.count
    have hset : {k | host.stateManager.has k = true} = (live.toFinset : Set String) := by
      ext k
      rw [Set.mem_ofPred_eq, has_eq, h.view, ← hlive]
      simp
    rw [hset, Set.ncard_coe_finset, List.toFinset_card_of_nodup hnodup, hcount]
  bound := h.bound
  view := funext h.view
  answers call := by
    have hanswered := answered h call
    generalize call.answer ctx host = result at hanswered ⊢
    cases hanswered with
    | done tracks => rfl
    | threw e unchanged => exact unchanged
  distinct := nodup_changes _ h.dirty
  committed := by
    rw [commit_changes _ h.dirty _ h.snapshot]
    exact funext h.view

/-- A new state manager on an initial state, with the map of that state. -/
def startState (gasTracker : GasTracker) (rejectNulKeys : Bool) (state : PlainObject) : StateHost × Reference :=
  (⟨gasTracker, StateManager.new state.entries rejectNulKeys⟩, Reference.ofEntries state.entries)

theorem tracks_run (ctx : StateContext) (gasTracker : GasTracker) (rejectNulKeys : Bool) (state : PlainObject)
    (calls : List StateCall) :
    Tracks ctx.limits (Reference.ofEntries state.entries) (StateManager.new state.entries false).keyCount
      (run (answerBoth ctx) (startState gasTracker rejectNulKeys state) calls).1.stateManager
      (run (answerBoth ctx) (startState gasTracker rejectNulKeys state) calls).2 := by
  refine run_invariant (I := fun s : StateHost × Reference => Tracks ctx.limits (Reference.ofEntries state.entries)
    (StateManager.new state.entries false).keyCount s.1.stateManager s.2) ?_ ?_ calls
  · rintro ⟨host, M⟩ call h
    exact tracks_answerBoth h call
  · exact Tracks.new state.nodup ctx.limits rejectNulKeys

/-- Between any two calls of any run the manager is faithful to the map that applied exactly
the calls that did not throw. -/
theorem state_faithful (ctx : StateContext) (gasTracker : GasTracker) (rejectNulKeys : Bool) (state : PlainObject) :
    ∀ calls, Faithful ctx state.entries (run (answerBoth ctx) (startState gasTracker rejectNulKeys state) calls).1
      (run (answerBoth ctx) (startState gasTracker rejectNulKeys state) calls).2 := by
  intro calls
  exact faithful_of_tracks (tracks_run ctx gasTracker rejectNulKeys state calls)

end XChainVM.Runtime
