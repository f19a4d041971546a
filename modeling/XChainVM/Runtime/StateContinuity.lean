import XChainVM.Runtime.StateRuns

/-! # State from one simulated execution to the next

The simulator keeps a contract's state in a plain object. An execution starts from its
entries, and a successful one is committed to it key by key. A write of `__proto__` reaches
an accessor there and is lost.
-/

namespace XChainVM.Runtime

open Gas Js Machine StateManager

/-- One execution against the stored state: what the contract asks, and whether the virtual
machine reports success. -/
structure Execution where
  ctx : StateContext
  gasTracker : GasTracker
  rejectNulKeys : Bool
  calls : List StateCall
  success : Bool

namespace Execution

variable (x : Execution) (state : PlainObject)

def finish : StateManager :=
  (run (answerBoth x.ctx) (startState x.gasTracker x.rejectNulKeys state) x.calls).1.stateManager

def result : List (String × Value) × List String := if x.success then (x.finish state).getChanges else ([], [])

end Execution

/-- The part of `execute` that commits a result. -/
def commit (state : PlainObject) (success : Bool) (result : List (String × Value) × List String) : PlainObject :=
  if success then
    result.2.foldl PlainObject.delete
      (result.1.foldl (fun state change => state.set change.1 change.2) state)
  else state

def simulate (state : PlainObject) (x : Execution) : PlainObject := commit state x.success (x.result state)

def startView (state : PlainObject) (rejectNulKeys : Bool) : StateManager :=
  StateManager.new state.entries rejectNulKeys

/-- Every key reads after the execution as it should: as at the end of a successful
execution, and as before a failed one. -/
def Continues (state : PlainObject) (x : Execution) : Prop :=
  ∀ (rejectNulKeys : Bool) (key : String),
    (startView (simulate state x) rejectNulKeys).view key =
        (if x.success then x.finish state else startView state rejectNulKeys).view key ∧
      (startView (simulate state x) rejectNulKeys).has key =
        (if x.success then x.finish state else startView state rejectNulKeys).has key

/-- A successful execution does not end with a write of `__proto__`, unless the stored object
owns a property of that name or inherits one. -/
def SparesProto (state : PlainObject) (x : Execution) : Prop :=
  x.success = true → (∃ v, ("__proto__", v) ∈ (x.finish state).getChanges.1) → state.ownsProto = true

variable {state : PlainObject} {x : Execution}

theorem lookup_set (o : PlainObject) (key : String) (v : Value) (k : String) :
    (o.set key v).own.lookup k =
      if k = key ∧ ¬(key = "__proto__" ∧ o.ownsProto = false) then some v else o.own.lookup k := by
  unfold PlainObject.set
  split
  case isTrue h =>
    rw [if_neg fun hk => hk.2 h]
    split <;> rfl
  case isFalse h => simp [lookup_setKey, h]

theorem ownsProto_set (o : PlainObject) {key : String} (hkey : key ≠ "__proto__") (v : Value) :
    (o.set key v).ownsProto = o.ownsProto := by
  unfold PlainObject.set
  rw [if_neg fun h => hkey h.1]
  simp only [PlainObject.ownsProto, lookup_setKey, if_neg hkey.symm]

theorem lookup_foldl_set (changes : List (String × Value)) (hnodup : (changes.map Prod.fst).Nodup)
    (o : PlainObject) (k : String) :
    (changes.foldl (fun o change => o.set change.1 change.2) o).own.lookup k =
      if k = "__proto__" ∧ o.ownsProto = false then o.own.lookup k
      else (changes.lookup k).or (o.own.lookup k) := by
  induction changes generalizing o with
  | nil => simp
  | cons change rest ih =>
    obtain ⟨key, v⟩ := change
    rw [List.map_cons, List.nodup_cons] at hnodup
    rw [List.foldl_cons, ih hnodup.2, lookup_set, List.lookup_cons]
    by_cases hkey : key = "__proto__"
    · -- no later change is one of `__proto__`
      subst hkey
      have hrest := lookup_eq_none_iff'.mpr hnodup.1
      by_cases hk : k = "__proto__"
      · subst hk
        rw [hrest]
        by_cases howns : o.ownsProto = false <;> simp [howns]
      · simp [hk, beq_eq_false_iff_ne.mpr hk]
    · rw [ownsProto_set o hkey]
      by_cases hk : k = key
      · subst hk
        rw [lookup_eq_none_iff'.mpr hnodup.1]
        simp [hkey]
      · simp [hk, beq_eq_false_iff_ne.mpr hk]

theorem lookup_delete (o : PlainObject) (key k : String) :
    (o.delete key).own.lookup k = if k = key then none else o.own.lookup k := by
  change (o.own.filter fun field => field.1 ≠ key).lookup k = _
  induction o.own with
  | nil => simp
  | cons field rest ih =>
    obtain ⟨name, w⟩ := field
    by_cases hname : name = key
    · subst hname
      rw [List.filter_cons_of_neg (by simp), ih, List.lookup_cons]
      by_cases hk : k = name
      · simp [hk]
      · simp [hk, beq_eq_false_iff_ne.mpr hk]
    · rw [List.filter_cons_of_pos (by simpa using hname), List.lookup_cons, ih, List.lookup_cons]
      by_cases hk : k = name
      · subst hk
        simp [hname]
      · simp [beq_eq_false_iff_ne.mpr hk]

theorem lookup_foldl_delete (deletes : List String) (o : PlainObject) (k : String) :
    (deletes.foldl PlainObject.delete o).own.lookup k = if k ∈ deletes then none else o.own.lookup k := by
  induction deletes generalizing o with
  | nil => simp
  | cons key rest ih =>
    rw [List.foldl_cons, ih, lookup_delete]
    by_cases hrest : k ∈ rest
    · simp [hrest]
    · by_cases hkey : k = key <;> simp [hrest, hkey]

theorem view_startView (state : PlainObject) (rejectNulKeys : Bool) (k : String) :
    (startView state rejectNulKeys).view k = (state.own.lookup k).bind Reference.liveValue :=
  StateManager.lookup_filter state.nodup k

theorem finish_tracks (x : Execution) (state : PlainObject) :
    ∃ M, Tracks x.ctx.limits (Reference.ofEntries state.entries) (StateManager.new state.entries false).keyCount
      (x.finish state) M :=
  ⟨_, tracks_run x.ctx x.gasTracker x.rejectNulKeys state x.calls⟩

theorem finish_keys_nodup (x : Execution) (state : PlainObject) :
    ((x.finish state).getChanges.1.map Prod.fst).Nodup := by
  obtain ⟨M, h⟩ := finish_tracks x state
  exact (List.nodup_append.mp (nodup_changes _ h.dirty)).1

/-- A change is a value that a new execution takes over. -/
theorem finish_values (x : Execution) (state : PlainObject) {k : String} {v : Value}
    (h : (k, v) ∈ (x.finish state).getChanges.1) :
    (x.finish state).view k = some v ∧ Reference.liveValue v = some v := by
  obtain ⟨M, hM⟩ := finish_tracks x state
  obtain ⟨⟨name, entry⟩, hmem, hentry⟩ := List.mem_filterMap.mp h
  obtain ⟨w, rfl, heq⟩ := Option.map_eq_some_iff.mp hentry
  cases heq
  have hview : (x.finish state).view name = some v := by
    rw [view, lookup_of_mem hM.dirty hmem]
  exact ⟨hview, hM.values name v ((hM.view name).symm.trans hview)⟩

/-- At the end of an execution a key stands for what was written last, or for what it stood
for at the start. -/
theorem finish_view (x : Execution) (state : PlainObject) (k : String) :
    (x.finish state).view k = if k ∈ (x.finish state).getChanges.2 then none
      else ((x.finish state).getChanges.1.lookup k).or ((state.own.lookup k).bind Reference.liveValue) := by
  obtain ⟨M, h⟩ := finish_tracks x state
  rw [← commit_changes _ h.dirty _ h.snapshot, Reference.commit, foldl_delete, foldl_write _ (finish_keys_nodup x state)]
  rfl

theorem simulate_failed (h : x.success = false) : simulate state x = state := by
  rw [simulate, commit, h]
  rfl

theorem lookup_simulate (h : x.success = true) (k : String) :
    (simulate state x).own.lookup k = if k ∈ (x.finish state).getChanges.2 then none
      else if k = "__proto__" ∧ state.ownsProto = false then state.own.lookup k
      else ((x.finish state).getChanges.1.lookup k).or (state.own.lookup k) := by
  rw [simulate, commit, if_pos h, Execution.result, if_pos h, lookup_foldl_delete,
    lookup_foldl_set _ (finish_keys_nodup x state)]

theorem continues_of_sparesProto (h : SparesProto state x) : Continues state x := by
  intro rejectNulKeys k
  rw [has_eq, has_eq]
  suffices hview : (startView (simulate state x) rejectNulKeys).view k =
      (if x.success then x.finish state else startView state rejectNulKeys).view k from ⟨hview, congrArg _ hview⟩
  cases hsuccess : x.success with
  | false =>
    rw [simulate_failed hsuccess]
    rfl
  | true =>
    rw [if_pos rfl, view_startView, lookup_simulate hsuccess, finish_view]
    split
    case isTrue => rfl
    case isFalse =>
      cases hchange : (x.finish state).getChanges.1.lookup k with
      | none =>
        rw [Option.none_or, Option.none_or, ite_self]
      | some v =>
        have hmem := mem_of_lookup hchange
        rw [if_neg]
        · exact (finish_values x state hmem).2
        · rintro ⟨rfl, howns⟩
          rw [h hsuccess ⟨v, hmem⟩] at howns
          cases howns

theorem sparesProto_of_continues (h : Continues state x) : SparesProto state x := by
  rintro hsuccess ⟨v, hmem⟩
  by_contra howns
  rw [Bool.not_eq_true] at howns
  obtain ⟨hview, -⟩ := h false "__proto__"
  have hown : state.own.lookup "__proto__" = none := by
    rw [PlainObject.ownsProto, Bool.or_eq_false_iff] at howns
    exact Option.not_isSome_iff_eq_none.mp (Bool.eq_false_iff.mp howns.1)
  rw [hsuccess, if_pos rfl, (finish_values x state hmem).1, view_startView, lookup_simulate hsuccess, hown] at hview
  simp [howns] at hview

/-- Each execution of a run starts from the state the one before it left, if and only if
each spares `__proto__`. -/
theorem state_continuity (state : PlainObject) (executions : List Execution) :
    Meets simulate Continues state executions ↔ Meets simulate SparesProto state executions := by
  induction executions generalizing state with
  | nil => exact Iff.rfl
  | cons x rest ih => exact and_congr ⟨sparesProto_of_continues, continues_of_sparesProto⟩ (ih _)

/-- `xchain.state.set('__proto__', true)`, in an execution that succeeds. -/
def protoWrite : Execution where
  ctx := ⟨⟨fun _ => "0", fun _ => some .nan, fun _ => some "true"⟩, .exact, ⟨1024, 1024, 8⟩, 1, 1, 1⟩
  gasTracker := .new 100
  rejectNulKeys := false
  calls := [.set (.string "__proto__") (.bool true)]
  success := true

theorem proto_write_lost : ¬Meets simulate Continues .empty [protoWrite] := by
  rintro ⟨h, -⟩
  have hend : (protoWrite.finish .empty).has "__proto__" = true := by decide +kernel
  have hnext : (startView (simulate .empty protoWrite) false).has "__proto__" = false := by decide +kernel
  have hhas := (h false "__proto__").2
  rw [hnext] at hhas
  exact absurd (hhas.trans hend) (by decide)

end XChainVM.Runtime
