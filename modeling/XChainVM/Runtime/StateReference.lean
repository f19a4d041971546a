import Mathlib.Data.Set.Card
import XChainVM.Machine.Fallible
import XChainVM.Runtime.StateMethods

/-! # The state manager against a reference map

A map that applies exactly the calls that did not throw answers every read, and its size is
the key counter.
-/

namespace XChainVM.Runtime

open Gas Js Machine

abbrev Reference := String → Option Value

namespace Reference

def liveValue : Value → Option Value
  | .null | .undefined => none
  | v => some v

theorem liveValue_of_liveValue {v w : Value} (h : liveValue w = some v) : liveValue v = some v := by
  cases w with
  | null => cases h
  | undefined => cases h
  | _ =>
    cases h
    rfl

def ofEntries (entries : List (String × Value)) : Reference := fun key => (entries.lookup key).bind liveValue

def apply (lang : Language) (M : Reference) : StateCall → Reference
  | .set key value =>
    match StateManager.normKey lang key with
    | some key => Function.update M key (some value)
    | none => M
  | .delete key =>
    match StateManager.normKey lang key with
    | some key => Function.update M key none
    | none => M
  | _ => M

theorem apply_set {lang : Language} {key : Value} {k : String} (h : StateManager.normKey lang key = some k)
    (M : Reference) (value : Value) : M.apply lang (.set key value) = Function.update M k (some value) := by
  simp only [apply, h]

theorem apply_delete {lang : Language} {key : Value} {k : String} (h : StateManager.normKey lang key = some k)
    (M : Reference) : M.apply lang (.delete key) = Function.update M k none := by
  simp only [apply, h]

def answer (lang : Language) (M : Reference) : StateCall → StateAnswer
  | .get key => .value (((StateManager.normKey lang key).bind M).getD .null)
  | .has key => .flag ((StateManager.normKey lang key).bind M).isSome
  | .set _ _ => .done
  | .delete key => .flag ((StateManager.normKey lang key).bind M).isSome

def commit (M : Reference) (changes : List (String × Value) × List String) : Reference :=
  changes.2.foldl (fun M key => Function.update M key none)
    (changes.1.foldl (fun M change => Function.update M change.1 (some change.2)) M)

end Reference

def answerBoth (ctx : StateContext) (s : StateHost × Reference) (call : StateCall) : StateHost × Reference :=
  match call.answer ctx s.1 with
  | .ok _ host => (host, s.2.apply ctx.lang call)
  | .error _ host => (host, s.2)

namespace StateManager

def view (s : StateManager) (key : String) : Option Value :=
  match s.dirty.lookup key with
  | some entry => entry
  | none => s.state.lookup key

variable {s : StateManager} {lang : Language} {limits : StateLimits} {key value : Value}

theorem has_eq (s : StateManager) (key : String) : s.has key = (s.view key).isSome := by
  unfold has view
  cases s.dirty.lookup key <;> rfl

namespace Method

theorem throw_apply (e : StateError) (s : StateManager) : (throw e : Method α) s = .error e s := rfl

theorem get_state_apply (s : StateManager) : (MonadState.get : Method StateManager) s = .ok s s := rfl

theorem modify_apply (f : StateManager → StateManager) (s : StateManager) :
    (modify f : Method PUnit) s = .ok ⟨⟩ (f s) := rfl

theorem get_apply (s : StateManager) : get lang key s = match normKey lang key with
    | some k => .ok ((s.view k).getD .null) s
    | none => .error .keyType s := by
  rw [get, bind_apply, keyOf]
  cases normKey lang key with
  | none => rfl
  | some k =>
    simp only [pure_apply, bind_apply, get_state_apply, view]
    cases s.dirty.lookup k <;> rfl

theorem has_apply (s : StateManager) : has lang key s = match normKey lang key with
    | some k => .ok (s.has k) s
    | none => .error .keyType s := by
  rw [has, bind_apply, keyOf]
  cases normKey lang key <;> rfl

theorem set_apply (s : StateManager) : set lang limits key value s = match s.set lang limits key value with
    | .ok s' => .ok () s'
    | .error e => .error e s := by
  rw [set, StateManager.set, bind_apply, keyOf]
  cases normKey lang key with
  | none => rfl
  | some k =>
    simp only [pure_apply, bind_apply, get_state_apply]
    cases s.checkKey limits k with
    | some e => rfl
    | none =>
      simp only [refuse, pure_apply]
      cases checkValue lang limits value with
      | some e => rfl
      | none =>
        cases hlive : s.has k with
        | true => simp [pure_apply, modify_apply]
        | false =>
          by_cases hcount : limits.maxStateKeys ≤ s.keyCount
          · simp [hcount, throw_apply, pure_apply]
          · simp [hcount, pure_apply, modify_apply]

theorem delete_apply (s : StateManager) :
    delete lang limits key s = match s.delete lang limits key, normKey lang key with
      | .ok s', some k => .ok (s.has k) s'
      | .ok s', none => .ok false s'
      | .error e, _ => .error e s := by
  rw [delete, StateManager.delete, bind_apply, keyOf]
  cases normKey lang key with
  | none => rfl
  | some k =>
    simp only [pure_apply, bind_apply, get_state_apply]
    cases s.checkKey limits k with
    | some e => rfl
    | none =>
      cases hlive : s.has k with
      | false => simp [refuse, pure_apply, hlive]
      | true => simp [refuse, pure_apply, bind_apply, map_apply, modify_apply, hlive]

end Method

/-- The manager stands for the reference map, which started as `initial`. -/
structure Tracks (limits : StateLimits) (initial : Reference) (initialCount : ℤ) (s : StateManager) (M : Reference) :
    Prop where
  view : ∀ k, s.view k = M k
  snapshot : ∀ k, s.state.lookup k = initial k
  values : ∀ k v, M k = some v → Reference.liveValue v = some v
  count : ∃ live : List String, live.Nodup ∧ (∀ k, k ∈ live ↔ (M k).isSome) ∧ s.keyCount = live.length
  bound : s.keyCount ≤ max initialCount limits.maxStateKeys
  dirty : (s.dirty.map Prod.fst).Nodup

variable {initial M : Reference} {initialCount : ℤ}

theorem lookup_filter {entries : List (String × Value)} (hnodup : (entries.map Prod.fst).Nodup) (k : String) :
    (new entries false).state.lookup k = Reference.ofEntries entries k := by
  rw [Reference.ofEntries]
  cases hlookup : (new entries false).state.lookup k with
  | some v =>
    obtain ⟨hmem, hlive⟩ := List.mem_filter.mp (mem_of_lookup hlookup)
    rw [lookup_of_mem hnodup hmem]
    cases v <;> simp_all [Reference.liveValue]
  | none =>
    cases hentry : entries.lookup k with
    | none => rfl
    | some v =>
      have hnotMem : (k, v) ∉ (new entries false).state := by
        intro hmem
        exact lookup_eq_none_iff'.mp hlookup (List.mem_map.mpr ⟨_, hmem, rfl⟩)
      have hmem := mem_of_lookup hentry
      cases v <;> simp_all [new, Reference.liveValue]

theorem Tracks.new {entries : List (String × Value)} (hnodup : (entries.map Prod.fst).Nodup) (limits : StateLimits)
    (rejectNulKeys : Bool) : Tracks limits (Reference.ofEntries entries) (StateManager.new entries rejectNulKeys).keyCount
      (StateManager.new entries rejectNulKeys) (Reference.ofEntries entries) where
  view k := lookup_filter hnodup k
  snapshot k := lookup_filter hnodup k
  values k v h := by
    obtain ⟨w, -, hw⟩ := Option.bind_eq_some_iff.mp h
    exact Reference.liveValue_of_liveValue hw
  count := by
    refine ⟨(StateManager.new entries rejectNulKeys).state.map Prod.fst, ?_, ?_, ?_⟩
    · exact (List.filter_sublist.map Prod.fst).nodup hnodup
    · intro k
      rw [← lookup_filter hnodup k, ← Option.ne_none_iff_isSome, ne_eq, lookup_eq_none_iff', not_not]
      rfl
    · simp [StateManager.new]
  bound := le_max_left _ _
  dirty := List.nodup_nil

theorem view_set (s : StateManager) (k name : String) (entry : Option Value) (keyCount : ℤ) :
    view { s with dirty := setKey k entry s.dirty, keyCount } name = Function.update s.view k entry name := by
  unfold view
  simp only [lookup_setKey, Function.update_apply]
  by_cases h : name = k
  · simp [h]
  · simp [h]

/-- A new entry for one key, with the count it makes. -/
theorem Tracks.update (h : Tracks limits initial initialCount s M) (k : String) (entry : Option Value)
    (hentry : ∀ v, entry = some v → Reference.liveValue v = some v) (live : List String) (hnodup : live.Nodup) (hlive : ∀ name, name ∈ live ↔ (Function.update M k entry name).isSome)
    (hbound : (live.length : ℤ) ≤ max initialCount limits.maxStateKeys) :
    Tracks limits initial initialCount { s with dirty := setKey k entry s.dirty, keyCount := live.length }
      (Function.update M k entry) where
  view name := by
    rw [view_set, Function.update_apply, Function.update_apply, h.view]
  snapshot := h.snapshot
  values name v hv := by
    rw [Function.update_apply] at hv
    split at hv
    · exact hentry v hv
    · exact h.values name v hv
  count := ⟨live, hnodup, hlive, rfl⟩
  bound := hbound
  dirty := nodup_setKey h.dirty

theorem Tracks.overwrite (h : Tracks limits initial initialCount s M) {k : String} (hk : (M k).isSome) {v : Value}
    (hv : Reference.liveValue v = some v) :
    Tracks limits initial initialCount { s with dirty := setKey k (some v) s.dirty }
      (Function.update M k (some v)) := by
  obtain ⟨live, hnodup, hlive, hcount⟩ := h.count
  have hbound := h.bound
  rw [hcount] at hbound
  have hupdate := h.update k (some v) (by simpa using hv) live hnodup (fun name => ?_) hbound
  · rwa [← hcount] at hupdate
  · rw [hlive, Function.update_apply]
    by_cases hname : name = k
    · subst hname
      simp [hk]
    · simp [hname]

theorem Tracks.create (h : Tracks limits initial initialCount s M) {k : String} (hk : M k = none)
    (hroom : s.keyCount < limits.maxStateKeys) {v : Value} (hv : Reference.liveValue v = some v) :
    Tracks limits initial initialCount { s with dirty := setKey k (some v) s.dirty, keyCount := s.keyCount + 1 }
      (Function.update M k (some v)) := by
  obtain ⟨live, hnodup, hlive, hcount⟩ := h.count
  have hnew : k ∉ live := by
    rw [hlive, hk]
    simp
  have hlength : ((k :: live).length : ℤ) = s.keyCount + 1 := by
    rw [hcount, List.length_cons]
    push_cast
    rfl
  have hupdate := h.update k (some v) (by simpa using hv) (k :: live) (List.nodup_cons.mpr ⟨hnew, hnodup⟩) (fun name => ?_) ?_
  · rwa [hlength] at hupdate
  · rw [List.mem_cons, hlive, Function.update_apply]
    by_cases hname : name = k
    · simp [hname]
    · simp [hname]
  · rw [hlength]
    exact le_max_of_le_right (by omega)

theorem Tracks.erase (h : Tracks limits initial initialCount s M) {k : String} (hk : (M k).isSome) :
    Tracks limits initial initialCount { s with dirty := setKey k none s.dirty, keyCount := s.keyCount - 1 }
      (Function.update M k none) := by
  obtain ⟨live, hnodup, hlive, hcount⟩ := h.count
  have hmem : k ∈ live := (hlive k).mpr hk
  have hlength : ((live.erase k).length : ℤ) = s.keyCount - 1 := by
    rw [hcount, List.length_erase_of_mem hmem]
    have := List.length_pos_of_mem hmem
    omega
  have hupdate := h.update k none (by simp) (live.erase k) (hnodup.erase k) (fun name => ?_) ?_
  · rwa [hlength] at hupdate
  · rw [hnodup.mem_erase_iff, hlive, Function.update_apply]
    by_cases hname : name = k
    · simp [hname]
    · simp [hname]
  · rw [hlength]
    have := h.bound
    omega

theorem liveValue_of_checkValue (h : checkValue lang limits value = none) :
    Reference.liveValue value = some value := by
  cases value with
  | null => cases h
  | undefined => cases h
  | _ => rfl

variable {s' : StateManager}

theorem Tracks.set (h : Tracks limits initial initialCount s M) (hset : s.set lang limits key value = .ok s') :
    Tracks limits initial initialCount s' (M.apply lang (.set key value)) := by
  unfold StateManager.set at hset
  cases hkey : normKey lang key with
  | none =>
    rw [hkey] at hset
    cases hset
  | some k =>
    rw [Reference.apply_set hkey]
    simp only [hkey] at hset
    have hhas := s.has_eq k
    rw [h.view] at hhas
    split at hset
    case h_1 => cases hset
    case h_2 =>
      split at hset
      case h_1 => cases hset
      case h_2 hvalue =>
        have hv := liveValue_of_checkValue hvalue
        split at hset
        case isTrue hlive =>
          cases hset
          exact h.overwrite (hhas.symm.trans hlive) hv
        case isFalse hdead =>
          split at hset
          case isTrue => cases hset
          case isFalse hroom =>
            cases hset
            refine h.create ?_ (by omega) hv
            rw [← Option.not_isSome_iff_eq_none, ← hhas]
            exact hdead

theorem Tracks.delete (h : Tracks limits initial initialCount s M) (hdelete : s.delete lang limits key = .ok s') :
    Tracks limits initial initialCount s' (M.apply lang (.delete key)) := by
  unfold StateManager.delete at hdelete
  cases hkey : normKey lang key with
  | none =>
    rw [hkey] at hdelete
    cases hdelete
  | some k =>
    rw [Reference.apply_delete hkey]
    simp only [hkey] at hdelete
    have hhas := s.has_eq k
    rw [h.view] at hhas
    split at hdelete
    case h_1 => cases hdelete
    case h_2 =>
      split at hdelete
      case isTrue hlive =>
        cases hdelete
        exact h.erase (hhas.symm.trans hlive)
      case isFalse hdead =>
        cases hdelete
        have hnone : M k = none := by
          rw [← Option.not_isSome_iff_eq_none, ← hhas]
          exact hdead
        rwa [← hnone, Function.update_eq_self]

theorem foldl_delete (deletes : List String) (M : Reference) (k : String) :
    deletes.foldl (fun (M : Reference) key => Function.update M key none) M k = if k ∈ deletes then none else M k := by
  induction deletes generalizing M with
  | nil => simp
  | cons key rest ih =>
    rw [List.foldl_cons, ih]
    by_cases hrest : k ∈ rest
    · simp [hrest]
    · by_cases hkey : k = key
      · simp [hkey]
      · simp [hrest, hkey]

theorem foldl_write (changes : List (String × Value)) (hnodup : (changes.map Prod.fst).Nodup) (M : Reference)
    (k : String) :
    changes.foldl (fun (M : Reference) change => Function.update M change.1 (some change.2)) M k =
      (changes.lookup k).or (M k) := by
  induction changes generalizing M with
  | nil => rfl
  | cons change rest ih =>
    obtain ⟨key, v⟩ := change
    rw [List.map_cons, List.nodup_cons] at hnodup
    rw [List.foldl_cons, ih hnodup.2, List.lookup_cons]
    by_cases hkey : k = key
    · subst hkey
      rw [lookup_eq_none_iff'.mpr hnodup.1]
      simp
    · simp [hkey, beq_eq_false_iff_ne.mpr hkey]

theorem keys_changes (dirty : List (String × Option Value)) :
    ((dirty.filterMap fun field => field.2.map (field.1, ·)).map Prod.fst) =
      (dirty.filter fun field => field.2.isSome).map Prod.fst := by
  induction dirty with
  | nil => rfl
  | cons field rest ih =>
    obtain ⟨key, entry⟩ := field
    cases entry with
    | none => simpa using ih
    | some v => simpa using ih

theorem keys_deletes (dirty : List (String × Option Value)) :
    (dirty.filterMap fun field => if field.2.isNone then some field.1 else none) =
      (dirty.filter fun field => field.2.isNone).map Prod.fst := by
  induction dirty with
  | nil => rfl
  | cons field rest ih =>
    obtain ⟨key, entry⟩ := field
    cases entry with
    | none => simpa using ih
    | some v => simpa using ih

theorem nodup_changes (s : StateManager) (hnodup : (s.dirty.map Prod.fst).Nodup) :
    (s.getChanges.1.map Prod.fst ++ s.getChanges.2).Nodup := by
  rw [getChanges, keys_changes, keys_deletes]
  refine List.Nodup.append ?_ ?_ ?_
  · exact (List.filter_sublist.map Prod.fst).nodup hnodup
  · exact (List.filter_sublist.map Prod.fst).nodup hnodup
  · intro key hwrite hdelete
    obtain ⟨⟨k, v⟩, hv, rfl⟩ := List.mem_map.mp hwrite
    obtain ⟨⟨k', w⟩, hw, heq⟩ := List.mem_map.mp hdelete
    obtain ⟨hv, hsome⟩ := List.mem_filter.mp hv
    obtain ⟨hw, hnone⟩ := List.mem_filter.mp hw
    cases heq
    have hsame := (lookup_of_mem hnodup hv).symm.trans (lookup_of_mem hnodup hw)
    cases hsame
    simp_all

/-- Committed, the changes of a run make the map that the manager stands for. -/
theorem commit_changes (s : StateManager) (hnodup : (s.dirty.map Prod.fst).Nodup) (M : Reference)
    (hstate : ∀ k, s.state.lookup k = M k) : M.commit s.getChanges = s.view := by
  have hkeys := (List.nodup_append.mp (nodup_changes s hnodup)).1
  funext k
  rw [Reference.commit, foldl_delete, foldl_write _ hkeys, view, ← hstate]
  rw [getChanges, keys_deletes]
  cases hlookup : s.dirty.lookup k with
  | none =>
    have hdirty := lookup_eq_none_iff'.mp hlookup
    have hwrite : k ∉ s.getChanges.1.map Prod.fst := by
      rw [getChanges, keys_changes]
      exact fun hk => hdirty ((List.filter_sublist.map Prod.fst).subset hk)
    have hdelete : k ∉ (s.dirty.filter fun field => field.2.isNone).map Prod.fst :=
      fun hk => hdirty ((List.filter_sublist.map Prod.fst).subset hk)
    rw [if_neg hdelete]
    rw [getChanges] at hwrite
    rw [lookup_eq_none_iff'.mpr hwrite]
    rfl
  | some entry =>
    have hmem := mem_of_lookup hlookup
    cases entry with
    | none =>
      rw [if_pos]
      exact List.mem_map.mpr ⟨(k, none), List.mem_filter.mpr ⟨hmem, rfl⟩, rfl⟩
    | some v =>
      rw [if_neg]
      · have hwrite : (k, v) ∈ s.getChanges.1 := by
          rw [getChanges]
          exact List.mem_filterMap.mpr ⟨(k, some v), hmem, rfl⟩
        rw [getChanges] at hwrite hkeys
        rw [lookup_of_mem hkeys hwrite]
        rfl
      · intro hk
        obtain ⟨⟨k', w⟩, hw, rfl⟩ := List.mem_map.mp hk
        obtain ⟨hw, hnone⟩ := List.mem_filter.mp hw
        have hsame := (lookup_of_mem hnodup hw).symm.trans hlookup
        cases hsame
        contradiction

end StateManager

end XChainVM.Runtime
