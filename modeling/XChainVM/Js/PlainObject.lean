import XChainVM.Js.Value

/-! # Plain objects of the host

An object that starts as `{}` and is written to with `object[key] = value`. Its own
properties are in the order of their first write. `__proto__` is an accessor of
`Object.prototype`: a write of an object to it changes where the object inherits from, and
a write of anything else is lost, unless a property of its own name is met first.
-/

namespace XChainVM.Js

/-- Where a plain object inherits from; a value inherits from `Object.prototype` in turn. -/
inductive Prototype where
  | objectPrototype
  | null
  | value (v : Value)

structure PlainObject where
  own : List (String × Value)
  prototype : Prototype
  nodup : (own.map Prod.fst).Nodup

/-- `Map.prototype.set`: a present key keeps its place. -/
def setKey {α : Type*} (key : String) (v : α) : List (String × α) → List (String × α)
  | [] => [(key, v)]
  | (name, w) :: rest => if name = key then (name, v) :: rest else (name, w) :: setKey key v rest

section Keys

variable {α : Type*} {key : String} {v : α}

theorem lookup_setKey (name : String) (fields : List (String × α)) :
    (setKey key v fields).lookup name = if name = key then some v else fields.lookup name := by
  induction fields with
  | nil =>
    by_cases h : name = key
    · simp [setKey, h]
    · simp [setKey, h]
  | cons field rest ih =>
    obtain ⟨first, w⟩ := field
    rw [setKey]
    by_cases hfirst : first = key
    · subst hfirst
      by_cases h : name = first
      · simp [h]
      · simp [h, List.lookup_cons, beq_eq_false_iff_ne.mpr h]
    · rw [if_neg hfirst, List.lookup_cons, List.lookup_cons, ih]
      by_cases h : name = first
      · subst h
        simp [hfirst]
      · simp [beq_eq_false_iff_ne.mpr h]

theorem mem_keys_setKey {name : String} {fields : List (String × α)} :
    name ∈ (setKey key v fields).map Prod.fst ↔ name = key ∨ name ∈ fields.map Prod.fst := by
  induction fields with
  | nil => simp [setKey]
  | cons field rest ih =>
    obtain ⟨first, w⟩ := field
    rw [setKey]
    split
    case isTrue h =>
      subst h
      simp
    case isFalse h =>
      rw [List.map_cons, List.mem_cons, ih, List.map_cons, List.mem_cons]
      exact or_left_comm

theorem nodup_setKey {fields : List (String × α)} (h : (fields.map Prod.fst).Nodup) :
    ((setKey key v fields).map Prod.fst).Nodup := by
  induction fields with
  | nil => simp [setKey]
  | cons field rest ih =>
    obtain ⟨first, w⟩ := field
    rw [List.map_cons, List.nodup_cons] at h
    rw [setKey]
    split
    case isTrue hkey =>
      rw [List.map_cons, List.nodup_cons]
      exact h
    case isFalse hkey =>
      rw [List.map_cons, List.nodup_cons, mem_keys_setKey]
      exact ⟨not_or.mpr ⟨hkey, h.1⟩, ih h.2⟩

theorem mem_of_lookup {name : String} {fields : List (String × α)} (h : fields.lookup name = some v) :
    (name, v) ∈ fields := by
  induction fields with
  | nil => simp at h
  | cons field rest ih =>
    obtain ⟨first, w⟩ := field
    rw [List.lookup_cons] at h
    split at h
    case h_1 hname =>
      rw [beq_iff_eq] at hname
      rw [Option.some.injEq] at h
      subst hname h
      exact List.mem_cons_self
    case h_2 => exact List.mem_cons_of_mem _ (ih h)

theorem lookup_of_mem {name : String} {fields : List (String × α)} (hnodup : (fields.map Prod.fst).Nodup)
    (h : (name, v) ∈ fields) : fields.lookup name = some v := by
  induction fields with
  | nil => contradiction
  | cons field rest ih =>
    obtain ⟨first, w⟩ := field
    rw [List.map_cons, List.nodup_cons] at hnodup
    rcases List.mem_cons.mp h with heq | hrest
    · cases heq
      simp
    · have hname : name ∈ rest.map Prod.fst := List.mem_map.mpr ⟨(name, v), hrest, rfl⟩
      have hne : name ≠ first := by
        rintro rfl
        exact hnodup.1 hname
      rw [List.lookup_cons, beq_eq_false_iff_ne.mpr hne]
      exact ih hnodup.2 hrest

theorem lookup_eq_none_iff' {name : String} {fields : List (String × α)} :
    fields.lookup name = none ↔ name ∉ fields.map Prod.fst := by
  rw [List.lookup_eq_none_iff]
  simp only [List.mem_map, Prod.exists, exists_and_right, exists_eq_right, not_exists, bne_iff_ne, Prod.forall]
  constructor
  · intro h w hw
    exact h name w hw rfl
  · intro h first w hw heq
    subst heq
    exact h w hw

end Keys

namespace PlainObject

def empty : PlainObject := ⟨[], .objectPrototype, List.nodup_nil⟩

/-- A write of `__proto__` makes or overwrites a property instead of reaching the accessor. -/
def ownsProto (o : PlainObject) : Bool :=
  (o.own.lookup "__proto__").isSome || match o.prototype with
    | .objectPrototype => false
    | .null => true
    | .value v => v.hasOwnProperty "__proto__"

/-- `object[key] = value`. -/
def set (o : PlainObject) (key : String) (v : Value) : PlainObject :=
  if key = "__proto__" ∧ o.ownsProto = false then
    match v with
    | .null => { o with prototype := .null }
    | .array elements => { o with prototype := .value (.array elements) }
    | .object fields => { o with prototype := .value (.object fields) }
    | _ => o
  else { o with own := setKey key v o.own, nodup := nodup_setKey o.nodup }

/-- `delete object[key]`. -/
def delete (o : PlainObject) (key : String) : PlainObject where
  own := o.own.filter fun field => field.1 ≠ key
  prototype := o.prototype
  nodup := (List.filter_sublist.map Prod.fst).nodup o.nodup

/-- `Object.entries(object)`. -/
def entries (o : PlainObject) : List (String × Value) := o.own

end PlainObject

end XChainVM.Js
