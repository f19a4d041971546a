import XChainVM.Harness.Values

/-! # Ordinary objects and their properties

An object has a table of properties in order of creation, the objects above it on its prototype chain,
and may refuse further properties. Accessors hold functions of any kind.
-/

namespace XChainVM.SparseCallback

open Harness

inductive Desc (F : Type) where
  | data (value : Val) (writable enumerable configurable : Bool)
  | accessor (get set : Option F) (enumerable configurable : Bool)
  deriving DecidableEq

structure Object (F : Type) where
  own : List (String × Desc F)
  /-- The prototype chain, nearest first. -/
  above : List ℕ
  extensible : Bool

abbrev Objects (F : Type) := ℕ → Object F

variable {F : Type}

namespace Desc

def enumerable : Desc F → Bool
  | data _ _ e _ | accessor _ _ e _ => e

def configurable : Desc F → Bool
  | data _ _ _ c | accessor _ _ _ c => c

def isSimple : Desc F → Bool
  | data v _ _ _ => !v.isObject
  | accessor .. => false

def lacksGetter : Desc F → Bool
  | accessor none _ _ _ => true
  | _ => false

def isSettable : Desc F → Bool
  | data _ w _ _ => w
  | accessor _ set _ _ => set.isSome

/-- Whether a property may be defined again as `d`. -/
def admits [DecidableEq F] (current d : Desc F) : Bool :=
  current.configurable || !d.configurable && d.enumerable == current.enumerable &&
    match current, d with
    | data v w _ _, data v' w' _ _ => w || !w' && v == v'
    | accessor get set _ _, accessor get' set' _ _ => get == get' && set == set'
    | _, _ => false

theorem admits_of_configurable [DecidableEq F] {current d : Desc F} (h : current.configurable = true) :
    current.admits d = true := by
  simp [admits, h]

theorem admits_configurable [DecidableEq F] {current d : Desc F} (h : d.configurable = true) :
    current.admits d = current.configurable := by
  simp [admits, h]

end Desc

/-- A property keeps its place when it is defined again; a new one is the last. -/
def put (key : String) (d : Desc F) : List (String × Desc F) → List (String × Desc F)
  | [] => [(key, d)]
  | (name, e) :: rest => if key == name then (key, d) :: rest else (name, e) :: put key d rest

def remove (key : String) (own : List (String × Desc F)) : List (String × Desc F) :=
  own.eraseP fun p => key == p.1

section Tables

theorem lookup_cons_of_ne {key name : String} (h : key ≠ name) (d : Desc F) (own : List (String × Desc F)) :
    ((name, d) :: own).lookup key = own.lookup key := by
  rw [List.lookup_cons, beq_false_of_ne h]

variable (key : String) (d e : Desc F) (own : List (String × Desc F))

@[simp] theorem lookup_put : (put key d own).lookup key = some d := by
  induction own with
  | nil => simp [put]
  | cons p rest ih =>
    obtain ⟨name, f⟩ := p
    rcases eq_or_ne key name with rfl | hne
    · simp [put]
    · simp [put, hne, lookup_cons_of_ne hne, ih]

@[simp] theorem put_put : put key d (put key e own) = put key d own := by
  induction own with
  | nil => simp [put]
  | cons p rest ih =>
    obtain ⟨name, f⟩ := p
    rcases eq_or_ne key name with rfl | hne
    · simp [put]
    · simp [put, hne, ih]

variable {key d own}

theorem put_of_lookup (h : own.lookup key = some d) : put key d own = own := by
  induction own with
  | nil => cases h
  | cons p rest ih =>
    obtain ⟨name, f⟩ := p
    rcases eq_or_ne key name with rfl | hne
    · simp_all [put]
    · rw [lookup_cons_of_ne hne] at h
      simp [put, hne, ih h]

theorem remove_put (h : own.lookup key = none) : remove key (put key d own) = own := by
  induction own with
  | nil => simp [put, remove]
  | cons p rest ih =>
    obtain ⟨name, f⟩ := p
    rcases eq_or_ne key name with rfl | hne
    · simp at h
    · rw [lookup_cons_of_ne hne] at h
      have hrest := ih h
      simp_all [put, remove]

end Tables

namespace Objects

variable (objects : Objects F) (o : ℕ) (key : String)

def getOwn : Option (Desc F) := (objects o).own.lookup key

def find : Option (Desc F) := (o :: (objects o).above).findSome? (objects.getOwn · key)

def putOwn (d : Desc F) : Objects F :=
  Function.update objects o { objects o with own := put key d (objects o).own }

/-- None where the definition throws. The descriptor has the fields it is given and inherits none. -/
def define [DecidableEq F] (d : Desc F) : Option (Objects F) :=
  match objects.getOwn o key with
  | some current => if current.admits d then some (objects.putOwn o key d) else none
  | none => if (objects o).extensible then some (objects.putOwn o key d) else none

/-- `delete`, which leaves a property that is not configurable. -/
def delete : Objects F :=
  match objects.getOwn o key with
  | some current =>
    if current.configurable then
      Function.update objects o { objects o with own := remove key (objects o).own }
    else objects
  | none => objects

variable {objects o key} {d e : Desc F}

theorem find_of_own (h : objects.getOwn o key = some d) : objects.find o key = some d := by
  simp [find, h]

@[simp] theorem getOwn_putOwn : (objects.putOwn o key d).getOwn o key = some d := by
  simp [putOwn, getOwn]

@[simp] theorem find_putOwn : (objects.putOwn o key d).find o key = some d :=
  find_of_own getOwn_putOwn

theorem putOwn_putOwn : (objects.putOwn o key e).putOwn o key d = objects.putOwn o key d := by
  simp [putOwn]

theorem putOwn_of_own (h : objects.getOwn o key = some d) : objects.putOwn o key d = objects := by
  rw [putOwn, put_of_lookup h, Function.update_eq_self]

theorem define_putOwn [DecidableEq F] (he : e.configurable = true) (h : objects.getOwn o key = some d) :
    (objects.putOwn o key e).define o key d = some objects := by
  rw [define, getOwn_putOwn]
  simp [Desc.admits_of_configurable he, putOwn_putOwn, putOwn_of_own h]

theorem delete_putOwn (he : e.configurable = true) (h : objects.getOwn o key = none) :
    (objects.putOwn o key e).delete o key = objects := by
  rw [delete, getOwn_putOwn]
  simp [he, putOwn, remove_put h]

end Objects

end XChainVM.SparseCallback
