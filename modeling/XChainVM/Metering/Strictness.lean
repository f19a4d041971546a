import Mathlib.Data.List.Forall2
import XChainVM.Metering.MeterCode
import XChainVM.Metering.Position

/-! # The directives and the strictness of code

The script and the functions of a tree in the order of the source, each with its directive
prologue and whether its code is strict. The text of a string literal is what stands between
its quotes.
-/

namespace XChainVM.Metering

open Node

structure Outline where
  text : Option String := none
  directive : Option String := none
  /-- The prologue of a list of statements. -/
  prologue : List String := []
  /-- The prologue of a function body. -/
  bodyPrologue : List String := []
  length : ℕ := 0

namespace Outline

def directives : List Outline → List String
  | [] => []
  | o :: rest =>
    match o.directive with
    | some text => text :: directives rest
    | none => []

def combine : Kind → List Outline → Outline
  | .literal (.string s), [] => { text := some s }
  | .expressionStatement, [expression] => { directive := expression.text }
  | .list, os => { prologue := directives os, length := os.length }
  | .functionBody, [statements] => { bodyPrologue := statements.prologue }
  | _, _ => {}

end Outline

/-- The script or a function: how many parameters it has, what its directives are, and whether
it is strict. -/
structure CodeUnit where
  kind : Kind
  params : ℕ
  directives : List String
  strict : Bool
  deriving DecidableEq, Repr

namespace Node

mutual

def outline : Node → Outline
  | node kind fields => Outline.combine kind (outlineList fields)

def outlineList : List Node → List Outline
  | [] => []
  | n :: rest => outline n :: outlineList rest

end

theorem outlineList_eq (ns : List Node) : outlineList ns = ns.map outline := by
  induction ns with
  | nil => rfl
  | cons n rest ih => rw [outlineList, ih, List.map_cons]

theorem outline_node (kind : Kind) (fields : List Node) :
    (node kind fields).outline = Outline.combine kind (fields.map outline) := by
  rw [outline, outlineList_eq]

def ownCode : Kind → List Outline → Option (ℕ × List String)
  | kind, [body] => if kind = .program then some (0, body.prologue) else none
  | kind, [_, params, body] => if kind.isFunction then some (params.length, body.bodyPrologue) else none
  | _, _ => none

def isStrict (strict : Bool) (kind : Kind) (os : List Outline) : Bool :=
  strict || kind = .classDeclaration || kind = .classExpression ||
    (ownCode kind os).any fun code => code.2.contains "use strict"

def ownUnit (strict : Bool) (kind : Kind) (os : List Outline) : List CodeUnit :=
  match ownCode kind os with
  | some (params, directives) => [⟨kind, params, directives, isStrict strict kind os⟩]
  | none => []

mutual

/-- The script and the functions at and below a node, in code that is strict or not. -/
def units (strict : Bool) : Node → List CodeUnit
  | node kind fields =>
    if kind.isLeaf then []
    else
      let os := fields.map outline
      ownUnit strict kind os ++ unitsList (isStrict strict kind os) fields

def unitsList (strict : Bool) : List Node → List CodeUnit
  | [] => []
  | n :: rest => units strict n ++ unitsList strict rest

end

@[simp] theorem unitsList_nil (strict : Bool) : unitsList strict [] = [] := rfl

@[simp] theorem unitsList_cons (strict : Bool) (n : Node) (rest : List Node) :
    unitsList strict (n :: rest) = units strict n ++ unitsList strict rest := rfl

@[simp] theorem unitsList_append (strict : Bool) (ns ms : List Node) :
    unitsList strict (ns ++ ms) = unitsList strict ns ++ unitsList strict ms := by
  induction ns with
  | nil => rfl
  | cons n rest ih => simp [ih]

end Node

/-- The code units of a tree in which thunks stand between those of another. A thunk may be of either
strictness here: that it has the one around it is `units_arrowThunk`. -/
inductive Inserted : List CodeUnit → List CodeUnit → Prop
  | nil : Inserted [] []
  | kept {us vs} (u : CodeUnit) : Inserted us vs → Inserted (u :: us) (u :: vs)
  | thunk {us vs} (strict : Bool) : Inserted us vs →
      Inserted us (⟨.arrowFunctionExpression, 0, [], strict⟩ :: vs)

namespace Inserted

theorem refl (us : List CodeUnit) : Inserted us us := by
  induction us with
  | nil => exact .nil
  | cons u us ih => exact .kept u ih

theorem trans {us vs ws : List CodeUnit} (h : Inserted us vs) (h' : Inserted vs ws) : Inserted us ws := by
  induction h' generalizing us with
  | nil => exact h
  | kept v _ ih =>
    cases h with
    | kept _ h => exact .kept v (ih h)
    | thunk strict h => exact .thunk strict (ih h)
  | thunk strict _ ih => exact .thunk strict (ih h)

theorem append {us vs us' vs' : List CodeUnit} (h : Inserted us vs) (h' : Inserted us' vs') :
    Inserted (us ++ us') (vs ++ vs') := by
  induction h with
  | nil => exact h'
  | kept u _ ih => exact .kept u ih
  | thunk strict _ ih => exact .thunk strict ih

/-- No directive is added. -/
theorem sum_directives {us vs : List CodeUnit} (h : Inserted us vs) :
    (us.map fun u => u.directives.length).sum = (vs.map fun v => v.directives.length).sum := by
  induction h with
  | nil => rfl
  | kept u _ ih => simp [ih]
  | thunk strict _ ih => simpa using ih

end Inserted

def UnitsKept (n m : Node) : Prop := ∀ strict, Inserted (units strict n) (units strict m)

/-- `m` shows what `n` shows, and has the code of `n` with thunks inserted. -/
structure Grows (n m : Node) : Prop where
  outline : m.outline = n.outline
  units : UnitsKept n m

theorem UnitsKept.refl (n : Node) : UnitsKept n n := fun _ => .refl _

theorem UnitsKept.trans {n m l : Node} (h : UnitsKept n m) (h' : UnitsKept m l) : UnitsKept n l :=
  fun strict => (h strict).trans (h' strict)

theorem Grows.refl (n : Node) : Grows n n := ⟨rfl, .refl n⟩

theorem Grows.trans {n m l : Node} (h : Grows n m) (h' : Grows m l) : Grows n l :=
  ⟨h'.outline.trans h.outline, h.units.trans h'.units⟩

theorem unitsList_kept {ns ms : List Node} (h : List.Forall₂ UnitsKept ns ms) (strict : Bool) :
    Inserted (unitsList strict ns) (unitsList strict ms) := by
  induction h with
  | nil => exact .nil
  | cons h _ ih => exact (h strict).append ih

/-- The same code around children that keep theirs. -/
theorem unitsKept_node {kind : Kind} {fields fields' : List Node}
    (hown : ownCode kind (fields'.map Node.outline) = ownCode kind (fields.map Node.outline))
    (h : List.Forall₂ UnitsKept fields fields') : UnitsKept (node kind fields) (node kind fields') := by
  intro strict
  have hstrict : isStrict strict kind (fields'.map Node.outline) = isStrict strict kind (fields.map Node.outline) := by
    rw [isStrict, isStrict, hown]
  have hunit : ownUnit strict kind (fields'.map Node.outline) = ownUnit strict kind (fields.map Node.outline) := by
    rw [ownUnit, ownUnit, hown, hstrict]
  rw [units, units]
  split
  · exact .nil
  · simp only [hunit, hstrict]
    exact (Inserted.refl _).append (unitsList_kept h _)

theorem Grows.node {kind : Kind} {fields fields' : List Node} (h : List.Forall₂ Grows fields fields') :
    Grows (node kind fields) (node kind fields') := by
  have hsame : fields'.map Node.outline = fields.map Node.outline := by
    induction h with
    | nil => rfl
    | cons h _ ih => rw [List.map_cons, List.map_cons, h.outline, ih]
  refine ⟨?_, unitsKept_node (by rw [hsame]) (h.imp fun _ _ h => h.units)⟩
  rw [outline_node, outline_node, hsame]

/-- A rewriting from the leaves up. -/
theorem Grows.mapUp {f : Node → Node} (hf : ∀ n, Grows n (f n)) (n : Node) : Grows n (n.mapUp f) := by
  induction n using Node.induct with
  | step kind fields ih =>
    rw [Node.mapUp, mapUpList_eq]
    refine Grows.trans (.node ?_) (hf _)
    rw [List.forall₂_map_right_iff]
    exact List.forall₂_same.mpr ih

end XChainVM.Metering
