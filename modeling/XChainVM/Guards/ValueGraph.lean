import XChainVM.Harness.Values
import XChainVM.Tree.RootPaths

/-! # Graphs of plain values

The containers that a guard walks over before a native builtin recurses into them. Reading a slot of
a plain value runs no code. A container may be shared, and it may hold itself.
-/

namespace XChainVM.Guards

open Harness XChainVM.Tree

/-- An array may have holes. The fields of an object are its own enumerable ones. -/
inductive Container where
  | function
  | array (elements : List (Option Val))
  | object (fields : List (String × Val)) (distinct : (fields.map Prod.fst).Nodup)

abbrev ValueGraph := ℕ → Container

namespace Container

def read (element : Option Val) : Val := element.getD .undefined

def slots : Container → List Val
  | function => []
  | array elements => elements.map read
  | object fields _ => fields.map Prod.snd

def width (c : Container) : ℕ := c.slots.length

end Container

namespace ValueGraph

variable (g : ValueGraph)

/-- `c !== null && typeof c === 'object'`. -/
def container? : Val → Option ℕ
  | .prim _ => none
  | .object id =>
    match g id with
    | .function => none
    | _ => some id

def childrenFrom : ℕ → List Val → List (ℕ × ℕ)
  | _, [] => []
  | slot, v :: rest =>
    match g.container? v with
    | some id => (id, slot) :: childrenFrom (slot + 1) rest
    | none => childrenFrom (slot + 1) rest

def children (id : ℕ) : List (ℕ × ℕ) := g.childrenFrom 0 (g id).slots

theorem slot_le_of_mem {slot : ℕ} {vs : List Val} {c : ℕ × ℕ} (h : c ∈ g.childrenFrom slot vs) : slot ≤ c.2 := by
  induction vs generalizing slot with
  | nil => cases h
  | cons v rest ih =>
    rw [childrenFrom] at h
    split at h
    · obtain rfl | h := List.mem_cons.mp h
      · exact le_rfl
      · exact (Nat.le_succ slot).trans (ih h)
    · exact (Nat.le_succ slot).trans (ih h)

theorem nodup_childrenFrom (slot : ℕ) (vs : List Val) : (g.childrenFrom slot vs).Nodup := by
  induction vs generalizing slot with
  | nil => exact List.nodup_nil
  | cons v rest ih =>
    rw [childrenFrom]
    split
    · refine List.nodup_cons.mpr ⟨fun h => ?_, ih _⟩
      have := g.slot_le_of_mem h
      omega
    · exact ih _

theorem nodup_children (id : ℕ) : (g.children id).Nodup := g.nodup_childrenFrom 0 _

end ValueGraph

/-- A graph as the tree of its root paths, without the identities of its containers. -/
inductive Unfolding where
  | node (width : ℕ) (children : List Unfolding)

namespace ValueGraph

def unfold (g : ValueGraph) : ℕ → ℕ → Unfolding
  | 0, id => .node (g id).width []
  | n + 1, id => .node (g id).width ((g.children id).map fun c => unfold g n c.1)

end ValueGraph

def scanCharge (width : ℕ) : ℕ := if 1 < width then width else 0

def upTo {β : Type*} (bad : β → Bool) : List β → List β
  | [] => []
  | b :: rest => if bad b then [b] else b :: upTo bad rest

namespace Unfolding

mutual

def visits (depth : ℕ) : Unfolding → List (ℕ × ℕ)
  | node width children => (depth, width) :: visitsAll (depth + 1) children

def visitsAll (depth : ℕ) : List Unfolding → List (ℕ × ℕ)
  | [] => []
  | t :: rest => visitsAll depth rest ++ visits depth t

end

/-- One unit for each container met and the width of each that is gone through. -/
def gas (limit : ℕ) (t : Unfolding) : ℕ :=
  ((upTo (fun v => limit < v.1) (t.visits 1)).map fun v => if limit < v.1 then 1 else 1 + scanCharge v.2).sum

theorem visitsAll_eq (depth : ℕ) (ts : List Unfolding) : visitsAll depth ts = ts.reverse.flatMap (visits depth) := by
  induction ts with
  | nil => rfl
  | cons t rest ih => rw [visitsAll, ih, List.reverse_cons, List.flatMap_append, List.flatMap_singleton]

end Unfolding

end XChainVM.Guards
