import XChainVM.Guards.ValueGraph
import XChainVM.Js.PlainObject
import XChainVM.Js.Text
import XChainVM.Stringify.Values

/-! # A graph of plain values as a heap

What `JSON.stringify` sees of it: data properties only, nothing to call, and no wrapper of a primitive.
-/

namespace XChainVM.Guards

open Harness Js Stringify

namespace Container

def indexed (elements : List (Option Val)) : List (String × Option Val) :=
  ((List.range elements.length).map toString).zip elements

def shown : Container → Object
  | function => ⟨true, false, 0, [], fun _ => none, none, false, false⟩
  | array elements =>
    { callable := false
      isArray := true
      length := elements.length
      keys := (indexed elements).filterMap fun e => e.2.map fun _ => e.1
      own := fun key => ((indexed elements).lookup key).join.map .data
      wrapped := none
      plainProto := false
      hasToJSON := false }
  | object fields _ =>
    { callable := false
      isArray := false
      length := 0
      keys := fields.map Prod.fst
      own := fun key => (fields.lookup key).map .data
      wrapped := none
      plainProto := true
      hasToJSON := false }

def names : Container → List String
  | function => []
  | array elements => (List.range elements.length).map toString
  | object fields _ => fields.map Prod.fst

theorem indexed_fst (elements : List (Option Val)) :
    (indexed elements).map Prod.fst = (List.range elements.length).map toString := by
  rw [indexed, List.map_fst_zip]
  rw [List.length_map, List.length_range]

theorem indexed_snd (elements : List (Option Val)) : (indexed elements).map Prod.snd = elements := by
  rw [indexed, List.map_snd_zip]
  rw [List.length_map, List.length_range]

theorem nodup_indexed (elements : List (Option Val)) : ((indexed elements).map Prod.fst).Nodup := by
  rw [indexed_fst]
  exact List.Nodup.map (fun _ _ => toString_injective) List.nodup_range

end Container

namespace ValueGraph

def heap (g : ValueGraph) : Heap := ⟨fun id => (g id).shown, false⟩

variable (g : ValueGraph)

/-- What a slot holds; a hole is read as `undefined`. -/
def slot (id : ℕ) (key : String) : Val := Container.read (g.heap.data? id key)

theorem names_heap (id : ℕ) : g.heap.names none id = (g id).names := by
  show (if (g id).shown.isArray then (List.range (g id).shown.length).map toString else (g id).shown.keys) = _
  cases g id with
  | function => rfl
  | array elements => rfl
  | object fields _ => rfl

theorem names_map_slot (id : ℕ) : (g id).names.map (g.slot id) = (g id).slots := by
  have hslot (key : String) : g.slot id key = Container.read (g.heap.data? id key) := rfl
  cases hkind : g id with
  | function => rfl
  | array elements =>
    have hread (e) (he : e ∈ Container.indexed elements) : g.slot id e.1 = Container.read e.2 := by
      rw [hslot, Heap.data?, heap]
      dsimp only
      rw [hkind, Container.shown]
      dsimp only
      rw [lookup_of_mem (Container.nodup_indexed elements) he, Option.join_some]
      cases e.2 <;> rfl
    rw [Container.names, Container.slots, ← Container.indexed_fst, List.map_map]
    conv_rhs => rw [← Container.indexed_snd elements, List.map_map]
    exact List.map_congr_left hread
  | object fields distinct =>
    have hread (f) (hf : f ∈ fields) : g.slot id f.1 = f.2 := by
      rw [hslot, Heap.data?, heap]
      dsimp only
      rw [hkind, Container.shown]
      dsimp only
      rw [lookup_of_mem distinct hf]
      rfl
    rw [Container.names, Container.slots, List.map_map]
    exact List.map_congr_left hread

theorem hasToJSON_heap (v : Val) : g.heap.hasToJSON v = false := by
  cases v with
  | prim p => cases p <;> rfl
  | object id =>
    show (g id).shown.hasToJSON = false
    cases g id with
    | function => rfl
    | array elements => rfl
    | object fields _ => rfl

/-- A container of the graph is gone into, anything else is a leaf or left out. -/
theorem classify_heap (v : Val) :
    (∃ id isArr, g.container? v = some id ∧ v = .object id ∧ g.heap.classify v = .container id isArr) ∨
      g.container? v = none ∧ (g.heap.classify v = .skip ∨ ∃ p, g.heap.classify v = .leaf p false) := by
  cases v with
  | prim p =>
    right
    refine ⟨rfl, ?_⟩
    unfold Heap.classify
    split
    · exact .inl rfl
    · exact .inr ⟨p, rfl⟩
  | object id =>
    rw [container?]
    cases hkind : g id with
    | function =>
      exact .inr ⟨rfl, .inl (by simp [Heap.classify, Heap.skips, Heap.isCallable, heap, hkind, Container.shown])⟩
    | array elements =>
      exact .inl ⟨id, true, rfl, rfl,
        by simp [Heap.classify, Heap.skips, Heap.isCallable, heap, hkind, Container.shown]⟩
    | object fields _ =>
      exact .inl ⟨id, false, rfl, rfl,
        by simp [Heap.classify, Heap.skips, Heap.isCallable, heap, hkind, Container.shown]⟩

end ValueGraph

end XChainVM.Guards
