import XChainVM.Harness.Values

/-! # What a value is to the serializer

The objects of a contract as `JSON.stringify` sees them, and the copy that the harness hands to the
native serializer in their place. A value is inert where the native serializer, going through it,
runs no code of the contract.
-/

namespace XChainVM.Stringify

open Harness

inductive Slot where
  | data (v : Val)
  | accessor

structure Object where
  callable : Bool
  isArray : Bool
  length : ℕ
  /-- `Object.keys`. -/
  keys : List String
  own : String → Option Slot
  /-- What the object is a wrapper of, where it wraps a string, a number, a boolean or a BigInt. -/
  wrapped : Option Prim
  /-- The prototype is `Object.prototype` or `null`. -/
  plainProto : Bool
  /-- `'toJSON' in v`. -/
  hasToJSON : Bool

structure Heap where
  object : ℕ → Object
  /-- `'toJSON' in BigInt.prototype`. -/
  bigToJSON : Bool

/-- What `__rsfClassify` answers: a leaf may come out of a wrapper. -/
inductive Kind where
  | skip
  | leaf (p : Prim) (unwrapped : Bool)
  | container (id : ℕ) (isArr : Bool)

/-- What is handed to the native serializer: primitives, new containers without a prototype, and objects
of the contract passed by reference. -/
inductive Copy where
  | leaf (p : Prim)
  | ref (id : ℕ)
  | node (isArr : Bool) (slots : List (String × Copy))

namespace Copy

def ofVal : Val → Copy
  | .prim p => .leaf p
  | .object id => .ref id

end Copy

namespace Heap

variable (h : Heap)

def data? (id : ℕ) (key : String) : Option Val :=
  match (h.object id).own key with
  | some (.data v) => some v
  | _ => none

/-- The names a container is serialized under; a property list stands in for those of an object. -/
def names (props : Option (List String)) (id : ℕ) : List String :=
  if (h.object id).isArray then (List.range (h.object id).length).map toString
  else props.getD (h.object id).keys

/-- `typeof v === 'function'`. -/
def isCallable : Val → Bool
  | .prim _ => false
  | .object id => (h.object id).callable

/-- `typeof v` is `'undefined'`, `'function'` or `'symbol'`. -/
def skips : Val → Bool
  | .prim .undefined | .prim .symbol => true
  | v => h.isCallable v

def classify (v : Val) : Kind :=
  if h.skips v then .skip
  else
    match v with
    | .prim p => .leaf p false
    | .object id =>
      if (h.object id).isArray then .container id true
      else if (h.object id).plainProto then .container id false
      else
        match (h.object id).wrapped with
        | some p => .leaf p true
        | none => .container id false

def hasToJSON : Val → Bool
  | .prim (.bigint _) => h.bigToJSON
  | .prim _ => false
  | .object id => (h.object id).hasToJSON

/-- Nothing is nested in the value: a function is left out or becomes `null`. -/
def Childless : Val → Prop
  | .prim _ => True
  | .object id => (h.object id).callable = true

/-- The native serializer runs no code of the contract on the value, and is never inside more than this
many containers of it. -/
def Inert (props : Option (List String)) : ℕ → Val → Prop
  | 0, v => h.hasToJSON v = false ∧ h.Childless v
  | n + 1, v => h.hasToJSON v = false ∧ (h.Childless v ∨ ∃ id, v = .object id ∧ (h.object id).wrapped = none ∧
      ∀ key ∈ h.names props id, ∃ w, h.data? id key = some w ∧ Inert props n w)

def Settled (props : Option (List String)) : ℕ → Copy → Prop
  | _, .leaf p => h.hasToJSON (.prim p) = false
  | n, .ref id => h.Inert props n (.object id)
  | 0, .node _ _ => False
  | n + 1, .node _ slots => ∀ slot ∈ slots, Settled props n slot.2

variable {h} {props : Option (List String)} {n : ℕ}

theorem Inert.hasToJSON {v : Val} (hv : h.Inert props n v) : h.hasToJSON v = false := by
  cases n with
  | zero => exact hv.1
  | succ n => exact hv.1

theorem Inert.container {id : ℕ} (htoJSON : h.hasToJSON (.object id) = false)
    (hwrapped : (h.object id).wrapped = none)
    (hslots : ∀ key ∈ h.names props id, ∃ v, h.data? id key = some v ∧ h.Inert props n v) :
    h.Inert props (n + 1) (.object id) :=
  ⟨htoJSON, .inr ⟨id, rfl, hwrapped, hslots⟩⟩

theorem settled_leaf {p : Prim} (hp : h.hasToJSON (.prim p) = false) : h.Settled props n (.leaf p) := by
  cases n with
  | zero => exact hp
  | succ n => exact hp

theorem settled_ref {id : ℕ} (hid : h.Inert props n (.object id)) : h.Settled props n (.ref id) := by
  cases n with
  | zero => exact hid
  | succ n => exact hid

/-- An inert value may be passed on as it is. -/
theorem Inert.settled {v : Val} (hv : h.Inert props n v) : h.Settled props n (.ofVal v) := by
  cases v with
  | prim p => exact settled_leaf hv.hasToJSON
  | object id => exact settled_ref hv

theorem classify_cases (h : Heap) (v : Val) :
    (h.classify v = .skip ∧ h.skips v = true) ∨
      (∃ p unwrapped, h.classify v = .leaf p unwrapped ∧ (unwrapped = false → v = .prim p)) ∨
      ∃ id isArr, h.classify v = .container id isArr ∧ v = .object id := by
  unfold classify
  split
  · next hskip => exact .inl ⟨rfl, hskip⟩
  · cases v with
    | prim p => exact .inr (.inl ⟨p, false, rfl, fun _ => rfl⟩)
    | object id =>
      dsimp only
      split
      · exact .inr (.inr ⟨id, true, rfl, rfl⟩)
      · split
        · exact .inr (.inr ⟨id, false, rfl, rfl⟩)
        · split
          · next p _ => exact .inr (.inl ⟨p, true, rfl, nofun⟩)
          · exact .inr (.inr ⟨id, false, rfl, rfl⟩)

theorem inert_childless {v : Val} (htoJSON : h.hasToJSON v = false) (hv : h.Childless v) : h.Inert props n v := by
  cases n with
  | zero => exact ⟨htoJSON, hv⟩
  | succ n => exact ⟨htoJSON, .inl hv⟩

theorem childless_of_skips {v : Val} (hskip : h.skips v = true) : h.Childless v := by
  cases v with
  | prim p => trivial
  | object id => exact hskip

/-- An array that holds itself is not inert at any depth. -/
theorem not_inert_cycle {id : ℕ} {key : String} (hcallable : (h.object id).callable = false)
    (hkey : key ∈ h.names props id) (hcycle : h.data? id key = some (.object id)) :
    ¬h.Inert props n (.object id) := by
  have hchildless : ¬h.Childless (.object id) := fun h => Bool.false_ne_true (hcallable.symm.trans h)
  induction n with
  | zero => exact fun hinert => hchildless hinert.2
  | succ n ih =>
    rintro ⟨-, hinert | ⟨other, hother, -, hslots⟩⟩
    · exact hchildless hinert
    · obtain rfl := Val.object.inj hother
      obtain ⟨v, hv, hinert⟩ := hslots key hkey
      obtain rfl := Option.some.inj (hcycle.symm.trans hv)
      exact ih hinert

end Heap

end XChainVM.Stringify
