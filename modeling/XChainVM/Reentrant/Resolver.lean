import XChainVM.Reentrant.Program
import XChainVM.Stringify.Resolve

/-! # The resolver over its scratch storage

`__resolveForStringify` with everything it asks of the storage it keeps its frames in. Code of the contract
runs wherever a property is read that is no own data property, at a `toJSON` and at a replacer.
-/

namespace XChainVM.Reentrant

open Harness Js Machine Cut Stringify

/-- The storage of a call, with names `L` for frames. -/
structure Storage (σ τ L : Type) where
  world : Run τ (World σ)
  hook : Request → Run τ Val
  /-- `__gasFunc` -/
  gas : ℕ → Run τ Unit
  /-- `__stackPoison = true` -/
  poisonStack : Run τ Unit
  /-- `__rsfFrames[fi]`, with a new frame put there where there is none. -/
  take : ℕ → Run τ L
  /-- `__rsfFrames[fi]` -/
  frameAt : ℕ → Run τ L
  get : L → Run τ Frame
  set : L → Frame → Run τ Unit
  /-- `__rsfForwardList = list` -/
  forward : Option (List String) → Run τ Unit

/-- What a call is given, and the bound on its rounds. -/
structure Setting where
  lang : Language
  depthLimit : ℕ
  repFn : Option Val
  propList : Option (List String)
  rounds : ℕ

variable {σ τ L : Type} (st : Storage σ τ L) (c : Setting)

namespace Storage

def gasScan (n : ℕ) : Run τ Unit := if 1 < n then st.gas n else pure ()

/-- The value of a property; one that is no own data property is read by code of the contract. -/
def read (id : ℕ) (key : String) : Run τ Val := do
  let w ← st.world
  match w.heap.data? id key with
  | some v => pure v
  | none => st.hook (.fetch id key)

def update (l : L) (change : Frame → Frame) : Run τ Unit := do
  let f ← st.get l
  st.set l (change f)

def backfill (l : L) : ℕ → ℕ → Run τ Unit
  | 0, _ => cutOff
  | rounds + 1, b => do
    let f ← st.get l
    if b < f.done then
      let v ← st.read f.src (f.keyAt b)
      let w ← st.world
      st.update l fun g => g.append (Stringify.Frame.entry w.heap g.isArr (f.keyAt b) v).toList
      backfill l rounds (b + 1)
    else pure ()

def materialize (l : L) : Run τ Unit := do
  let f ← st.get l
  if f.out.isSome then pure ()
  else
    st.gas RSF_COPY_GAS
    st.update l fun f => { f with inert := false, out := some [] }
    st.backfill l c.rounds 0

def materializeIf (dirty : Bool) (l : L) : Run τ Unit := if dirty then st.materialize c l else pure ()

/-- The `toJSON` of a value, and whether there is one. -/
def applyToJSON (key : String) (v : Val) : Run τ (Val × Bool) := do
  let w ← st.world
  if w.heap.hasToJSON v then
    let tj ← st.hook (.readToJSON v)
    let w ← st.world
    if w.heap.isCallable tj then
      st.gas 1
      let v ← st.hook (.callToJSON tj v key)
      pure (v, true)
    else pure (v, true)
  else pure (v, false)

def applyReplacer (holder : Option ℕ) (key : String) (r : Val × Bool) : Run τ (Val × Bool) :=
  match c.repFn with
  | some f => do
    st.gas 1
    let v ← st.hook (.replace f holder key r.1)
    pure (v, true)
  | none => pure r

/-- `__rsfResolve`, with `__rsfRanHook`. -/
def resolveSlot (holder : Option ℕ) (key : String) (v : Val) : Run τ (Val × Bool) := do
  let r ← st.applyToJSON key v
  st.applyReplacer c holder key r

/-- A container is gone into at the index `fi`, in the frame there. -/
def openFrame (l : L) (fi src : ℕ) (isArr dirty : Bool) (key : String) : Run τ Unit := do
  st.update l (Frame.reuse src isArr key)
  st.gas 1
  if c.depthLimit < fi + 1 then
    st.poisonStack
    raise .stackError
  else
    let w ← st.world
    let keys := w.heap.names c.propList src
    st.update l (Frame.sized (if isArr then [] else keys) keys.length)
    st.gasScan keys.length
    st.materializeIf c dirty l

def pushFrame (fi src : ℕ) (isArr dirty : Bool) (key : String) : Run τ Unit := do
  let l ← st.take fi
  st.openFrame c l fi src isArr dirty key

/-- A container is gone into with a copy where a hook made it what it is. -/
def dirtyAt (h : Heap) (r : Val × Bool) : Bool := c.repFn.isSome || r.2 && h.hasToJSON r.1

def readSlot (l : L) (f : Frame) : Run τ Val := do
  let w ← st.world
  match w.heap.data? f.src (f.keyAt f.i) with
  | some v => pure v
  | none => do
    st.materialize c l
    let g ← st.get l
    st.hook (.fetch g.src (f.keyAt f.i))

def commit (l : L) (i : ℕ) (slots : Bool → List (String × Copy)) : Run τ Unit :=
  st.update l fun f => { f.append (slots f.isArr) with i := i + 1, done := i + 1 }

/-- The frame at `fi + 1` is done, and the frame below takes what it stands for. -/
def pop (fi : ℕ) (l : L) (f : Frame) : Run τ Unit := do
  let pl ← st.frameAt fi
  st.materializeIf c (!f.inert) pl
  let g ← st.get l
  st.update pl fun pf => { pf.append [(g.pKey, f.result)] with done := pf.i }

def slot (fi : ℕ) (l : L) (f : Frame) : Run τ ℕ := do
  let raw ← st.readSlot c l f
  let g ← st.get l
  let r ← st.resolveSlot c (some g.src) (f.keyAt f.i) raw
  st.materializeIf c r.2 l
  let w ← st.world
  match w.heap.classify r.1 with
  | .container id isArr => do
    st.update l fun g => { g with i := f.i + 1 }
    st.pushFrame c (fi + 1) id isArr (dirtyAt c w.heap r) (f.keyAt f.i)
    pure (fi + 1)
  | .leaf p unwrapped => do
    st.materializeIf c unwrapped l
    st.commit l f.i fun _ => [(f.keyAt f.i, .leaf p)]
    pure fi
  | .skip => do
    st.commit l f.i fun isArr => if isArr then [(f.keyAt f.i, .leaf .null)] else []
    pure fi

def loop : ℕ → ℕ → Run τ Copy
  | 0, _ => cutOff
  | rounds + 1, fi => do
    let l ← st.frameAt fi
    let f ← st.get l
    if f.n ≤ f.i then
      match fi with
      | 0 => pure f.result
      | fi + 1 => do
        st.pop c fi l f
        loop rounds fi
    else
      let fi ← st.slot c fi l f
      loop rounds fi

def listItem (lang : Language) (h : Heap) : Val → Option String
  | .prim (.string t) => some t
  | .prim (.number n) => some (lang.numberText n)
  | .prim _ => none
  | .object id =>
    if (h.object id).callable then none
    else
      match (h.object id).wrapped with
      | some (.string t) => some t
      | some (.number n) => some (lang.numberText n)
      | _ => none

/-- `__rsfPropertyList` from an index on. -/
def listItems (lang : Language) (id : ℕ) : List ℕ → List String → Run τ (List String)
  | [], list => pure list
  | i :: rest, list => do
    let v ← st.read id (toString i)
    let w ← st.world
    listItems lang id rest <|
      match listItem lang w.heap v with
      | some item => if item ∈ list then list else list ++ [item]
      | none => list

def propertyList (lang : Language) (replacer : Val) : Run τ (Option (List String)) := do
  let w ← st.world
  match replacer with
  | .prim _ => pure none
  | .object id =>
    if !w.heap.isCallable replacer && (w.heap.object id).isArray then do
      st.gasScan (w.heap.object id).length
      let list ← st.listItems lang id (List.range (w.heap.object id).length) []
      pure (some list)
    else pure none

/-- What is handed to the native serializer, none where it is `undefined`. -/
def resolveRoot (value : Val) : Run τ (Option Copy) := do
  st.forward c.propList
  let r ← st.resolveSlot c none "" value
  let w ← st.world
  match w.heap.classify r.1 with
  | .skip => pure none
  | .leaf p _ => pure (some (.leaf p))
  | .container id isArr => do
    st.pushFrame c 0 id isArr (dirtyAt c w.heap r) ""
    let copy ← st.loop c c.rounds 0
    pure (some copy)

def resolveForStringify (p : Program σ) (rounds : ℕ) (value replacer : Val) : Run τ (Option Copy) := do
  let w ← st.world
  if w.poison then raise .stackError
  else
    let repFn := if w.heap.isCallable replacer then some replacer else none
    let propList ← st.propertyList p.lang replacer
    st.resolveRoot ⟨p.lang, p.nativeDepthLimit, repFn, propList, rounds⟩ value

end Storage

end XChainVM.Reentrant
