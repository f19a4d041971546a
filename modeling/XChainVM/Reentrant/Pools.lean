import XChainVM.Reentrant.Resolver

/-! # Shared pools and private storage

The harness keeps one pool of frames for each nesting level and goes back to the outer pool when a call ends.
Next to it stands the call that has its storage to itself.
-/

namespace XChainVM.Reentrant

open Harness Js Machine Cut Stringify

/-- An array that serves as a pool: one the harness made for a level, or one found on the prototype. -/
inductive Pool where
  | level (n : ℕ)
  | found (n : ℕ)
  deriving DecidableEq

/-- A frame: in a pool, or found on the prototype. -/
inductive Loc where
  | cell (pool : Pool) (i : ℕ)
  | found (i : ℕ)

structure Scratch where
  /-- The levels that `__rsfPools` has a pool for. -/
  made : ℕ → Bool
  cells : Pool → ℕ → Option Frame
  /-- `__rsfFrames` -/
  frames : Pool
  /-- `__rsfForwardList` -/
  forwardList : Option (List String)
  /-- `__rsfNested` -/
  nested : ℕ

namespace Scratch

def start : Scratch := ⟨fun n => n = 0, fun _ _ => none, .level 0, none, 0⟩

def put (t : Scratch) (pool : Pool) (i : ℕ) (f : Frame) : Scratch :=
  { t with cells := Function.update t.cells pool (Function.update (t.cells pool) i (some f)) }

end Scratch

/-- The storage of a call that has it to itself. -/
structure Own where
  cells : ℕ → Option Frame
  forwardList : Option (List String)

namespace Own

def start : Own := ⟨fun _ => none, none⟩

def put (t : Own) (i : ℕ) (f : Frame) : Own := { t with cells := Function.update t.cells i (some f) }

end Own

variable {σ τ κ α : Type}

def world : Run (World σ × κ) (World σ) := fun s => ([], .ok s.1, s)

def gas (n : ℕ) : Run (World σ × κ) Unit := do
  let w ← world
  if w.poison then raise .stackError else Eff.charge n

def poisonStack : Run (World σ × κ) Unit := fun s => ([], .ok (), { s.1 with poison := true }, s.2)

def modify (change : κ → κ) : Run (World σ × κ) Unit := fun s => ([], .ok (), s.1, change s.2)

/-- `__rsfNewFrame` -/
def newFrame : Run (World σ × Scratch) Frame := do
  let s ← Eff.state
  if 1 < s.2.nested then gas RSF_COPY_GAS
  pure .blank

def take (i : ℕ) : Run (World σ × Scratch) Loc := do
  let s ← Eff.state
  if (s.2.cells s.2.frames i).isSome then pure (.cell s.2.frames i)
  else if (s.1.inherited i).isSome then
    Eff.emit (.inherited i)
    pure (.found i)
  else
    let f ← newFrame
    modify fun t => t.put s.2.frames i f
    pure (.cell s.2.frames i)

def frameAt (i : ℕ) : Run (World σ × Scratch) Loc := do
  let s ← Eff.state
  if (s.2.cells s.2.frames i).isSome then pure (.cell s.2.frames i)
  else if (s.1.inherited i).isSome then
    Eff.emit (.inherited i)
    pure (.found i)
  else raise .typeError

def getFrame (l : Loc) : Run (World σ × Scratch) Frame := do
  let s ← Eff.state
  match l with
  | .cell pool i => pure ((s.2.cells pool i).getD .blank)
  | .found i => pure ((s.1.inherited i).getD .blank)

def setFrame (l : Loc) (f : Frame) : Run (World σ × Scratch) Unit := fun s =>
  match l with
  | .cell pool i => ([], .ok (), s.1, s.2.put pool i f)
  | .found i => ([], .ok (), { s.1 with inherited := Function.update s.1.inherited i (some f) }, s.2)

def poolStorage (enter : Request → Run (World σ × Scratch) Val) : Storage σ (World σ × Scratch) Loc where
  world := world
  hook := visit enter
  gas := gas
  poisonStack := poisonStack
  take := take
  frameAt := frameAt
  get := getFrame
  set := setFrame
  forward list := modify fun t => { t with forwardList := list }

def poolFor : Run (World σ × Scratch) Pool := do
  let s ← Eff.state
  if s.2.made s.2.nested then pure (.level s.2.nested)
  else if (s.1.inherited s.2.nested).isSome then
    Eff.emit (.inherited s.2.nested)
    pure (.found s.2.nested)
  else
    modify fun t => { t with made := Function.update t.made t.nested true }
    pure (.level s.2.nested)

def allocText : Val → Run (World σ × κ) Unit
  | .prim (.string t) => if 1 < textLength t then gas (textLength t) else pure ()
  | _ => pure ()

namespace Program

variable (p : Program σ) (rounds : ℕ)

/-- `__rsfStringifyReentrant` -/
def stringify (enter : Request → Run (World σ × Scratch) Val) (value replacer space : Val) :
    Run (World σ × Scratch) Val := do
  let outer ← Eff.state
  let pool ← poolFor
  modify fun t => { t with frames := pool, nested := t.nested + 1 }
  let handed ← ending (do
      let copy ← (poolStorage enter).resolveForStringify p rounds value replacer
      let s ← Eff.state
      pure (copy, s.2.forwardList))
    (modify fun t =>
      { t with nested := t.nested - 1, frames := outer.2.frames, forwardList := outer.2.forwardList })
  let answer ← visit enter (.native handed.1 handed.2 space)
  allocText answer
  pure answer

def enter : ℕ → Request → Run (World σ × Scratch) Val
  | 0, _ => cutOff
  | depth + 1, r => (p.code r).run (fun m => (change m).onFirst) (stringify p rounds (enter depth))

end Program

def takeOwn (i : ℕ) : Run (World σ × Own) ℕ := fun s =>
  if (s.2.cells i).isSome then ([], .ok i, s) else ([], .ok i, s.1, s.2.put i .blank)

def ownFrameAt (i : ℕ) : Run (World σ × Own) ℕ := do
  let s ← Eff.state
  if (s.2.cells i).isSome then pure i else raise .typeError

def ownStorage (enter : Request → Run (World σ) Val) : Storage σ (World σ × Own) ℕ where
  world := world
  hook r := (visit enter r).onFirst
  gas := gas
  poisonStack := poisonStack
  take := takeOwn
  frameAt := ownFrameAt
  get i := fun s => ([], .ok ((s.2.cells i).getD .blank), s)
  set i f := modify fun t => t.put i f
  forward list := modify fun t => { t with forwardList := list }

def alone (m : Run (World σ × κ) α) (start : κ) : Run (World σ) α := fun w =>
  ((m (w, start)).1, (m (w, start)).2.1, (m (w, start)).2.2.1)

namespace Program

variable (p : Program σ) (rounds : ℕ)

/-- `JSON.stringify` for a call that has its storage to itself. -/
def stringifyAlone (enter : Request → Run (World σ) Val) (value replacer space : Val) : Run (World σ) Val := do
  let handed ← alone (do
      let copy ← (ownStorage enter).resolveForStringify p rounds value replacer
      let s ← Eff.state
      pure (copy, s.2.forwardList)) Own.start
  let answer ← visit enter (.native handed.1 handed.2 space)
  alone (allocText answer) ()
  pure answer

def enterAlone : ℕ → Request → Run (World σ) Val
  | 0, _ => cutOff
  | depth + 1, r => (p.code r).run change (stringifyAlone p rounds (enterAlone depth))

end Program

end XChainVM.Reentrant
