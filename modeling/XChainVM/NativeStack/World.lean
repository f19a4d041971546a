import XChainVM.Machine.Run
import XChainVM.NativeStack.Hooks

/-! # Contracts that call the hooks

What happens to the depth counter while a contract runs: its guarded frames, spread calls and
applies begin and end in order, and between any two steps it may call the hooks itself with
whatever it has.
-/

namespace XChainVM.NativeStack

open Harness Js Machine

/-- A call under way, with the records and holds there are when it has begun. -/
inductive Call where
  | frame (n : ℕ) (entry units : Depth)
  | spread (id : Value) (units : Depth) (acts holds : ℕ)
  | apply (units p : Depth) (q : ℤ) (acts holds : ℕ)

namespace Call

def units : Call → Depth
  | frame _ _ u | spread _ u _ _ | apply u _ _ _ _ => u

def acts : Call → ℕ
  | frame _ _ _ => 0
  | spread _ _ acts _ | apply _ _ _ acts _ => acts

def holds : Call → ℕ
  | frame _ _ _ => 0
  | spread _ _ _ holds | apply _ _ _ _ holds => holds

end Call

/-- An apply reads its arguments after it has checked their units and before it adds them. -/
inductive Live where
  | call (c : Call)
  | reading (units found : Depth)

def Live.call? : Live → Option Call
  | call c => some c
  | reading _ _ => none

/-- The end of a frame: the counter before it and after it, and whether the contract has left a
frame it entered by hand open, then or inside the frame. -/
structure Exit where
  entry : Depth
  after : Depth
  leftOpen : Bool

structure World where
  hooks : Hooks
  live : List Live := []
  /-- How many tokens there are. -/
  tokens : ℕ := 0
  /-- How many tokens there were when a frame last ended below one entered by hand. -/
  blocked : ℕ := 0
  exits : List Exit := []

namespace World

def calls (w : World) : List Call := w.live.filterMap Live.call?

def load (w : World) : Depth := (w.calls.map Call.units).sum

def start (limit : ℕ) : World where
  hooks := { limit }

end World

/-- What a contract can name: any value, and the tokens it was given. -/
inductive Arg where
  | plain (v : Val)
  | hand (n : ℕ)
  deriving DecidableEq

namespace Arg

def value : Arg → Value
  | plain v => .plain v
  | hand n => .hand n

abbrev number (q : ℚ) : Arg := .plain (.number (.finite q))

end Arg

inductive Event where
  /-- A guard enters its frame. -/
  | enter (weight : ℕ)
  /-- Something is thrown in the innermost frame. -/
  | caught (isOverflow : Bool)
  | exit
  /-- A call site has copied `n` arguments, in the innermost frame or, in a default of a parameter,
  before the frame is entered. -/
  | spread (n id : ℕ)
  | spreadReturned
  /-- The call throws, or is a link of an optional chain. -/
  | spreadLeft
  | applyMeasure (n : ℕ)
  | applyStart
  /-- A read of an argument throws, or the charge for them. -/
  | applyStopped
  | applyFinish
  | handEnter (weight : Arg)
  | handExit (isOverflow : Bool) (args : List Arg)
  | handSpread (copied : Option ℕ) (mode id : Arg)

namespace World

def after {α : Type} (w : World) (m : Hook α) : World :=
  match m w.hooks with
  | .ok _ s => { w with hooks := s }
  | .error _ s => { w with hooks := s }

def enter (w : World) (weight : ℕ) : World :=
  let w' := { w with tokens := w.tokens + 1 }
  match depthEnter (.frame w.tokens) (.number weight) w.hooks with
  | .ok _ s =>
    { w' with
      hooks := s
      live := .call (.frame w.tokens w.hooks.stackDepth (NativeStack.weight (.number weight))) :: w.live }
  | .error _ s => { w' with hooks := s }

def handInnermost (w : World) : Bool :=
  match w.hooks.acts with
  | ⟨.hand _, _⟩ :: _ => true
  | _ => false

def exit (w : World) (n : ℕ) (entry : Depth) (live : List Live) : World :=
  let w' := w.after (depthExit false [.frame n, .number 0])
  { w' with
    live
    blocked := if w.hooks.unwinds (.frame n) then w.blocked else w.tokens
    exits := ⟨entry, w'.hooks.stackDepth, w.handInnermost || n < w.blocked⟩ :: w.exits }

def spread (w : World) (n id : ℕ) : World :=
  match hold n (.number id) w.hooks with
  | .ok _ s =>
    { w with
      hooks := s
      live := .call (.spread (.number id) (units n CALL_UNITS) s.acts.length s.holds.length) :: w.live }
  | .error _ s => { w with hooks := s }

def applyMeasure (w : World) (n : ℕ) : World :=
  match NativeStack.applyMeasure n w.hooks with
  | .ok u s => { w with hooks := s, live := .reading u w.hooks.stackDepth :: w.live }
  | .error _ s => { w with hooks := s }

def applyStart (w : World) (u : Depth) (live : List Live) : World :=
  match NativeStack.applyStart u w.hooks with
  | .ok (p, q) s =>
    { w with hooks := s, live := .call (.apply u p q w.hooks.acts.length w.hooks.holds.length) :: live }
  | .error _ s => { w with hooks := s }

end World

def step (w : World) : Event → World
  | .enter weight => w.enter weight
  | .caught isOverflow => w.after (depthExit isOverflow [.plain .undefined])
  | .exit =>
    match w.live with
    | .call (.frame n entry _) :: live => w.exit n entry live
    | _ => w
  | .spread n id => w.spread n id
  | .spreadReturned =>
    match w.live with
    | .call (.spread id _ _ _) :: live => { w with live }.after (arrspread none (.number 2) id)
    | _ => w
  | .spreadLeft =>
    match w.live with
    | .call (.spread _ _ _ _) :: live => { w with live }
    | _ => w
  | .applyMeasure n => w.applyMeasure n
  | .applyStart =>
    match w.live with
    | .reading u _ :: live => w.applyStart u live
    | _ => w
  | .applyStopped =>
    match w.live with
    | .reading _ _ :: live => { w with live }
    | _ => w
  | .applyFinish =>
    match w.live with
    | .call (.apply _ p q _ _) :: live => { w with live }.after (applyFinish p q)
    | _ => w
  | .handEnter weight =>
    { w with tokens := w.tokens + 1 }.after (depthEnter (.hand w.tokens) weight.value)
  | .handExit isOverflow args => w.after (depthExit isOverflow (args.map Arg.value))
  | .handSpread copied mode id => w.after (arrspread copied mode.value id.value)

end XChainVM.NativeStack
