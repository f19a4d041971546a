import XChainVM.Stringify.Handed

/-! # The native serializer on what it is handed

In a run in which the contract leaves what it was asked about already as it was, the native serializer
is handed nothing that it could overflow on, and nothing that runs code of the contract. Whatever the
contract does, a fault is raised where one is due, and the resolution ends.
-/

namespace XChainVM.Stringify

open Harness Machine

/-- What the claim asks of every state of a resolution. -/
structure Guarded (w : Walk) (gas : ℕ) (s : State) : Prop where
  handed : ∀ c, s.phase = .done (.handed c) → s.heap.Settled s.pool.forwardList w.depthLimit c
  outOfStack : s.phase = .done .outOfStack ↔ ∃ path ∈ s.entered, w.depthLimit < path.length
  outOfGas : s.phase = .done .outOfGas ↔ gas < s.owed

/-- A tame resolution hands over what the native serializer goes through within the limit, faults exactly
where a path is too deep or the gas runs out, and ends. -/
theorem resolution_guarded (w : Walk) (heap : Heap) (gas : ℕ) (poison : Bool) (replies : List Reply)
    (htame : Meets w.step (Tame w) (w.start heap gas poison) replies) :
    Throughout w.step (Guarded w gas) (w.start heap gas poison) replies ∧
      (7 * gas + 7 ≤ replies.length → ∃ o, (run w.step (w.start heap gas poison) replies).phase = .done o) := by
  constructor
  · intro first second hreplies
    have hinv := htame.throughout (inv_step w) (inv_start w heap gas poison) first second hreplies
    have haccounted : Accounted gas w.depthLimit (run w.step (w.start heap gas poison) first) :=
      run_invariant (accounted_step w) (accounted_start w heap gas poison) first
    refine ⟨fun c hphase => ?_, haccounted.outOfStack_iff, haccounted.outOfGas_iff⟩
    unfold Inv at hinv
    rw [hphase] at hinv
    exact hinv
  · intro hlength
    exact run_done (fun s r h => h.pool) htame ((weight_start w heap gas poison).trans hlength)

def array (elements : List Val) : Object where
  callable := false
  isArray := true
  length := elements.length
  keys := (List.range elements.length).map toString
  own key := (((List.range elements.length).map toString).zip elements).lookup key |>.map .data
  wrapped := none
  plainProto := false
  hasToJSON := false

/-- `[[], { toJSON }]`, and the method. -/
def hookedHeap : Heap where
  object
    | 0 => array [.object 1, .object 2]
    | 1 => array []
    | 2 => { array [] with isArray := false, plainProto := true, hasToJSON := true }
    | _ => { array [] with isArray := false, callable := true }
  bigToJSON := false

def deepened : Heap where
  object
    | 1 => array [.object 1]
    | id => hookedHeap.object id
  bigToJSON := false

def plainWalk : Walk where
  lang := ⟨fun _ => "", fun _ => none, fun _ => none⟩
  nativeDepthLimit := 256
  allowance := 0
  detectCycles := true
  root := .object 0
  replacer := .undefined

def answers (frames : List Frame) (heap : Heap) (answer : Val) : Reply :=
  ⟨heap, 0, false, false, ⟨frames, none⟩, answer, fun _ => .undefined⟩

def rootFrame : Frame := ⟨0, true, ["0"], [], none, ""⟩

def visits (heap : Heap) : List Reply :=
  [answers [] hookedHeap .undefined, answers [⟨0, true, [], ["0", "1"], none, ""⟩] hookedHeap .undefined,
    answers [⟨0, true, [], ["1"], none, ""⟩] hookedHeap .undefined,
    answers [⟨1, true, [], [], none, "0"⟩, ⟨0, true, [], ["1"], none, ""⟩] hookedHeap .undefined,
    answers [⟨0, true, ["0"], ["1"], none, ""⟩] hookedHeap .undefined,
    answers [rootFrame] hookedHeap (.object 3), answers [rootFrame] heap (.prim (.bool true)),
    answers [rootFrame] heap .undefined,
    answers [⟨0, true, ["0", "1"], [], some [("0", .ref 1), ("1", .leaf (.bool true))], ""⟩] heap .undefined]

theorem inert_empty : hookedHeap.Inert none 255 (.object 1) :=
  .container rfl rfl fun _ hkey => absurd hkey List.not_mem_nil

theorem kept_root : Kept hookedHeap none 256 [rootFrame] := by
  refine ⟨(Frame.kept_inert rfl).mpr fun key hkey => ?_, trivial⟩
  obtain rfl := List.mem_singleton.mp hkey
  exact ⟨.object 1, rfl, inert_empty⟩

theorem noAsk {P : Prop} (h : false = true) : P := (Bool.false_ne_true h).elim

theorem resolution_guarded_method :
    Throughout plainWalk.step (Guarded plainWalk 1000) (plainWalk.start hookedHeap 1000 false) (visits hookedHeap) ∧
      (7 * 1000 + 7 ≤ (visits hookedHeap).length →
        ∃ o, (run plainWalk.step (plainWalk.start hookedHeap 1000 false) (visits hookedHeap)).phase = .done o) := by
  refine resolution_guarded plainWalk hookedHeap 1000 false (visits hookedHeap)
    ⟨⟨rfl, noAsk, ?_, nofun⟩, ⟨rfl, noAsk, nofun, ?_⟩, ⟨rfl, noAsk, ?_, nofun⟩, ⟨rfl, noAsk, nofun, ?_⟩,
      ⟨rfl, noAsk, nofun, ?_⟩, ⟨rfl, fun _ => kept_root, nofun, nofun⟩, ⟨rfl, fun _ => kept_root, nofun, nofun⟩,
      ⟨rfl, noAsk, ?_, nofun⟩, ⟨rfl, noAsk, nofun, ?_⟩, trivial⟩
  · rintro key v hooked p unwrapped hphase hkind
    cases hphase
    cases hkind
  · rintro f rest - hframes - -
    cases hframes
    rfl
  · rintro key v hooked p unwrapped hphase hkind
    cases hphase
    cases hkind
  · rintro f rest - hframes - -
    cases hframes
    rfl
  · rintro f rest - hframes - -
    cases hframes
    rfl
  · rintro key v hooked p unwrapped hphase hkind
    cases hphase
    cases hkind
    rfl
  · rintro f rest - hframes - -
    cases hframes
    rfl

/-- The method of the second element puts the first into itself. -/
theorem resolution_guarded_deepened :
    ¬∀ (w : Walk) (heap : Heap) (gas : ℕ) (poison : Bool) (replies : List Reply),
      Meets w.step (fun s r => r.pool = s.pool) (w.start heap gas poison) replies →
        Throughout w.step (Guarded w gas) (w.start heap gas poison) replies := by
  intro hclaim
  have hmeets : Meets plainWalk.step (fun s r => r.pool = s.pool) (plainWalk.start hookedHeap 1000 false)
      (visits deepened) := ⟨rfl, rfl, rfl, rfl, rfl, rfl, rfl, rfl, rfl, trivial⟩
  have hguarded := hclaim plainWalk hookedHeap 1000 false (visits deepened) hmeets (visits deepened) [] rfl
  have hhanded : deepened.Settled none 256 (.node true [("0", .ref 1), ("1", .leaf (.bool true))]) :=
    hguarded.handed _ rfl
  have hinert : deepened.Inert none 255 (.object 1) := hhanded ("0", .ref 1) List.mem_cons_self
  exact Heap.not_inert_cycle rfl (List.mem_singleton.mpr rfl) rfl hinert

end XChainVM.Stringify
