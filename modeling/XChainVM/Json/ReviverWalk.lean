import Mathlib
import XChainVM.Json.Internalize

/-! # How deep a reviver is walked

What the native parser builds is nested no deeper than the text it was given, so the walk stays
within the limit of the guard, as long as the code it runs leaves nothing deeper where it has still
to go.
-/

namespace XChainVM.Json

open Harness Machine

inductive Literal : Text → Prop where
  | nil : Literal []
  | unit {ch : ℕ} {t : Text} : ch ≠ 34 → ch ≠ 92 → Literal t → Literal (ch :: t)
  | escape (ch : ℕ) {t : Text} : Literal t → Literal (92 :: ch :: t)

def IsPair (opening closing : ℕ) : Prop := opening = 91 ∧ closing = 93 ∨ opening = 123 ∧ closing = 125

/-- A piece of JSON text that closes what it opens, with the containers it spells. What stands in a
container are the containers spelled between its brackets, and values without containers. -/
inductive Spells (h : Heap) : Text → List ℕ → Prop where
  | nil : Spells h [] []
  | unit {ch : ℕ} {t : Text} {ids : List ℕ} : ch ∉ [34, 91, 93, 123, 125] → Spells h t ids → Spells h (ch :: t) ids
  | literal {body t : Text} {ids : List ℕ} : Literal body → Spells h t ids → Spells h (34 :: body ++ 34 :: t) ids
  | container {opening closing id : ℕ} {inner t : Text} {parts ids : List ℕ} : IsPair opening closing →
      Spells h inner parts → (∀ name v, h.own? id name = some v → ∀ part, v = .object part → part ∈ parts) →
        Spells h t ids → Spells h (opening :: inner ++ closing :: t) (id :: ids)

def containers : Val → List ℕ
  | .prim _ => []
  | .object id => [id]

/-- The value the native parser has built, as the one property of a new holder. -/
structure Built (t : Text) where
  heap : Heap
  root : ℕ
  value : Val
  held : heap.own? root "" = some value
  spelled : Spells heap t (containers value)

theorem scan_literal {limit depth : ℕ} {body : Text} (h : Literal body) (rest : Text) :
    scan limit depth .literal (body ++ 34 :: rest) = scan limit depth .outside rest := by
  induction h with
  | nil => rfl
  | unit h34 h92 _ ih =>
    rw [List.cons_append, scan, if_neg h92, if_neg h34]
    exact ih
  | escape ch _ ih => exact ih

/-- A piece that passes the scan leaves it at the depth it started from, and spells nothing deeper than
the rest of the limit. -/
theorem nested_of_scan {limit : ℕ} {h : Heap} {t : Text} {ids : List ℕ} (hspells : Spells h t ids) :
    ∀ depth rest, (scan limit depth .outside (t ++ rest)).isSome = true →
      scan limit depth .outside (t ++ rest) = scan limit depth .outside rest ∧
        ∀ id ∈ ids, h.Nested (limit - depth) (.object id) := by
  induction hspells with
  | nil => exact fun depth rest _ => ⟨rfl, nofun⟩
  | @unit ch t ids hch _ ih =>
    intro depth rest hsome
    have hplain : Plain [ch] := by
      intro x hx
      obtain rfl := List.mem_singleton.mp hx
      exact hch
    have hskip : scan limit depth .outside (ch :: t ++ rest) = scan limit depth .outside (t ++ rest) :=
      scan_plain hplain (t ++ rest)
    rw [hskip] at hsome ⊢
    exact ih depth rest hsome
  | @literal body t ids hbody _ ih =>
    intro depth rest hsome
    have hskip : scan limit depth .outside (34 :: body ++ 34 :: t ++ rest) =
        scan limit depth .outside (t ++ rest) := by
      rw [List.append_assoc]
      exact scan_literal hbody (t ++ rest)
    rw [hskip] at hsome ⊢
    exact ih depth rest hsome
  | @container opening closing id inner t parts ids hpair _ hparts _ ihinner ih =>
    intro depth rest hsome
    have hopen : scan limit depth .outside (opening :: (inner ++ closing :: (t ++ rest))) =
        if depth + 1 > limit then none else scan limit (depth + 1) .outside (inner ++ closing :: (t ++ rest)) := by
      obtain ⟨rfl, -⟩ | ⟨rfl, -⟩ := hpair <;> rfl
    have hclose : scan limit (depth + 1) .outside (closing :: (t ++ rest)) =
        scan limit depth .outside (t ++ rest) := by
      obtain ⟨-, rfl⟩ | ⟨-, rfl⟩ := hpair <;> rfl
    have htext : opening :: inner ++ closing :: t ++ rest = opening :: (inner ++ closing :: (t ++ rest)) := by simp
    rw [htext, hopen] at hsome ⊢
    split at hsome
    · cases hsome
    · next hroom =>
      rw [if_neg hroom]
      obtain ⟨hinner, hnested⟩ := ihinner (depth + 1) (closing :: (t ++ rest)) hsome
      rw [hinner, hclose] at hsome ⊢
      obtain ⟨hrest, hids⟩ := ih depth rest hsome
      refine ⟨hrest, fun x hx => ?_⟩
      obtain rfl | hx := List.mem_cons.mp hx
      · have hsucc : limit - depth = (limit - (depth + 1)) + 1 := by omega
        rw [hsucc]
        intro name _ v hv
        cases v with
        | prim p => exact h.nested_prim _ p
        | object part => exact hnested part (hparts name _ hv part rfl)
      · exact hids x hx

/-- Everything still to be visited in these containers is nested within the rest of the limit. -/
def Bounded (limit : ℕ) (h : Heap) : List Frame → Prop
  | [] => True
  | f :: rest =>
    (∀ name ∈ f.names, ∀ v, h.own? f.holder name = some v → h.Nested (limit - rest.length) v) ∧ Bounded limit h rest

/-- The code that runs during the walk leaves nothing deeper where the walk has still to go, and a
getter answers nothing deeper. -/
def Tame (limit : ℕ) (w : Walk) : Event → Prop
  | .visit heap answer =>
    match w.phase, w.frames with
    | .visit, ⟨name, holder, next :: names⟩ :: rest =>
      w.heap.own? holder next = none →
        Bounded limit heap (⟨name, holder, names⟩ :: rest) ∧ heap.Nested (limit - rest.length) answer
    | _, _ => True
  | .revived heap answer refused =>
    match w.phase with
    | .revive name _ => Bounded limit (w.answered name heap answer refused) w.frames
    | _ => True
  | .threw => True

structure Shallow (limit : ℕ) (w : Walk) : Prop where
  bounded : Bounded limit w.heap w.frames
  within : w.frames.length ≤ limit + 1

variable {limit : ℕ} {w : Walk}

/-- A container that is entered is within the limit, and so is what stands in it. -/
theorem Shallow.enter {f : Frame} {rest : List Frame} (h : Shallow limit w) (hframes : w.frames = f :: rest)
    (name : String) {v : Val} (hv : w.heap.Nested (limit - rest.length) v) : Shallow limit (w.enter name v) := by
  cases v with
  | prim p => exact ⟨h.bounded, h.within⟩
  | object id =>
    cases hroom : limit - rest.length with
    | zero =>
      rw [hroom] at hv
      cases hv
    | succ n =>
      rw [hroom] at hv
      constructor
      · refine ⟨fun name hname v hown => ?_, h.bounded⟩
        have hlevel : limit - w.frames.length = n := by
          rw [hframes, List.length_cons]
          omega
        rw [hlevel]
        exact hv name hname v hown
      · change w.frames.length + 1 ≤ limit + 1
        rw [hframes, List.length_cons]
        omega

theorem shallow_visit (h : Shallow limit w) (hphase : w.phase = .visit) (heap : Heap) (answer : Val)
    (htame : Tame limit w (.visit heap answer)) : Shallow limit (w.visit heap answer) := by
  obtain ⟨start, frames, phase⟩ := w
  obtain rfl : phase = .visit := hphase
  match frames, h, htame with
  | [], _, _ => exact ⟨trivial, Nat.zero_le _⟩
  | [⟨name, holder, []⟩], _, _ => exact ⟨trivial, Nat.zero_le _⟩
  | ⟨name, holder, []⟩ :: f :: rest, h, _ =>
    exact ⟨h.bounded.2, (Nat.le_succ _).trans h.within⟩
  | ⟨name, holder, next :: names⟩ :: rest, h, htame =>
    obtain ⟨⟨hnames, hrest⟩, hwithin⟩ := h
    have hframes : Bounded limit start (⟨name, holder, names⟩ :: rest) :=
      ⟨fun x hx v hown => hnames x (List.mem_cons_of_mem _ hx) v hown, hrest⟩
    unfold Walk.visit
    dsimp only
    split
    · next v hown =>
      have hread : Shallow limit ⟨start, ⟨name, holder, names⟩ :: rest, .visit⟩ := ⟨hframes, hwithin⟩
      exact hread.enter rfl next (hnames next List.mem_cons_self v hown)
    · next hnone =>
      obtain ⟨hbounded, hanswer⟩ := htame hnone
      have hread : Shallow limit ⟨heap, ⟨name, holder, names⟩ :: rest, .visit⟩ := ⟨hbounded, hwithin⟩
      exact hread.enter rfl next hanswer

theorem shallow_step (w : Walk) (e : Event) (h : Shallow limit w) (htame : Tame limit w e) :
    Shallow limit (step w e) := by
  unfold step
  split
  · next heap answer hphase => exact shallow_visit h hphase heap answer htame
  · next name v heap answer refused hphase =>
    refine ⟨?_, h.within⟩
    rw [Tame, hphase] at htame
    exact htame
  · exact h
  · exact ⟨trivial, Nat.zero_le _⟩
  · exact h

/-- The walk of a parsed value starts within the limit. -/
theorem shallow_start {t : Text} (hscan : (scan limit 0 .outside t).isSome = true) (b : Built t) :
    Shallow limit (.start b.heap b.root) := by
  refine ⟨⟨?_, trivial⟩, Nat.le_add_left _ _⟩
  intro name hname v hown
  obtain rfl : name = "" := List.mem_singleton.mp hname
  obtain rfl : b.value = v := Option.some.inj (b.held.symm.trans hown)
  rw [List.append_nil t |>.symm] at hscan
  obtain ⟨-, hids⟩ := nested_of_scan b.spelled 0 [] hscan
  cases hvalue : b.value with
  | prim p => exact b.heap.nested_prim _ p
  | object id =>
    rw [hvalue] at hids
    exact hids id List.mem_cons_self

/-- Where the contract keeps what is still to be visited within the limit, the walk stays within it. -/
theorem walk_within_limit (limit : ℕ) (stackPoison : Bool) (allocGas : ℕ → Bool) (a : Argument) (t : Text)
    (hparse : parse limit stackPoison allocGas a = .native t) (b : Built t) (events : List Event)
    (htame : Meets step (Tame limit) (.start b.heap b.root) events) :
    Throughout step (fun w => w.depth ≤ limit) (.start b.heap b.root) events := by
  have hstart : Shallow limit (.start b.heap b.root) := shallow_start (scan_of_native hparse) b
  intro first second hevents
  have hshallow := htame.throughout shallow_step hstart first second hevents
  have hwithin := hshallow.within
  unfold Walk.depth
  omega

def dataSlot (name : String) (v : Val) : String × Slot := (name, ⟨true, some v⟩)

def emptyObject : Object := ⟨false, 0, []⟩

/-- `[0,0]`, held by a new object. -/
def twoElements : Heap
  | 0 => ⟨false, 0, [dataSlot "" (.object 1)]⟩
  | 1 => ⟨true, 2, [dataSlot "0" (.number (.finite 0)), dataSlot "1" (.number (.finite 0))]⟩
  | _ => emptyObject

/-- The reviver has put an array that holds itself in the place of the second element. -/
def rewritten : Heap
  | 1 => ⟨true, 2, [dataSlot "0" (.number (.finite 0)), dataSlot "1" (.object 2)]⟩
  | 2 => ⟨true, 1, [dataSlot "0" (.object 2)]⟩
  | id => twoElements id

def twoElementsText : Text := [91, 48, 44, 48, 93]

def builtTwo : Built twoElementsText where
  heap := twoElements
  root := 0
  value := .object 1
  held := rfl
  spelled := by
    refine .container (.inl ⟨rfl, rfl⟩) (.unit (by decide) (.unit (by decide) (.unit (by decide) .nil))) ?_ .nil
    intro name v hown part hv
    subst hv
    by_cases hzero : name = "0"
    · subst hzero
      cases hown
    · by_cases hone : name = "1"
      · subst hone
        cases hown
      · have hfirst : (name == "0") = false := by simpa using hzero
        have hsecond : (name == "1") = false := by simpa using hone
        simp [Heap.own?, twoElements, dataSlot, List.lookup, hfirst, hsecond] at hown

/-- The reviver has put an array with a getter in the place of the second element. -/
def deepened : Heap
  | 1 => ⟨true, 2, [dataSlot "0" (.number (.finite 0)), dataSlot "1" (.object 2)]⟩
  | 2 => ⟨true, 2, [("0", ⟨true, none⟩), dataSlot "1" (.object 3)]⟩
  | 3 => ⟨true, 1, [dataSlot "0" (.number (.finite 5))]⟩
  | id => twoElements id

def deepenedFirst : Heap := deepened.writeBack 1 "0" (.number (.finite 7))

/-- The visits up to the innermost array, which the getter of the new array answers. -/
def toInnermost : List Event :=
  [.visit twoElements .undefined, .visit twoElements .undefined, .revived deepened (.number (.finite 7)) false,
    .visit deepenedFirst .undefined, .visit deepenedFirst (.object 3)]

theorem nested_innermost (n : ℕ) : deepenedFirst.Nested (n + 1) (.object 3) := by
  intro name hname v hown
  obtain rfl : name = "0" := List.mem_singleton.mp hname
  cases hown
  exact deepenedFirst.nested_prim n _

/-- The new array may be nested in two containers more. -/
theorem nested_deepened (n : ℕ) : deepenedFirst.Nested (n + 2) (.object 2) := by
  intro name hname v hown
  obtain rfl | hname := List.mem_cons.mp hname
  · cases hown
  · obtain rfl := List.mem_singleton.mp hname
    cases hown
    exact nested_innermost n

/-- The reviver and the getter leave arrays where the walk has still to go, and the walk goes into them. -/
theorem walk_within_limit_deepened :
    Throughout step (fun w => w.depth ≤ 256) (.start twoElements 0) toInnermost ∧
      (run step (.start twoElements 0) toInnermost).depth = 3 := by
  constructor
  · apply walk_within_limit 256 false (fun _ => true) (.text twoElementsText) twoElementsText rfl builtTwo
    refine ⟨fun hnone => ?_, fun hnone => ?_, ⟨?_, ?_, trivial⟩, fun hnone => ?_, fun _ => ⟨⟨?_, ?_, ?_, trivial⟩, ?_⟩, trivial⟩
    · cases hnone
    · cases hnone
    · intro name hname v hown
      obtain rfl := List.mem_singleton.mp hname
      cases hown
      exact nested_deepened 253
    · intro name hname
      cases hname
    · cases hnone
    · intro name hname v hown
      obtain rfl := List.mem_singleton.mp hname
      cases hown
      exact nested_innermost 253
    · intro name hname
      cases hname
    · intro name hname
      cases hname
    · exact nested_innermost 253
  · rfl

def answeredFirst : Heap := rewritten.writeBack 1 "0" (.number (.finite 0))

/-- The visits up to the second element, with the reviver called for the first. -/
def toSecond : List Event :=
  [.visit twoElements .undefined, .visit twoElements .undefined, .revived rewritten (.number (.finite 0)) false,
    .visit answeredFirst .undefined]

/-- Inside an array that holds itself, every visit goes deeper. -/
theorem frames_run_cycle {h : Heap} {id : ℕ} (hnames : h.names id = ["0"]) (hown : h.own? id "0" = some (.object id))
    (n : ℕ) : ∀ name rest, (run step ⟨h, ⟨name, id, ["0"]⟩ :: rest, .visit⟩
      (List.replicate n (.visit h .undefined))).frames.length = rest.length + 1 + n := by
  induction n with
  | zero => exact fun name rest => rfl
  | succ n ih =>
    intro name rest
    have hstep : step ⟨h, ⟨name, id, ["0"]⟩ :: rest, .visit⟩ (.visit h .undefined) =
        ⟨h, ⟨"0", id, ["0"]⟩ :: ⟨name, id, []⟩ :: rest, .visit⟩ := by
      simp [step, Walk.visit, Walk.enter, hown, hnames]
    rw [List.replicate_succ, run_cons, hstep, ih]
    simp only [List.length_cons]
    omega

/-- The reviver is called for the first element and writes into the second. -/
theorem walk_within_limit_rewritten :
    ¬∀ (limit : ℕ) (stackPoison : Bool) (allocGas : ℕ → Bool) (a : Argument) (t : Text),
      parse limit stackPoison allocGas a = .native t → ∀ (b : Built t) (events : List Event),
        Throughout step (fun w => w.depth ≤ limit) (.start b.heap b.root) events := by
  intro h
  have hdeep := h 256 false (fun _ => true) (.text twoElementsText) twoElementsText rfl builtTwo
    (toSecond ++ List.replicate 255 (.visit answeredFirst .undefined)) _ [] (List.append_nil _).symm
  have hsecond : run step (.start twoElements 0) toSecond =
      ⟨answeredFirst, [⟨"1", 2, ["0"]⟩, ⟨"", 1, []⟩, ⟨"", 0, []⟩], .visit⟩ := rfl
  rw [run_append] at hdeep
  change (run step (run step (.start twoElements 0) toSecond) _).depth ≤ 256 at hdeep
  rw [hsecond, Walk.depth, frames_run_cycle rfl rfl] at hdeep
  simp only [List.length_cons, List.length_nil] at hdeep
  omega

end XChainVM.Json
