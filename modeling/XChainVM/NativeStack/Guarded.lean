import XChainVM.NativeStack.Limit

/-! # Contracts cannot lower the counter

In every run that spares its spread calls and applies, the counter covers the calls under way, stays
within its limit until the fault, and is back at its entry value when a frame ends.
-/

namespace XChainVM.NativeStack

open Machine

/-- The counter is at least the units of the calls under way, is within the limit unless execution is
poisoned, and came back to its entry value at the end of each frame, unless the contract had left a
frame it entered by hand open. -/
structure Guarded (w : World) : Prop where
  accounted : w.load ≤ w.hooks.stackDepth
  bounded : 0 < w.hooks.limit → w.hooks.stackPoison = false → w.hooks.stackDepth ≤ w.hooks.limit
  restored : ∀ e ∈ w.exits, e.after = e.entry ∨ e.leftOpen = true

def Restored (w : World) : Prop := ∀ e ∈ w.exits, e.after = e.entry ∨ e.leftOpen = true

theorem exits_after {α : Type} (w : World) (m : Hook α) : (w.after m).exits = w.exits := by
  unfold World.after
  split <;> rfl

theorem exits_enter (w : World) (k : ℕ) : (w.enter k).exits = w.exits := by
  unfold World.enter
  dsimp only
  split <;> rfl

theorem exits_spread (w : World) (n id : ℕ) : (w.spread n id).exits = w.exits := by
  unfold World.spread
  split <;> rfl

theorem exits_applyMeasure (w : World) (n : ℕ) : (w.applyMeasure n).exits = w.exits := by
  unfold World.applyMeasure
  split <;> rfl

theorem exits_applyStart (w : World) (u : Depth) (live : List Live) : (w.applyStart u live).exits = w.exits := rfl

/-- Only the end of a frame is recorded. -/
theorem exits_step {w : World} {e : Event} (he : e ≠ .exit) : (step w e).exits = w.exits := by
  cases e with
  | exit => exact absurd rfl he
  | enter k => exact exits_enter w k
  | caught isOverflow => exact exits_after w _
  | spread n id => exact exits_spread w n id
  | spreadReturned =>
    dsimp only [step]
    split
    · exact exits_after _ _
    · rfl
  | spreadLeft =>
    dsimp only [step]
    split <;> rfl
  | applyMeasure n => exact exits_applyMeasure w n
  | applyStart =>
    dsimp only [step]
    split
    · exact exits_applyStart w _ _
    · rfl
  | applyStopped =>
    dsimp only [step]
    split <;> rfl
  | applyFinish =>
    dsimp only [step]
    split
    · exact exits_after _ _
    · rfl
  | handEnter k => exact exits_after _ _
  | handExit isOverflow args => exact exits_after w _
  | handSpread copied mode id => exact exits_after w _

theorem restored_step {w : World} (hw : Explained w) (h : Restored w) (e : Event) : Restored (step w e) := by
  by_cases he : e = .exit
  · subst he
    dsimp only [step]
    split
    · next n entry u live hlive =>
      intro x hx
      obtain rfl | hx := List.mem_cons.mp hx
      · exact (hw.exit hlive).2
      · exact h x hx
    · exact h
  · unfold Restored
    rw [exits_step he]
    exact h

theorem guarded_of_explained {w : World} (hw : Explained w) (hcapped : Capped w) (hrestored : Restored w) :
    Guarded w := by
  obtain ⟨t, ht⟩ := hw
  exact ⟨ht.accounted, fun hpos hclean => (hcapped hpos hclean).1.depth, hrestored⟩

/-- What a sparing step keeps. -/
theorem sparing_step (w : World) (e : Event) (h : Explained w ∧ Capped w ∧ Restored w) (hspares : Spares w e) :
    Explained (step w e) ∧ Capped (step w e) ∧ Restored (step w e) :=
  ⟨explained_step h.1 hspares, capped_step h.2.1 hspares, restored_step h.1 h.2.2 e⟩

/-- In every run that spares its calls, every state is guarded. -/
theorem counter_not_lowered (limit : ℕ) (events : List Event)
    (hspares : Meets step Spares (World.start limit) events) :
    Throughout step Guarded (World.start limit) events := by
  have hstart : Explained (World.start limit) ∧ Capped (World.start limit) ∧ Restored (World.start limit) :=
    ⟨.start limit, .start limit, nofun⟩
  intro first second hevents
  obtain ⟨hexplained, hcapped, hrestored⟩ := hspares.throughout sparing_step hstart first second hevents
  exact guarded_of_explained hexplained hcapped hrestored

/-- In a spread call, a default of a parameter makes another one, and a function releases a hold of
its own frame and finds none. -/
theorem counter_not_lowered_release :
    Throughout step Guarded (World.start 256)
      [.enter 1, .spread 3 0, .spread 70 1, .spreadReturned, .enter 1, .handSpread none (.number 2) (.number 0), .exit,
        .spreadReturned, .exit] :=
  counter_not_lowered 256 _
    ⟨trivial, fun hreleases => absurd hreleases (by decide +kernel),
      fun hreleases => absurd hreleases (by decide +kernel), trivial, trivial,
      fun _ hreleases => absurd hreleases (by decide +kernel), trivial, trivial, trivial, trivial⟩

/-- `f(...a)` calls `__arrspread(0, 2, 0)` through no frame of the contract, as a bound `valueOf`. -/
theorem counter_not_lowered_bound :
    ¬∀ (limit : ℕ) (events : List Event), Throughout step Guarded (World.start limit) events := by
  intro h
  have hguarded := h 256 [.enter 1, .spread 3 0, .handSpread none (.number 2) (.number 0)]
    [.enter 1, .spread 3 0, .handSpread none (.number 2) (.number 0)] [] rfl
  exact absurd hguarded.accounted (by decide +kernel)

end XChainVM.NativeStack
