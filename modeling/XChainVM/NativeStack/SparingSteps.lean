import XChainVM.NativeStack.Accounting

/-! # Steps that spare the calls under way

Each step keeps a state explained, as long as no hook called by hand takes a level back from below a
spread call or an apply.
-/

namespace XChainVM.NativeStack

open Machine

/-- No call site and no hook called by hand takes back a hold or a frame from below a spread call or
an apply, and the arguments of an apply leave the counter where it was when their units were
checked. -/
def Spares (w : World) : Event → Prop
  | .spread _ id => SparesHolds w (.number id)
  | .handExit _ [token, mode] => mode = .number 0 → SparesFrames w token.value
  | .handSpread copied mode id =>
    mode = .number 2 ∨ mode = .number 1 ∧ copied.isSome = true → SparesHolds w id.value
  | .applyStart => ∀ u found, w.live.head? = some (.reading u found) → w.hooks.stackDepth ≤ found
  | _ => True

theorem Arg.value_ne_frame (a : Arg) (n : ℕ) : a.value ≠ .frame n := by
  cases a <;> exact nofun

theorem Arg.value_eq_number {a : Arg} {q : ℚ} : a.value = .number q ↔ a = .number q := by
  cases a <;> simp [Arg.value]

/-- A hold called by hand faults, or pushes a hold behind the one it has released. -/
theorem after_hold (w : World) (n : ℕ) (id : Value) :
    w.after (hold n id) =
        { w with hooks := { w.hooks.release id with stackPoison := true } } ∨
      w.after (hold n id) =
          { w with
            hooks :=
              { w.hooks.release id with
                holds := ⟨id, (w.hooks.release id).acts.length, (w.hooks.release id).stackDepth⟩ ::
                  (w.hooks.release id).holds
                stackDepth := (w.hooks.release id).stackDepth + units n CALL_UNITS } } ∧
        (0 < (w.hooks.release id).limit →
          (w.hooks.release id).stackDepth + units n CALL_UNITS ≤ (w.hooks.release id).limit) := by
  obtain hfault | ⟨hok, hroom⟩ := hold_cases w.hooks n id
  · left
    rw [World.after, hfault]
  · right
    rw [World.after, hok]
    exact ⟨rfl, hroom⟩

namespace Explained

variable {w : World}

theorem after_depthExit (h : Explained w) (isOverflow : Bool) (args : List Arg)
    (hspares : Spares w (.handExit isOverflow args)) :
    Explained (w.after (depthExit isOverflow (args.map Arg.value))) := by
  match args, hspares with
  | [], _ => exact h
  | [v], _ =>
    cases isOverflow with
    | false => exact h
    | true => exact h.poison true
  | [token, mode], hspares =>
    simp only [List.map_cons, List.map_nil, depthExit, Arg.value_eq_number]
    split
    · next hmode => exact h.unwind token.value_ne_frame (hspares hmode)
    · exact h
  | _ :: _ :: _ :: _, _ => exact h

theorem after_arrspread (h : Explained w) (copied : Option ℕ) (mode id : Arg)
    (hspares : Spares w (.handSpread copied mode id)) :
    Explained (w.after (arrspread copied mode.value id.value)) := by
  unfold arrspread
  split
  · next hmode => exact h.release (hspares (.inl (Arg.value_eq_number.mp hmode)))
  · cases copied with
    | none => exact h
    | some n =>
      dsimp only
      split
      · next hmode =>
        have hrelease := h.release (hspares (.inr ⟨Arg.value_eq_number.mp hmode, rfl⟩))
        obtain heq | ⟨heq, -⟩ := after_hold w n id.value
        · rw [heq]
          exact hrelease.poison true
        · rw [heq]
          exact hrelease.hold id.value (units n CALL_UNITS)
      · exact h

theorem enter (h : Explained w) (k : ℕ) : Explained (w.enter k) := by
  unfold World.enter
  obtain ⟨poison, heq, -⟩ | ⟨heq, -⟩ := depthEnter_cases w.hooks (.frame w.tokens) (.number k)
  · rw [heq]
    exact h.token.poison poison
  · rw [heq]
    exact h.frame (weight (.number k))

theorem handEnter (h : Explained w) (k : Value) :
    Explained ({ w with tokens := w.tokens + 1 }.after (depthEnter (.hand w.tokens) k)) := by
  unfold World.after
  dsimp only
  obtain ⟨poison, heq, -⟩ | ⟨heq, -⟩ := depthEnter_cases w.hooks (.hand w.tokens) k
  · rw [heq]
    exact h.token.poison poison
  · rw [heq]
    exact h.hand (weight k)

theorem spread_site (h : Explained w) {n id : ℕ} (hspares : SparesHolds w (.number id)) :
    Explained (w.spread n id) := by
  have hrelease := h.release hspares
  unfold World.spread
  obtain heq | ⟨heq, -⟩ := hold_cases w.hooks n (.number id)
  · rw [heq]
    exact hrelease.poison true
  · rw [heq]
    exact hrelease.spread (.number id) (units n CALL_UNITS)

/-- The hold of a spread call is still there when the call returns, so that none from before is
released. -/
theorem spreadReturned {id : Value} {u : Depth} {acts holds : ℕ} {live : List Live} (h : Explained w)
    (hlive : w.live = .call (.spread id u acts holds) :: live) :
    Explained ({ w with live }.after (arrspread none (.number 2) id)) := by
  have hleft : Explained { w with live } := h.leave hlive (by simp) rfl rfl (.inl le_rfl)
  refine hleft.release fun _ c hc => ?_
  obtain ⟨t, ht⟩ := h
  obtain ⟨front, back, rfl, -, hback⟩ := ht.split_call hlive (by simp)
  obtain ⟨⟨-, -, x, rest, rfl⟩, -, hrest⟩ := ht.sound.append_right
  have hcalls : World.calls { w with live } = Timeline.calls rest := hback.symm
  rw [hcalls] at hc
  have hle := hrest.calls_holds_le c (List.mem_of_mem_head? hc)
  change c.holds < w.hooks.holds.length
  rw [← ht.holds, Timeline.held_append, Timeline.held_cons, Timeline.held_cons, List.length_append, List.length_append]
  simp only [Entry.hold?, Option.toList_none, Option.toList_some, List.length_append, List.length_singleton]
  omega

theorem applyMeasure (h : Explained w) (n : ℕ) : Explained (w.applyMeasure n) := by
  unfold World.applyMeasure
  obtain heq | ⟨u, heq, -⟩ := applyMeasure_cases w.hooks n
  · rw [heq]
    exact h.poison true
  · rw [heq]
    obtain ⟨t, ht⟩ := h
    exact ⟨t, ht.congr rfl rfl rfl rfl rfl le_rfl⟩

end Explained

theorem explained_step {w : World} (h : Explained w) {e : Event} (hspares : Spares w e) : Explained (step w e) := by
  cases e with
  | enter k => exact h.enter k
  | caught isOverflow => exact h.after_depthExit isOverflow [.plain .undefined] trivial
  | exit =>
    dsimp only [step]
    split
    · next n entry u live hlive => exact (h.exit hlive).1
    · exact h
  | spread n id => exact h.spread_site hspares
  | spreadReturned =>
    dsimp only [step]
    split
    · next id u acts holds live hlive => exact h.spreadReturned hlive
    · exact h
  | spreadLeft =>
    dsimp only [step]
    split
    · next id u acts holds live hlive => exact h.leave hlive (by simp) rfl rfl (.inl le_rfl)
    · exact h
  | applyMeasure n => exact h.applyMeasure n
  | applyStart =>
    dsimp only [step]
    split
    · next u found live hlive => exact h.apply hlive
    · exact h
  | applyStopped =>
    dsimp only [step]
    split
    · next u found live hlive =>
      obtain ⟨t, ht⟩ := h
      refine ⟨t, ht.congr rfl rfl rfl ?_ rfl le_rfl⟩
      rw [World.calls, World.calls, hlive]
      rfl
    · exact h
  | applyFinish =>
    dsimp only [step]
    split
    · next u p q acts holds live hlive =>
      exact h.leave hlive (by simp) rfl rfl (.inr ⟨u, q, acts, holds, rfl⟩)
    · exact h
  | handEnter k => exact h.handEnter k.value
  | handExit isOverflow args => exact h.after_depthExit isOverflow args hspares
  | handSpread copied mode id => exact h.after_arrspread copied mode id hspares

end XChainVM.NativeStack
