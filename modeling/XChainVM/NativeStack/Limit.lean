import XChainVM.NativeStack.SparingSteps

/-! # The limit of the counter

Every level that may come back was within the limit when it was saved, and nothing is added without
a check. Only an apply reads its arguments in between.
-/

namespace XChainVM.NativeStack

open Machine

structure Hooks.Capped (s : Hooks) : Prop where
  depth : s.stackDepth ≤ s.limit
  acts : ∀ r ∈ s.acts, r.saved ≤ s.limit
  holds : ∀ x ∈ s.holds, x.p ≤ s.limit

def Live.level : Live → Depth
  | call (.apply _ p _ _ _) => p
  | call _ => 0
  | reading u found => found + u

def Capped (w : World) : Prop :=
  0 < w.hooks.limit → w.hooks.stackPoison = false →
    w.hooks.Capped ∧ ∀ l ∈ w.live, l.level ≤ w.hooks.limit

namespace Hooks.Capped

variable {s : Hooks}

theorem release (h : s.Capped) (id : Value) : (s.release id).Capped := by
  unfold Hooks.release
  split
  · next t holds heq =>
    have hholds := h.holds
    rw [heq] at hholds
    split
    · exact ⟨hholds t List.mem_cons_self, h.acts, fun x hx => hholds x (List.mem_cons_of_mem _ hx)⟩
    · exact h
  · exact h

theorem unwind (h : s.Capped) (token : Value) : (s.unwind token).Capped := by
  unfold Hooks.unwind
  split
  · next r acts heq =>
    have hacts := h.acts
    rw [heq] at hacts
    split
    · exact ⟨hacts r List.mem_cons_self, fun x hx => hacts x (List.mem_cons_of_mem _ hx),
        fun x hx => h.holds x ((List.dropWhile_suffix _).subset hx)⟩
    · exact h
  · exact h

end Hooks.Capped

theorem Hooks.release_limit (s : Hooks) (id : Value) : (s.release id).limit = s.limit := by
  unfold Hooks.release
  split
  · split <;> rfl
  · rfl

theorem Hooks.release_poison (s : Hooks) (id : Value) : (s.release id).stackPoison = s.stackPoison := by
  unfold Hooks.release
  split
  · split <;> rfl
  · rfl

theorem Hooks.unwind_limit (s : Hooks) (token : Value) : (s.unwind token).limit = s.limit := by
  unfold Hooks.unwind
  split
  · split <;> rfl
  · rfl

theorem Hooks.unwind_poison (s : Hooks) (token : Value) : (s.unwind token).stackPoison = s.stackPoison := by
  unfold Hooks.unwind
  split
  · split <;> rfl
  · rfl

namespace Capped

variable {w : World}

theorem of_hooks (h : Capped w) {s : Hooks} (hlimit : s.limit = w.hooks.limit)
    (hpoison : s.stackPoison = false → w.hooks.stackPoison = false)
    (hs : 0 < s.limit → w.hooks.Capped → s.Capped) : Capped { w with hooks := s } := by
  intro hpos hclean
  have hbefore := h (by rw [← hlimit]; exact hpos) (hpoison hclean)
  refine ⟨hs hpos hbefore.1, ?_⟩
  rw [hlimit]
  exact hbefore.2

theorem poison {s : Hooks} (h : s.stackPoison = true) : Capped { w with hooks := s } := by
  intro _ hclean
  rw [h] at hclean
  cases hclean

theorem pop {l : Live} {live : List Live} (h : Capped w) (hlive : w.live = l :: live) : Capped { w with live } := by
  intro hpos hclean
  obtain ⟨hhooks, hlevels⟩ := h hpos hclean
  refine ⟨hhooks, fun x hx => hlevels x ?_⟩
  rw [hlive]
  exact List.mem_cons_of_mem _ hx

theorem push (h : Capped w) {l : Live} (hl : 0 < w.hooks.limit → w.hooks.stackPoison = false → l.level ≤ w.hooks.limit) :
    Capped { w with live := l :: w.live } := by
  intro hpos hclean
  obtain ⟨hhooks, hlevels⟩ := h hpos hclean
  refine ⟨hhooks, fun x hx => ?_⟩
  obtain rfl | hx := List.mem_cons.mp hx
  · exact hl hpos hclean
  · exact hlevels x hx

theorem release (h : Capped w) (id : Value) : Capped { w with hooks := w.hooks.release id } := by
  refine h.of_hooks (w.hooks.release_limit id) ?_ fun _ hs => hs.release id
  rw [w.hooks.release_poison id]
  exact fun h => h

theorem unwind (h : Capped w) (token : Value) : Capped { w with hooks := w.hooks.unwind token } := by
  refine h.of_hooks (w.hooks.unwind_limit token) ?_ fun _ hs => hs.unwind token
  rw [w.hooks.unwind_poison token]
  exact fun h => h

/-- A record is pushed, and its units have been checked. -/
theorem record (h : Capped w) (token : Value) {u : Depth}
    (hroom : 0 < w.hooks.limit → w.hooks.stackDepth + u ≤ w.hooks.limit) :
    Capped
      { w with
        hooks :=
          { w.hooks with
            acts := ⟨token, w.hooks.stackDepth⟩ :: w.hooks.acts
            stackDepth := w.hooks.stackDepth + u } } := by
  refine h.of_hooks rfl id fun hpos hs => ⟨hroom hpos, ?_, hs.holds⟩
  intro r hr
  obtain rfl | hr := List.mem_cons.mp hr
  · exact hs.depth
  · exact hs.acts r hr

theorem hold (h : Capped w) (id : Value) {u : Depth}
    (hroom : 0 < w.hooks.limit → w.hooks.stackDepth + u ≤ w.hooks.limit) :
    Capped
      { w with
        hooks :=
          { w.hooks with
            holds := ⟨id, w.hooks.acts.length, w.hooks.stackDepth⟩ :: w.hooks.holds
            stackDepth := w.hooks.stackDepth + u } } := by
  refine h.of_hooks rfl (fun h => h) fun hpos hs => ⟨hroom hpos, hs.acts, ?_⟩
  intro x hx
  obtain rfl | hx := List.mem_cons.mp hx
  · exact hs.depth
  · exact hs.holds x hx

theorem tokens (h : Capped w) (k : ℕ) : Capped { w with tokens := k } := h

theorem start (limit : ℕ) : Capped (World.start limit) := by
  intro _ _
  refine ⟨⟨zero_le, nofun, nofun⟩, nofun⟩

theorem enter (h : Capped w) (k : ℕ) : Capped (w.enter k) := by
  unfold World.enter
  obtain ⟨poison, heq, hclean⟩ | ⟨heq, hroom⟩ := depthEnter_cases w.hooks (.frame w.tokens) (.number k)
  · rw [heq]
    exact (h.tokens _).of_hooks rfl hclean fun _ hs => ⟨hs.depth, hs.acts, hs.holds⟩
  · rw [heq]
    exact ((h.tokens _).record (.frame w.tokens) hroom).push fun _ _ => zero_le

theorem handEnter (h : Capped w) (k : Value) :
    Capped ({ w with tokens := w.tokens + 1 }.after (depthEnter (.hand w.tokens) k)) := by
  unfold World.after
  dsimp only
  obtain ⟨poison, heq, hclean⟩ | ⟨heq, hroom⟩ := depthEnter_cases w.hooks (.hand w.tokens) k
  · rw [heq]
    exact (h.tokens _).of_hooks rfl hclean fun _ hs => ⟨hs.depth, hs.acts, hs.holds⟩
  · rw [heq]
    exact (h.tokens _).record (.hand w.tokens) hroom

theorem after_depthExit (h : Capped w) (isOverflow : Bool) (args : List Value) :
    Capped (w.after (depthExit isOverflow args)) := by
  unfold depthExit
  split
  · split
    · exact poison rfl
    · exact h
  · split
    · exact h.unwind _
    · exact h
  · exact h

theorem after_arrspread (h : Capped w) (copied : Option ℕ) (mode id : Value) :
    Capped (w.after (arrspread copied mode id)) := by
  unfold arrspread
  split
  · exact h.release id
  · cases copied with
    | none => exact h
    | some n =>
      dsimp only
      split
      · obtain heq | ⟨heq, hroom⟩ := after_hold w n id
        · rw [heq]
          exact poison rfl
        · rw [heq]
          exact (h.release id).hold id hroom
      · exact h

theorem spread (h : Capped w) (n id : ℕ) : Capped (w.spread n id) := by
  unfold World.spread
  obtain heq | ⟨heq, hroom⟩ := hold_cases w.hooks n (.number id)
  · rw [heq]
    exact poison rfl
  · rw [heq]
    exact ((h.release (.number id)).hold (.number id) hroom).push fun _ _ => zero_le

theorem applyMeasure (h : Capped w) (n : ℕ) : Capped (w.applyMeasure n) := by
  unfold World.applyMeasure
  obtain heq | ⟨u, heq, hroom⟩ := applyMeasure_cases w.hooks n
  · rw [heq]
    exact poison rfl
  · rw [heq]
    exact h.push fun hpos _ => hroom hpos

/-- The arguments have left the counter where the check found it. -/
theorem applyStart {u found : Depth} {live : List Live} (h : Capped w) (hlive : w.live = .reading u found :: live)
    (hfound : w.hooks.stackDepth ≤ found) : Capped (w.applyStart u live) := by
  intro hpos hclean
  obtain ⟨hhooks, hlevels⟩ := h hpos hclean
  rw [hlive] at hlevels
  have hroom : w.hooks.stackDepth + u ≤ w.hooks.limit :=
    (add_le_add_left hfound u).trans (hlevels (.reading u found) List.mem_cons_self)
  refine ⟨⟨hroom, hhooks.acts, hhooks.holds⟩, fun x hx => ?_⟩
  obtain rfl | hx := List.mem_cons.mp hx
  · exact hhooks.depth
  · exact hlevels x (List.mem_cons_of_mem _ hx)

theorem applyFinish {u p : Depth} {q : ℤ} {acts holds : ℕ} {live : List Live} (h : Capped w)
    (hlive : w.live = .call (.apply u p q acts holds) :: live) :
    Capped ({ w with live }.after (applyFinish p q)) := by
  intro hpos hclean
  obtain ⟨hhooks, hlevels⟩ := h hpos hclean
  rw [hlive] at hlevels
  refine ⟨⟨hlevels _ List.mem_cons_self, hhooks.acts, hhooks.holds⟩, fun x hx => ?_⟩
  exact hlevels x (List.mem_cons_of_mem _ hx)

theorem exit {n : ℕ} {entry u : Depth} {live : List Live} (h : Capped w)
    (hlive : w.live = .call (.frame n entry u) :: live) : Capped (w.exit n entry live) :=
  (h.pop hlive).unwind (.frame n)

end Capped

theorem capped_step {w : World} (h : Capped w) {e : Event} (hspares : Spares w e) : Capped (step w e) := by
  cases e with
  | enter k => exact h.enter k
  | caught isOverflow => exact h.after_depthExit isOverflow [.plain .undefined]
  | exit =>
    dsimp only [step]
    split
    · next n entry u live hlive => exact h.exit hlive
    · exact h
  | spread n id => exact h.spread n id
  | spreadReturned =>
    dsimp only [step]
    split
    · next id u acts holds live hlive => exact (h.pop hlive).after_arrspread none (.number 2) id
    · exact h
  | spreadLeft =>
    dsimp only [step]
    split
    · next id u acts holds live hlive => exact h.pop hlive
    · exact h
  | applyMeasure n => exact h.applyMeasure n
  | applyStart =>
    dsimp only [step]
    split
    · next u found live hlive => exact h.applyStart hlive (hspares u found (by rw [hlive]; rfl))
    · exact h
  | applyStopped =>
    dsimp only [step]
    split
    · next u found live hlive => exact h.pop hlive
    · exact h
  | applyFinish =>
    dsimp only [step]
    split
    · next u p q acts holds live hlive => exact h.applyFinish hlive
    · exact h
  | handEnter k => exact h.handEnter k.value
  | handExit isOverflow args => exact h.after_depthExit isOverflow (args.map Arg.value)
  | handSpread copied mode id => exact h.after_arrspread copied mode.value id.value

end XChainVM.NativeStack
