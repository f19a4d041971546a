import XChainVM.Machine.Relate
import XChainVM.Reentrant.Pools

/-! # A call in its pool beside a call that is alone

A call at a nesting level runs in the pool of that level. As long as no element is found on the prototype,
what it does there is what it does in storage of its own, and the pools of the calls around it stay as
they are.
-/

namespace XChainVM.Reentrant

open Harness Js Machine Cut Stringify

variable {σ α β : Type}

def Inherited : Mark → Prop
  | .enter _ => False
  | .inherited _ => True

instance : DecidablePred Inherited
  | .enter _ => inferInstanceAs (Decidable False)
  | .inherited _ => inferInstanceAs (Decidable True)

/-- What a call leaves of the storage of the calls around it. -/
structure Kept (t t' : Scratch) : Prop where
  nested : t'.nested = t.nested
  frames : t'.frames = t.frames
  forwardList : t'.forwardList = t.forwardList
  cells : ∀ j < t.nested, t'.cells (.level j) = t.cells (.level j)

theorem Kept.refl (t : Scratch) : Kept t t := ⟨rfl, rfl, rfl, fun _ _ => rfl⟩

theorem Kept.trans {t t' t'' : Scratch} (h : Kept t t') (h' : Kept t' t'') : Kept t t'' where
  nested := h'.nested.trans h.nested
  frames := h'.frames.trans h.frames
  forwardList := h'.forwardList.trans h.forwardList
  cells j hj := (h'.cells j (h.nested.symm ▸ hj)).trans (h.cells j hj)

/-- Code that is entered does the same in both, and keeps the storage of the calls in progress. -/
def Faithful (m : Run (World σ × Scratch) α) (m' : Run (World σ) α) (s : World σ × Scratch) : Prop :=
  Alike Inherited (fun a t a' w => a = a' ∧ t.1 = w ∧ Kept s.2 t.2) (fun t w => t.1 = w ∧ Kept s.2 t.2) m m' s s.1

variable (k : ℕ) (t₀ : Scratch)

/-- Where a call at level `k` may leave off: the pools around it are those it found. -/
structure Outside (s : World σ × Scratch) (s' : World σ × Own) : Prop where
  world : s.1 = s'.1
  nested : s.2.nested = k + 1
  outer : ∀ j < k, s.2.cells (.level j) = t₀.cells (.level j)

/-- A call under way with so many frames, whose list is forwarded or not yet. -/
structure Inside (listed : Prop) (live : ℕ) (s : World σ × Scratch) (s' : World σ × Own) : Prop
    extends Outside k t₀ s s' where
  frames : s.2.frames = .level k
  cells : ∀ i < live, s.2.cells (.level k) i = s'.2.cells i ∧ (s'.2.cells i).isSome
  list : listed → s.2.forwardList = s'.2.forwardList

/-- Side by side, from states related by `P` to states related by `Q`. -/
def Beside (P Q : World σ × Scratch → World σ × Own → Prop) (m : Run (World σ × Scratch) α)
    (m' : Run (World σ × Own) α) : Prop :=
  ∀ s s', P s s' → Alike Inherited (fun a t a' t' => a = a' ∧ Q t t') (Outside k t₀) m m' s s'

variable {k t₀} {P Q R : World σ × Scratch → World σ × Own → Prop} {listed : Prop} {n : ℕ}
  {enter : Request → Run (World σ × Scratch) Val} {enter' : Request → Run (World σ) Val}

theorem Beside.bind {m : Run (World σ × Scratch) α} {m' : Run (World σ × Own) α}
    {f : α → Run (World σ × Scratch) β} {f' : α → Run (World σ × Own) β} (hm : Beside k t₀ P Q m m')
    (hf : ∀ a, Beside k t₀ Q R (f a) (f' a)) : Beside k t₀ P R (m >>= f) (m' >>= f') := by
  intro s s' h
  apply (hm s s' h).bind
  rintro a t _ t' ⟨rfl, hQ⟩
  exact hf a t t' hQ

theorem beside_pure (a : α) : Beside k t₀ P P (pure a) (pure a) := fun _ _ h => alike_pure ⟨rfl, h⟩

theorem beside_cutOff : Beside k t₀ P Q (cutOff : Run (World σ × Scratch) α) cutOff := fun _ _ _ => alike_cutOff

theorem Beside.mono_left {m : Run (World σ × Scratch) α} {m' : Run (World σ × Own) α} (h : Beside k t₀ Q R m m')
    (hPQ : ∀ s s', P s s' → Q s s') : Beside k t₀ P R m m' :=
  fun s s' hP => h s s' (hPQ s s' hP)

theorem Inside.weaken {m : ℕ} {s : World σ × Scratch} {s' : World σ × Own} (h : Inside k t₀ listed n s s')
    (hm : m ≤ n) : Inside k t₀ listed m s s' :=
  { h with cells := fun i hi => h.cells i (hi.trans_le hm) }

section Asked

variable (hP : ∀ s s', P s s' → Outside k t₀ s s')

include hP

theorem beside_world : Beside k t₀ P P (world : Run (World σ × Scratch) _) world :=
  fun s s' h _ => ⟨rfl, (hP s s' h).world, h⟩

theorem beside_raise (e : Thrown) : Beside k t₀ P Q (raise e : Run (World σ × Scratch) α) (raise e) :=
  fun s s' h => alike_raise e (hP s s' h)

theorem beside_gas (units : ℕ) : Beside k t₀ P P (gas units : Run (World σ × Scratch) _) (gas units) := by
  apply (beside_world hP).bind
  intro w
  split
  · exact beside_raise hP _
  · exact fun s s' h _ => ⟨rfl, rfl, h⟩

end Asked

theorem beside_poisonStack : Beside k t₀ (Inside k t₀ listed n) (Inside k t₀ listed n)
    (poisonStack : Run (World σ × Scratch) _) poisonStack := by
  intro s s' h _
  exact ⟨rfl, rfl, { h with world := by rw [h.world] }⟩

theorem alike_onFirst {κ τ : Type} {m : Run τ α} {m' : Run (World σ) β} {V : α → τ → β → World σ × κ → Prop}
    {E : τ → World σ × κ → Prop} {s : τ} {s' : World σ × κ}
    (h : Alike Inherited (fun a t b w => V a t b (w, s'.2)) (fun t w => E t (w, s'.2)) m m' s s'.1) :
    Alike Inherited V E m m'.onFirst s s' := by
  intro hwithout
  obtain ⟨hvisible, hends⟩ := h hwithout
  refine ⟨hvisible, ?_⟩
  rw [Eff.onFirst]
  rcases hm : (m s).2 with ⟨(_ | e) | a, t⟩ <;> rcases hm' : (m' s'.1).2 with ⟨(_ | e') | b, w⟩ <;>
    rw [hm, hm'] at hends <;> exact hends

/-- Code that is entered leaves a call under way as it is. -/
theorem Inside.kept {s : World σ × Scratch} {s' : World σ × Own} (h : Inside k t₀ listed n s s')
    {t : World σ × Scratch} {w : World σ} (hkept : Kept s.2 t.2) (hw : t.1 = w) :
    Inside k t₀ listed n t (w, s'.2) where
  world := hw
  nested := hkept.nested.trans h.nested
  outer j hj := (hkept.cells j (by rw [h.nested]; omega)).trans (h.outer j hj)
  frames := hkept.frames.trans h.frames
  cells i hi := by
    rw [hkept.cells k (by rw [h.nested]; omega)]
    exact h.cells i hi
  list hl := hkept.forwardList.trans (h.list hl)

section Hooks

variable (henter : ∀ r s, Faithful (enter r) (enter' r) s)

include henter

theorem faithful_visit (r : Request) (s : World σ × Scratch) : Faithful (visit enter r) (visit enter' r) s :=
  alike_step rfl rfl rfl (henter r s)

theorem beside_hook (r : Request) : Beside k t₀ (Inside k t₀ listed n) (Inside k t₀ listed n)
    ((poolStorage enter).hook r) ((ownStorage enter').hook r) := by
  intro s s' h
  apply alike_onFirst
  have hvisit := faithful_visit henter r s
  rw [Faithful, h.world] at hvisit
  apply hvisit.mono
  · rintro a t _ w ⟨rfl, hw, hkept⟩
    exact ⟨rfl, h.kept hkept hw⟩
  · rintro t w ⟨hw, hkept⟩
    exact (h.kept hkept hw).toOutside

end Hooks

section Frames

variable {i : ℕ} (hi : i < n)

include hi

theorem beside_frameAt {f : Loc → Run (World σ × Scratch) α} {f' : ℕ → Run (World σ × Own) α}
    (hf : Beside k t₀ (Inside k t₀ listed n) Q (f (.cell (.level k) i)) (f' i)) :
    Beside k t₀ (Inside k t₀ listed n) Q ((poolStorage enter).frameAt i >>= f)
      ((ownStorage enter').frameAt i >>= f') := by
  intro s s' h
  obtain ⟨heq, hsome⟩ := h.cells i hi
  have hleft : (poolStorage enter).frameAt i s = ([], .ok (.cell (.level k) i), s) := by
    simp only [poolStorage, frameAt, Eff.state_bind_apply, h.frames, heq, hsome]
    rfl
  have hright : (ownStorage enter').frameAt i s' = ([], .ok i, s') := by
    simp only [ownStorage, ownFrameAt, Eff.state_bind_apply, hsome]
    rfl
  exact alike_step hleft hright rfl (hf s s' h)

theorem beside_get : Beside k t₀ (Inside k t₀ listed n) (Inside k t₀ listed n)
    ((poolStorage enter).get (.cell (.level k) i)) ((ownStorage enter').get i) := by
  intro s s' h _
  refine ⟨rfl, ?_, h⟩
  rw [(h.cells i hi).1]

end Frames

theorem put_level (t : Scratch) (i : ℕ) (f : Frame) (pool : Pool) (j : ℕ) :
    (t.put (.level k) i f).cells pool j = if pool = .level k ∧ j = i then some f else t.cells pool j := by
  by_cases hpool : pool = .level k
  · subst hpool
    by_cases hj : j = i
    · subst hj
      simp [Scratch.put]
    · simp [Scratch.put, hj]
  · simp [Scratch.put, hpool]

theorem Own.put_cells (t : Own) (i : ℕ) (f : Frame) (j : ℕ) :
    (t.put i f).cells j = if j = i then some f else t.cells j := by
  by_cases hj : j = i
  · subst hj
    simp [Own.put]
  · simp [Own.put, hj]

/-- The same frame is written in both. -/
theorem Inside.put {s : World σ × Scratch} {s' : World σ × Own} (h : Inside k t₀ listed n s s') (i : ℕ)
    (f : Frame) : Inside k t₀ listed n (s.1, s.2.put (.level k) i f) (s'.1, s'.2.put i f) where
  world := h.world
  nested := h.nested
  outer j hj := by
    funext l
    have hne : ¬(Pool.level j = .level k ∧ l = i) := fun hjk => hj.ne (Pool.level.inj hjk.1)
    rw [put_level, if_neg hne, h.outer j hj]
  frames := h.frames
  cells j hj := by
    rw [put_level, Own.put_cells]
    by_cases hji : j = i
    · rw [if_pos ⟨rfl, hji⟩, if_pos hji]
      exact ⟨rfl, rfl⟩
    · rw [if_neg fun hand => hji hand.2, if_neg hji]
      exact h.cells j hj
  list := h.list

theorem beside_set (i : ℕ) (f : Frame) : Beside k t₀ (Inside k t₀ listed n) (Inside k t₀ listed n)
    ((poolStorage enter).set (.cell (.level k) i) f) ((ownStorage enter').set i f) :=
  fun _ _ h _ => ⟨rfl, rfl, h.put i f⟩

end XChainVM.Reentrant
