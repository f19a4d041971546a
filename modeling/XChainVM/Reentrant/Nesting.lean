import XChainVM.Reentrant.Resolution

/-! # Calls within calls

Every call of `JSON.stringify`, at whatever level it is made, does what it would do alone, and leaves the
storage of the calls in progress as it found it. The calls within it are a level deeper, by induction on
the depth to which code is entered.
-/

namespace XChainVM.Reentrant

open Harness Js Machine Cut Stringify

variable {σ α β : Type} {p : Program σ} {rounds : ℕ} {enter : Request → Run (World σ × Scratch) Val}
  {enter' : Request → Run (World σ) Val}

theorem alike_alone {κ τ : Type} {m : Run τ α} {m' : Run (World σ × κ) β} {start : κ}
    {V : α → τ → β → World σ × κ → Prop} {E : τ → World σ × κ → Prop} {s : τ} {w : World σ}
    (h : Alike Inherited V E m m' s (w, start)) :
    Alike Inherited (fun a t b w => ∃ o, V a t b (w, o)) (fun t w => ∃ o, E t (w, o)) m (alone m' start) s w := by
  intro hwithout
  obtain ⟨hvisible, hends⟩ := h hwithout
  refine ⟨hvisible, ?_⟩
  rw [alone]
  rcases hm : (m s).2 with ⟨(_ | e) | a, t⟩ <;> rcases hm' : (m' (w, start)).2 with ⟨(_ | e') | b, w', o⟩ <;>
    rw [hm, hm'] at hends
  · trivial
  · exact hends.elim
  · exact hends.elim
  · exact hends.elim
  · exact ⟨hends.1, o, hends.2⟩
  · exact hends.elim
  · exact hends.elim
  · exact hends.elim
  · exact ⟨o, hends⟩

/-- The level has its pool, or gets it. -/
theorem poolFor_cases (s : World σ × Scratch) :
    (∃ made, poolFor s = ([], .ok (.level s.2.nested), s.1, { s.2 with made })) ∨
      ∃ i, poolFor s = ([.effect (.inherited i)], .ok (.found i), s) := by
  rcases hmade : s.2.made s.2.nested with _ | _
  · rcases hfound : s.1.inherited s.2.nested with _ | f
    · refine .inl ⟨Function.update s.2.made s.2.nested true, ?_⟩
      simp [poolFor, hmade, hfound, modify, bind, Eff.bind, Eff.state, pure, Eff.pure]
    · refine .inr ⟨s.2.nested, ?_⟩
      simp [poolFor, hmade, hfound, bind, Eff.bind, Eff.state, Eff.emit, pure, Eff.pure]
  · refine .inl ⟨s.2.made, ?_⟩
    simp [poolFor, hmade, bind, Eff.bind, Eff.state, pure, Eff.pure]

theorem alike_allocText (v : Val) (s : World σ × Scratch) :
    Alike Inherited (fun _ t _ w => t = s ∧ w = s.1) (fun t w => t = s ∧ w = s.1) (allocText v)
      (alone (allocText v) ()) s s.1 := by
  intro _
  rw [alone]
  unfold allocText
  split
  · split
    · cases h : s.1.poison <;>
        simp [gas, world, h, bind, Eff.bind, Eff.charge, raise, Eff.throw, Cut.Ends]
    · exact ⟨rfl, rfl, rfl⟩
  · exact ⟨rfl, rfl, rfl⟩

/-- A call for which the level has its pool. -/
theorem inside_start {s : World σ × Scratch} (made : ℕ → Bool) : Inside s.2.nested s.2 False 0
    (s.1, { s.2 with made, frames := .level s.2.nested, nested := s.2.nested + 1 }) (s.1, Own.start) where
  world := rfl
  nested := rfl
  outer _ _ := rfl
  frames := rfl
  cells _ hi := absurd hi (Nat.not_lt_zero _)
  list := False.elim

/-- What the `finally` of a call leaves. -/
theorem Outside.kept {t₀ : Scratch} {s : World σ × Scratch} {s' : World σ × Own} (h : Outside t₀.nested t₀ s s') :
    Kept t₀ { s.2 with nested := s.2.nested - 1, frames := t₀.frames, forwardList := t₀.forwardList } where
  nested := by
    change s.2.nested - 1 = _
    rw [h.nested, Nat.add_sub_cancel]
  frames := rfl
  forwardList := rfl
  cells := h.outer

/-- What is kept is kept from further back. -/
theorem Faithful.since {m : Run (World σ × Scratch) α} {m' : Run (World σ) α} {s t : World σ × Scratch}
    (h : Faithful m m' t) (hkept : Kept s.2 t.2) :
    Alike Inherited (fun a t a' w => a = a' ∧ t.1 = w ∧ Kept s.2 t.2) (fun t w => t.1 = w ∧ Kept s.2 t.2)
      m m' t t.1 := by
  apply h.mono
  · rintro a t' _ w ⟨rfl, hw, hkept'⟩
    exact ⟨rfl, hw, hkept.trans hkept'⟩
  · rintro t' w ⟨hw, hkept'⟩
    exact ⟨hw, hkept.trans hkept'⟩

theorem Faithful.resume {m : Run (World σ × Scratch) α} {m' : Run (World σ) α}
    {f : Except Thrown α → Run (World σ × Scratch) β} {f' : Except Thrown α → Run (World σ) β}
    {s : World σ × Scratch} (hm : Faithful m m' s) (hf : ∀ a s, Faithful (f a) (f' a) s) :
    Faithful (resume m f) (resume m' f') s := by
  apply Alike.resume hm
  · rintro a t _ w ⟨rfl, rfl, hkept⟩
    exact (hf _ t).since hkept
  · rintro e t w ⟨rfl, hkept⟩
    exact (hf _ t).since hkept

theorem faithful_answer (a : Except Thrown α) (s : World σ × Scratch) : Faithful (answer a) (answer a) s := by
  cases a with
  | ok a => exact alike_pure ⟨rfl, rfl, .refl _⟩
  | error e => exact alike_raise e ⟨rfl, .refl _⟩

theorem faithful_change (m : World σ → Except Thrown Val × World σ) (s : World σ × Scratch) :
    Faithful (change m).onFirst (change m) s := by
  intro _
  refine ⟨rfl, ?_⟩
  rw [Eff.onFirst, change]
  rcases m s.1 with ⟨e | a, w⟩
  · exact ⟨rfl, rfl, .refl _⟩
  · exact ⟨rfl, rfl, .refl _⟩

section Entered

variable (henter : ∀ r s, Faithful (enter r) (enter' r) s)

include henter

/-- The part of a call that is inside its `try`, with the `finally`. -/
theorem alike_resolving (value replacer : Val) (s : World σ × Scratch) (made : ℕ → Bool) :
    Alike Inherited (fun a t a' w => a = a' ∧ t.1 = w ∧ Kept s.2 t.2) (fun t w => t.1 = w ∧ Kept s.2 t.2)
      (ending (do
          let copy ← (poolStorage enter).resolveForStringify p rounds value replacer
          let s ← Eff.state
          pure (copy, s.2.forwardList))
        (modify fun t =>
          { t with nested := t.nested - 1, frames := s.2.frames, forwardList := s.2.forwardList }))
      (alone (do
        let copy ← (ownStorage enter').resolveForStringify p rounds value replacer
        let s ← Eff.state
        pure (copy, s.2.forwardList)) Own.start)
      (s.1, { s.2 with made, frames := .level s.2.nested, nested := s.2.nested + 1 }) s.1 := by
  have hresolve := beside_resolveForStringify henter p rounds value replacer _ _ (inside_start (s := s) made)
  have hhanded : Alike Inherited (fun a t a' t' => a = a' ∧ Outside s.2.nested s.2 t t') (Outside s.2.nested s.2)
      (do
        let copy ← (poolStorage enter).resolveForStringify p rounds value replacer
        let s ← Eff.state
        pure (copy, s.2.forwardList))
      (do
        let copy ← (ownStorage enter').resolveForStringify p rounds value replacer
        let s ← Eff.state
        pure (copy, s.2.forwardList))
      (s.1, { s.2 with made, frames := .level s.2.nested, nested := s.2.nested + 1 }) (s.1, Own.start) := by
    apply hresolve.bind
    rintro copy t _ t' ⟨rfl, h⟩
    rw [Alike, Eff.state_bind_apply, Eff.state_bind_apply]
    exact fun _ => ⟨rfl, by rw [h.list trivial], h.toOutside⟩
  rw [← resume_answer (alone _ _)]
  apply (alike_alone hhanded).resume
  · rintro a t _ w ⟨o, rfl, h⟩
    exact fun _ => ⟨rfl, rfl, h.world, h.kept⟩
  · rintro e t w ⟨o, h⟩
    exact fun _ => ⟨rfl, rfl, h.world, h.kept⟩

theorem faithful_stringify (value replacer space : Val) (s : World σ × Scratch) :
    Faithful (p.stringify rounds enter value replacer space) (p.stringifyAlone rounds enter' value replacer space)
      s := by
  rw [Faithful, Program.stringify]
  apply alike_left rfl rfl
  rcases poolFor_cases s with ⟨made, hpool⟩ | ⟨i, hpool⟩
  · apply alike_left hpool rfl
    apply alike_left rfl rfl
    apply (alike_resolving henter value replacer s made).bind
    rintro handed t _ w ⟨rfl, rfl, hkept⟩
    apply ((faithful_visit henter _ t).since hkept).bind
    rintro answer t' _ w ⟨rfl, rfl, hkept'⟩
    apply ((alike_allocText answer t').mono (fun _ _ _ _ h => h) fun _ _ h => ?_).bind
    · rintro _ t'' _ w ⟨rfl, rfl⟩
      exact alike_pure ⟨rfl, rfl, hkept'⟩
    · obtain ⟨rfl, rfl⟩ := h
      exact ⟨rfl, hkept'⟩
  · intro hwithout
    rw [Eff.bind_ok hpool] at hwithout
    exact (hwithout (.inherited i) (List.mem_cons_self ..) trivial).elim

theorem faithful_run (code : Code σ) (s : World σ × Scratch) :
    Faithful (code.run (fun m => (change m).onFirst) (p.stringify rounds enter))
      (code.run change (p.stringifyAlone rounds enter')) s := by
  induction code generalizing s with
  | done a => exact faithful_answer a s
  | act m next ih => exact (faithful_change m s).resume ih
  | stringify value replacer space next ih =>
    exact (faithful_stringify henter value replacer space s).resume ih

end Entered

theorem faithful_enter (p : Program σ) (rounds depth : ℕ) (r : Request) (s : World σ × Scratch) :
    Faithful (p.enter rounds depth r) (p.enterAlone rounds depth r) s := by
  induction depth generalizing r s with
  | zero => exact alike_cutOff
  | succ depth ih => exact faithful_run ih (p.code r) s

/-- A run with the shared pools, beside the same run with private storage. A run that is cut off is still
under way. -/
structure AsAlone (t : Scratch) (shared : List (Note Mark) × Except (Option Thrown) α × World σ × Scratch)
    (own : List (Note Mark) × Except (Option Thrown) α × World σ) : Prop where
  effects : visible shared.1 = visible own.1
  answer : shared.2.1 = own.2.1
  world : shared.2.1 ≠ .error none → shared.2.2.1 = own.2.2
  kept : shared.2.1 ≠ .error none → Kept t shared.2.2.2

theorem Faithful.asAlone {m : Run (World σ × Scratch) α} {m' : Run (World σ) α} {s : World σ × Scratch}
    (h : Faithful m m' s) (hclean : Without Inherited (m s).1) : AsAlone s.2 (m s) (m' s.1) := by
  obtain ⟨hvisible, hends⟩ := h hclean
  rcases hm : m s with ⟨l, (_ | e) | a, t⟩ <;> rcases hm' : m' s.1 with ⟨l', (_ | e') | a', w⟩ <;>
    rw [hm, hm'] at hvisible hends
  · exact ⟨hvisible, rfl, fun h => absurd rfl h, fun h => absurd rfl h⟩
  · exact hends.elim
  · exact hends.elim
  · exact hends.elim
  · obtain ⟨rfl, hw, hkept⟩ := hends
    exact ⟨hvisible, rfl, fun _ => hw, fun _ => hkept⟩
  · exact hends.elim
  · exact hends.elim
  · exact hends.elim
  · obtain ⟨rfl, hw, hkept⟩ := hends
    exact ⟨hvisible, rfl, fun _ => hw, fun _ => hkept⟩

/-- Every call, at any level and on any state of the storage, is as if it were alone where it and the calls
within it find no element on the prototype. -/
theorem stringify_asAlone (p : Program σ) (rounds depth : ℕ) (value replacer space : Val)
    (s : World σ × Scratch)
    (hclean : Without Inherited (p.stringify rounds (p.enter rounds depth) value replacer space s).1) :
    AsAlone s.2 (p.stringify rounds (p.enter rounds depth) value replacer space s)
      (p.stringifyAlone rounds (p.enterAlone rounds depth) value replacer space s.1) :=
  (faithful_stringify (faithful_enter p rounds depth) value replacer space s).asAlone hclean

def plainObject (keys : List String) (slot : String → Option Slot) (hasToJSON : Bool) : Stringify.Object :=
  ⟨false, false, 0, keys, slot, none, true, hasToJSON⟩

/-- `{ a: 1, b: { toJSON }, c: 1 }` and `{ d: 1 }`, where `toJSON` is the object 3. -/
def nestingHeap : Heap where
  object
    | 0 => plainObject ["a", "b", "c"]
      (fun key => some (.data (if key = "b" then .object 1 else .number (.finite 1)))) false
    | 1 => plainObject [] (fun _ => none) true
    | 2 => plainObject ["d"] (fun _ => some (.data (.number (.finite 1)))) false
    | _ => { plainObject [] (fun _ => none) false with callable := true }
  bigToJSON := false

/-- The `toJSON` serializes the other object, and what is answered is how many slots were serialized. -/
def nesting : Program Unit where
  lang := ⟨fun _ => "", fun _ => none, fun _ => none⟩
  nativeDepthLimit := 10
  code
    | .readToJSON _ => .done (.ok (.object 3))
    | .callToJSON _ _ _ => .stringify (.object 2) .undefined .undefined .done
    | .native (some (.node _ slots)) _ _ => .done (.ok (.number (.finite slots.length)))
    | _ => .done (.ok (.number (.finite 1)))

def nestingWorld (inherited : ℕ → Option Frame) : World Unit := ⟨nestingHeap, false, inherited, ()⟩

theorem nesting_clean : ∀ e ∈ visible (nesting.stringify 9 (nesting.enter 9 3) (.object 0) .undefined .undefined
    (nestingWorld fun _ => none, .start)).1, ¬Inherited e := by
  decide +kernel

theorem stringify_asAlone_nesting :
    AsAlone .start
      (nesting.stringify 9 (nesting.enter 9 3) (.object 0) .undefined .undefined
        (nestingWorld fun _ => none, .start))
      (nesting.stringifyAlone 9 (nesting.enterAlone 9 3) (.object 0) .undefined .undefined
        (nestingWorld fun _ => none)) :=
  stringify_asAlone nesting 9 3 (.object 0) .undefined .undefined (nestingWorld fun _ => none, .start)
    nesting_clean

/-- After `Array.prototype[0] = {}` the outer call and the inner one share a frame, and the outer call
serializes slots of the inner one's object. -/
theorem stringify_shares_frame :
    ¬ ∀ (p : Program Unit) (rounds depth : ℕ) (value replacer space : Val) (s : World Unit × Scratch),
      (p.stringify rounds (p.enter rounds depth) value replacer space s).2.1 =
        (p.stringifyAlone rounds (p.enterAlone rounds depth) value replacer space s.1).2.1 := by
  intro h
  have hsame := h nesting 9 3 (.object 0) .undefined .undefined
    (nestingWorld fun i => if i = 0 then some .blank else none, .start)
  exact absurd hsame (by decide +kernel)

end XChainVM.Reentrant
