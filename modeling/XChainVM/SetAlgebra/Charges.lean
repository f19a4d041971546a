import XChainVM.SetAlgebra.WrapperRuns

/-! # What a set method charges

The documented charge is the size of the receiver plus the larger of the claimed size and the number of
keys that are given. The up-front charge may lack a unit of the receiver and the claim, and the walk
counts the step that ends it.
-/

namespace XChainVM.SetAlgebra

open Harness Js Machine

/-- The units `__allocGas` charges. -/
def allocUnits (n : Number) : ℕ := if exceeds n 1 then billed n else 0

def claimedSize (n : Number) : ℕ :=
  match toIntegerOrInfinity n with
  | .finite z => z.toNat
  | .infinity _ => 0

def shortfall (thisSize : ℕ) (n : Number) : ℤ := thisSize + claimedSize n - allocUnits (plus thisSize n)

theorem claimedSize_finite (q : ℚ) : claimedSize (.finite q) = q.floor.toNat := by
  unfold claimedSize toIntegerOrInfinity
  dsimp only
  split
  · rfl
  · next hneg =>
    have hfloor : q.floor < 0 := Rat.floor_lt_iff.mpr (by push_cast; linarith)
    have hneg' : 0 ≤ (-q).floor := Rat.le_floor_iff.mpr (by push_cast; linarith)
    omega

theorem claimedSize_natCast (n : ℕ) : claimedSize (.finite n) = n := by
  rw [claimedSize_finite, ← Int.cast_natCast, Rat.floor_intCast, Int.toNat_natCast]

/-- Of one element nothing is charged up front. -/
theorem shortfall_natCast {thisSize n : ℕ} (h : thisSize + n ≤ 2 ^ 53) :
    shortfall thisSize (.finite n) = if thisSize + n = 1 then 1 else 0 := by
  have hplus : plus thisSize (.finite n) = .finite ((thisSize + n : ℕ) : ℚ) := by
    rw [plus, ← Nat.cast_add, roundDouble_natCast h]
  have halloc : allocUnits (.finite ((thisSize + n : ℕ) : ℚ)) = if 1 < thisSize + n then thisSize + n else 0 := by
    have hexceeds : exceeds (.finite ((thisSize + n : ℕ) : ℚ)) 1 = decide (1 < thisSize + n) := by
      unfold exceeds
      exact decide_eq_decide.mpr Nat.one_lt_cast
    unfold allocUnits
    rw [hexceeds]
    simp only [decide_eq_true_eq]
    split
    · next hmany =>
      rw [billed, if_pos (by exact_mod_cast hmany.le), ← Int.cast_natCast, Rat.floor_intCast, Int.toNat_natCast]
    · rfl
  unfold shortfall
  rw [claimedSize_natCast, hplus, halloc]
  split <;> split <;> omega

/-- With three elements, the double right below one is rounded up to a whole claim. -/
example : shortfall 3 (.finite (9007199254740991 / 9007199254740992)) = -1 := by decide +kernel

theorem isAbove_finite (n : ℕ) (q : ℚ) : isAbove n (.finite q) = true ↔ q.floor < n := by
  rw [Rat.floor_lt_iff]
  simp [isAbove]

theorem beyond_finite (q : ℚ) (n : ℕ) : beyond (.finite q) n = n - claimedSize (.finite q) := by
  induction n with
  | zero => simp [beyond]
  | succ n ih =>
    have hover := isAbove_finite (n + 1) q
    rw [beyond, ih, claimedSize_finite]
    split
    · next h =>
      have := hover.mp h
      omega
    · next h =>
      have := mt hover.mpr h
      omega

/-- Steps beyond the claim, where the claim has a number. -/
theorem beyond_claimedOf {claim : Number} (h : claim ≠ .infinity false) (n : ℕ) :
    beyond (claimedOf claim) n = n - claimedSize claim := by
  have hzero : beyond (.finite 0) n = n := by rw [beyond_finite, claimedSize_finite]; rfl
  cases claim with
  | nan => exact hzero
  | infinity negative =>
    cases negative with
    | false => exact absurd rfl h
    | true => exact hzero
  | finite q =>
    unfold claimedOf exceeds
    dsimp only
    split
    · exact beyond_finite q n
    · next hneg =>
      have hq : q ≤ 0 := by simpa using hneg
      have hfloor : q.floor < 1 := Rat.floor_lt_iff.mpr (by push_cast; linarith)
      rw [hzero, claimedSize_finite]
      omega

variable {σ V α β : Type}

/-- Keys are given in steps, at most one step gives none, and nothing is charged. -/
def Trails (m : Eff σ (Mark V) (Thrown V) α) : Prop :=
  ∀ s, keys (m s).1 ≤ steps (m s).1 ∧ steps (m s).1 ≤ keys (m s).1 + 1 ∧ charged (m s).1 = 0

theorem Silent.trails {m : Eff σ (Mark V) (Thrown V) α} (h : Silent m) : Trails m := fun s => by
  rw [(h s).1, (h s).2.1, (h s).2.2]
  exact ⟨le_rfl, Nat.zero_le _, rfl⟩

theorem Silent.trails_bind {m : Eff σ (Mark V) (Thrown V) β} {f : β → Eff σ (Mark V) (Thrown V) α} (hm : Silent m)
    (hf : ∀ a, Trails (f a)) : Trails (m >>= f) := by
  intro s
  have hs := hm s
  rcases h : m s with ⟨l, e | a, s'⟩ <;> rw [h] at hs
  · rw [Eff.bind_error h]
    dsimp only at hs ⊢
    omega
  · rw [Eff.bind_ok h]
    have := hf a s'
    dsimp only at hs ⊢
    rw [steps_append, keys_append, charged_append]
    omega

theorem Walk.trails (w : Realm σ V) (elements : σ → List (Option V)) (it nextFn : V) (walk : Walk V)
    {stepped : Bool} (hwalk : walk.Orderly stepped) : Trails (walk.run elements (w.iteratorOf it nextFn)) := by
  induction walk generalizing stepped with
  | done r => exact (silent_pure _).trails
  | going => exact (silent_pure _).trails
  | receiver k ih =>
    intro s
    rw [Walk.run, Eff.state_bind_apply]
    exact ih _ (hwalk _) s
  | close rest ih => exact (w.silent_closeIterator it).trails_bind fun _ => ih hwalk.2
  | next k ih =>
    obtain ⟨⟨r, hdone⟩, hnext⟩ := hwalk
    intro s
    rw [Walk.run]
    unfold Realm.iteratorOf at ih ⊢
    by_cases hcallable : w.isCallable nextFn = true
    · rw [if_pos hcallable] at ih ⊢
      obtain ⟨l, hlog, hsteps, hcharged, hkeys⟩ := w.callNext_log nextFn it s
      rcases hcall : w.callNext nextFn it s with ⟨l', e | v, s'⟩ <;> rw [hcall] at hlog hkeys
      all_goals
        dsimp only at hlog hkeys
        have hstep : steps l' = 1 := by
          rw [hlog, ← List.singleton_append, steps_append, hsteps]
          rfl
        have hfree : charged l' = 0 := by
          rw [hlog, charged_cons, hcharged]
          rfl
        have hkey_le : keys l' ≤ 1 := by
          rw [hlog, keys_cons]
          obtain ⟨h, -⟩ | ⟨front, v', rfl, h⟩ := hkeys
          · rw [h]
            exact Nat.zero_le _
          · rw [keys_append, h]
            exact le_rfl
      · rw [Eff.bind_error hcall]
        dsimp only
        omega
      · rw [Eff.bind_ok hcall]
        dsimp only
        rw [steps_append, keys_append, charged_append]
        cases v with
        | none =>
          rw [hdone]
          have hpure : Silent (pure (some r) : Eff σ (Mark V) (Thrown V) _) := silent_pure _
          have hrest := hpure s'
          have hrun : (done r).run elements ⟨w.callNext nextFn it, w.closeIterator it⟩ =
            (pure (some r) : Eff σ (Mark V) (Thrown V) _) := rfl
          rw [hrun]
          omega
        | some v =>
          have hkey : keys l' = 1 := by
            obtain ⟨-, hnone⟩ | ⟨front, v', rfl, hfront⟩ := hkeys
            · exact absurd rfl (hnone v)
            · rw [hlog, keys_cons, keys_append, hfront]
              rfl
          have := ih (some v) (hnext v) s'
          omega
    · rw [if_neg hcallable]
      exact ⟨le_rfl, Nat.zero_le _, rfl⟩

theorem Body.trails (w : Realm σ V) (elements : σ → List (Option V)) (size : Integer) (hasFn keysFn other : V)
    (body : Body V) (hbody : body.Orderly) :
    Trails (body.run elements ⟨size, w.sendHas hasFn other, w.openKeys keysFn other⟩) := by
  induction body with
  | done r => exact (silent_pure _).trails
  | going => exact (silent_pure _).trails
  | receiver k ih =>
    intro s
    rw [Body.run, Eff.state_bind_apply]
    exact ih _ (hbody _) s
  | has v k ih => exact (w.silent_sendHas hasFn other v).trails_bind fun b => ih b (hbody b)
  | keys walk =>
    intro s
    have hopen : Body.run elements ⟨size, w.sendHas hasFn other, w.openKeys keysFn other⟩ (keys walk) =
        w.openKeys keysFn other >>= fun it => walk.run elements it := rfl
    rw [hopen]
    unfold Realm.openKeys
    rw [bind_assoc]
    refine (w.silent_invoke keysFn other []).trails_bind (fun it => ?_) s
    by_cases hobject : w.isObject it = true
    · simp only [hobject, Bool.not_true, Bool.false_eq_true, ↓reduceIte, bind_assoc, pure_bind]
      exact (w.silent_read it .next).trails_bind fun nextFn => walk.trails w elements it nextFn hbody
    · simp only [hobject, Bool.not_false, ↓reduceIte]
      exact (silent_throw _).trails

theorem trails_nativeOf [DecidableEq V] (w : Realm σ V) (m : Method) (fuel : ℕ) {other : V}
    (hobject : w.isObject other = true) : Trails (w.nativeOf m fuel other) := by
  rw [w.nativeOf_eq m fuel other hobject]
  refine (w.silent_read other .size).trails_bind fun rawSize => (w.silent_convert rawSize).trails_bind fun n => ?_
  unfold Realm.afterSize
  split
  · exact (silent_throw _).trails
  · split
    · exact (silent_throw _).trails
    · refine (w.silent_read other .has).trails_bind fun hasFn => ?_
      split
      · exact (silent_throw _).trails
      · refine (w.silent_read other .keys).trails_bind fun keysFn => ?_
        split
        · exact (silent_throw _).trails
        · exact Body.trails w w.elements _ hasFn keysFn other _ (orderly_body _ _ _ _)

end XChainVM.SetAlgebra
