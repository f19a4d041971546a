import XChainVM.SetAlgebra.MeteredRuns

/-! # The wrapper and the builtin

After the size of the argument is read, the wrapper shows what the builtin shows, and charges for the
steps beyond the claim and for nothing else.
-/

namespace XChainVM.SetAlgebra

open Harness Js Machine

variable {σ V α β : Type}

/-- The same marks, answer and world, where the steps beyond the claim are charged in the end. -/
structure Pays (claimed : Number) (m : Eff σ (Mark V) (Thrown V) α) (m' : Eff (σ × Tally) (Mark V) (Thrown V) α) (s : σ) :
    Prop where
  marks : visible (m' (s, ⟨0, 0⟩)).1 = visible (m s).1
  answer : (m' (s, ⟨0, 0⟩)).2.1 = (m s).2.1
  world : (m' (s, ⟨0, 0⟩)).2.2.1 = (m s).2.2
  paid : charged (m' (s, ⟨0, 0⟩)).1 = beyond claimed (steps (m' (s, ⟨0, 0⟩)).1)
  paced : ∀ thisSize front, (∀ n, thisSize + n ≤ front + beyond claimed n + 1) →
    Paced thisSize front 0 (m' (s, ⟨0, 0⟩)).1

namespace Pays

variable {claimed : Number} {m : Eff σ (Mark V) (Thrown V) α} {m' : Eff (σ × Tally) (Mark V) (Thrown V) α} {s : σ}

theorem throw {e : Thrown V} : Pays claimed (Eff.throw e : Eff σ (Mark V) (Thrown V) α) (Eff.throw e) s :=
  ⟨rfl, rfl, rfl, rfl, fun _ _ _ => trivial⟩

theorem bind_silent {m : Eff σ (Mark V) (Thrown V) β} {f : β → Eff σ (Mark V) (Thrown V) α}
    {f' : β → Eff (σ × Tally) (Mark V) (Thrown V) α} (hm : Silent m) (hf : ∀ a s, Pays claimed (f a) (f' a) s) :
    Pays claimed (m >>= f) (m.onFirst >>= f') s := by
  obtain ⟨hsteps, hkeys, hcharged⟩ := hm s
  rcases h : m s with ⟨l, e | a, s₁⟩ <;> rw [h] at hsteps hkeys hcharged
  · have h' : (m.onFirst : Eff (σ × Tally) (Mark V) (Thrown V) β) (s, ⟨0, 0⟩) = (l, .error e, s₁, ⟨0, 0⟩) := by
      rw [Eff.onFirst, h]
    constructor <;> rw [Eff.bind_error h'] <;> try rw [Eff.bind_error h]
    case paid =>
      dsimp only at hsteps hcharged ⊢
      rw [hsteps, hcharged]
      rfl
    case paced => exact fun _ _ _ => paced_of_no_key hkeys
  · have h' : (m.onFirst : Eff (σ × Tally) (Mark V) (Thrown V) β) (s, ⟨0, 0⟩) = (l, .ok a, s₁, ⟨0, 0⟩) := by
      rw [Eff.onFirst, h]
    obtain ⟨marks, answer, world, paid, paced⟩ := hf a s₁
    dsimp only at hsteps hkeys hcharged
    constructor <;> rw [Eff.bind_ok h'] <;> try rw [Eff.bind_ok h]
    case marks => rw [visible_append, visible_append, marks]
    case answer => exact answer
    case world => exact world
    case paid =>
      dsimp only
      rw [charged_append, steps_append, hcharged, hsteps, Nat.zero_add, Nat.zero_add]
      exact paid
    case paced =>
      intro thisSize front hfront
      refine paced_append.mpr ⟨paced_of_no_key hkeys, ?_⟩
      rw [hcharged, hkeys]
      exact paced thisSize front hfront

theorem andFinally (h : Meters claimed Eq m m' s ⟨0, 0⟩) : Pays claimed m (m'.andFinally chargeRest) s := by
  obtain ⟨marks, answer, world, walked, paid, pending, -, paced⟩ := h
  rcases h' : m' (s, ⟨0, 0⟩) with ⟨l, a, s₁, t₁⟩
  rw [h'] at marks answer world walked paid pending paced
  have hrest : ∃ l₂ t₂, (chargeRest (s₁, t₁) : List (Note (Mark V)) × Except (Thrown V) Unit × σ × Tally) =
      (l₂, .ok (), s₁, t₂) ∧ visible l₂ = [] ∧ charged l₂ = t₁.pending := by
    unfold chargeRest
    dsimp only
    split
    · exact ⟨_, _, rfl, rfl, rfl⟩
    · next hnone => exact ⟨_, _, rfl, rfl, (Nat.eq_zero_of_not_pos hnone).symm⟩
  obtain ⟨l₂, t₂, hrest, hvisible, hcharged⟩ := hrest
  have hrun : m'.andFinally chargeRest (s, ⟨0, 0⟩) = (l ++ l₂, a, s₁, t₂) := by
    unfold Eff.andFinally
    rw [h']
    dsimp only
    rw [hrest]
  have hsteps : steps l₂ = 0 := steps_visible (m := []) hvisible
  have hkeys : keys l₂ = 0 := keys_visible (m := []) hvisible
  dsimp only at marks answer world walked paid paced
  constructor <;> rw [hrun]
  case marks => rw [visible_append, hvisible, List.append_nil, marks]
  case answer =>
    rcases hanswer : (m s).2.1 with e | b <;> rw [hanswer] at answer <;> cases a
    case error.error => exact congrArg Except.error (answer : e = _).symm
    case ok.ok => exact congrArg Except.ok (answer : b = _).symm
    case error.ok => exact False.elim answer
    case ok.error => exact False.elim answer
  case world => exact world
  case paid =>
    dsimp only
    rw [charged_append, steps_append, hcharged, hsteps, Nat.add_zero, ← Nat.zero_add (steps l), ← walked]
    rw [beyond, Nat.zero_add] at paid
    exact paid
  case paced =>
    intro thisSize front hfront
    exact paced_append.mpr ⟨paced thisSize front front 0 hfront le_rfl (by decide) rfl, paced_of_no_key hkeys⟩

end Pays

/-- `n > -1` where the language takes the size. -/
theorem exceeds_neg_one (n : Number) :
    exceeds n (-1) = true ↔ n ≠ .nan ∧ isNegative (toIntegerOrInfinity n) = false := by
  cases n with
  | nan => simp [exceeds]
  | infinity negative => cases negative <;> simp [exceeds, toIntegerOrInfinity, isNegative]
  | finite q =>
    simp only [exceeds, toIntegerOrInfinity, isNegative, ne_eq, reduceCtorEq, not_false_eq_true, true_and,
      decide_eq_true_iff, decide_eq_false_iff_not, not_lt]
    by_cases hq : 0 ≤ q
    · rw [if_pos hq]
      exact ⟨fun _ => Rat.le_floor_iff.mpr (by exact_mod_cast hq), fun _ => by linarith⟩
    · have hle : (-q).floor ≤ 0 ↔ (-q).floor < 1 := by omega
      rw [if_neg hq, Int.neg_nonneg, hle, Rat.floor_lt_iff]
      constructor
      · intro h
        push_cast
        linarith
      · intro h
        push_cast at h
        linarith

namespace Realm

variable (w : Realm σ V) [DecidableEq V] (m : Method) (fuel : ℕ) (other : V)

def afterSize (n : Number) : Eff σ (Mark V) (Thrown V) (Option (Result V)) :=
  if n = .nan then Eff.throw (.fault .sizeNaN)
  else if isNegative (toIntegerOrInfinity n) then Eff.throw (.fault (.sizeNegative (toIntegerOrInfinity n)))
  else do
    let hasFn ← w.read other .has
    if !w.isCallable hasFn then Eff.throw (.fault (.notCallable .has hasFn))
    else
      let keysFn ← w.read other .keys
      if !w.isCallable keysFn then Eff.throw (.fault (.notCallable .keys keysFn))
      else
        (m.body w.canonical fuel (toIntegerOrInfinity n)).run w.elements
          ⟨toIntegerOrInfinity n, w.sendHas hasFn other, w.openKeys keysFn other⟩

theorem nativeOf_eq (hobject : w.isObject other = true) : w.nativeOf m fuel other = (do
    let rawSize ← w.read other .size
    let n ← w.convert rawSize
    w.afterSize m fuel other n) := by
  unfold nativeOf native getSetRecord source
  simp only [hobject, Bool.not_true, Bool.false_eq_true, ↓reduceIte, bind_assoc]
  refine bind_congr fun rawSize => bind_congr fun n => ?_
  unfold afterSize
  split
  · rfl
  · split
    · rfl
    · rw [bind_assoc]
      refine bind_congr fun hasFn => ?_
      rw [pure_bind]
      by_cases hhas : w.isCallable hasFn = true
      · simp only [hhas, Bool.not_true, Bool.false_eq_true, ↓reduceIte, bind_assoc, pure_bind]
        refine bind_congr fun keysFn => ?_
        by_cases hkeys : w.isCallable keysFn = true
        · simp only [hkeys, Bool.not_true, Bool.false_eq_true, ↓reduceIte, pure_bind]
        · simp only [hkeys, Bool.not_false, ↓reduceIte]
          rfl
      · simp only [hhas, Bool.not_false, ↓reduceIte]
        rfl

/-- A record of the wrapper is read without a mark. -/
theorem nativeOn_plainRecord (n : Number) (has : V ⊕ (V → Eff (σ × Tally) (Mark V) (Thrown V) Bool))
    (keys : V ⊕ Eff (σ × Tally) (Mark V) (Thrown V) (Iterator (σ × Tally) V)) :
    w.nativeOn m fuel (plainRecord n has keys) =
      if n = .nan then Eff.throw (.fault .sizeNaN)
      else if isNegative (toIntegerOrInfinity n) then Eff.throw (.fault (.sizeNegative (toIntegerOrInfinity n)))
      else
        match has with
        | .inl v => Eff.throw (.fault (.notCallable .has v))
        | .inr has =>
          match keys with
          | .inl v => Eff.throw (.fault (.notCallable .keys v))
          | .inr keys =>
            (m.body w.canonical fuel (toIntegerOrInfinity n)).run (fun s => w.elements s.1) ⟨toIntegerOrInfinity n, has, keys⟩ := by
  unfold nativeOn native getSetRecord plainRecord
  dsimp only
  rw [pure_bind]
  split
  · rfl
  · split
    · rfl
    · rw [pure_bind]
      cases has with
      | inl v => rfl
      | inr has =>
        dsimp only
        rw [pure_bind]
        cases keys with
        | inl v => rfl
        | inr keys => exact pure_bind _ _

theorem pays_handOver (claim n : Number) (s : σ) :
    Pays (claimedOf claim) (w.afterSize m fuel other n) (w.handOver m fuel other claim n) s := by
  unfold afterSize handOver
  by_cases hsize : exceeds n (-1) = true
  case neg =>
    rw [Bool.eq_false_iff.mpr hsize, Bool.not_false, if_pos rfl, nativeOn_plainRecord]
    by_cases hnan : n = .nan
    · rw [if_pos hnan, if_pos hnan]
      exact .throw
    · have hnegative : isNegative (toIntegerOrInfinity n) = true := by
        by_contra h
        exact hsize ((exceeds_neg_one n).mpr ⟨hnan, Bool.eq_false_iff.mpr h⟩)
      rw [if_neg hnan, if_neg hnan, if_pos hnegative, if_pos hnegative]
      exact .throw
  obtain ⟨hnan, hnegative⟩ := (exceeds_neg_one n).mp hsize
  have hrecord has keys := w.nativeOn_plainRecord m fuel n has keys
  simp only [if_neg hnan, hnegative, Bool.false_eq_true, ↓reduceIte] at hrecord
  rw [hsize, Bool.not_true, if_neg Bool.false_ne_true, if_neg hnan, hnegative, if_neg Bool.false_ne_true]
  refine .bind_silent (w.silent_read other .has) fun hasFn s => ?_
  by_cases hhas : w.isCallable hasFn = true
  case neg =>
    rw [Bool.eq_false_iff.mpr hhas, Bool.not_false, if_pos rfl, if_pos rfl, hrecord]
    exact .throw
  rw [hhas, Bool.not_true, if_neg Bool.false_ne_true, if_neg Bool.false_ne_true]
  refine .bind_silent (w.silent_read other .keys) fun keysFn s => ?_
  by_cases hkeys : w.isCallable keysFn = true
  case neg =>
    rw [Bool.eq_false_iff.mpr hkeys, Bool.not_false, if_pos rfl, if_pos rfl, hrecord]
    exact .throw
  rw [hkeys, Bool.not_true, if_neg Bool.false_ne_true, if_neg Bool.false_ne_true]
  refine .andFinally ?_
  rw [hrecord]
  refine Body.meters w.elements ⟨rfl, ?_, ?_⟩ _ (orderly_body _ _ _ _) s ⟨0, 0⟩
  · exact fun k => (w.silent_sendHas hasFn other k).meters _
  · exact w.meters_openKeys _ other keysFn

end Realm

end XChainVM.SetAlgebra
