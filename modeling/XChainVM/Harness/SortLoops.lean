import Mathlib.Data.Rat.Floor
import XChainVM.Harness.LoopCharges

/-! # The loops of a sort

A sort with the default comparison is paid by its closing charge when its length is steady,
within the integers a loop counter can count, and every element can be read.
-/

namespace XChainVM.Harness

open Js Machine

variable {σ : Type} {α : Type} (w : LoopWorld σ)

namespace LoopWorld

def numberOf : Prim → Option Number
  | .undefined => some .nan
  | .null => some (.finite 0)
  | .bool b => some (.finite (if b then 1 else 0))
  | .number n => some n
  | .string s => some (w.stringToNumber s)
  | .bigint _ | .symbol => none

def Steady (x : Number) : Val → Prop
  | .prim p => w.numberOf p = some x
  | .object id => ∀ s, ∃ units p s', w.toPrimitive s id .number = ⟨units, some (p, s')⟩ ∧ w.numberOf p = some x

theorem primToNumber_eq {p : Prim} {x : Number} (h : w.numberOf p = some x) :
    (w.primToNumber p : Act σ Number) = pure x := by
  cases p with
  | bigint z => cases h
  | symbol => cases h
  | _ => cases h; rfl

theorem primAbove_eq {p : Prim} {x : Number} (h : w.numberOf p = some x) (bound : ℚ) :
    primAbove w bound p = pure (exceeds x bound) := by
  cases p with
  | bigint z => cases h
  | symbol => cases h
  | _ => cases h; rfl

theorem Steady.toNumber {n : Val} {x : Number} (h : w.Steady x n) (s : σ) :
    ∃ t s', w.toNumber n s = (t, some (x, s')) := by
  cases n with
  | prim p =>
    rw [World.toNumber, w.primToNumber_eq h]
    exact ⟨_, _, rfl⟩
  | object id =>
    obtain ⟨units, p, s', hprim, hp⟩ := h s
    have hask : ask (fun s => w.toPrimitive s id .number) s = ([.charge units], some (p, s')) := by
      rw [ask, hprim]
    rw [World.toNumber, Act.bind_some hask, w.primToNumber_eq hp]
    exact ⟨_, _, rfl⟩

theorem Steady.above {n : Val} {x : Number} (h : w.Steady x n) (bound : ℚ) (s : σ) :
    ∃ t s', Harness.above w bound n s = (t, some (exceeds x bound, s')) := by
  cases n with
  | prim p =>
    rw [Harness.above, w.primAbove_eq h]
    exact ⟨_, _, rfl⟩
  | object id =>
    obtain ⟨units, p, s', hprim, hp⟩ := h s
    have hask : ask (fun s => w.toPrimitive s id .number) s = ([.charge units], some (p, s')) := by
      rw [ask, hprim]
    rw [Harness.above, Act.bind_some hask, w.primAbove_eq hp]
    exact ⟨_, _, rfl⟩

end LoopWorld

theorem doublings_rounds (n : Val) (more lg : ℕ) : Rounds more (doublings w n more lg) := by
  induction more generalizing lg with
  | zero => exact rounds_of_quiet ((quiet_above w 0 n).bind fun _ => Act.quiet_pure _) 0
  | succ more ih =>
    refine Rounds.quiet_bind (quiet_above w (2 ^ lg) n) fun b => ?_
    cases b with
    | false => exact rounds_of_quiet (Act.quiet_pure _) _
    | true => exact rounds_iterate.bind (fun _ => ih (lg + 1)) (by omega)

/-- A steady length is doubled to the end, and a length above the start at least once. -/
theorem doublings_steady {n : Val} {x : Number} (h : w.Steady x n) (more lg : ℕ) (s : σ) :
    ∃ t lg' s', doublings w n more lg s = (t, some (lg', s')) ∧ lg ≤ lg' ∧
      (0 < more → exceeds x (2 ^ lg) → lg < lg') := by
  induction more generalizing lg s with
  | zero =>
    obtain ⟨t, s', habove⟩ := h.above w 0 s
    exact ⟨_, lg, s', by rw [doublings, Act.bind_some habove]; rfl, le_rfl, fun h => absurd h (lt_irrefl 0)⟩
  | succ more ih =>
    obtain ⟨t, s', habove⟩ := h.above w (2 ^ lg) s
    rw [doublings, Act.bind_some habove]
    cases exceeds x (2 ^ lg) with
    | false => exact ⟨_, lg, s', rfl, le_rfl, fun _ h => absurd h Bool.false_ne_true⟩
    | true =>
      obtain ⟨t', lg', s'', heq, hle, -⟩ := ih (lg + 1) s'
      have hrest : (iterate >>= fun _ => doublings w n more (lg + 1)) s' = (.alloc 1 :: t', some (lg', s'')) :=
        (Act.bind_some rfl).trans (by rw [heq]; rfl)
      exact ⟨_, lg', s'', by rw [if_pos rfl, hrest], by omega, fun _ _ => hle⟩

def Readable (this : Val) : Prop := ∀ s i, (w.element s this i).outcome ≠ none

/-- The scan of a finite length: its rounds, its end, and where it throws. -/
theorem scan_steady {this n : Val} {q : ℚ} (h : w.Steady (.finite q) n) (hq : q ≤ 2 ^ 53) (fuel i bytes : ℕ)
    (s : σ) : allocated (scan w this n fuel i bytes s).1 ≤ ⌈q⌉₊ - i ∧
      (⌈q⌉₊ - i < fuel → Finished (scan w this n fuel i bytes s).2) ∧
      (Readable w this → (scan w this n fuel i bytes s).2 ≠ none) := by
  induction fuel generalizing i bytes s with
  | zero => exact ⟨Nat.zero_le _, fun h => absurd h (Nat.not_lt_zero _), fun _ h => by cases h⟩
  | succ fuel ih =>
    obtain ⟨t, s', habove⟩ := h.above w i s
    have hquiet : allocated t = 0 := by
      have := quiet_above w i n s
      rw [habove] at this
      exact this.allocated_eq
    rw [scan, Act.bind_some habove]
    by_cases hi : (i : ℚ) < q
    · have hceil : i < ⌈q⌉₊ := Nat.lt_ceil.mpr hi
      have hnext : increment i = i + 1 := by
        have : i < 2 ^ 53 := by exact_mod_cast hi.trans_le hq
        rw [increment, if_pos this]
      have hexceeds : exceeds (.finite q) i = true := decide_eq_true hi
      rw [hexceeds, if_pos rfl, hnext]
      rcases hread : (w.element s' this i).outcome with _ | ⟨v, s''⟩
      · have hask : (iterate >>= fun _ => ask (fun s => w.element s this i) >>= fun v =>
            scan w this n fuel (i + 1) (bytes + stringLength v)) s' =
            ([.alloc 1, .charge (w.element s' this i).units], none) := by
          rw [Act.bind_some (show iterate s' = ([.alloc 1], some ((), s')) from rfl),
            Act.bind_none (show ask (fun s => w.element s this i) s' = _ by rw [ask, hread])]
          rfl
        rw [hask]
        refine ⟨?_, fun _ => finished_none, fun hreadable => absurd hread (hreadable s' i)⟩
        simp only [allocated_append, hquiet, allocated_cons, allocated_nil, Entry.allocated]
        omega
      · have hask : (iterate >>= fun _ => ask (fun s => w.element s this i) >>= fun v =>
            scan w this n fuel (i + 1) (bytes + stringLength v)) s' =
            ([.alloc 1, .charge (w.element s' this i).units] ++
              (scan w this n fuel (i + 1) (bytes + stringLength v) s'').1,
              (scan w this n fuel (i + 1) (bytes + stringLength v) s'').2) := by
          rw [Act.bind_some (show iterate s' = ([.alloc 1], some ((), s')) from rfl),
            Act.bind_some (show ask (fun s => w.element s this i) s' = _ by rw [ask, hread])]
          rfl
        rw [hask]
        obtain ⟨hrounds, hends, hthrow⟩ := ih (i + 1) (bytes + stringLength v) s''
        refine ⟨?_, fun hfuel => hends (by omega), hthrow⟩
        simp only [allocated_append, hquiet, allocated_cons, allocated_nil, Entry.allocated]
        omega
    · have hexceeds : exceeds (.finite q) i = false := decide_eq_false hi
      have hstop : (pure (some bytes) : Act σ (Option ℕ)) s' = ([], some (some bytes, s')) := rfl
      rw [hexceeds, if_neg Bool.false_ne_true, hstop, List.append_nil, hquiet]
      refine ⟨Nat.zero_le _, fun _ s'' hs => ?_, fun _ hs => ?_⟩
      all_goals cases hs

def Scannable (this : Val) (x : Number) : Prop :=
  ∃ q : ℚ, x = .finite q ∧ q ≤ 2 ^ 53 ∧ (q ≤ 1024 ∨ Readable w this)

/-- The charge for a sort is at least its length. -/
theorem le_worth_sort {q : ℚ} (hq : 1 < q) {lg : ℕ} (hlg : 1 ≤ lg) (bytes : ℕ) :
    ⌈q⌉₊ ≤ worth (some (plusCount (times (.finite q) lg) bytes)) + 1 := by
  have hlg' : (1 : ℚ) ≤ lg := by exact_mod_cast hlg
  have hbytes : (0 : ℚ) ≤ bytes := by exact_mod_cast Nat.zero_le bytes
  have hsum : q ≤ q * lg + bytes := by nlinarith
  have hexceeds : exceeds (plusCount (times (.finite q) lg) bytes) 1 = true :=
    decide_eq_true (hq.trans_le hsum)
  rw [worth, hexceeds, if_pos rfl]
  simp only [times, plusCount, billed, (hq.trans_le hsum).le, if_true]
  generalize q * lg + bytes = total at hsum
  have hfloor : total < ((Rat.floor total).toNat : ℚ) + 1 := by
    have hpos : 0 ≤ Rat.floor total := Rat.le_floor_iff.mpr (by push_cast; linarith)
    have hlt : total < (Rat.floor total : ℚ) + 1 := Int.lt_floor_add_one total
    have hcast : (((Rat.floor total).toNat : ℤ) : ℚ) = (Rat.floor total : ℚ) := by rw [Int.toNat_of_nonneg hpos]
    rwa [← Int.cast_natCast, hcast]
  refine Nat.ceil_le.mpr ?_
  push_cast
  linarith

def sortMeasured (fuel : ℕ) (this : Val) (args : List Val) (n : Val) : Act σ (Option Unit) := do
  let lg ← doublings w n MAX_DOUBLINGS 0
  match ← scan w this n fuel 0 0 with
  | none => pure none
  | some bytes => do
    let x ← w.toNumber n
    allocNumber (plusCount (times x lg) bytes)
    delegate w args

theorem repays_sortMeasured {this n : Val} {q : ℚ} (h : w.Steady (.finite q) n) (hone : 1 < q)
    (hq : q ≤ 2 ^ 53) (hread : q ≤ 1024 ∨ Readable w this) (fuel : ℕ) (args : List Val) :
    Repays 0 LOOP_BOUND (sortMeasured w fuel this args n) := by
  have hexceeds : exceeds (.finite q) 1 = true := decide_eq_true hone
  refine Repays.bind (fun s hs => ?_) fun s lg s' hs => ⟨MAX_DOUBLINGS, ?_, ?_⟩
  · have := doublings_rounds w n MAX_DOUBLINGS 0 s
    simp only [MAX_DOUBLINGS, LOOP_BOUND] at *
    omega
  · have hlg : 1 ≤ lg := by
      obtain ⟨t, lg', s'', heq, -, hlt⟩ := doublings_steady w h MAX_DOUBLINGS 0 s
      rw [heq] at hs
      cases hs
      exact hlt (by decide) hexceeds
    refine Repays.bind (fun s hs => ?_) fun s bytes s' hs => ⟨MAX_DOUBLINGS + ⌈q⌉₊, ?_, ?_⟩
    · obtain ⟨hrounds, -, hthrow⟩ := scan_steady w h hq fuel 0 0 s
      have hsmall : ⌈q⌉₊ ≤ 1024 := by
        rcases hread with hq | hread
        · exact Nat.ceil_le.mpr (by exact_mod_cast hq)
        · exact absurd hs (hthrow hread)
      simp only [MAX_DOUBLINGS, LOOP_BOUND] at *
      omega
    · cases bytes with
      | none => exact fun s hs => absurd rfl (hs s)
      | some bytes =>
        refine Repays.bind (fun s hs => ?_) fun s x s' hs => ⟨MAX_DOUBLINGS + ⌈q⌉₊, ?_, ?_⟩
        · obtain ⟨t, s', heq⟩ := h.toNumber w s
          rw [heq] at hs
          cases hs
        · obtain ⟨t, s'', heq⟩ := h.toNumber w s
          rw [heq] at hs
          cases hs
          refine repays_allocNumber ?_ fun debt hdebt => repays_delegate w args hdebt
          have := le_worth_sort hone hlg bytes
          simp only [MAX_DOUBLINGS, LOOP_BOUND] at *
          omega
        · rw [(w.quiet_toNumber n s).allocated_eq]
          omega
    · have hrounds : allocated (scan w this n fuel 0 0 s).1 ≤ ⌈q⌉₊ - 0 := (scan_steady w h hq fuel 0 0 s).1
      omega
  · have := doublings_rounds w n MAX_DOUBLINGS 0 s
    omega

theorem concludes_allocNumber {x : Number} {f : Unit → Act σ (Option α)} (hf : Concludes (f ())) :
    Concludes (allocNumber x >>= f) :=
  Concludes.bind fun _ => hf

theorem ends_sortMeasured {this n : Val} {q : ℚ} (h : w.Steady (.finite q) n) (hq : q ≤ 2 ^ 53) (args : List Val) :
    Concludes (sortMeasured w (⌈q⌉₊ + 1) this args n) := by
  refine Concludes.bind fun lg s => ?_
  have hends : Finished (scan w this n (⌈q⌉₊ + 1) 0 0 s).2 := (scan_steady w h hq (⌈q⌉₊ + 1) 0 0 s).2.1 (by omega)
  rcases hscan : scan w this n (⌈q⌉₊ + 1) 0 0 s with ⟨t, _ | ⟨_ | bytes, s'⟩⟩
  · rw [Act.bind_none hscan]
    exact finished_none
  · rw [hscan] at hends
    exact absurd rfl (hends s')
  · rw [Act.bind_some hscan]
    exact Concludes.bind (fun x => concludes_allocNumber (concludes_delegate w args)) s'

def SortCovered (this : Val) (args : List Val) (s : σ) : Prop :=
  ∀ n s', (lengthOrZero w this s).2 = some (n, s') →
    w.isCallable s' (arg args 0) ∨ ∃ x, w.Steady x n ∧ (exceeds x 1 → Scannable w this x)

theorem sort_eq (fuel : ℕ) (this : Val) (args : List Val) : sort w fuel this args = (do
    let n ← lengthOrZero w this
    if ← defaultCompare w (arg args 0) n then sortMeasured w fuel this args n
    else do
      allocGas w.toWorld n
      delegate w args) := rfl

theorem defaultCompare_callable {cmp n : Val} {s : σ} (h : w.isCallable s cmp) :
    defaultCompare w cmp n s = ([], some (false, s)) := by
  rw [defaultCompare, Act.bind_some (show callable w cmp s = ([], some (true, s)) by rw [callable, look, h])]
  rfl

theorem defaultCompare_steady {cmp n : Val} {x : Number} {s s' : σ} {b : Bool} (h : w.Steady x n)
    (hb : (defaultCompare w cmp n s).2 = some (b, s')) : b = true → exceeds x 1 := by
  rintro rfl
  have hcallable : callable w cmp s = ([], some (w.isCallable s cmp, s)) := rfl
  rw [defaultCompare, Act.bind_some hcallable] at hb
  obtain ⟨t, s'', habove⟩ := h.above w 1 s
  cases hcmp : w.isCallable s cmp with
  | true =>
    rw [hcmp] at hb
    cases hb
  | false =>
    rw [hcmp, if_neg Bool.false_ne_true, habove] at hb
    exact (Prod.mk.inj (Option.some.inj hb)).1

theorem sort_pays {this : Val} {args : List Val} {s : σ} (h : SortCovered w this args s) :
    PaysForLoops LOOP_BOUND (fun fuel => sort w fuel this args) s := by
  have hplain (n : Val) (s : σ) :
      PaysForLoops LOOP_BOUND (fun _ => allocGas w.toWorld n >>= fun _ => delegate w args) s :=
    .of_repays ⟨0, Concludes.bind fun _ => concludes_delegate w args⟩
      (fun _ => repays_allocGas_delegate w n args _) s
  simp only [sort_eq]
  refine .quiet_bind (quiet_lengthOrZero w this) fun n s' hn => ?_
  refine .quiet_bind (quiet_defaultCompare w (arg args 0) n) fun b s'' hb => ?_
  cases b with
  | false => exact hplain n s''
  | true =>
    rcases h n s' hn with hcmp | ⟨x, hsteady, hscan⟩
    · rw [defaultCompare_callable w hcmp] at hb
      cases hb
    · have hone := defaultCompare_steady w hsteady hb rfl
      obtain ⟨q, rfl, hq, hread⟩ := hscan hone
      refine .of_repays ⟨⌈q⌉₊ + 1, ?_⟩ (fun fuel => ?_) s''
      · exact ends_sortMeasured w hsteady hq args
      · exact repays_sortMeasured w hsteady (of_decide_eq_true hone) hq hread fuel args

theorem typedSort_pays (this : Val) (args : List Val) (s : σ) :
    PaysForLoops LOOP_BOUND (fun _ => typedSort w this args) s := by
  refine .quiet_bind (quiet_lengthOrZero w this) fun n s' _ => ?_
  refine .quiet_bind (quiet_defaultCompare w (arg args 0) n) fun b s'' _ => ?_
  cases b with
  | false =>
    exact .of_repays ⟨0, Concludes.bind fun _ => concludes_delegate w args⟩
      (fun _ => repays_allocGas_delegate w n args _) s''
  | true =>
    have hends : Concludes (doublings w n MAX_DOUBLINGS 0 >>= fun lg => w.toNumber n >>= fun x =>
        allocNumber (times x lg) >>= fun _ => delegate w args) :=
      Concludes.bind fun _ => Concludes.bind fun _ => Concludes.bind fun _ => concludes_delegate w args
    refine .of_repays ⟨0, hends⟩ (fun _ => ?_) s''
    refine Repays.of_bounded (doublings_rounds w n MAX_DOUBLINGS 0) (by decide) fun lg debt hdebt => ?_
    refine repays_quiet_bind (w.quiet_toNumber n) hdebt fun x => ?_
    exact repays_quiet_bind (quiet_allocNumber _) hdebt fun _ => repays_delegate w args hdebt

end XChainVM.Harness
