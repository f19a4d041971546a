import XChainVM.SetAlgebra.Charges

/-! # The documented charge of a set method

Reads, calls, result and exception are those of the builtin in every case. The units charged are the
documented ones exactly where what the up-front charge lacks is made up by the last step of the walk.
-/

namespace XChainVM.SetAlgebra

open Harness Js Machine

variable {σ V : Type}

inductive Claim where
  | plain (n : ℕ)
  | unread
  | number (n : Number)
  /-- A value of another type, and the number it is converted to. -/
  | converted (n : Option Number)

def Claim.size? : Claim → Option Number
  | plain n => some (.finite n)
  | unread => none
  | number n => some n
  | converted n => n

namespace Realm

variable (w : Realm σ V)

def thisSize (s : σ) : ℕ := (w.elements s).reduceOption.length

def claim (s : σ) (other : V) : Claim :=
  match w.plainSize s other with
  | some n => .plain n
  | none =>
    match w.get s other .size with
    | (.error _, _) => .unread
    | (.ok rawSize, s₁) =>
      match w.number? rawSize with
      | some n => .number n
      | none => .converted (w.toNumber s₁ rawSize).1.toOption

end Realm

/-- `size(this) + max(claim, keys)`; an infinite claim has no number of units. -/
def documented (thisSize : ℕ) (claim : Option Number) (given : ℕ) : Option ℕ :=
  match claim with
  | none => some (thisSize + given)
  | some n => if n = .infinity false then none else some (thisSize + max (claimedSize n) given)

theorem paced_of_le {thisSize c y : ℕ} {l : List (Note (Mark V))} (h : thisSize + y + keys l ≤ c + 256) :
    Paced thisSize c y l := by
  refine paced_iff.mpr fun front v back hl => ?_
  have hkeys : keys l = keys front + (1 + keys back) := by
    rw [hl, keys_append, keys_cons]
    rfl
  omega

/-- The up-front charge, and what comes after it. -/
theorem allocGas_bind {τ α : Type} (n : Number) (f : Unit → Eff τ (Mark V) (Thrown V) α) (t : τ) :
    ∃ front, (allocGas n >>= f) t = (front ++ (f () t).1, (f () t).2) ∧ visible front = [] ∧
      charged front = allocUnits n := by
  unfold allocGas allocUnits
  split
  · exact ⟨_, Eff.bind_ok rfl, rfl, rfl⟩
  · exact ⟨[], Eff.bind_ok rfl, rfl, rfl⟩

variable [DecidableEq V]

structure AsDocumented (w : Realm σ V) (m : Method) (fuel : ℕ) (other : V) (s : σ) : Prop where
  marks : visible (w.metered m fuel other (s, ⟨0, 0⟩)).1 = visible (w.nativeOf m fuel other s).1
  answer : (w.metered m fuel other (s, ⟨0, 0⟩)).2.1 = (w.nativeOf m fuel other s).2.1
  world : (w.metered m fuel other (s, ⟨0, 0⟩)).2.2.1 = (w.nativeOf m fuel other s).2.2
  charge : some (charged (w.metered m fuel other (s, ⟨0, 0⟩)).1) =
    documented (w.thisSize s) (w.claim s other).size? (keys (w.nativeOf m fuel other s).1)
  ahead : ∀ front v back, (w.metered m fuel other (s, ⟨0, 0⟩)).1 = front ++ .effect (.key v) :: back →
    w.thisSize s + keys front + 1 ≤ charged front + 256

/-- One where the walk ends with a step that gives no key and is not claimed. -/
def lastStep (claimed walked given : ℕ) : ℤ := if given < walked ∧ claimed < walked then 1 else 0

/-- Where the charge is the documented one, said of the argument, the receiver and the walk of the builtin. -/
def ChargeFits (thisSize walked given : ℕ) : Claim → Prop
  | .plain n => shortfall thisSize (.finite n) + (given - n : ℕ) = 0
  | .unread => thisSize = 0
  | .number n => n ≠ .infinity false ∧ shortfall thisSize n = lastStep (claimedSize n) walked given
  | .converted none => shortfall thisSize (.finite 0) = lastStep 0 walked given
  | .converted (some n) =>
    n ≠ .infinity false ∧ shortfall thisSize (.finite 0) + (claimedSize n - given : ℕ) = lastStep 0 walked given

instance (thisSize walked given : ℕ) (claim : Claim) : Decidable (ChargeFits thisSize walked given claim) :=
  match claim with
  | .plain n => inferInstanceAs (Decidable (shortfall thisSize (.finite n) + (given - n : ℕ) = 0))
  | .unread => inferInstanceAs (Decidable (thisSize = 0))
  | .number n => inferInstanceAs (Decidable
      (n ≠ .infinity false ∧ shortfall thisSize n = lastStep (claimedSize n) walked given))
  | .converted none => inferInstanceAs (Decidable (shortfall thisSize (.finite 0) = lastStep 0 walked given))
  | .converted (some n) => inferInstanceAs (Decidable (n ≠ .infinity false ∧
      shortfall thisSize (.finite 0) + (claimedSize n - given : ℕ) = lastStep 0 walked given))

variable (w : Realm σ V) (m : Method) (fuel : ℕ) {other : V} {s : σ}

theorem metered_plain {n : ℕ} (hplain : w.plainSize s other = some n) :
    ∃ front, w.metered m fuel other (s, ⟨0, 0⟩) =
      (front ++ (w.nativeOf m fuel other s).1, (w.nativeOf m fuel other s).2.1, (w.nativeOf m fuel other s).2.2, ⟨0, 0⟩) ∧
      visible front = [] ∧ charged front = allocUnits (plus (w.thisSize s) (.finite n)) := by
  obtain ⟨front, hrun, hfront⟩ := allocGas_bind (plus (w.thisSize s) (.finite n))
    (fun _ => (w.nativeOf m fuel other).onFirst) (s, (⟨0, 0⟩ : Tally))
  refine ⟨front, ?_, hfront⟩
  unfold Realm.metered
  rw [Eff.state_bind_apply]
  dsimp only
  rw [hplain]
  exact hrun

theorem metered_unread (hobject : w.isObject other = true) (hplain : w.plainSize s other = none) {e : V} {s₁ : σ}
    (hsize : w.get s other .size = (.error e, s₁)) :
    w.metered m fuel other (s, ⟨0, 0⟩) = ([.effect (.read other .size)], .error (.value e), s₁, ⟨0, 0⟩) ∧
      w.nativeOf m fuel other s = ([.effect (.read other .size)], .error (.value e), s₁) := by
  have hread : w.read other .size s = ([.effect (.read other .size)], .error (.value e), s₁) := by
    unfold Realm.read Realm.ask
    dsimp only
    rw [hsize]
    rfl
  constructor
  · unfold Realm.metered
    rw [Eff.state_bind_apply]
    dsimp only
    rw [hplain, hobject, Bool.not_true, if_neg Bool.false_ne_true]
    refine Eff.bind_error ?_
    rw [Eff.onFirst, hread]
  · rw [w.nativeOf_eq m fuel other hobject]
    exact Eff.bind_error hread

omit [DecidableEq V] in
theorem read_size {rawSize : V} {s₁ : σ} (hsize : w.get s other .size = (.ok rawSize, s₁)) :
    w.read other .size s = ([.effect (.read other .size)], .ok rawSize, s₁) := by
  unfold Realm.read Realm.ask
  dsimp only
  rw [hsize]
  rfl

theorem nativeOf_read (hobject : w.isObject other = true) {rawSize : V} {s₁ : σ}
    (hsize : w.get s other .size = (.ok rawSize, s₁)) : w.nativeOf m fuel other s =
      (.effect (.read other .size) :: ((w.convert rawSize >>= w.afterSize m fuel other) s₁).1,
        ((w.convert rawSize >>= w.afterSize m fuel other) s₁).2) := by
  rw [w.nativeOf_eq m fuel other hobject]
  exact Eff.bind_ok (read_size w hsize)

/-- As the builtin, where an up-front charge and the steps beyond the claim are charged. -/
structure PaysFrom {α : Type} (front : ℕ) (claimed : Number) (m : Eff σ (Mark V) (Thrown V) α)
    (m' : Eff (σ × Tally) (Mark V) (Thrown V) α) (s : σ) : Prop where
  marks : visible (m' (s, ⟨0, 0⟩)).1 = visible (m s).1
  answer : (m' (s, ⟨0, 0⟩)).2.1 = (m s).2.1
  world : (m' (s, ⟨0, 0⟩)).2.2.1 = (m s).2.2
  paid : charged (m' (s, ⟨0, 0⟩)).1 = front + beyond claimed (steps (m s).1)
  paced : ∀ thisSize, (∀ n, thisSize + n ≤ front + beyond claimed n + 1) → Paced thisSize 0 0 (m' (s, ⟨0, 0⟩)).1

theorem metered_read (hobject : w.isObject other = true) (hplain : w.plainSize s other = none) {rawSize : V} {s₁ : σ}
    (hsize : w.get s other .size = (.ok rawSize, s₁)) :
    PaysFrom (allocUnits (plus (w.thisSize s) (w.claimOf rawSize))) (claimedOf (w.claimOf rawSize))
      (w.nativeOf m fuel other) (w.metered m fuel other) s := by
  have hread : (w.read other .size).onFirst (s, (⟨0, 0⟩ : Tally)) =
      ([.effect (.read other .size)], .ok rawSize, s₁, ⟨0, 0⟩) := by
    rw [Eff.onFirst, read_size w hsize]
  obtain ⟨marks, answer, world, paid, paced⟩ : Pays (claimedOf (w.claimOf rawSize))
      (w.convert rawSize >>= w.afterSize m fuel other)
      ((w.convert rawSize).onFirst >>= w.handOver m fuel other (w.claimOf rawSize)) s₁ :=
    .bind_silent (w.silent_convert rawSize) fun n s => w.pays_handOver m fuel other _ n s
  obtain ⟨front, halloc, hvisible, hcharged⟩ := allocGas_bind (plus (w.thisSize s) (w.claimOf rawSize))
    (fun _ => (w.convert rawSize).onFirst >>= w.handOver m fuel other (w.claimOf rawSize)) (s₁, (⟨0, 0⟩ : Tally))
  have hrun : w.metered m fuel other (s, ⟨0, 0⟩) =
      (.effect (.read other .size) :: (front ++
          (((w.convert rawSize).onFirst >>= w.handOver m fuel other (w.claimOf rawSize)) (s₁, ⟨0, 0⟩)).1),
        (((w.convert rawSize).onFirst >>= w.handOver m fuel other (w.claimOf rawSize)) (s₁, ⟨0, 0⟩)).2) := by
    unfold Realm.metered
    rw [Eff.state_bind_apply]
    dsimp only
    rw [hplain, hobject, Bool.not_true, if_neg Bool.false_ne_true]
    refine (Eff.bind_ok hread).trans ?_
    unfold Realm.meteredOn
    unfold Realm.thisSize at halloc
    rw [halloc]
    rfl
  have hkeys : keys front = 0 := keys_visible (m := []) hvisible
  have hsteps := steps_visible marks
  constructor <;> rw [hrun] <;> try rw [nativeOf_read w m fuel hobject hsize]
  case marks => rw [visible_effect_cons, visible_append, hvisible, List.nil_append, marks, visible_effect_cons]
  case answer => exact answer
  case world => exact world
  case paid =>
    rw [charged_cons, charged_append, hcharged, paid, hsteps, units, Nat.zero_add]
    rfl
  case paced =>
    intro thisSize hfront
    refine ⟨fun hkey => absurd hkey Bool.false_ne_true, paced_append.mpr ⟨paced_of_no_key hkeys, ?_⟩⟩
    rw [hkeys, hcharged, units, Nat.zero_add]
    exact paced thisSize _ hfront

omit [DecidableEq V] in
theorem claim_plain {n : ℕ} (hplain : w.plainSize s other = some n) : w.claim s other = .plain n := by
  unfold Realm.claim
  rw [hplain]

theorem asDocumented_plain (hobject : w.isObject other = true) {n : ℕ} (hplain : w.plainSize s other = some n) :
    AsDocumented w m fuel other s ↔
      shortfall (w.thisSize s) (.finite n) + (keys (w.nativeOf m fuel other s).1 - n : ℕ) = 0 := by
  obtain ⟨-, -, hfree⟩ := trails_nativeOf w m fuel hobject s
  obtain ⟨front, hrun, hvisible, hcharged⟩ := metered_plain w m fuel hplain
  have hcharge : charged (w.metered m fuel other (s, ⟨0, 0⟩)).1 = allocUnits (plus (w.thisSize s) (.finite n)) := by
    rw [hrun, charged_append, hcharged, hfree, Nat.add_zero]
  have hdocumented : documented (w.thisSize s) (w.claim s other).size? (keys (w.nativeOf m fuel other s).1) =
      some (w.thisSize s + max n (keys (w.nativeOf m fuel other s).1)) := by
    rw [claim_plain w hplain, Claim.size?, documented, if_neg nofun, claimedSize_natCast]
  unfold shortfall
  rw [claimedSize_natCast]
  constructor
  · intro h
    have hcount := h.charge
    rw [hdocumented, hcharge, Option.some.injEq] at hcount
    omega
  · intro hfits
    constructor
    case marks => rw [hrun, visible_append, hvisible, List.nil_append]
    case answer => rw [hrun]
    case world => rw [hrun]
    case charge =>
      rw [hdocumented, hcharge]
      exact congrArg some (by omega)
    case ahead =>
      have hpaced : Paced (w.thisSize s) 0 0 (w.metered m fuel other (s, ⟨0, 0⟩)).1 := by
        rw [hrun]
        refine paced_append.mpr ⟨paced_of_no_key (keys_visible (m := []) hvisible), paced_of_le ?_⟩
        have : keys front = 0 := keys_visible (m := []) hvisible
        omega
      intro front v back hl
      have := paced_iff.mp hpaced front v back hl
      omega

theorem asDocumented_unread (hobject : w.isObject other = true) (hplain : w.plainSize s other = none) {e : V} {s₁ : σ}
    (hsize : w.get s other .size = (.error e, s₁)) : AsDocumented w m fuel other s ↔ w.thisSize s = 0 := by
  obtain ⟨hrun, hnative⟩ := metered_unread w m fuel hobject hplain hsize
  have hclaim : w.claim s other = .unread := by
    unfold Realm.claim
    rw [hplain, hsize]
  constructor
  · intro h
    have hcount := h.charge
    rw [hrun, hnative, hclaim] at hcount
    exact (Option.some.inj hcount).symm
  · intro hempty
    constructor <;> rw [hrun] <;> try rw [hnative]
    case charge =>
      rw [hclaim, hempty]
      rfl
    case ahead =>
      intro front v back hl
      rcases front with - | ⟨n, - | _⟩ <;> simp at hl

/-- The charge decides, as it is not the documented one where it comes too late. -/
theorem PaysFrom.charge_decides (hobject : w.isObject other = true) {claim : Number} (hclaim : claim ≠ .infinity false)
    (hpays : PaysFrom (allocUnits (plus (w.thisSize s) claim)) (claimedOf claim) (w.nativeOf m fuel other)
      (w.metered m fuel other) s) {total : ℕ}
    (htotal : documented (w.thisSize s) (w.claim s other).size? (keys (w.nativeOf m fuel other s).1) = some total)
    (hatLeast : w.thisSize s + max (claimedSize claim) (keys (w.nativeOf m fuel other s).1) ≤ total) :
    AsDocumented w m fuel other s ↔ allocUnits (plus (w.thisSize s) claim) +
      (steps (w.nativeOf m fuel other s).1 - claimedSize claim) = total := by
  obtain ⟨-, hwalked, -⟩ := trails_nativeOf w m fuel hobject s
  have hbeyond := beyond_claimedOf hclaim
  have hpaid := hpays.paid
  rw [hbeyond] at hpaid
  constructor
  · intro h
    have hcount := h.charge
    rw [htotal, hpaid, Option.some.injEq] at hcount
    exact hcount
  · intro hcharge
    have hpaced : Paced (w.thisSize s) 0 0 (w.metered m fuel other (s, ⟨0, 0⟩)).1 := by
      refine hpays.paced _ fun n => ?_
      rw [hbeyond]
      omega
    refine ⟨hpays.marks, hpays.answer, hpays.world, ?_, fun front v back hl => ?_⟩
    · rw [htotal, hpaid, hcharge]
    · have := paced_iff.mp hpaced front v back hl
      omega

/-- No number of units is the documented one. -/
theorem not_asDocumented_infinity (hclaim : (w.claim s other).size? = some (.infinity false)) :
    ¬AsDocumented w m fuel other s := by
  intro h
  have hcharge := h.charge
  rw [hclaim, documented, if_pos rfl] at hcharge
  exact absurd hcharge nofun

theorem asDocumented_number (hobject : w.isObject other = true) (hplain : w.plainSize s other = none) {rawSize : V}
    {s₁ : σ} (hsize : w.get s other .size = (.ok rawSize, s₁)) {n : Number} (hnumber : w.number? rawSize = some n) :
    AsDocumented w m fuel other s ↔ n ≠ .infinity false ∧ shortfall (w.thisSize s) n =
      lastStep (claimedSize n) (steps (w.nativeOf m fuel other s).1) (keys (w.nativeOf m fuel other s).1) := by
  have hclaim : (w.claim s other).size? = some n := by
    unfold Realm.claim
    rw [hplain, hsize]
    dsimp only
    rw [hnumber]
    rfl
  by_cases hinfinite : n = .infinity false
  · subst hinfinite
    exact iff_of_false (not_asDocumented_infinity w m fuel hclaim) fun h => h.1 rfl
  obtain ⟨hgiven, hwalked, -⟩ := trails_nativeOf w m fuel hobject s
  have hpays := metered_read w m fuel hobject hplain hsize
  rw [show w.claimOf rawSize = n by rw [Realm.claimOf, hnumber]; rfl] at hpays
  rw [hpays.charge_decides w m fuel hobject hinfinite (by rw [hclaim, documented, if_neg hinfinite]) le_rfl, lastStep,
    shortfall]
  simp only [ne_eq, hinfinite, not_false_eq_true, true_and]
  split <;> omega

theorem asDocumented_converted (hobject : w.isObject other = true) (hplain : w.plainSize s other = none) {rawSize : V}
    {s₁ : σ} (hsize : w.get s other .size = (.ok rawSize, s₁)) (hnumber : w.number? rawSize = none) :
    AsDocumented w m fuel other s ↔ ChargeFits (w.thisSize s) (steps (w.nativeOf m fuel other s).1)
      (keys (w.nativeOf m fuel other s).1) (.converted (w.toNumber s₁ rawSize).1.toOption) := by
  have hclaim : (w.claim s other).size? = (w.toNumber s₁ rawSize).1.toOption := by
    unfold Realm.claim
    rw [hplain, hsize]
    dsimp only
    rw [hnumber]
    rfl
  obtain ⟨hgiven, hwalked, -⟩ := trails_nativeOf w m fuel hobject s
  have hzero : claimedSize (.finite 0) = 0 := claimedSize_natCast 0
  -- the wrapper counts nothing as claimed
  have hpays := metered_read w m fuel hobject hplain hsize
  rw [show w.claimOf rawSize = .finite 0 by rw [Realm.claimOf, hnumber]; rfl] at hpays
  have hfinite : Number.finite 0 ≠ .infinity false := nofun
  have hdecides := @PaysFrom.charge_decides _ _ _ w m fuel _ _ hobject _ hfinite hpays
  rw [hclaim] at hdecides
  cases hnumber : (w.toNumber s₁ rawSize).1.toOption with
  | none =>
    rw [hnumber] at hdecides
    rw [hdecides rfl (by omega), ChargeFits, lastStep, shortfall]
    split <;> omega
  | some n =>
    rw [hnumber] at hdecides hclaim
    by_cases hinfinite : n = .infinity false
    · subst hinfinite
      exact iff_of_false (not_asDocumented_infinity w m fuel hclaim) fun h => h.1 rfl
    · rw [hdecides (by rw [documented, if_neg hinfinite]) (by omega), ChargeFits, lastStep, shortfall]
      simp only [ne_eq, hinfinite, not_false_eq_true, true_and]
      split <;> omega

inductive Item where
  | undefined
  | number (n : ℕ)
  | bool (b : Bool)
  | other
  | function (p : Property)
  | iterator
  | last
  | result (n : ℕ)
  deriving DecidableEq

/-- The argument claims a size and gives the keys that the state holds, or is a plain set of them. -/
def ofKeys (receiver : List ℕ) (size : ℕ) (plain : Bool) : Realm (List ℕ) Item where
  elements _ := receiver.map fun n => some (.number n)
  get
    | keys, .other, .size => (.ok (.number size), keys)
    | keys, .other, p => (.ok (.function p), keys)
    | keys, .iterator, p => (.ok (.function p), keys)
    | keys, .last, .done => (.ok (.bool true), keys)
    | keys, .result n, .value => (.ok (.number n), keys)
    | keys, _, _ => (.ok .undefined, keys)
  call
    | keys, .function .has, _, [.number n] => (.ok (.bool (n ∈ keys)), keys)
    | keys, .function .keys, _, _ => (.ok .iterator, keys)
    | n :: keys, .function .next, _, _ => (.ok (.result n), keys)
    | [], .function .next, _, _ => (.ok .last, [])
    | keys, _, _, _ => (.ok .undefined, keys)
  toNumber keys _ := (.ok .nan, keys)
  number?
    | .number n => some (.finite n)
    | .undefined => some .nan
    | _ => none
  isObject
    | .other | .iterator | .last | .result _ => true
    | _ => false
  isCallable
    | .function _ => true
    | _ => false
  isNullish v := v = .undefined
  truthy v := v = .bool true
  canonical v := v
  undefined := .undefined
  plainSize _ v := if plain ∧ v = .other then some size else none

end XChainVM.SetAlgebra
