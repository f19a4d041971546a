import Mathlib.Algebra.Order.BigOperators.Group.Finset
import Mathlib.Data.Finset.Union
import Mathlib.Data.List.Infix

/-! # Trees that split a budget

A node is named by the list of its child positions, the last one first. Each
live node keeps a part of its budget and hands the rest to its children, of
which it has finitely many. A tree of bounded depth is finite, and all its
nodes together keep no more than the budget of the root.
-/

namespace XChainVM.Tree

open Finset

structure BudgetTree (M : Type*) [AddCommMonoid M] [PartialOrder M] where
  Live : List ℕ → Prop
  arity : List ℕ → ℕ
  own : List ℕ → M
  budget : List ℕ → M
  live_root : Live []
  live_cons : ∀ i p, Live (i :: p) ↔ Live p ∧ i < arity p
  conserve : ∀ p, Live p → own p + ∑ i ∈ range (arity p), budget (i :: p) ≤ budget p

namespace BudgetTree

variable {M : Type*} [AddCommMonoid M] [PartialOrder M] (T : BudgetTree M)

/-- The nodes at most `n` levels below `p`. -/
def below : ℕ → List ℕ → Finset (List ℕ)
  | 0, p => {p}
  | n + 1, p => insert p ((range (T.arity p)).biUnion fun i => below n (i :: p))

theorem suffix_of_mem_below {n : ℕ} {p q : List ℕ} (h : q ∈ T.below n p) : p <:+ q := by
  induction n generalizing p with
  | zero => rw [mem_singleton.mp h]
  | succ n ih =>
    rw [below, mem_insert, mem_biUnion] at h
    obtain rfl | ⟨i, -, hi⟩ := h
    · exact List.suffix_refl q
    · exact (List.suffix_cons i p).trans (ih hi)

theorem live_of_mem_below {n : ℕ} {p q : List ℕ} (hp : T.Live p) (h : q ∈ T.below n p) : T.Live q := by
  induction n generalizing p with
  | zero => rwa [mem_singleton.mp h]
  | succ n ih =>
    rw [below, mem_insert, mem_biUnion] at h
    obtain rfl | ⟨i, hi, hq⟩ := h
    · exact hp
    · exact ih ((T.live_cons i p).mpr ⟨hp, mem_range.mp hi⟩) hq

theorem live_of_suffix {p q : List ℕ} (h : p <:+ q) (hq : T.Live q) : T.Live p := by
  obtain ⟨front, rfl⟩ := h
  induction front with
  | nil => exact hq
  | cons i front ih => exact ih ((T.live_cons i (front ++ p)).mp hq).1

theorem mem_below_of_live {n : ℕ} (front p : List ℕ) (hlen : front.length ≤ n)
    (hq : T.Live (front ++ p)) : front ++ p ∈ T.below n p := by
  induction n generalizing front p with
  | zero =>
    rw [List.length_eq_zero_iff.mp (Nat.le_zero.mp hlen)]
    exact mem_singleton_self p
  | succ n ih =>
    rw [below, mem_insert, mem_biUnion]
    -- the child through which the node is reached is the last position of `front`
    obtain rfl | ⟨init, i, rfl⟩ := front.eq_nil_or_concat'
    · exact .inl rfl
    · right
      rw [List.append_assoc, List.singleton_append] at hq ⊢
      have hchild : T.Live (i :: p) := T.live_of_suffix (List.suffix_append init (i :: p)) hq
      have hinit : init.length ≤ n := by simpa using hlen
      exact ⟨i, mem_range.mpr ((T.live_cons i p).mp hchild).2, ih init (i :: p) hinit hq⟩

theorem not_mem_below_cons (n i : ℕ) (p : List ℕ) : p ∉ T.below n (i :: p) := by
  intro h
  have hlen := (T.suffix_of_mem_below h).length_le
  simp at hlen

theorem disjoint_below_cons (n : ℕ) (p : List ℕ) {i j : ℕ} (hij : i ≠ j) :
    Disjoint (T.below n (i :: p)) (T.below n (j :: p)) := by
  rw [disjoint_left]
  intro q hi hj
  have hsuff := List.suffix_of_suffix_length_le (T.suffix_of_mem_below hi) (T.suffix_of_mem_below hj)
    (by simp)
  exact hij (List.cons.inj (hsuff.eq_of_length (by simp))).1

variable [IsOrderedAddMonoid M]

theorem sum_below_le {n : ℕ} {p : List ℕ} (hp : T.Live p)
    (hleaf : ∀ q ∈ T.below n p, T.own q ≤ T.budget q) : ∑ q ∈ T.below n p, T.own q ≤ T.budget p := by
  induction n generalizing p with
  | zero =>
    rw [below, sum_singleton]
    exact hleaf p (mem_singleton_self p)
  | succ n ih =>
    have hfresh : p ∉ (range (T.arity p)).biUnion fun i => T.below n (i :: p) := by
      rw [mem_biUnion]
      rintro ⟨i, -, hi⟩
      exact T.not_mem_below_cons n i p hi
    rw [below, sum_insert hfresh,
      sum_biUnion fun i _ j _ hij => T.disjoint_below_cons n p hij]
    calc T.own p + ∑ i ∈ range (T.arity p), ∑ q ∈ T.below n (i :: p), T.own q
        ≤ T.own p + ∑ i ∈ range (T.arity p), T.budget (i :: p) := by
          gcongr with i hi
          have hlive := (T.live_cons i p).mpr ⟨hp, mem_range.mp hi⟩
          refine ih hlive fun q hq => hleaf q ?_
          rw [below, mem_insert, mem_biUnion]
          exact .inr ⟨i, hi, hq⟩
      _ ≤ T.budget p := T.conserve p hp

/-- Conservation: a tree of bounded depth is finite and keeps at most its budget. -/
theorem exists_nodes {depth : ℕ} (hdepth : ∀ p, T.Live p → p.length ≤ depth)
    (hleaf : ∀ p, T.Live p → T.own p ≤ T.budget p) :
    ∃ nodes : Finset (List ℕ), (∀ p, p ∈ nodes ↔ T.Live p) ∧ ∑ p ∈ nodes, T.own p ≤ T.budget [] := by
  refine ⟨T.below depth [], fun p => ⟨T.live_of_mem_below T.live_root, fun hp => ?_⟩, ?_⟩
  · simpa using T.mem_below_of_live p [] (hdepth p hp) (by simpa using hp)
  · exact T.sum_below_le T.live_root fun q hq => hleaf q (T.live_of_mem_below T.live_root hq)

end BudgetTree

end XChainVM.Tree
