import Mathlib.Data.List.Basic
import Mathlib.Algebra.Order.Ring.Int

/-! # Bounded tables of answers

A table keeps answers under their keys in the order in which they were stored. A request is
answered from the table where its key is there, and computed where it is not; a full table loses
its oldest entry to a new one, and a computation that fails stores nothing.
-/

namespace XChainVM.Machine

variable {κ β ε : Type*} [DecidableEq κ]

abbrev Table (κ β : Type*) := List (κ × β)

namespace Table

def evict (bound : ℤ) (t : Table κ β) : Table κ β := if bound ≤ t.length then t.tail else t

def consult (bound : ℤ) (key : κ) (fresh : Except ε β) (t : Table κ β) : Except ε β × Table κ β :=
  match t.lookup key with
  | some hit => (.ok hit, t)
  | none =>
    match fresh with
    | .ok answer => (.ok answer, evict bound t ++ [(key, answer)])
    | .error e => (.error e, t)

abbrev fetch (key : κ) (fresh : Except ε β) (t : Table κ β) : Except ε β × Table κ β :=
  consult (t.length + 1) key fresh t

/-- Every entry satisfies `P`. -/
def Stores (P : κ → β → Prop) (t : Table κ β) : Prop := ∀ entry ∈ t, P entry.1 entry.2

variable {bound : ℤ} {key : κ} {fresh : Except ε β} {t : Table κ β} {P : κ → β → Prop}

omit [DecidableEq κ] in
theorem mem_evict {entry : κ × β} (h : entry ∈ evict bound t) : entry ∈ t := by
  unfold evict at h
  split at h
  · exact List.mem_of_mem_tail h
  · exact h

theorem mem_of_lookup_eq {answer : β} (h : t.lookup key = some answer) : (key, answer) ∈ t := by
  obtain ⟨front, back, rfl, -⟩ := List.lookup_eq_some_iff.mp h
  exact List.mem_append_right _ List.mem_cons_self

/-- The three ways a request is met: from the table, by a computation, or not at all. -/
theorem consult_cases (bound : ℤ) (key : κ) (fresh : Except ε β) (t : Table κ β) :
    (∃ hit, (key, hit) ∈ t ∧ consult bound key fresh t = (.ok hit, t)) ∨
    (∃ answer, fresh = .ok answer ∧ consult bound key fresh t = (.ok answer, evict bound t ++ [(key, answer)])) ∨
    (∃ e, fresh = .error e ∧ consult bound key fresh t = (.error e, t)) := by
  unfold consult
  cases hlookup : t.lookup key with
  | some hit => exact .inl ⟨hit, mem_of_lookup_eq hlookup, rfl⟩
  | none =>
    cases fresh with
    | ok answer => exact .inr (.inl ⟨answer, rfl, rfl⟩)
    | error e => exact .inr (.inr ⟨e, rfl, rfl⟩)

theorem consult_length (h : (t.length : ℤ) ≤ max 1 bound) :
    ((consult bound key fresh t).2.length : ℤ) ≤ max 1 bound := by
  obtain ⟨hit, -, heq⟩ | ⟨answer, -, heq⟩ | ⟨e, -, heq⟩ := consult_cases bound key fresh t
  · rw [heq]
    exact h
  · rw [heq, evict]
    split
    · cases t with
      | nil => simp
      | cons entry t => simpa using h
    · rw [List.length_append, List.length_singleton]
      push_cast
      omega
  · rw [heq]
    exact h

/-- A request that throws leaves the table as it was. -/
theorem consult_error {e : ε} (h : (consult bound key fresh t).1 = .error e) :
    (consult bound key fresh t).2 = t := by
  obtain ⟨hit, -, heq⟩ | ⟨answer, -, heq⟩ | ⟨e, -, heq⟩ := consult_cases bound key fresh t
  · rw [heq]
  · rw [heq] at h
    cases h
  · rw [heq]

theorem consult_stores (h : t.Stores P) (hfresh : ∀ answer, fresh = .ok answer → P key answer) :
    Stores P (consult bound key fresh t).2 := by
  obtain ⟨hit, -, heq⟩ | ⟨answer, hanswer, heq⟩ | ⟨e, -, heq⟩ := consult_cases bound key fresh t
  · rw [heq]
    exact h
  · rw [heq]
    intro entry hentry
    obtain hold | hnew := List.mem_append.mp hentry
    · exact h entry (mem_evict hold)
    · rw [List.mem_singleton.mp hnew]
      exact hfresh answer hanswer
  · rw [heq]
    exact h

/-- Where what is stored under a key is what a fresh computation gives, the table is not seen. -/
theorem consult_fresh (h : t.Stores P) (hfresh : ∀ answer, P key answer → fresh = .ok answer) :
    (consult bound key fresh t).1 = fresh := by
  obtain ⟨hit, hhit, heq⟩ | ⟨answer, hanswer, heq⟩ | ⟨e, he, heq⟩ := consult_cases bound key fresh t
  · rw [heq]
    exact (hfresh hit (h _ hhit)).symm
  · rw [heq]
    exact hanswer.symm
  · rw [heq]
    exact he.symm

end Table

end XChainVM.Machine
