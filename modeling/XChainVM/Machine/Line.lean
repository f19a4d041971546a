import Mathlib.Logic.Relation
import Mathlib.Data.List.Basic

/-! # Lines

Items join a line at its end and leave it at its front, any number at once. Whatever the order of the
two, the items that have left are the first ones that came.
-/

namespace XChainVM.Machine

structure Line (α : Type*) where
  served : List α
  waiting : List α

namespace Line

variable {α : Type*}

def arrived (q : Line α) : List α := q.served ++ q.waiting

def arrive (q : Line α) (a : α) : Line α := ⟨q.served, q.waiting ++ [a]⟩

def Serves (q q' : Line α) : Prop :=
  ∃ first, q.waiting = first ++ q'.waiting ∧ q'.served = q.served ++ first

inductive Step (q : Line α) : Line α → Prop
  | arrive (a : α) : Step q (q.arrive a)
  | serve {q' : Line α} (h : Serves q q') : Step q q'

def Reaches : Line α → Line α → Prop := Relation.ReflTransGen Step

variable {q q' : Line α}

theorem arrived_arrive (q : Line α) (a : α) : (q.arrive a).arrived = q.arrived ++ [a] :=
  (List.append_assoc _ _ _).symm

theorem Serves.refl (q : Line α) : Serves q q := ⟨[], rfl, (List.append_nil _).symm⟩

theorem Serves.arrived_eq (h : Serves q q') : q'.arrived = q.arrived := by
  obtain ⟨first, hwaiting, hserved⟩ := h
  rw [arrived, arrived, hwaiting, hserved, List.append_assoc]

theorem Step.served_prefix (h : Step q q') : q.served <+: q'.served := by
  cases h with
  | arrive a => exact List.prefix_refl _
  | serve h =>
    obtain ⟨first, -, hserved⟩ := h
    rw [hserved]
    exact List.prefix_append _ _

/-- What has left once stays first. -/
theorem Reaches.served_prefix (h : Reaches q q') : q.served <+: q'.served := by
  induction h with
  | refl => exact List.prefix_refl _
  | tail _ hstep ih => exact ih.trans hstep.served_prefix

end Line

end XChainVM.Machine
