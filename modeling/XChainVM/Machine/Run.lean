import Mathlib.Data.List.Basic

/-! # Runs of an event-driven machine

A machine answers one event at a time and runs each handler to its end, so a
run is a fold of its step function over the events delivered. Safety laws are
inductions over such a fold; a law that holds only while each step meets a
condition on its source state and its event is an induction over the runs
that meet it.
-/

namespace XChainVM.Machine

variable {σ ε : Type*} (step : σ → ε → σ)

def run (s : σ) (events : List ε) : σ := events.foldl step s

@[simp] theorem run_nil (s : σ) : run step s [] = s := rfl

@[simp] theorem run_cons (s : σ) (e : ε) (events : List ε) :
    run step s (e :: events) = run step (step s e) events := rfl

theorem run_append (s : σ) (first second : List ε) :
    run step s (first ++ second) = run step (run step s first) second :=
  List.foldl_append

theorem run_concat (s : σ) (events : List ε) (e : ε) :
    run step s (events ++ [e]) = step (run step s events) e := by
  rw [run_append, run_cons, run_nil]

/-- Every step of the run meets `C` at the state it leaves. -/
def Meets (C : σ → ε → Prop) : σ → List ε → Prop
  | _, [] => True
  | s, e :: events => C s e ∧ Meets C (step s e) events

/-- `P` holds at the start, at the end and at every state between. -/
def Throughout (P : σ → Prop) (s : σ) (events : List ε) : Prop :=
  ∀ first second, events = first ++ second → P (run step s first)

variable {step}

theorem Meets.append_left {C : σ → ε → Prop} {s : σ} {first second : List ε}
    (h : Meets step C s (first ++ second)) : Meets step C s first := by
  induction first generalizing s with
  | nil => trivial
  | cons e first ih => exact ⟨h.1, ih h.2⟩

theorem Meets.of_forall {C : σ → ε → Prop} (h : ∀ s e, C s e) (s : σ) (events : List ε) :
    Meets step C s events := by
  induction events generalizing s with
  | nil => trivial
  | cons e events ih => exact ⟨h s e, ih _⟩

/-- The step rule: what each step preserves holds at the end of every run that meets `C`. -/
theorem Meets.invariant {C : σ → ε → Prop} {I : σ → Prop}
    (hstep : ∀ s e, I s → C s e → I (step s e)) {s : σ} {events : List ε} (hs : I s)
    (h : Meets step C s events) : I (run step s events) := by
  induction events generalizing s with
  | nil => exact hs
  | cons e events ih => exact ih (hstep s e hs h.1) h.2

theorem run_invariant {I : σ → Prop} (hstep : ∀ s e, I s → I (step s e)) {s : σ} (hs : I s)
    (events : List ε) : I (run step s events) :=
  Meets.invariant (C := fun _ _ => True) (fun s e hi _ => hstep s e hi) hs
    (Meets.of_forall (fun _ _ => trivial) s events)

theorem Meets.throughout {C : σ → ε → Prop} {I : σ → Prop}
    (hstep : ∀ s e, I s → C s e → I (step s e)) {s : σ} {events : List ε} (hs : I s)
    (h : Meets step C s events) : Throughout step I s events := by
  intro first second he
  subst he
  exact Meets.invariant hstep hs h.append_left

end XChainVM.Machine
