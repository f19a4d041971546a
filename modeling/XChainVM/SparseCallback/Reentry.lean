import XChainVM.SparseCallback.Transparency

/-! # Whole runs of a contract

The metered methods are put in place of the builtins, and the contract calls them from wherever it likes:
from callbacks, getters and conversions, on the same receiver or on another.
-/

namespace XChainVM.SparseCallback

open Harness Js Machine Cut

variable {σ α γ : Type}

/-- No code of the contract calls a method on `null` or `undefined`. -/
def Program.Receives (p : Program σ) : Prop := ∀ r, (p.code r).Receives

def Implementation.Simulates (see : Note Request → Option γ) (methods methods' : Implementation σ) : Prop :=
  ∀ enter enter' : Request → Run (World σ) Val, (∀ r, SparseCallback.Simulates see (enter r) (enter' r)) →
    ∀ m (this : Val) args, this.isNullish = false →
      SparseCallback.Simulates see (methods enter m this args) (methods' enter' m this args)

variable {see : Note Request → Option γ} {methods methods' : Implementation σ} {p : Program σ}

theorem simulates_run (hmethods : Implementation.Simulates see methods methods')
    {enter enter' : Request → Run (World σ) Val} (henter : ∀ r, Simulates see (enter r) (enter' r)) (code : Code σ)
    (hcode : code.Receives) : Simulates see (code.run methods enter) (code.run methods' enter') := by
  induction code with
  | done a => exact .answer a
  | act m next ih => exact (Simulates.perform m).resume fun a => ih a (hcode a)
  | enter r next ih => exact (Program.simulates_visit henter r).resume fun a => ih a (hcode a)
  | method m this args next ih =>
    exact (hmethods enter enter' henter m this args hcode.1).resume fun a => ih a (hcode.2 a)

theorem simulates_enter (hmethods : Implementation.Simulates see methods methods') (hp : p.Receives) (depth : ℕ)
    (r : Request) : Simulates see (p.enter methods depth r) (p.enter methods' depth r) := by
  induction depth generalizing r with
  | zero => exact .of_stateless fun _ => rfl
  | succ depth ih => exact simulates_run hmethods ih (p.code r) (hp r)

namespace Program

variable {enter enter' : Request → Run (World σ) Val}

theorem metered_simulates (hkeeps : p.KeepsBuiltins) : Implementation.Simulates see p.metered p.closing :=
  fun _ _ henter m _ args hthis => simulates_metered henter hkeeps m hthis args

section Unseen

variable (hsee : ∀ n, see (.charge n) = none)

include hsee

theorem simulates_ending_chargeLength {m m' : Run (World σ) α} (h : Simulates see m m') (n : ℕ) :
    Simulates see (ending m (chargeLength n)) m' := by
  have hunseen : (allocNotes n).filterMap see = [] := by
    unfold allocNotes
    split
    · rw [List.filterMap_cons_none (hsee n), List.filterMap_nil]
    · rfl
  have hidle : ending m' (pure ()) = m' := by
    rw [ending]
    simp only [pure_bind, resume_answer]
  rw [← hidle]
  exact h.ending (.of_unseen (chargeLength_apply n) hunseen)

theorem simulates_forward_bind {m m' : Run (World σ) α} (args : List Val) (h : Simulates see m m') :
    Simulates see (forward args >>= fun _ => m) m' := by
  have hunseen : (forwardNotes args).filterMap see = [] := by
    unfold forwardNotes
    split
    · rw [List.filterMap_cons_none (hsee _), List.filterMap_nil]
    · rfl
  rw [← pure_bind () fun _ => m']
  exact (Simulates.of_unseen (forward_apply args) hunseen).bind fun _ => h

/-- The charges aside, a charged call is a call of the builtin. -/
theorem closing_simulates : Implementation.Simulates see p.closing p.builtin := by
  intro enter enter' henter m this args _
  have hbuiltin : p.builtin enter' m this args = (do
      let o ← p.toObject this
      p.builtin enter' m (.object o) args) := rfl
  rw [closing, hbuiltin]
  refine (p.simulates_toObject this).bind fun o s s' hheap hfree => ?_
  rw [Eff.state_bind_apply]
  split
  · exact simulates_ending_chargeLength hsee
      (simulates_forward_bind hsee args (simulates_builtin henter m o args)) _ s s' hheap hfree
  · rw [priced_object, builtin_object]
    refine simulates_forward_bind hsee args ((simulates_lengthNumber henter o).bind fun x => ?_) s s' hheap hfree
    exact simulates_ending_chargeLength hsee (simulates_visit henter _) _

end Unseen

/-- A getter answers 3, and `forEach` maps the receiver it goes through. -/
def tripled : Program Unit where
  code
    | .call _ _ _ => .done (.ok (.number (.finite 3)))
    | .scan .forEach o _ args => .method .map (.object o) args .done
    | _ => .done (.ok .undefined)
  callMember f this args := .call f this args
  floorMember _ := none
  stringToNumber _ := .nan
  box h _ := (0, h)
  box_free _ _ h := h
  globalThis := 0

def accessorLength (configurable : Bool) : World Unit where
  objects _ := ⟨[("length", .accessor (some (.contract 1)) none true configurable)], [], false⟩
  rest := ()
  probes := []

theorem accessorLength_free (configurable : Bool) : (accessorLength configurable).Free := by
  intro o d hd
  obtain rfl := List.mem_singleton.mp hd
  exact ⟨rfl, rfl⟩

def walk : Code Unit := .method .forEach (.object 0) [] .done

theorem tripled_receives : tripled.Receives := by
  rintro (_ | _ | ⟨m, _, _, _⟩)
  · trivial
  · trivial
  · cases m <;> first | trivial | exact ⟨rfl, fun _ => trivial⟩

theorem tripled_keepsBuiltins : tripled.KeepsBuiltins := ⟨fun _ _ _ => rfl, fun _ => rfl⟩

end Program

end XChainVM.SparseCallback
