import XChainVM.Harness.OwnLoops
import XChainVM.Harness.Probes

/-! # What loops of wrappers cost

When a call ends, the rounds its loops made are covered by what it charged, up to a
constant, provided that what it measures is what it walks.
-/

namespace XChainVM.Harness

open Js Machine

variable {σ : Type} {α β : Type}

def Finished (outcome : Option (Option α × σ)) : Prop := ∀ s, outcome ≠ some (none, s)

/-- The loops of a call end, and its charges cover the rounds but for `bound` of them. -/
structure PaysForLoops (bound : ℕ) (run : ℕ → Act σ (Option Unit)) (s : σ) : Prop where
  ends : ∃ fuel, Finished (run fuel s).2
  covered : ∀ fuel, Finished (run fuel s).2 → iterations (run fuel s).1 ≤ bound + charged (run fuel s).1

def LOOP_BOUND : ℕ := 2049

/-- Rounds and a debt of earlier ones are covered up to `bound` when the call ends. -/
def Repays (debt bound : ℕ) (m : Act σ (Option α)) : Prop :=
  ∀ s, Finished (m s).2 → allocated (m s).1 + debt ≤ bound + charged (m s).1

def Concludes (m : Act σ (Option α)) : Prop := ∀ s, Finished (m s).2

theorem finished_none : Finished (none : Option (Option α × σ)) := fun _ h => by cases h

theorem Concludes.bind {m : Act σ α} {f : α → Act σ (Option β)} (hf : ∀ a, Concludes (f a)) :
    Concludes (m >>= f) := by
  intro s
  rcases h : m s with ⟨t, _ | ⟨a, s'⟩⟩
  · rw [Act.bind_none h]
    exact finished_none
  · rw [Act.bind_some h]
    exact hf a s'

theorem Repays.bind {m : Act σ α} {f : α → Act σ (Option β)} {debt bound : ℕ}
    (hthrow : ∀ s, (m s).2 = none → allocated (m s).1 + debt ≤ bound + charged (m s).1)
    (hnext : ∀ s a s', (m s).2 = some (a, s') →
      ∃ debt', Repays debt' bound (f a) ∧ allocated (m s).1 + debt ≤ debt' + charged (m s).1) :
    Repays debt bound (m >>= f) := by
  intro s hfinished
  rcases h : m s with ⟨t, _ | ⟨a, s'⟩⟩
  · have hs := hthrow s (by rw [h])
    rw [h] at hs
    rw [Act.bind_none h]
    exact hs
  · obtain ⟨debt', hf, hle⟩ := hnext s a s' (by rw [h])
    rw [h] at hle
    rw [Act.bind_some h] at hfinished ⊢
    have hs := hf s' hfinished
    dsimp only at hle ⊢
    rw [allocated_append, charged_append]
    omega

/-- A beginning without rounds. -/
theorem repays_quiet_bind {m : Act σ α} {f : α → Act σ (Option β)} {debt bound : ℕ} (hm : Act.Quiet m)
    (hdebt : debt ≤ bound) (hf : ∀ a, Repays debt bound (f a)) : Repays debt bound (m >>= f) := by
  refine Repays.bind (fun s _ => ?_) fun s a s' _ => ⟨debt, hf a, ?_⟩
  all_goals rw [(hm s).allocated_eq]
  all_goals omega

theorem repays_of_quiet {m : Act σ (Option α)} {debt bound : ℕ} (hm : Act.Quiet m) (hdebt : debt ≤ bound) :
    Repays debt bound m := by
  intro s _
  rw [(hm s).allocated_eq]
  omega

theorem PaysForLoops.of_repays {bound : ℕ} {run : ℕ → Act σ (Option Unit)} (hends : ∃ fuel, Concludes (run fuel))
    (h : ∀ fuel, Repays 0 bound (run fuel)) (s : σ) : PaysForLoops bound run s where
  ends := hends.imp fun _ h => h s
  covered fuel := h fuel s

/-- A beginning without rounds. -/
theorem PaysForLoops.quiet_bind {bound : ℕ} {m : Act σ α} {f : ℕ → α → Act σ (Option Unit)} {s : σ}
    (hm : Act.Quiet m) (hf : ∀ a s', (m s).2 = some (a, s') → PaysForLoops bound (fun fuel => f fuel a) s') :
    PaysForLoops bound (fun fuel => m >>= f fuel) s := by
  have hquiet := (hm s).allocated_eq
  rcases h : m s with ⟨t, _ | ⟨a, s'⟩⟩
  · rw [h] at hquiet
    refine ⟨⟨0, ?_⟩, fun fuel _ => ?_⟩
    · rw [Act.bind_none h]
      exact finished_none
    · rw [Act.bind_none h, iterations, hquiet]
      exact Nat.zero_le _
  · obtain ⟨⟨fuel, hends⟩, hcovered⟩ := hf a s' (by rw [h])
    rw [h] at hquiet
    refine ⟨⟨fuel, ?_⟩, fun fuel hfinished => ?_⟩
    · rw [Act.bind_some h]
      exact hends
    · rw [Act.bind_some h] at hfinished ⊢
      have := hcovered fuel hfinished
      simp only [iterations, allocated_append, charged_append, hquiet] at this ⊢
      omega

def Rounds (k : ℕ) (m : Act σ α) : Prop := ∀ s, allocated (m s).1 ≤ k

theorem rounds_of_quiet {m : Act σ α} (hm : Act.Quiet m) (k : ℕ) : Rounds k m := by
  intro s
  rw [(hm s).allocated_eq]
  exact Nat.zero_le k

theorem rounds_iterate : Rounds 1 (iterate : Act σ Unit) := fun _ => le_rfl

theorem Rounds.bind {j k l : ℕ} {m : Act σ α} {f : α → Act σ β} (hm : Rounds j m) (hf : ∀ a, Rounds k (f a))
    (hl : j + k ≤ l) : Rounds l (m >>= f) := by
  intro s
  have hs := hm s
  rcases h : m s with ⟨t, _ | ⟨a, s'⟩⟩
  · rw [h] at hs
    rw [Act.bind_none h]
    exact hs.trans (by omega)
  · rw [h] at hs
    rw [Act.bind_some h, allocated_append]
    exact (Nat.add_le_add hs (hf a s')).trans hl

theorem Rounds.quiet_bind {k : ℕ} {m : Act σ α} {f : α → Act σ β} (hm : Act.Quiet m) (hf : ∀ a, Rounds k (f a)) :
    Rounds k (m >>= f) :=
  (rounds_of_quiet hm 0).bind hf (by omega)

variable (w : LoopWorld σ) (lang : Language)

theorem quiet_look (f : σ → α) : Act.Quiet (look f) := fun _ => noAlloc_nil

theorem quiet_callable (v : Val) : Act.Quiet (callable w v) := quiet_look _

theorem quiet_delegate (args : List Val) : Act.Quiet (delegate w args) :=
  (quiet_forward w.toWorld args).bind fun _ => (quiet_ask _).bind fun _ => Act.quiet_pure _

theorem quiet_primAbove (bound : ℚ) (p : Prim) : Act.Quiet (primAbove w bound p) := by
  cases p with
  | symbol => exact Act.quiet_throw
  | bigint z => exact Act.quiet_pure _
  | _ => exact (w.quiet_primToNumber _).bind fun _ => Act.quiet_pure _

theorem quiet_above (bound : ℚ) (v : Val) : Act.Quiet (above w bound v) := by
  cases v with
  | prim p => exact quiet_primAbove w bound p
  | object id => exact (quiet_ask _).bind fun p => quiet_primAbove w bound p

theorem quiet_lengthOrZero (this : Val) : Act.Quiet (lengthOrZero w this) := by
  unfold lengthOrZero
  split
  · exact Act.quiet_pure _
  · exact w.quiet_read this .length

theorem quiet_defaultCompare (cmp n : Val) : Act.Quiet (defaultCompare w cmp n) := by
  refine (quiet_callable w cmp).bind fun b => ?_
  split
  · exact Act.quiet_pure _
  · exact quiet_above w 1 n

theorem quiet_allocGas (v : Val) : Act.Quiet (allocGas w.toWorld v) :=
  (w.quiet_toNumber v).bind fun x => quiet_allocNumber x

theorem concludes_delegate (args : List Val) : Concludes (delegate w args) :=
  Concludes.bind fun _ => Concludes.bind fun _ s s' h => by cases h

/-- A charge for a count pays that many rounds, but one. -/
theorem repays_allocNumber {x : Number} {f : Unit → Act σ (Option α)} {debt bound : ℕ}
    (hdebt : debt ≤ bound + worth (some x)) (hf : ∀ debt ≤ bound, Repays debt bound (f ())) :
    Repays debt bound (allocNumber x >>= f) := by
  refine Repays.bind (fun s hs => ?_) fun s a s' hs => ⟨debt - worth (some x), hf _ (by omega), ?_⟩
  all_goals
    obtain ⟨t, heq, hquiet, hworth⟩ := allocSize_apply (some x) s
    rw [allocSize] at heq
    rw [heq] at hs ⊢
  · cases hs
  · rw [hquiet.allocated_eq, hworth]
    omega

/-- A walk of a fixed number of rounds, the charge for which comes first or is not owed. -/
theorem Repays.of_bounded {m : Act σ α} {f : α → Act σ (Option β)} {rounds debt bound : ℕ}
    (hm : Rounds rounds m) (hrounds : rounds + debt ≤ bound) (hf : ∀ a, ∀ debt ≤ bound, Repays debt bound (f a)) : Repays debt bound (m >>= f) := by
  refine Repays.bind (fun s _ => ?_) fun s a s' _ => ⟨rounds + debt, hf a _ hrounds, ?_⟩
  all_goals
    have := hm s
    omega

theorem repays_delegate (args : List Val) {debt bound : ℕ} (hdebt : debt ≤ bound) :
    Repays debt bound (delegate w args) :=
  repays_of_quiet (quiet_delegate w args) hdebt

theorem repays_allocGas_delegate (n : Val) (args : List Val) (bound : ℕ) :
    Repays 0 bound (allocGas w.toWorld n >>= fun _ => delegate w args) :=
  repays_quiet_bind (quiet_allocGas w n) (Nat.zero_le _) fun _ => repays_delegate w args (Nat.zero_le _)

/-- Units charged before are credit for the rounds that follow. -/
theorem Repays.credit {m : Act σ α} {f : α → Act σ (Option β)} {debt bound units : ℕ}
    (hm : ∀ s, allocated (m s).1 = 0) (hcharged : ∀ s a s', (m s).2 = some (a, s') → units ≤ charged (m s).1)
    (hdebt : debt ≤ bound) (hf : ∀ a, Repays debt (bound + units) (f a)) : Repays debt bound (m >>= f) := by
  intro s hfinished
  have hquiet := hm s
  have hunits := hcharged s
  rcases h : m s with ⟨t, _ | ⟨a, s'⟩⟩
  · rw [h] at hquiet
    rw [Act.bind_none h]
    dsimp only at hquiet ⊢
    omega
  · rw [h] at hquiet hunits
    rw [Act.bind_some h] at hfinished ⊢
    have hs := hf a s' hfinished
    have hle := hunits a s' rfl
    dsimp only at hquiet hle ⊢
    rw [allocated_append, charged_append]
    omega

end XChainVM.Harness
