import XChainVM.SetAlgebra.Counting

/-! # A method on the record of the wrapper

It takes the same course as on the argument itself, marks, answer and world alike.
-/

namespace XChainVM.SetAlgebra

open Harness Js Machine

variable {σ V : Type}

def Silent {α : Type} (m : Eff σ (Mark V) (Thrown V) α) : Prop :=
  ∀ s, steps (m s).1 = 0 ∧ keys (m s).1 = 0 ∧ charged (m s).1 = 0

theorem Silent.bind {α β : Type} {m : Eff σ (Mark V) (Thrown V) α} {f : α → Eff σ (Mark V) (Thrown V) β}
    (hm : Silent m) (hf : ∀ a, Silent (f a)) : Silent (m >>= f) := by
  intro s
  have hs := hm s
  rcases h : m s with ⟨l, e | a, s'⟩ <;> rw [h] at hs
  · rw [Eff.bind_error h]
    exact hs
  · rw [Eff.bind_ok h]
    obtain ⟨hsteps, hkeys, hcharged⟩ := hf a s'
    dsimp only at hs ⊢
    rw [steps_append, keys_append, charged_append]
    omega

theorem silent_pure {α : Type} (a : α) : Silent (pure a : Eff σ (Mark V) (Thrown V) α) := fun _ => ⟨rfl, rfl, rfl⟩

theorem silent_throw {α : Type} (e : Thrown V) : Silent (Eff.throw e : Eff σ (Mark V) (Thrown V) α) :=
  fun _ => ⟨rfl, rfl, rfl⟩

theorem Silent.meters {α : Type} {m : Eff σ (Mark V) (Thrown V) α} (h : Silent m) (claimed : Number) (s : σ) (t : Tally) :
    Meters claimed Eq m m.onFirst s t :=
  Meters.onFirst (h s).1 (h s).2.1 (h s).2.2

/-- An iterator of the argument, and the counted one. -/
structure MetersIterator (claimed : Number) (it : Iterator σ V) (it' : Iterator (σ × Tally) V) : Prop where
  next : ∀ s t, Meters claimed Eq it.next it'.next s t
  /-- An iterator that cannot step may be closed otherwise. -/
  close : (∃ e, it.next = Eff.throw e) ∨ ∀ s t, Meters claimed Eq it.close it'.close s t

variable {claimed : Number} (elements : σ → List (Option V))

theorem Walk.meters_of_close {it : Iterator σ V} {it' : Iterator (σ × Tally) V}
    (hnext : ∀ s t, Meters claimed Eq it.next it'.next s t) (hclose : ∀ s t, Meters claimed Eq it.close it'.close s t)
    (walk : Walk V) (s : σ) (t : Tally) :
    Meters claimed Eq (walk.run elements it) (walk.run (fun s => elements s.1) it') s t := by
  induction walk generalizing s t with
  | done r => exact .pure rfl
  | going => exact .pure rfl
  | receiver k ih => exact (ih (elements s) s t).congr (Eff.state_bind_apply _ _) (Eff.state_bind_apply _ _)
  | next k ih =>
    refine (hnext s t).bind fun v v' s₁ t₁ _ hv => ?_
    subst hv
    exact ih v s₁ t₁
  | close rest ih => exact (hclose s t).bind fun _ _ s₁ t₁ _ _ => ih s₁ t₁

theorem Walk.meters_of_throw {it : Iterator σ V} {it' : Iterator (σ × Tally) V}
    (hnext : ∀ s t, Meters claimed Eq it.next it'.next s t) {e : Thrown V} (hthrow : it.next = Eff.throw e)
    (walk : Walk V) (hwalk : walk.Orderly false) (s : σ) (t : Tally) :
    Meters claimed Eq (walk.run elements it) (walk.run (fun s => elements s.1) it') s t := by
  induction walk generalizing s t with
  | done r => exact .pure rfl
  | going => exact .pure rfl
  | receiver k ih =>
    exact (ih (elements s) (hwalk _) s t).congr (Eff.state_bind_apply _ _) (Eff.state_bind_apply _ _)
  | next k _ =>
    refine (hnext s t).bind fun v _ _ _ hv _ => ?_
    rw [hthrow] at hv
    cases hv
  | close rest _ => cases hwalk.1

theorem Walk.meters {it : Iterator σ V} {it' : Iterator (σ × Tally) V} (hit : MetersIterator claimed it it')
    (walk : Walk V) (hwalk : walk.Orderly false) (s : σ) (t : Tally) :
    Meters claimed Eq (walk.run elements it) (walk.run (fun s => elements s.1) it') s t := by
  obtain ⟨e, hthrow⟩ | hclose := hit.close
  · exact walk.meters_of_throw elements hit.next hthrow hwalk s t
  · exact walk.meters_of_close elements hit.next hclose s t

/-- A set record of the argument, and the one of the wrapper. -/
structure MetersRecord (claimed : Number) (r : SetRecord σ V) (r' : SetRecord (σ × Tally) V) : Prop where
  size : r'.size = r.size
  has : ∀ v s t, Meters claimed Eq (r.has v) (r'.has v) s t
  keys : ∀ s t, Meters claimed (MetersIterator claimed) r.keys r'.keys s t

theorem Body.meters {r : SetRecord σ V} {r' : SetRecord (σ × Tally) V} (hr : MetersRecord claimed r r')
    (body : Body V) (hbody : body.Orderly) (s : σ) (t : Tally) :
    Meters claimed Eq (body.run elements r) (body.run (fun s => elements s.1) r') s t := by
  induction body generalizing s t with
  | done result => exact .pure rfl
  | going => exact .pure rfl
  | receiver k ih =>
    exact (ih (elements s) (hbody _) s t).congr (Eff.state_bind_apply _ _) (Eff.state_bind_apply _ _)
  | has v k ih =>
    refine (hr.has v s t).bind fun b b' s₁ t₁ _ hb => ?_
    subst hb
    exact ih b (hbody b) s₁ t₁
  | keys walk => exact (hr.keys s t).bind fun it it' s₁ t₁ _ hit => walk.meters elements hit hbody s₁ t₁

section

variable {A : Type}

theorem orderly_eachKey (canonical : V → V) (each : A → List (Option V) → V → A ⊕ Result V) (finish : A → Result V)
    (fuel : ℕ) (acc : A) (stepped : Bool) : (eachKey canonical each finish fuel acc).Orderly stepped := by
  induction fuel generalizing acc stepped with
  | zero => trivial
  | succ fuel ih =>
    refine ⟨⟨_, rfl⟩, fun v data => ?_⟩
    dsimp only
    split
    · exact ih _ _
    · exact ⟨rfl, trivial⟩

theorem orderly_eachElement (each : A → V → Bool → A ⊕ Result V) (finish : A → Result V) (fuel index : ℕ) (acc : A) :
    (eachElement each finish fuel index acc).Orderly := by
  induction fuel generalizing index acc with
  | zero => trivial
  | succ fuel ih =>
    intro data
    dsimp only
    split
    · trivial
    · exact ih _ _
    · intro inOther
      dsimp only
      split
      · exact ih _ _
      · trivial

theorem orderly_withoutAsked (elements acc : List V) : (withoutAsked elements acc).Orderly := by
  induction elements generalizing acc with
  | nil => trivial
  | cons e rest ih => exact fun _ => ih _

end

theorem orderly_body [DecidableEq V] (canonical : V → V) (fuel : ℕ) (size : Integer) (m : Method) :
    (m.body canonical fuel size).Orderly := by
  cases m with
  | union => exact fun _ => orderly_eachKey _ _ _ _ _ _
  | symmetricDifference => exact fun _ => orderly_eachKey _ _ _ _ _ _
  | intersection =>
    intro data
    dsimp only
    split
    · exact orderly_eachElement _ _ _ _ _
    · exact orderly_eachKey _ _ _ _ _ _
  | difference =>
    intro data
    dsimp only
    split
    · exact orderly_withoutAsked _ _
    · exact orderly_eachKey _ _ _ _ _ _
  | isSubsetOf =>
    intro data
    dsimp only
    split
    · exact orderly_eachElement _ _ _ _ _
    · trivial
  | isSupersetOf =>
    intro data
    dsimp only
    split
    · trivial
    · exact orderly_eachKey _ _ _ _ _ _
  | isDisjointFrom =>
    intro data
    dsimp only
    split
    · exact orderly_eachElement _ _ _ _ _
    · exact orderly_eachKey _ _ _ _ _ _

namespace Realm

variable (w : Realm σ V)

theorem silent_ask {α : Type} (mark : Mark V) (answer : σ → Except V α × σ) (hmark : mark ≠ .step)
    (hkey : ∀ v, mark ≠ .key v) : Silent (ask mark answer) := by
  intro s
  cases mark with
  | step => exact absurd rfl hmark
  | key v => exact absurd rfl (hkey v)
  | _ => exact ⟨rfl, rfl, rfl⟩

theorem silent_read (v : V) (p : Property) : Silent (w.read v p) := silent_ask _ _ nofun nofun

theorem silent_invoke (f this : V) (args : List V) : Silent (w.invoke f this args) := silent_ask _ _ nofun nofun

theorem silent_convert (v : V) : Silent (w.convert v) := by
  unfold convert
  split
  · exact silent_pure _
  · exact fun _ => ⟨rfl, rfl, rfl⟩

theorem silent_sendHas (hasFn other k : V) : Silent (w.sendHas hasFn other k) :=
  (w.silent_invoke _ _ _).bind fun _ => silent_pure _

theorem silent_closeIterator (it : V) : Silent (w.closeIterator it) := by
  refine (w.silent_read it .return).bind fun r => ?_
  split
  · exact silent_pure _
  · split
    · exact silent_throw _
    · refine (w.silent_invoke r it []).bind fun answer => ?_
      split
      · exact silent_pure _
      · exact silent_throw _

theorem metersIterator (claimed : Number) (it nextFn : V) :
    MetersIterator claimed (w.iteratorOf it nextFn) (w.countedIterator it nextFn claimed) := by
  unfold iteratorOf countedIterator
  by_cases hcallable : w.isCallable nextFn = true
  · rw [if_pos hcallable, if_pos hcallable]
    exact ⟨w.meters_next claimed nextFn it, .inr ((w.silent_closeIterator it).meters claimed)⟩
  · rw [if_neg hcallable, if_neg hcallable]
    exact ⟨fun _ _ => .throw, .inl ⟨_, rfl⟩⟩

theorem meters_openKeys (claimed : Number) (other keysFn : V) (s : σ) (t : Tally) :
    Meters claimed (MetersIterator claimed) (w.openKeys keysFn other) (w.countedKeys other keysFn claimed) s t := by
  refine ((w.silent_invoke keysFn other []).meters claimed s t).bind fun it it' s₁ t₁ _ hit => ?_
  subst hit
  split
  · exact .throw
  · refine ((w.silent_read it .next).meters claimed s₁ t₁).bind fun nextFn nextFn' _ _ _ hnext => ?_
    subst hnext
    exact .pure (w.metersIterator claimed it nextFn)

end Realm

end XChainVM.SetAlgebra
