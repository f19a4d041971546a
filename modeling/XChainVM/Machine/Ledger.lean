import Mathlib.Algebra.GroupWithZero.Nat
import Mathlib.Data.List.Basic
import Mathlib.Algebra.Order.BigOperators.Group.List
import Mathlib.Algebra.BigOperators.Group.List.Lemmas

/-! # Computations that charge and allocate

A computation threads a state, may end early, and leaves a ledger of what it
charged and what it allocated. The ledger is paid when at no point more has been
allocated than was charged by then, one unit of grace aside.
-/

namespace XChainVM.Machine

inductive Entry where
  | charge (units : ℕ)
  | alloc (n : ℕ)
  deriving DecidableEq, Repr

def Entry.charged : Entry → ℕ
  | charge units => units
  | alloc _ => 0

def Entry.allocated : Entry → ℕ
  | charge _ => 0
  | alloc n => n

def charged (ledger : List Entry) : ℕ := (ledger.map Entry.charged).sum

def allocated (ledger : List Entry) : ℕ := (ledger.map Entry.allocated).sum

/-- Every allocation has been paid for when it is made, up to one unit. -/
def Paid (ledger : List Entry) : Prop :=
  ∀ front back, ledger = front ++ back → allocated front ≤ charged front + 1

/-- The same, with `c` units charged and `a` allocated before. -/
def PaidFrom (c a : ℕ) (ledger : List Entry) : Prop :=
  ∀ front back, ledger = front ++ back → a + allocated front ≤ c + charged front + 1

def NoAlloc (ledger : List Entry) : Prop := ∀ e ∈ ledger, e.allocated = 0

@[simp] theorem charged_append (s t : List Entry) : charged (s ++ t) = charged s + charged t := by
  simp [charged]

@[simp] theorem allocated_append (s t : List Entry) : allocated (s ++ t) = allocated s + allocated t := by
  simp [allocated]

@[simp] theorem charged_cons (e : Entry) (t : List Entry) : charged (e :: t) = e.charged + charged t := by
  simp [charged]

@[simp] theorem allocated_cons (e : Entry) (t : List Entry) :
    allocated (e :: t) = e.allocated + allocated t := by
  simp [allocated]

@[simp] theorem charged_nil : charged [] = 0 := rfl

@[simp] theorem allocated_nil : allocated [] = 0 := rfl

theorem paid_iff_paidFrom (t : List Entry) : Paid t ↔ PaidFrom 0 0 t := by
  simp [Paid, PaidFrom]

theorem NoAlloc.allocated_eq {t : List Entry} (h : NoAlloc t) : allocated t = 0 := by
  apply List.sum_eq_zero
  intro n hn
  obtain ⟨e, he, rfl⟩ := List.mem_map.mp hn
  exact h e he

theorem NoAlloc.append {s t : List Entry} (hs : NoAlloc s) (ht : NoAlloc t) : NoAlloc (s ++ t) := by
  intro e he
  obtain h | h := List.mem_append.mp he
  · exact hs e h
  · exact ht e h

theorem noAlloc_nil : NoAlloc [] := fun _ h => absurd h (by simp)

theorem noAlloc_charge (units : ℕ) : NoAlloc [.charge units] := by simp [NoAlloc, Entry.allocated]

/-- Entries that allocate nothing only add to what is charged. -/
theorem NoAlloc.paidFrom_append {c a : ℕ} {s : List Entry} (hs : NoAlloc s) (hpaid : a ≤ c + 1)
    (t : List Entry) : PaidFrom c a (s ++ t) ↔ PaidFrom (c + charged s) a t := by
  constructor
  · intro h front back ht
    have hle := h (s ++ front) back (by rw [ht, List.append_assoc])
    rw [allocated_append, charged_append, hs.allocated_eq] at hle
    omega
  · intro h front back ht
    obtain ⟨mid, hs', ht'⟩ | ⟨mid, hf, ht'⟩ := List.append_eq_append_iff.mp ht.symm
    · -- the cut lies within `s`
      have hfront : NoAlloc front := fun e he => hs e (hs' ▸ List.mem_append_left _ he)
      rw [hfront.allocated_eq]
      omega
    · have hle := h mid back ht'
      rw [hf, allocated_append, charged_append, hs.allocated_eq]
      omega

/-- Entries after the last allocation decide nothing. -/
theorem NoAlloc.paidFrom_append_right {c a : ℕ} {t : List Entry} (ht : NoAlloc t) (s : List Entry) :
    PaidFrom c a (s ++ t) ↔ PaidFrom c a s := by
  constructor
  · intro h front back hs
    exact h front (back ++ t) (by rw [hs, List.append_assoc])
  · intro h front back hst
    obtain ⟨mid, hs, -⟩ | ⟨mid, hf, ht'⟩ := List.append_eq_append_iff.mp hst.symm
    · exact h front mid hs
    · have hle := h s [] (List.append_nil s).symm
      have hmid : NoAlloc mid := fun e he => ht e (ht' ▸ List.mem_append_left _ he)
      rw [hf, allocated_append, charged_append, hmid.allocated_eq]
      omega

theorem paidFrom_nil {c a : ℕ} : PaidFrom c a [] ↔ a ≤ c + 1 := by
  simp [PaidFrom]

theorem PaidFrom.mono {c c' a : ℕ} {t : List Entry} (h : PaidFrom c a t) (hc : c ≤ c') :
    PaidFrom c' a t := by
  intro front back ht
  have := h front back ht
  omega

theorem PaidFrom.le {c a : ℕ} {t : List Entry} (h : PaidFrom c a t) : a ≤ c + 1 := by
  simpa using h [] t rfl

theorem paidFrom_alloc_cons {c a n : ℕ} (t : List Entry) (ha : a ≤ c + 1) :
    PaidFrom c a (.alloc n :: t) ↔ PaidFrom c (a + n) t := by
  constructor
  · intro h front back ht
    have hle := h (.alloc n :: front) back (by rw [ht, List.cons_append])
    simp only [allocated_cons, charged_cons, Entry.allocated, Entry.charged] at hle
    omega
  · intro h front back ht
    cases front with
    | nil => simpa using ha
    | cons e front =>
      obtain ⟨rfl, hrest⟩ := List.cons.inj ht
      have hle := h front back hrest
      simp only [allocated_cons, charged_cons, Entry.allocated, Entry.charged]
      omega

/-- A state-threading computation with its ledger; no outcome when it threw. -/
def Act (σ α : Type) := σ → List Entry × Option (α × σ)

namespace Act

variable {σ α β : Type}

protected def pure (a : α) : Act σ α := fun s => ([], some (a, s))

protected def bind (m : Act σ α) (f : α → Act σ β) : Act σ β := fun s =>
  match m s with
  | (t, some (a, s')) => (t ++ (f a s').1, (f a s').2)
  | (t, none) => (t, none)

instance : Monad (Act σ) where
  pure := Act.pure
  bind := Act.bind

def throw : Act σ α := fun _ => ([], none)

def charge (units : ℕ) : Act σ Unit := fun s => ([.charge units], some ((), s))

def alloc (n : ℕ) : Act σ Unit := fun s => ([.alloc n], some ((), s))

theorem bind_some {m : Act σ α} {f : α → Act σ β} {s s' : σ} {t : List Entry} {a : α}
    (h : m s = (t, some (a, s'))) : (m >>= f) s = (t ++ (f a s').1, (f a s').2) := by
  change Act.bind m f s = _
  simp only [Act.bind, h]

theorem bind_none {m : Act σ α} {f : α → Act σ β} {s : σ} {t : List Entry} (h : m s = (t, none)) :
    (m >>= f) s = (t, none) := by
  change Act.bind m f s = _
  simp only [Act.bind, h]

/-- What a computation answers comes from its parts. -/
theorem bind_answer {m : Act σ α} {f : α → Act σ β} {s s' : σ} {b : β} :
    ((m >>= f) s).2 = some (b, s') ↔ ∃ a s₁, (m s).2 = some (a, s₁) ∧ (f a s₁).2 = some (b, s') := by
  rcases hm : m s with ⟨t, _ | ⟨a, s₁⟩⟩
  · simp [bind_none hm]
  · simp [bind_some hm]

/-- What the second of two computations answers, where the first ended. -/
def Follows (first : Act σ α) (second : α → Act σ β) (p : α → β → Prop) (s : σ) : Prop :=
  ∀ a s₁, (first s).2 = some (a, s₁) → ∀ b s₂, (second a s₁).2 = some (b, s₂) → p a b

theorem bind_assoc' {γ : Type} (m : Act σ α) (f : α → Act σ β) (g : β → Act σ γ) :
    m >>= f >>= g = m >>= fun a => f a >>= g := by
  funext s
  change Act.bind (Act.bind m f) g s = Act.bind m (fun a => Act.bind (f a) g) s
  rcases h : m s with ⟨t, _ | ⟨a, s'⟩⟩
  · simp [Act.bind, h]
  · rcases h' : f a s' with ⟨t', _ | ⟨b, s''⟩⟩ <;> simp [Act.bind, h, h']

theorem id_map' (m : Act σ α) : id <$> m = m := by
  funext s
  change Act.bind m (Act.pure ∘ id) s = m s
  rcases h : m s with ⟨t, _ | ⟨a, s'⟩⟩ <;> simp [Act.bind, Act.pure, h]

instance : LawfulMonad (Act σ) := LawfulMonad.mk' (Act σ) id_map' (fun _ _ => rfl) bind_assoc'

theorem map_answer {m : Act σ α} {f : α → β} {s s' : σ} {b : β} :
    ((f <$> m) s).2 = some (b, s') ↔ ∃ a, (m s).2 = some (a, s') ∧ b = f a := by
  rw [← bind_pure_comp, bind_answer]
  constructor
  · rintro ⟨a, s₁, hm, h⟩
    cases h
    exact ⟨a, hm, rfl⟩
  · rintro ⟨a, hm, rfl⟩
    exact ⟨a, s', hm, rfl⟩

def Quiet (m : Act σ α) : Prop := ∀ s, NoAlloc (m s).1

theorem quiet_pure (a : α) : Quiet (pure a : Act σ α) := fun _ => noAlloc_nil

theorem quiet_throw : Quiet (throw : Act σ α) := fun _ => noAlloc_nil

theorem quiet_charge (units : ℕ) : Quiet (charge units : Act σ Unit) := fun _ => noAlloc_charge units

theorem Quiet.bind {m : Act σ α} {f : α → Act σ β} (hm : Quiet m) (hf : ∀ a, Quiet (f a)) :
    Quiet (m >>= f) := by
  intro s
  have hs := hm s
  rcases h : m s with ⟨t, _ | ⟨a, s'⟩⟩
  · rw [bind_none h]
    rwa [h] at hs
  · rw [bind_some h]
    rw [h] at hs
    exact hs.append (hf a s')

theorem Quiet.map {m : Act σ α} (hm : Quiet m) (f : α → β) : Quiet (f <$> m) := by
  rw [← bind_pure_comp]
  exact hm.bind fun a => quiet_pure (f a)

/-- A quiet beginning: what follows is paid from what the beginning charged. -/
theorem Quiet.paidFrom_bind {m : Act σ α} {f : α → Act σ β} (hm : Quiet m) {c a : ℕ} (hpaid : a ≤ c + 1)
    (s : σ) : PaidFrom c a ((m >>= f) s).1 ↔
      ∀ x s', (m s).2 = some (x, s') → PaidFrom (c + charged (m s).1) a (f x s').1 := by
  have hs := hm s
  rcases h : m s with ⟨t, _ | ⟨x, s'⟩⟩
  · rw [bind_none h]
    rw [h] at hs
    refine iff_of_true ?_ (by simp)
    rw [← List.append_nil t, hs.paidFrom_append hpaid, paidFrom_nil]
    omega
  · rw [bind_some h]
    rw [h] at hs
    simp [hs.paidFrom_append hpaid]

/-- A quiet end decides nothing. -/
theorem paidFrom_bind_quiet {m : Act σ α} {f : α → Act σ β} (hf : ∀ a, Quiet (f a)) {c a : ℕ} (s : σ) :
    PaidFrom c a ((m >>= f) s).1 ↔ PaidFrom c a (m s).1 := by
  rcases h : m s with ⟨t, _ | ⟨x, s'⟩⟩
  · rw [bind_none h]
  · rw [bind_some h]
    exact (hf x s').paidFrom_append_right t

/-- Whatever number the computation answers has been charged by then, up to one unit. -/
def Within (c : ℕ) (m : Act σ ℕ) (s : σ) : Prop :=
  ∀ n s', (m s).2 = some (n, s') → n ≤ c + charged (m s).1 + 1

theorem within_bind {m : Act σ α} {f : α → Act σ ℕ} {c : ℕ} {s : σ} :
    Within c (m >>= f) s ↔
      ∀ x s', (m s).2 = some (x, s') → Within (c + charged (m s).1) (f x) s' := by
  rcases h : m s with ⟨t, _ | ⟨x, s'⟩⟩
  · simp [Within, bind_none h]
  · simp [Within, bind_some h, Nat.add_assoc]

theorem within_pure {n c : ℕ} {s : σ} : Within c (pure n : Act σ ℕ) s ↔ n ≤ c + 1 := by
  constructor
  · intro h
    exact h n s rfl
  · intro h m s' heq
    cases Option.some.inj heq
    exact h

/-- A quiet computation of a size, and the allocation of that size. -/
theorem Quiet.paidFrom_alloc {m : Act σ ℕ} (hm : Quiet m) (c : ℕ) (s : σ) :
    PaidFrom c 0 ((m >>= alloc) s).1 ↔ Within c m s := by
  rw [hm.paidFrom_bind (Nat.zero_le _)]
  refine forall_congr' fun n => forall_congr' fun s' => imp_congr_right fun _ => ?_
  change PaidFrom _ 0 [.alloc n] ↔ _
  rw [paidFrom_alloc_cons _ (Nat.zero_le _), paidFrom_nil, Nat.zero_add]

/-- A computation observed for any number of steps is paid exactly when the sizes are charged. -/
def Tracks (m : ℕ → Act σ α) (size : ℕ → Act σ ℕ) : Prop :=
  ∀ c s, (∀ fuel, PaidFrom c 0 (m fuel s).1) ↔ ∀ fuel, Within c (size fuel) s

theorem Quiet.tracks_alloc {m : ℕ → Act σ ℕ} (hm : ∀ fuel, Quiet (m fuel)) :
    Tracks (fun fuel => m fuel >>= alloc) m :=
  fun c s => forall_congr' fun fuel => (hm fuel).paidFrom_alloc c s

theorem Quiet.tracks_alloc_pure {m : ℕ → Act σ ℕ} (hm : ∀ fuel, Quiet (m fuel)) :
    Tracks (fun fuel => m fuel >>= fun n => alloc n >>= fun _ => pure n) m := by
  intro c s
  refine forall_congr' fun fuel => ?_
  rw [← (hm fuel).paidFrom_alloc c s, (hm fuel).paidFrom_bind (Nat.zero_le _),
    (hm fuel).paidFrom_bind (Nat.zero_le _)]
  refine forall_congr' fun n => forall_congr' fun s' => imp_congr_right fun _ => ?_
  exact paidFrom_bind_quiet (fun _ => quiet_pure n) s'

theorem Quiet.tracks_bind {m : Act σ α} {f : ℕ → α → Act σ β} {size : ℕ → α → Act σ ℕ} (hm : Quiet m)
    (hf : ∀ x, Tracks (f · x) (size · x)) :
    Tracks (fun fuel => m >>= f fuel) (fun fuel => m >>= size fuel) := by
  intro c s
  simp only [hm.paidFrom_bind (Nat.zero_le _), within_bind]
  constructor
  · intro h fuel x s' hx
    exact (hf x _ s').mp (fun fuel => h fuel x s' hx) fuel
  · intro h fuel x s' hx
    exact (hf x _ s').mpr (fun fuel => h fuel x s' hx) fuel

theorem Tracks.bind_quiet {m : ℕ → Act σ α} {f : ℕ → α → Act σ β} {size : ℕ → Act σ ℕ}
    (h : Tracks m size) (hf : ∀ fuel x, Quiet (f fuel x)) : Tracks (fun fuel => m fuel >>= f fuel) size := by
  intro c s
  simp only [paidFrom_bind_quiet (hf _)]
  exact h c s

theorem tracks_throw : Tracks (fun _ => throw : ℕ → Act σ α) (fun _ => throw) := by
  intro c s
  refine iff_of_true (fun _ => paidFrom_nil.mpr (Nat.zero_le _)) fun _ n s' h => ?_
  cases h

/-- Paid from every state, with `c` units charged and `a` allocated before. -/
def Affords (c a : ℕ) (m : Act σ α) : Prop := ∀ s, PaidFrom c a (m s).1

theorem affords_pure {c a : ℕ} (ha : a ≤ c + 1) (x : α) : Affords c a (pure x : Act σ α) :=
  fun _ => paidFrom_nil.mpr ha

theorem affords_throw {c a : ℕ} (ha : a ≤ c + 1) : Affords c a (throw : Act σ α) :=
  fun _ => paidFrom_nil.mpr ha

theorem affords_alloc {c a n : ℕ} (hn : a + n ≤ c + 1) : Affords c a (alloc n : Act σ Unit) :=
  fun _ => (paidFrom_alloc_cons [] (by omega)).mpr (paidFrom_nil.mpr hn)

theorem Quiet.affords_bind {m : Act σ α} {f : α → Act σ β} {c a : ℕ} (hm : Quiet m) (ha : a ≤ c + 1)
    (hf : ∀ x, Affords c a (f x)) : Affords c a (m >>= f) := by
  intro s
  rw [hm.paidFrom_bind ha]
  intro x s' _
  exact (hf x s').mono (Nat.le_add_right _ _)

theorem Affords.bind_quiet {m : Act σ α} {f : α → Act σ β} {c a : ℕ} (hm : Affords c a m)
    (hf : ∀ x, Quiet (f x)) : Affords c a (m >>= f) :=
  fun s => (paidFrom_bind_quiet hf s).mpr (hm s)

theorem affords_charge_bind {f : Unit → Act σ β} {c a units : ℕ} (ha : a ≤ c + 1)
    (hf : Affords (c + units) a (f ())) : Affords c a (charge units >>= f) := by
  intro s
  rw [(quiet_charge units).paidFrom_bind ha]
  intro x s' h
  exact hf s'

theorem affords_alloc_bind {f : Unit → Act σ β} {c a n : ℕ} (ha : a ≤ c + 1)
    (hf : Affords c (a + n) (f ())) : Affords c a (alloc n >>= f) := by
  intro s
  change PaidFrom c a (.alloc n :: (f () s).1)
  rw [paidFrom_alloc_cons _ ha]
  exact hf s

end Act

end XChainVM.Machine
