import XChainVM.SetAlgebra.Wrapper

/-! # What a counted walk charges

A computation of the builtin on its argument and the same on the wrapper's record show the same marks.
The record's steps are counted, and those beyond the claim are charged, at most 255 of them late.
-/

namespace XChainVM.SetAlgebra

open Harness Js Machine

variable {σ V : Type}

def units : Note (Mark V) → ℕ
  | .charge units => units
  | .effect _ => 0

def isStep : Note (Mark V) → Bool
  | .effect .step => true
  | _ => false

def isKey : Note (Mark V) → Bool
  | .effect (.key _) => true
  | _ => false

def charged (log : List (Note (Mark V))) : ℕ := (log.map units).sum

def steps (log : List (Note (Mark V))) : ℕ := log.countP isStep

def keys (log : List (Note (Mark V))) : ℕ := log.countP isKey

@[simp] theorem charged_append (l l' : List (Note (Mark V))) : charged (l ++ l') = charged l + charged l' := by
  simp [charged]

@[simp] theorem steps_append (l l' : List (Note (Mark V))) : steps (l ++ l') = steps l + steps l' :=
  List.countP_append

@[simp] theorem keys_append (l l' : List (Note (Mark V))) : keys (l ++ l') = keys l + keys l' :=
  List.countP_append

@[simp] theorem charged_nil : charged ([] : List (Note (Mark V))) = 0 := rfl

@[simp] theorem charged_cons (n : Note (Mark V)) (l : List (Note (Mark V))) : charged (n :: l) = units n + charged l := by
  simp [charged]

/-- Charges aside, the same steps are seen. -/
theorem steps_visible {l m : List (Note (Mark V))} (h : visible l = visible m) : steps l = steps m := by
  have hcount (l : List (Note (Mark V))) : steps l = (visible l).countP fun | .step => true | _ => false := by
    induction l with
    | nil => rfl
    | cons n l ih =>
      rw [← List.singleton_append, steps_append, visible_append, List.countP_append, ← ih]
      cases n with
      | charge units => rfl
      | effect e => cases e <;> rfl
  rw [hcount, hcount, h]

theorem keys_visible {l m : List (Note (Mark V))} (h : visible l = visible m) : keys l = keys m := by
  have hcount (l : List (Note (Mark V))) : keys l = (visible l).countP fun | .key _ => true | _ => false := by
    induction l with
    | nil => rfl
    | cons n l ih =>
      rw [← List.singleton_append, keys_append, visible_append, List.countP_append, ← ih]
      cases n with
      | charge units => rfl
      | effect e => cases e <;> rfl
  rw [hcount, hcount, h]

theorem keys_cons (n : Note (Mark V)) (l : List (Note (Mark V))) :
    keys (n :: l) = (if isKey n then 1 else 0) + keys l := by
  rw [keys, List.countP_cons, Nat.add_comm]
  rfl

/-- With `c` units charged and `y` keys given before, no key is given more than 256 units ahead of its charge. -/
def Paced (thisSize : ℕ) : ℕ → ℕ → List (Note (Mark V)) → Prop
  | _, _, [] => True
  | c, y, n :: rest => (isKey n = true → thisSize + y + 1 ≤ c + 256) ∧
      Paced thisSize (c + units n) (y + if isKey n then 1 else 0) rest

theorem paced_append {thisSize c y : ℕ} {l l' : List (Note (Mark V))} :
    Paced thisSize c y (l ++ l') ↔ Paced thisSize c y l ∧ Paced thisSize (c + charged l) (y + keys l) l' := by
  induction l generalizing c y with
  | nil => exact ⟨fun h => ⟨trivial, h⟩, fun h => h.2⟩
  | cons n l ih => rw [List.cons_append, Paced, Paced, ih, charged_cons, keys_cons, and_assoc, Nat.add_assoc c,
      Nat.add_assoc y _ (keys l)]

theorem paced_of_no_key {thisSize c y : ℕ} {l : List (Note (Mark V))} (h : keys l = 0) : Paced thisSize c y l := by
  induction l generalizing c y with
  | nil => trivial
  | cons n l ih =>
    rw [keys_cons] at h
    refine ⟨fun hkey => ?_, ih (by omega)⟩
    rw [if_pos hkey] at h
    omega

/-- Said of every key of a log. -/
theorem paced_iff {thisSize c y : ℕ} {l : List (Note (Mark V))} : Paced thisSize c y l ↔
    ∀ front v back, l = front ++ .effect (.key v) :: back → thisSize + y + keys front + 1 ≤ c + charged front + 256 := by
  induction l generalizing c y with
  | nil => exact ⟨fun _ front v back h => by simp at h, fun _ => trivial⟩
  | cons n l ih =>
    rw [Paced, ih]
    constructor
    · rintro ⟨hkey, hrest⟩ front v back h
      cases front with
      | nil =>
        obtain ⟨rfl, -⟩ := List.cons.inj h
        exact hkey rfl
      | cons n' front =>
        obtain ⟨rfl, hl⟩ := List.cons.inj h
        have := hrest front v back hl
        rw [charged_cons, keys_cons]
        omega
    · intro h
      constructor
      · intro hkey
        match n, hkey with
        | .effect (.key v), _ => exact h [] v l rfl
      · intro front v back hl
        have := h (n :: front) v back (by rw [hl, List.cons_append])
        rw [charged_cons, keys_cons] at this
        omega

/-- The steps among the first `n` that go beyond the claim. -/
def beyond (claimed : Number) : ℕ → ℕ
  | 0 => 0
  | n + 1 => beyond claimed n + if isAbove (n + 1) claimed then 1 else 0

def Alike {χ α α' : Type} (R : α → α' → Prop) : Except χ α → Except χ α' → Prop
  | .ok a, .ok a' => R a a'
  | .error e, .error e' => e = e'
  | _, _ => False

/-- A walk on the argument, and the same on the record, from a tally on. -/
structure Meters {α α' : Type} (claimed : Number) (R : α → α' → Prop) (m : Eff σ (Mark V) (Thrown V) α)
    (m' : Eff (σ × Tally) (Mark V) (Thrown V) α') (s : σ) (t : Tally) : Prop where
  marks : visible (m' (s, t)).1 = visible (m s).1
  answer : Alike R (m s).2.1 (m' (s, t)).2.1
  world : (m' (s, t)).2.2.1 = (m s).2.2
  walked : (m' (s, t)).2.2.2.walked = t.walked + steps (m' (s, t)).1
  paid : charged (m' (s, t)).1 + (m' (s, t)).2.2.2.pending + beyond claimed t.walked =
    t.pending + beyond claimed (m' (s, t)).2.2.2.walked
  pending : t.pending < 256 → (m' (s, t)).2.2.2.pending < 256
  keys_le : keys (m' (s, t)).1 ≤ steps (m' (s, t)).1
  paced : ∀ thisSize front c y, (∀ n, thisSize + n ≤ front + beyond claimed n + 1) → y ≤ t.walked → t.pending < 256 →
    c + t.pending = front + beyond claimed t.walked → Paced thisSize c y (m' (s, t)).1

namespace Meters

variable {α α' β β' : Type} {claimed : Number} {R : α → α' → Prop} {Q : β → β' → Prop}

theorem bind {m : Eff σ (Mark V) (Thrown V) α} {m' : Eff (σ × Tally) (Mark V) (Thrown V) α'}
    {f : α → Eff σ (Mark V) (Thrown V) β} {f' : α' → Eff (σ × Tally) (Mark V) (Thrown V) β'} {s : σ} {t : Tally}
    (hm : Meters claimed R m m' s t)
    (hf : ∀ a a' s₁ t₁, (m s).2.1 = .ok a → R a a' → Meters claimed Q (f a) (f' a') s₁ t₁) :
    Meters claimed Q (m >>= f) (m' >>= f') s t := by
  obtain ⟨marks, answer, world, walked, paid, pending, keys_le, paced⟩ := hm
  rcases h : m s with ⟨l, e | a, s₁⟩ <;> rcases h' : m' (s, t) with ⟨l', e' | a', s₁', t₁⟩ <;>
    rw [h, h'] at answer <;> rw [h, h'] at marks world <;> rw [h'] at walked paid pending keys_le paced <;>
    dsimp only at answer marks world walked paid pending keys_le paced
  case error.error =>
    constructor <;> rw [Eff.bind_error h'] <;> try rw [Eff.bind_error h]
    case marks => exact marks
    case answer => exact answer
    case world => exact world
    case walked => exact walked
    case paid => exact paid
    case pending => exact pending
    case keys_le => exact keys_le
    case paced => exact paced
  case error.ok => exact False.elim answer
  case ok.error => exact False.elim answer
  case ok.ok =>
    subst world
    obtain ⟨marks₂, answer₂, world₂, walked₂, paid₂, pending₂, keys_le₂, paced₂⟩ := hf a a' s₁' t₁ (by rw [h]) answer
    constructor <;> rw [Eff.bind_ok h'] <;> try rw [Eff.bind_ok h]
    case marks => rw [visible_append, visible_append, marks, marks₂]
    case answer => exact answer₂
    case world => exact world₂
    case walked =>
      dsimp only
      rw [steps_append]
      omega
    case paid =>
      dsimp only
      rw [charged_append]
      omega
    case pending => exact fun hpending => pending₂ (pending hpending)
    case keys_le =>
      rw [keys_append, steps_append]
      omega
    case paced =>
      intro thisSize front c y hfront hy hpending hpaid
      refine paced_append.mpr ⟨paced thisSize front c y hfront hy hpending hpaid, ?_⟩
      exact paced₂ thisSize front _ _ hfront (by omega) (pending hpending) (by omega)

/-- A computation that neither steps nor gives a key is only carried along. -/
theorem onFirst {m : Eff σ (Mark V) (Thrown V) α} {s : σ} {t : Tally} (hsteps : steps (m s).1 = 0)
    (hkeys : keys (m s).1 = 0) (hcharged : charged (m s).1 = 0) : Meters claimed Eq m m.onFirst s t := by
  constructor
  case marks => rfl
  case answer =>
    show Alike Eq (m s).2.1 (m s).2.1
    cases (m s).2.1 <;> rfl
  case world => rfl
  case walked => exact (congrArg (t.walked + ·) hsteps).symm
  case paid =>
    show charged (m s).1 + t.pending + beyond claimed t.walked = t.pending + beyond claimed t.walked
    rw [hcharged, Nat.zero_add]
  case pending => exact id
  case keys_le =>
    show keys (m s).1 ≤ _
    rw [hkeys]
    exact Nat.zero_le _
  case paced => exact fun _ _ _ _ _ _ _ _ => paced_of_no_key hkeys

theorem pure {a : α} {a' : α'} {s : σ} {t : Tally} (h : R a a') :
    Meters claimed R (pure a : Eff σ (Mark V) (Thrown V) α) (pure a') s t :=
  ⟨rfl, h, rfl, rfl, (Nat.zero_add _).symm ▸ rfl, id, le_rfl, fun _ _ _ _ _ _ _ _ => trivial⟩

theorem congr {m n : Eff σ (Mark V) (Thrown V) α} {m' n' : Eff (σ × Tally) (Mark V) (Thrown V) α'} {s : σ} {t : Tally}
    (h : Meters claimed R n n' s t) (hm : m s = n s) (hm' : m' (s, t) = n' (s, t)) : Meters claimed R m m' s t := by
  obtain ⟨marks, answer, world, walked, paid, pending, keys_le, paced⟩ := h
  constructor <;> rw [hm'] <;> try rw [hm]
  all_goals assumption

theorem throw {e : Thrown V} {s : σ} {t : Tally} :
    Meters claimed R (Eff.throw e : Eff σ (Mark V) (Thrown V) α) (Eff.throw e) s t :=
  ⟨rfl, rfl, rfl, rfl, by simp [Eff.throw], id, le_rfl, fun _ _ _ _ _ _ _ _ => trivial⟩

end Meters

theorem countStep_eq (claimed : Number) (s : σ) (t : Tally) :
    ∃ l t', (countStep claimed (s, t) : List (Note (Mark V)) × Except (Thrown V) Unit × σ × Tally) = (l, .ok (), s, t') ∧
      visible l = [] ∧ t'.walked = t.walked + 1 ∧
      charged l + t'.pending + beyond claimed t.walked = t.pending + beyond claimed t'.walked ∧
      (t.pending < 256 → t'.pending < 256) := by
  unfold countStep
  dsimp only
  by_cases hover : isAbove (t.walked + 1) claimed = true
  · rw [if_pos hover]
    by_cases hfull : t.pending + 1 = 256
    · rw [if_pos hfull]
      refine ⟨_, _, rfl, rfl, rfl, ?_, fun _ => Nat.zero_lt_succ _⟩
      rw [beyond, if_pos hover, charged_cons, charged_nil, units]
      dsimp only
      omega
    · rw [if_neg hfull]
      refine ⟨_, _, rfl, rfl, rfl, ?_, fun hpending => ?_⟩
      · rw [beyond, if_pos hover, charged_nil]
        dsimp only
        omega
      · dsimp only
        omega
  · rw [if_neg hover]
    refine ⟨_, _, rfl, rfl, rfl, ?_, id⟩
    rw [beyond, if_neg hover, charged_nil, Nat.zero_add]
    rfl

namespace Realm

variable (w : Realm σ V)

/-- A step calls `next` once and gives a key at most, which comes last. -/
theorem callNext_log (nextFn it : V) (s : σ) : ∃ l, (w.callNext nextFn it s).1 = .effect .step :: l ∧ steps l = 0 ∧
    charged l = 0 ∧ (keys l = 0 ∧ (∀ v, (w.callNext nextFn it s).2.1 ≠ .ok (some v)) ∨
      ∃ front v, l = front ++ [.effect (.key v)] ∧ keys front = 0) := by
  have hemit : (w.callNext nextFn it s) = (.effect .step :: ((w.invoke nextFn it [] >>= w.stepValue) s).1,
      ((w.invoke nextFn it [] >>= w.stepValue) s).2) :=
    Eff.bind_ok (rfl : (Eff.emit Mark.step : Eff σ (Mark V) (Thrown V) Unit) s = _)
  rw [hemit]
  refine ⟨_, rfl, ?_⟩
  rcases hcall : w.invoke nextFn it [] s with ⟨l, e | result, s₁⟩
  · have hl : l = [.effect (.call nextFn it [])] := (congrArg Prod.fst hcall).symm
    rw [Eff.bind_error hcall, hl]
    exact ⟨rfl, rfl, .inl ⟨rfl, nofun⟩⟩
  · have hl : l = [.effect (.call nextFn it [])] := (congrArg Prod.fst hcall).symm
    rw [Eff.bind_ok hcall, hl]
    unfold stepValue
    split
    · exact ⟨rfl, rfl, .inl ⟨rfl, nofun⟩⟩
    · rcases hdone : w.read result .done s₁ with ⟨l₁, e | done, s₂⟩
      · have hl₁ : l₁ = [.effect (.read result .done)] := (congrArg Prod.fst hdone).symm
        rw [Eff.bind_error hdone, hl₁]
        exact ⟨rfl, rfl, .inl ⟨rfl, nofun⟩⟩
      · have hl₁ : l₁ = [.effect (.read result .done)] := (congrArg Prod.fst hdone).symm
        rw [Eff.bind_ok hdone, hl₁]
        split
        · exact ⟨rfl, rfl, .inl ⟨rfl, nofun⟩⟩
        · rcases hvalue : w.read result .value s₂ with ⟨l₂, e | v, s₃⟩
          · have hl₂ : l₂ = [.effect (.read result .value)] := (congrArg Prod.fst hvalue).symm
            rw [Eff.bind_error hvalue, hl₂]
            exact ⟨rfl, rfl, .inl ⟨rfl, nofun⟩⟩
          · have hl₂ : l₂ = [.effect (.read result .value)] := (congrArg Prod.fst hvalue).symm
            rw [Eff.bind_ok hvalue, hl₂]
            exact ⟨rfl, rfl, .inr ⟨[.effect (.call nextFn it []), .effect (.read result .done),
              .effect (.read result .value)], v, rfl, rfl⟩⟩

theorem meters_next (claimed : Number) (nextFn it : V) (s : σ) (t : Tally) :
    Meters claimed Eq (w.callNext nextFn it) (countStep claimed >>= fun _ => (w.callNext nextFn it).onFirst) s t := by
  obtain ⟨lc, t', hcount, hvisible, hwalked, hpaid, hpending⟩ := countStep_eq (V := V) claimed s t
  obtain ⟨l, hlog, hsteps, hcharged, hkeys⟩ := w.callNext_log nextFn it s
  have hsteps₀ : steps lc = 0 := steps_visible (m := []) hvisible
  have hkeys₀ : keys lc = 0 := keys_visible (m := []) hvisible
  have hrun : (countStep claimed >>= fun _ => (w.callNext nextFn it).onFirst) (s, t) =
      (lc ++ (w.callNext nextFn it s).1, (w.callNext nextFn it s).2.1, (w.callNext nextFn it s).2.2, t') :=
    Eff.bind_ok hcount
  have hstep : steps (lc ++ .effect .step :: l) = 1 := by
    rw [← List.singleton_append, steps_append, steps_append, hsteps₀, hsteps]
    rfl
  have hkey : keys (lc ++ .effect .step :: l) ≤ 1 := by
    rw [keys_append, hkeys₀, keys_cons, Nat.zero_add]
    obtain ⟨h, -⟩ | ⟨front, v, rfl, h⟩ := hkeys
    · rw [h]
      exact Nat.zero_le _
    · rw [keys_append, h]
      exact le_rfl
  constructor <;> rw [hrun]
  case marks => rw [visible_append, hvisible, List.nil_append]
  case answer => cases (w.callNext nextFn it s).2.1 <;> rfl
  case walked => rw [hlog, hstep, hwalked]
  case paid =>
    rw [hlog, charged_append, charged_cons, hcharged]
    exact hpaid
  case pending => exact hpending
  case keys_le => rw [hlog, hstep]; exact hkey
  case paced =>
    intro thisSize front c y hfront hy hlate hc
    rw [hlog]
    have hahead : thisSize + y + 1 ≤ c + charged lc + 256 := by
      have := hfront t'.walked
      have := hpending hlate
      omega
    refine paced_append.mpr ⟨paced_of_no_key hkeys₀, ?_⟩
    refine paced_append (l := [.effect .step]).mpr ⟨paced_of_no_key rfl, ?_⟩
    obtain ⟨h, -⟩ | ⟨front', v, rfl, h⟩ := hkeys
    · exact paced_of_no_key h
    · refine paced_append.mpr ⟨paced_of_no_key h, fun _ => ?_, trivial⟩
      rw [h, hkeys₀, charged_cons]
      show thisSize + (y + 0 + 0 + 0) + 1 ≤ c + charged lc + (0 + 0) + _ + 256
      omega

end Realm

end XChainVM.SetAlgebra
