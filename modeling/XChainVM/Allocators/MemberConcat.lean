import XChainVM.Machine.Effects
import XChainVM.Harness.Values

/-! # Compound assignment to a member

`obj[k] += rhs` and `obj.p += rhs` become `__setconcatL(obj, key, () => rhs)`. The
language makes one reference, whose key it converts once, and both reads and writes
through it. The helper is a sloppy function that indexes its first argument twice.
-/

namespace XChainVM.Allocators.MemberConcat

open Machine Harness

variable {σ ε χ K : Type}

/-- What the assignment shows of its evaluation. -/
inductive Mark (ε : Type) where
  | object
  | key
  | convertKey
  | rhs
  | inner (e : ε)
  deriving DecidableEq

structure Realm (σ ε χ K : Type) where
  primKey : Prim → K
  /-- `ToPropertyKey` of an object. -/
  objectKey : ℕ → Eff σ ε χ K
  /-- What a property access on `undefined` or `null` throws. -/
  nullishError : Val → χ
  get : Val → K → Eff σ ε χ Val
  /-- Whether the property was set. -/
  set : Val → K → Val → Eff σ ε χ Bool
  /-- What strict code throws where a property is not set. -/
  notSetError : Val → K → χ
  /-- `super.key += rhs` in a method, from its key. -/
  superAssign : K → Eff σ ε χ Val → Eff σ ε χ Val
  plus : Val → Val → Eff σ ε χ Val

inductive Key (σ ε χ K : Type) where
  | name (key : K)
  | computed (expr : Eff σ ε χ Val)

inductive Target (σ ε χ : Type) where
  | expr (object : Eff σ ε χ Val)
  | super

/-- `object[key] += rhs`; `suspends` tells that the right side has a `yield` or an `await`
of the function around it. -/
structure Assignment (σ ε χ K : Type) where
  object : Target σ ε χ
  key : Key σ ε χ K
  rhs : Eff σ ε χ Val
  suspends : Bool
  strict : Bool

/-- A key expression's value; a name is a key already. -/
inductive KeyValue (K : Type) where
  | key (key : K)
  | value (v : Val)

def KeyValue.isObject : KeyValue K → Bool
  | .value v => v.isObject
  | .key _ => false

variable (w : Realm σ ε χ K)

def evaluateKey : Key σ ε χ K → Eff σ (Mark ε) χ (KeyValue K)
  | .name key => pure (.key key)
  | .computed expr => do
    Eff.emit .key
    let v ← Eff.lift .inner expr
    pure (.value v)

def toPropertyKey : KeyValue K → Eff σ (Mark ε) χ K
  | .key key => pure key
  | .value (.prim p) => pure (w.primKey p)
  | .value (.object id) => do
    Eff.emit .convertKey
    Eff.lift .inner (w.objectKey id)

def memberKey (object : Val) (key : KeyValue K) : Eff σ (Mark ε) χ K :=
  if object.isNullish then Eff.throw (w.nullishError object) else toPropertyKey w key

def putValue (strict : Bool) (object : Val) (key : K) (r : Val) : Eff σ (Mark ε) χ Unit := do
  let done ← Eff.lift .inner (w.set object key r)
  if done || !strict then pure () else Eff.throw (w.notSetError object key)

def evaluateRhs (rhs : Eff σ ε χ Val) : Eff σ (Mark ε) χ Val := do
  Eff.emit .rhs
  Eff.lift .inner rhs

/-- What precedes the write: the object, the value of the key expression, the key and the sum. -/
structure Sum (K : Type) where
  object : Val
  keyValue : KeyValue K
  key : K
  r : Val

variable (object : Eff σ ε χ Val) (a : Assignment σ ε χ K)

def evaluateObject : Eff σ (Mark ε) χ Val := do
  Eff.emit .object
  Eff.lift .inner object

def sumBeforeWrite : Eff σ (Mark ε) χ (Sum K) := do
  let object ← evaluateObject object
  let keyValue ← evaluateKey a.key
  let key ← memberKey w object keyValue
  let left ← Eff.lift .inner (w.get object key)
  let right ← evaluateRhs a.rhs
  let r ← Eff.lift .inner (w.plus left right)
  pure ⟨object, keyValue, key, r⟩

def original : Eff σ (Mark ε) χ Val :=
  match a.object with
  | .super => do
    let keyValue ← evaluateKey a.key
    let key ← toPropertyKey w keyValue
    Eff.lift .inner (w.superAssign key a.rhs)
  | .expr object => do
    let sum ← sumBeforeWrite w object a
    putValue w a.strict sum.object sum.key sum.r
    pure sum.r

def GROW_THRESHOLD : ℕ := 256

def slen : Val → ℕ
  | .prim (.string s) => textLength s
  | _ => 0

def chargeGrowth (left right r : Val) : Eff σ (Mark ε) χ Unit :=
  match r with
  | .prim (.string s) => do
    let grew := textLength s - max (slen left) (slen right)
    if GROW_THRESHOLD < grew then Eff.charge grew
  | _ => pure ()

/-- `__setconcatL(obj, key, rhsThunk)`. -/
def setconcatL (object : Val) (key : KeyValue K) (rhsThunk : Eff σ (Mark ε) χ Val) :
    Eff σ (Mark ε) χ Val := do
  let k ← memberKey w object key
  let left ← Eff.lift .inner (w.get object k)
  let right ← rhsThunk
  let r ← Eff.lift .inner (w.plus left right)
  chargeGrowth left right r
  let k ← memberKey w object key
  putValue w false object k r
  pure r

/-- The call that `convertConcat` puts in its place. There is none where `super` would be an
argument, or where the right side would have to suspend inside an arrow. -/
def rewritten : Option (Eff σ (Mark ε) χ Val) :=
  match a.object with
  | .super => none
  | .expr object =>
    if a.suspends then none
    else some (do
      let object ← evaluateObject object
      let key ← evaluateKey a.key
      setconcatL w object key (evaluateRhs a.rhs))

/-- The target is not `super`, the right side does not suspend, and where the write is
reached the key is a primitive and strict code does not fail to set it. -/
def WritesOnce (s : σ) : Prop :=
  ∃ object, a.object = .expr object ∧ a.suspends = false ∧
    ∀ sum s', (sumBeforeWrite w object a s).2 = (.ok sum, s') →
      sum.keyValue.isObject = false ∧
        (a.strict → ∀ s'', (w.set sum.object sum.key sum.r s').2 ≠ (.ok false, s''))

/-- The key in hand is the one a second conversion of a key that is no object gives. -/
theorem answers_sumBeforeWrite : (sumBeforeWrite w object a).Answers fun sum =>
    sum.object.isNullish = false ∧
      (sum.keyValue.isObject = false → toPropertyKey w sum.keyValue = pure sum.key) := by
  have hkey (object : Val) (keyValue : KeyValue K) : (memberKey w object keyValue).Answers fun key =>
      object.isNullish = false ∧
        (keyValue.isObject = false → toPropertyKey w keyValue = pure key) := by
    unfold memberKey
    split
    · intro s k s' h
      cases h
    · next hobject =>
      have hnullish : object.isNullish = false := by simpa using hobject
      match keyValue with
      | .key key => exact Eff.answers_pure ⟨hnullish, fun _ => rfl⟩
      | .value (.prim p) => exact Eff.answers_pure ⟨hnullish, fun _ => rfl⟩
      | .value (.object id) =>
        intro s k s' _
        exact ⟨hnullish, fun h => by cases h⟩
  refine Eff.answers_bind fun object => Eff.answers_bind fun keyValue => ?_
  refine (hkey object keyValue).bind fun key hfacts => ?_
  refine Eff.answers_bind fun left => Eff.answers_bind fun right => Eff.answers_bind fun r => ?_
  exact Eff.answers_pure hfacts

theorem agree_chargeGrowth_bind {α : Type} (left right r : Val) (f : Eff σ (Mark ε) χ α) (s : σ) :
    Eff.Agree (chargeGrowth left right r >>= fun _ => f) f s := by
  unfold chargeGrowth
  split
  · dsimp only
    split
    · rw [Eff.agree_charge_bind]
      exact Eff.Agree.refl _ _
    · exact Eff.Agree.refl _ _
  · exact Eff.Agree.refl _ _

def writeAgain (sum : Sum K) : Eff σ (Mark ε) χ Val := do
  let key ← memberKey w sum.object sum.keyValue
  putValue w false sum.object key sum.r
  pure sum.r

theorem agree_setconcatL (s : σ) :
    Eff.Agree (do
        let object ← evaluateObject object
        let key ← evaluateKey a.key
        setconcatL w object key (evaluateRhs a.rhs))
      (sumBeforeWrite w object a >>= writeAgain w) s := by
  simp only [sumBeforeWrite, setconcatL, bind_assoc, pure_bind, Eff.agree_bind_iff]
  intro object s₁ _ keyValue s₂ _ key s₃ _ left s₄ _ right s₅ _ r s₆ _
  exact agree_chargeGrowth_bind left right r _ s₆

theorem putValue_apply (strict : Bool) (object : Val) (key : K) (r : Val) (s : σ) :
    putValue w strict object key r s =
      ((w.set object key r s).1.map (Note.map Mark.inner),
        match (w.set object key r s).2 with
        | (.ok done, s') => (if done || !strict then .ok () else .error (w.notSetError object key), s')
        | (.error e, s') => (.error e, s')) := by
  have hlift : (Eff.lift Mark.inner (w.set object key r)) s =
      ((w.set object key r s).1.map (Note.map Mark.inner), (w.set object key r s).2) := rfl
  rcases h : (w.set object key r s).2 with ⟨e | done, s'⟩
  · rw [h] at hlift
    rw [putValue, Eff.bind_error hlift]
  · rw [h] at hlift
    rw [putValue, Eff.bind_ok hlift]
    dsimp only
    split <;> simp [Eff.pure_apply, Eff.throw]

theorem agree_putValue_iff (strict : Bool) (object : Val) (key : K) (r : Val) (s : σ) :
    Eff.Agree (do putValue w false object key r; pure r : Eff σ (Mark ε) χ Val)
      (do putValue w strict object key r; pure r) s ↔
      (strict → ∀ s', (w.set object key r s).2 ≠ (.ok false, s')) := by
  have hput (strict : Bool) := putValue_apply w strict object key r s
  rcases h : (w.set object key r s).2 with ⟨e | done, s'⟩
  · simp only [h] at hput
    simp [Eff.Agree, Eff.bind_error (hput false), Eff.bind_error (hput strict)]
  · cases done with
    | true =>
      simp only [h, Bool.true_or, if_true] at hput
      simp [Eff.Agree, Eff.bind_ok (hput false), Eff.bind_ok (hput strict)]
    | false =>
      cases strict with
      | false => simp [Eff.Agree.refl]
      | true =>
        have hsloppy := hput false
        have hstrict := hput true
        simp only [h] at hsloppy hstrict
        simp [Eff.Agree, Eff.bind_ok hsloppy, Eff.bind_error hstrict, Eff.pure_apply]

def writeOnce (strict : Bool) (sum : Sum K) : Eff σ (Mark ε) χ Val := do
  putValue w strict sum.object sum.key sum.r
  pure sum.r

theorem avoids_writeOnce (strict : Bool) (sum : Sum K) :
    Eff.Avoids .convertKey (writeOnce w strict sum : Eff σ (Mark ε) χ Val) := by
  refine Eff.Avoids.bind (Eff.Avoids.bind (Eff.avoids_lift (by simp) _) fun done => ?_)
    fun _ => Eff.avoids_pure _ _
  split
  · exact Eff.avoids_pure _ _
  · intro s
    simp [Eff.throw]

theorem shows_writeAgain {sum : Sum K} (hobject : sum.object.isNullish = false)
    (hkey : sum.keyValue.isObject = true) (s : σ) :
    Eff.Shows .convertKey (writeAgain w sum : Eff σ (Mark ε) χ Val) s := by
  have hconvert : Eff.Shows .convertKey (memberKey w sum.object sum.keyValue : Eff σ (Mark ε) χ K) s := by
    obtain ⟨object, keyValue, key, r⟩ := sum
    match keyValue with
    | .key key => cases hkey
    | .value (.prim p) => cases hkey
    | .value (.object id) =>
      simp only [memberKey, hobject, Bool.false_eq_true, if_false, toPropertyKey, Eff.Shows]
      rw [Eff.bind_ok (rfl : (Eff.emit Mark.convertKey : Eff σ (Mark ε) χ Unit) s = _)]
      simp
  exact hconvert.bind_left _

theorem agree_writeAgain_iff (strict : Bool) {sum : Sum K} (hobject : sum.object.isNullish = false)
    (hkey : sum.keyValue.isObject = false → toPropertyKey w sum.keyValue =
      (pure sum.key : Eff σ (Mark ε) χ K)) (s : σ) :
    Eff.Agree (writeAgain w sum : Eff σ (Mark ε) χ Val) (writeOnce w strict sum) s ↔
      sum.keyValue.isObject = false ∧
        (strict → ∀ s', (w.set sum.object sum.key sum.r s).2 ≠ (.ok false, s')) := by
  cases hvalue : sum.keyValue.isObject with
  | true =>
    refine iff_of_false (fun h => ?_) fun h => by cases h.1
    have hshows := shows_writeAgain w hobject hvalue s
    rw [Eff.Shows, h.1] at hshows
    exact avoids_writeOnce w strict sum s hshows
  | false =>
    have hagain : (writeAgain w sum : Eff σ (Mark ε) χ Val) = writeOnce w false sum := by
      simp only [writeAgain, memberKey, hobject, Bool.false_eq_true, if_false, hkey hvalue, pure_bind]
      rfl
    rw [hagain]
    simp only [true_and]
    exact agree_putValue_iff w strict sum.object sum.key sum.r s

/-- The rewrite is a program that agrees with the assignment exactly where it writes once. -/
theorem setconcat_agrees_iff (s : σ) :
    (∃ m, rewritten w a = some m ∧ Eff.Agree m (original w a) s) ↔ WritesOnce w a s := by
  cases hobject : a.object with
  | super =>
    refine iff_of_false ?_ ?_
    · rintro ⟨m, hm, -⟩
      simp [rewritten, hobject] at hm
    · rintro ⟨object, h, -⟩
      rw [hobject] at h
      cases h
  | expr object =>
    cases hsuspends : a.suspends with
    | true =>
      refine iff_of_false ?_ ?_
      · rintro ⟨m, hm, -⟩
        simp [rewritten, hobject, hsuspends] at hm
      · rintro ⟨_, -, h, -⟩
        rw [hsuspends] at h
        cases h
    | false =>
      have horiginal : original w a = sumBeforeWrite w object a >>= writeOnce w a.strict := by
        simp only [original, hobject]
        rfl
      have hwrites : WritesOnce w a s ↔ ∀ sum s', (sumBeforeWrite w object a s).2 = (.ok sum, s') →
          sum.keyValue.isObject = false ∧
            (a.strict → ∀ s'', (w.set sum.object sum.key sum.r s').2 ≠ (.ok false, s'')) := by
        constructor
        · rintro ⟨object', h, -, hsum⟩
          rw [hobject] at h
          cases h
          exact hsum
        · exact fun h => ⟨object, hobject, hsuspends, h⟩
      have hsteps : Eff.Agree (sumBeforeWrite w object a >>= writeAgain w) (original w a) s ↔
          WritesOnce w a s := by
        rw [horiginal, Eff.agree_bind_iff, hwrites]
        refine forall_congr' fun sum => forall_congr' fun s' => imp_congr_right fun hsum => ?_
        obtain ⟨hnullish, hkey⟩ := answers_sumBeforeWrite w object a s sum s' hsum
        exact agree_writeAgain_iff w a.strict hnullish hkey s'
      have hhelper := agree_setconcatL w object a s
      rw [← hsteps]
      constructor
      · rintro ⟨m, hm, h⟩
        simp only [rewritten, hobject, hsuspends, Bool.false_eq_true, if_false, Option.some.injEq] at hm
        subst hm
        exact hhelper.symm.trans h
      · intro h
        refine ⟨_, ?_, hhelper.trans h⟩
        simp [rewritten, hobject, hsuspends]

def countingKeys : Realm ℕ Empty Unit Unit where
  primKey _ := ()
  objectKey _ := fun n => ([], .ok (), n + 1)
  nullishError _ := ()
  get _ _ := pure (.prim (.bool true))
  set _ _ _ := pure true
  notSetError _ _ := ()
  superAssign _ rhs := rhs
  plus left _ := pure left

/-- `obj[{ toString }] += null`. -/
def objectKeyAssignment : Assignment ℕ Empty Unit Unit where
  object := .expr (pure (.object 0))
  key := .computed (pure (.object 1))
  rhs := pure (.prim .null)
  suspends := false
  strict := false

/-- The rewrite converts the key twice, the language once. -/
theorem key_converted_twice : ¬∃ m, rewritten countingKeys objectKeyAssignment = some m ∧
    Eff.Agree m (original countingKeys objectKeyAssignment) 0 := by
  rintro ⟨m, hm, h⟩
  have hrewritten : (rewritten countingKeys objectKeyAssignment).map (fun m => (m 0).2.2) = some 2 := by rfl
  have horiginal : (original countingKeys objectKeyAssignment 0).2.2 = 1 := by rfl
  have heq := congrArg Prod.snd h.2
  rw [hm, Option.map_some, Option.some.injEq] at hrewritten
  rw [hrewritten, horiginal] at heq
  cases heq

end XChainVM.Allocators.MemberConcat
