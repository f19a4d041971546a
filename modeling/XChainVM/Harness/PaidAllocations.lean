import XChainVM.Harness.Probes

/-! # Allocations are paid for before they happen

The builtin reads the same values again in its own way. A call is paid exactly when
the builtin is never asked for more than the size the probe was answered and what
the contract's code has charged meanwhile. A wrapper that hands the builtin the
number it has charged for is always paid, and so is a walk in which each element is
charged on its own.
-/

namespace XChainVM.Harness

open Js Machine

variable {σ : Type} (w : World σ) (lang : Language)

def readMapped (mapping : Option Val) (it : Val) : ℕ → ℕ → Act σ ℕ
  | 0, k => pure k
  | fuel + 1, k => do
    match ← w.stepOf it with
    | none => pure k
    | some v => do
      mapElement w mapping v k
      readMapped mapping it fuel (k + 1)

def fromExtent (fuel : ℕ) (args : List Val) : Act σ ℕ := do
  let mapping ← mappingOf w (arg args 1)
  if (arg args 0).isNullish then Act.throw
  else match ← w.iteratorMethod (arg args 0) with
    | some method => do
      let it ← w.iteratorOf (arg args 0) method
      readMapped w mapping it fuel 0
    | none => w.lengthOf (arg args 0) >>= w.fitting

/-- The size the builtin's own reads of its receiver and arguments come to. -/
def Call.asked (fuel : ℕ) : Call → Option Number → Act σ ℕ
  | .fill this args, _ => do
    forward w args
    fillExtent w this args
  | .arrayFrom args, _ => do
    forward w args
    fromExtent w fuel args
  | .repeatText this args, _ => do
    forward w args
    repeatExtent w lang this args
  | .arrayBuffer args, _ => do
    let args ← spreadArguments w args
    arrayBufferExtent w args
  | .typedArray bytesPerElement args, size => do
    let _ ← if size.isNone then iterableBy w (arg args 0) else pure false
    let args ← spreadArguments w args
    let elements ← typedArrayExtent w fuel bytesPerElement args
    pure (elements.getD 0 * bytesPerElement)
  | .pad .., _ | .collection .., _ => pure 0

/-- The builtin is asked for no more than the size the probe was answered, what the
contract's code has charged meanwhile and one unit. Nothing is asked of a builtin that
is handed the charged number, or that charges each element. -/
def Call.Covered (fuel : ℕ) (s : σ) (call : Call) : Prop :=
  ∀ size s', (call.probe w lang s).2 = some (size, s') →
    Act.Within (charged (call.probe w lang s).1 + worth size) (call.asked w lang fuel size) s'

theorem quiet_mapElement (mapping : Option Val) (v : Val) (k : ℕ) :
    Act.Quiet (mapElement w mapping v k) := by
  cases mapping with
  | none => exact Act.quiet_pure _
  | some f => exact (quiet_ask _).map _

theorem quiet_fillExtent (this : Val) (args : List Val) : Act.Quiet (fillExtent w this args) := by
  apply (w.quiet_lengthOf this).bind
  intro len
  apply (w.quiet_integerOf _).bind
  intro start
  split
  · exact (Act.quiet_pure _).bind fun stop => w.quiet_fitting _
  · exact (w.quiet_integerOf _).bind fun stop => w.quiet_fitting _

theorem quiet_mappingOf (v : Val) : Act.Quiet (mappingOf w v) := by
  unfold mappingOf
  split
  · exact Act.quiet_pure _
  · apply (quiet_ask _).bind
    intro callable
    split
    · exact Act.quiet_pure _
    · exact Act.quiet_throw

theorem quiet_repeatExtent (this : Val) (args : List Val) :
    Act.Quiet (repeatExtent w lang this args) := by
  apply (w.quiet_toText lang this).bind
  intro length
  apply (w.quiet_integerOf _).bind
  intro n
  cases n with
  | finite n =>
    dsimp only
    split
    · exact Act.quiet_throw
    · exact w.quiet_fitting _
  | infinity negative => exact Act.quiet_throw

theorem quiet_indexOf (v : Val) : Act.Quiet (w.indexOf v) := by
  unfold World.indexOf
  split
  all_goals
    apply Act.Quiet.bind
    case hm => first | exact Act.quiet_pure _ | exact w.quiet_toNumber v
    intro n
    dsimp only
    cases toIndex n with
    | none => exact Act.quiet_throw
    | some i => exact Act.quiet_pure _

theorem quiet_arrayBufferExtent (args : List Val) : Act.Quiet (arrayBufferExtent w args) := by
  apply (quiet_indexOf w _).bind
  intro n
  have hlimit (options : Val) : Act.Quiet (maxByteLengthOf w options) := by
    cases options with
    | prim p => exact Act.quiet_pure _
    | object id =>
      apply (w.quiet_read _ .maxByteLength).bind
      intro limit
      split
      · exact Act.quiet_pure _
      · exact (quiet_indexOf w limit).map _
  apply (hlimit _).bind
  intro limit
  cases limit with
  | none => exact w.quiet_fitting n
  | some limit =>
    dsimp only
    split
    · exact Act.quiet_throw
    · exact (w.quiet_fitting limit).bind fun _ => w.quiet_fitting n

theorem quiet_countSteps (it : Val) (fuel k : ℕ) : Act.Quiet (countSteps w it fuel k) := by
  induction fuel generalizing k with
  | zero => exact Act.quiet_pure _
  | succ fuel ih =>
    apply (quiet_ask _).bind
    intro v
    cases v with
    | none => exact Act.quiet_pure _
    | some v => exact ih (k + 1)

theorem quiet_typedElements (fuel source : ℕ) : Act.Quiet (typedElements w fuel source) := by
  apply (quiet_ask _).bind
  intro own
  cases own with
  | some n => exact Act.quiet_pure _
  | none =>
    apply (quiet_ask _).bind
    intro buffer
    split
    · exact Act.quiet_pure _
    · apply (w.quiet_iteratorMethod _).bind
      intro method
      cases method with
      | none => exact (w.quiet_lengthOf _).map _
      | some method => exact (quiet_ask _).bind fun it => quiet_countSteps w it fuel 0

theorem quiet_typedArrayExtent (fuel bytesPerElement : ℕ) (args : List Val) :
    Act.Quiet (typedArrayExtent w fuel bytesPerElement args) := by
  unfold typedArrayExtent elementsOf
  cases arg args 0 with
  | object source =>
    apply (quiet_typedElements w fuel source).bind
    intro elements
    cases elements with
    | none => exact Act.quiet_pure _
    | some n => exact (w.quiet_fitting _).bind fun _ => Act.quiet_pure _
  | prim p =>
    apply ((quiet_indexOf w _).map _).bind
    intro elements
    cases elements with
    | none => exact Act.quiet_pure _
    | some n => exact (w.quiet_fitting _).bind fun _ => Act.quiet_pure _

theorem quiet_iterableBy (v : Val) : Act.Quiet (iterableBy w v) := by
  unfold iterableBy
  split
  · exact (w.quiet_read v .iterator).bind fun _ => quiet_ask _
  · exact Act.quiet_pure _

theorem quiet_allocRealized (size : ℕ → Number) (result : Option ℕ) :
    Act.Quiet (allocRealized size result : Act σ Unit) := by
  cases result with
  | none => exact Act.quiet_pure _
  | some n => exact quiet_allocNumber _

theorem tracks_fill (this : Val) (args : List Val) (size : Option Number) :
    Act.Tracks (fun fuel => (Call.fill this args).builtin w lang fuel size)
      (fun fuel => (Call.fill this args).asked w lang fuel size) :=
  (quiet_forward w args).tracks_bind fun _ => Act.Quiet.tracks_alloc fun _ => quiet_fillExtent w this args

theorem tracks_repeatText (this : Val) (args : List Val) (size : Option Number) :
    Act.Tracks (fun fuel => (Call.repeatText this args).builtin w lang fuel size)
      (fun fuel => (Call.repeatText this args).asked w lang fuel size) :=
  (quiet_forward w args).tracks_bind fun _ =>
    Act.Quiet.tracks_alloc fun _ => quiet_repeatExtent w lang this args

theorem tracks_arrayBuffer (args : List Val) (size : Option Number) :
    Act.Tracks (fun fuel => (Call.arrayBuffer args).builtin w lang fuel size)
      (fun fuel => (Call.arrayBuffer args).asked w lang fuel size) := by
  apply (quiet_ask _).tracks_bind
  intro args'
  exact Act.Quiet.tracks_alloc fun _ => quiet_arrayBufferExtent w args'

theorem tracks_typedArray (bytesPerElement : ℕ) (args : List Val) (size : Option Number) :
    Act.Tracks (fun fuel => (Call.typedArray bytesPerElement args).builtin w lang fuel size)
      (fun fuel => (Call.typedArray bytesPerElement args).asked w lang fuel size) := by
  have hnative (args : List Val) : Act.Tracks (fun fuel => typedArrayNative w fuel bytesPerElement args)
      (fun fuel => do
        let elements ← typedArrayExtent w fuel bytesPerElement args
        pure (elements.getD 0 * bytesPerElement)) := by
    intro c s
    refine forall_congr' fun fuel => ?_
    simp only [typedArrayNative]
    rw [Act.within_bind, (quiet_typedArrayExtent w fuel bytesPerElement args).paidFrom_bind (Nat.zero_le _)]
    refine forall_congr' fun elements => forall_congr' fun s' => imp_congr_right fun _ => ?_
    rw [Act.within_pure]
    cases elements with
    | none => exact paidFrom_nil.trans (by simp)
    | some n =>
      change PaidFrom _ 0 [.alloc (n * bytesPerElement)] ↔ _
      rw [paidFrom_alloc_cons _ (Nat.zero_le _), paidFrom_nil, Nat.zero_add, Option.getD_some]
  have hrest (iterable : Bool) : Act.Tracks
      (fun fuel => do
        let length ← typedArrayNative w fuel bytesPerElement (← spreadArguments w args)
        if iterable then allocRealized (fun n => times (.finite n) bytesPerElement) length else pure ())
      (fun fuel => do
        let args ← spreadArguments w args
        let elements ← typedArrayExtent w fuel bytesPerElement args
        pure (elements.getD 0 * bytesPerElement)) := by
    apply (quiet_ask _).tracks_bind
    intro args'
    apply (hnative args').bind_quiet
    intro _ length
    split
    · exact quiet_allocRealized _ _
    · exact Act.quiet_pure _
  cases size with
  | none => exact (quiet_iterableBy w _).tracks_bind hrest
  | some x => exact (Act.quiet_pure false).tracks_bind hrest

theorem paidFrom_collectMapped (mapping : Option Val) (it : Val) (fuel c k : ℕ) (s : σ) :
    PaidFrom c k (collectMapped w mapping it fuel k s).1 ↔
      ∀ j ≤ fuel, Act.Within c (readMapped w mapping it j k) s := by
  induction fuel generalizing c k s with
  | zero =>
    simp only [Nat.le_zero, forall_eq]
    exact paidFrom_nil.trans Act.within_pure.symm
  | succ fuel ih =>
    by_cases hk : k ≤ c + 1
    swap
    · -- what came before is not paid
      refine iff_of_false (fun h => hk h.le) fun h => hk ?_
      exact Act.within_pure.mp (h 0 (Nat.zero_le _))
    have hshift : (∀ j ≤ fuel + 1, Act.Within c (readMapped w mapping it j k) s) ↔
        ∀ j ≤ fuel, Act.Within c (readMapped w mapping it (j + 1) k) s := by
      constructor
      · intro h j hj
        exact h (j + 1) (by omega)
      · intro h j hj
        cases j with
        | zero => exact Act.within_pure.mpr hk
        | succ j => exact h j (by omega)
    rw [hshift]
    simp only [collectMapped, readMapped, Act.within_bind]
    rw [(w.quiet_stepOf it).paidFrom_bind hk]
    constructor
    · intro h j hj v s' hv
      specialize h v s' hv
      cases v with
      | none => exact Act.within_pure.mpr h.le
      | some v =>
        simp only [Act.within_bind]
        intro u s'' hu
        rw [(quiet_mapElement w mapping v k).paidFrom_bind (by omega)] at h
        have hlast := h u s'' hu
        change PaidFrom _ k (.alloc 1 :: (collectMapped w mapping it fuel (k + 1) s'').1) at hlast
        rw [paidFrom_alloc_cons _ (by omega), ih] at hlast
        exact hlast j hj
    · intro h v s' hv
      cases v with
      | none => exact paidFrom_nil.mpr (by omega)
      | some v =>
        simp only
        rw [(quiet_mapElement w mapping v k).paidFrom_bind (by omega)]
        intro u s'' hu
        change PaidFrom _ k (.alloc 1 :: (collectMapped w mapping it fuel (k + 1) s'').1)
        rw [paidFrom_alloc_cons _ (by omega), ih]
        intro j hj
        exact Act.within_bind.mp (h j hj (some v) s' hv) u s'' hu

theorem tracks_collectMapped (mapping : Option Val) (it : Val) :
    Act.Tracks (fun fuel => collectMapped w mapping it fuel 0) (fun fuel => readMapped w mapping it fuel 0) := by
  intro c s
  simp only [paidFrom_collectMapped]
  constructor
  · intro h fuel
    exact h fuel fuel le_rfl
  · intro h fuel j _
    exact h j

theorem tracks_arrayFrom (args : List Val) (size : Option Number) :
    Act.Tracks (fun fuel => (Call.arrayFrom args).builtin w lang fuel size)
      (fun fuel => (Call.arrayFrom args).asked w lang fuel size) := by
  apply (quiet_forward w args).tracks_bind
  intro _
  apply Act.Tracks.bind_quiet
  · apply (quiet_mappingOf w _).tracks_bind
    intro mapping
    split
    · exact Act.tracks_throw
    · apply (w.quiet_iteratorMethod _).tracks_bind
      intro method
      cases method with
      | none => exact Act.Quiet.tracks_alloc_pure fun _ => (w.quiet_lengthOf _).bind w.quiet_fitting
      | some method =>
        apply (quiet_ask _).tracks_bind
        intro it
        exact tracks_collectMapped w mapping it
  · intro _ length
    split
    · exact quiet_allocNumber _
    · exact Act.quiet_pure _

theorem toLength_le_worth (x : Number) : toLength x ≤ worth (some x) + 1 := by
  cases x with
  | nan => simp [toLength, toIntegerOrInfinity]
  | infinity negative => cases negative <;> simp [toLength, toIntegerOrInfinity, worth, exceeds, billed]
  | finite q =>
    simp only [toLength, toIntegerOrInfinity, worth, exceeds, billed, decide_eq_true_eq]
    refine (min_le_left _ _).trans ?_
    by_cases hq : 1 < q
    · rw [if_pos hq, if_pos hq.le, if_pos (by linarith)]
      omega
    · rw [if_neg hq]
      split
      · have hfloor : q.floor ≤ Rat.floor 1 := Rat.floor_monotone (not_lt.mp hq)
        have hone : Rat.floor 1 = 1 := by decide
        omega
      · have hneg : 0 ≤ (-q).floor := Rat.le_floor_iff.mpr (by push_cast; linarith)
        omega

theorem toNumber_withNumber (args : List Val) (x : Number) :
    ∃ y, w.toNumber (arg (withNumber args x) 0) = pure y ∧ toLength y ≤ toLength x := by
  cases args with
  | nil => exact ⟨.nan, rfl, Nat.zero_le _⟩
  | cons v rest => exact ⟨x, rfl, le_rfl⟩

/-- The size a pad asks for is the number that was charged. -/
theorem affords_pad (fuel : ℕ) (this : Val) (args : List Val) (size : Option Number) :
    Act.Affords (worth size) 0 ((Call.pad this args).builtin w lang fuel size) := by
  have hsize : toLength (size.getD .nan) ≤ worth size + 1 := by
    cases size with
    | none => exact Nat.zero_le _
    | some x => exact toLength_le_worth x
  obtain ⟨y, hy, hle⟩ := toNumber_withNumber w args (size.getD .nan)
  have hlast (filler : ℕ) : Act.Affords (worth size) 0
      (if filler = 0 then pure () else w.fitting (toLength y) >>= Act.alloc) := by
    split
    · exact Act.affords_pure (Nat.zero_le _) ()
    · unfold World.fitting
      split
      · exact Act.affords_alloc (by omega)
      · exact Act.affords_throw (Nat.zero_le _)
  apply (quiet_forward w _).affords_bind (Nat.zero_le _)
  intro _
  apply (w.quiet_toText lang this).affords_bind (Nat.zero_le _)
  intro length
  simp only [hy, map_pure, pure_bind]
  split
  · exact Act.affords_pure (Nat.zero_le _) ()
  · split
    · exact (Act.quiet_pure 1).affords_bind (Nat.zero_le _) hlast
    · exact (w.quiet_toText lang _).affords_bind (Nat.zero_le _) hlast

/-- Each value is charged before it is stored. -/
theorem affords_addEach (entries : Bool) (it : Val) (fuel k c a : ℕ) (ha : a ≤ c) :
    Act.Affords c a (addEach w entries it fuel k) := by
  induction fuel generalizing k c a with
  | zero => exact Act.affords_pure (by omega) none
  | succ fuel ih =>
    apply (w.quiet_stepOf it).affords_bind (by omega)
    intro v
    cases v with
    | none => exact Act.affords_pure (by omega) (some k)
    | some v =>
      have hstore : Act.Affords c a (do
          Act.charge 1
          ask fun s => w.reserve s (if entries then 2 else 1)
          Act.alloc 1
          addEach w entries it fuel (k + 1)) := by
        apply Act.affords_charge_bind (by omega)
        apply (quiet_ask _).affords_bind (by omega)
        intro _
        apply Act.affords_alloc_bind (by omega)
        exact ih (k + 1) (c + 1) (a + 1) (by omega)
      cases entries with
      | false => exact hstore
      | true => exact (quiet_ask _).affords_bind (by omega) fun _ => hstore

theorem affords_collection (fuel : ℕ) (entries : Bool) (args : List Val) (size : Option Number) :
    Act.Affords 0 0 ((Call.collection entries args).builtin w lang fuel size) := by
  have hnative (args : List Val) : Act.Affords 0 0 (collectionNative w fuel entries args) := by
    unfold collectionNative
    split
    · exact Act.affords_pure (Nat.zero_le _) _
    · apply (w.quiet_iteratorMethod _).affords_bind (Nat.zero_le _)
      intro method
      cases method with
      | none => exact Act.affords_throw (Nat.zero_le _)
      | some method =>
        exact (quiet_ask _).affords_bind (Nat.zero_le _) fun it => affords_addEach w entries it fuel 0 0 0 le_rfl
  have hrest (iterable : Bool) : Act.Affords 0 0 (do
      let size ← collectionNative w fuel entries (← spreadArguments w args)
      if iterable then allocRealized (fun n => .finite n) size else pure () : Act σ Unit) := by
    apply (quiet_ask _).affords_bind (Nat.zero_le _)
    intro args'
    apply (hnative args').bind_quiet
    intro result
    split
    · exact quiet_allocRealized _ _
    · exact Act.quiet_pure _
  cases size with
  | none => exact (quiet_iterableBy w _).affords_bind (Nat.zero_le _) hrest
  | some x => exact (Act.quiet_pure false).affords_bind (Nat.zero_le _) hrest

/-- A call of a wrapper pays for what it allocates, however long its walks are observed,
exactly when it is covered. -/
theorem Call.paid_iff_covered (call : Call) (s : σ) :
    (∀ fuel, Paid (call.run w lang fuel s).1) ↔ ∀ fuel, call.Covered w lang fuel s := by
  have hbuiltin (size : Option Number) (c : ℕ) (s' : σ) :
      (∀ fuel, PaidFrom (c + worth size) 0 (call.builtin w lang fuel size s').1) ↔
        ∀ fuel, Act.Within (c + worth size) (call.asked w lang fuel size) s' := by
    cases call with
    | fill this args => exact tracks_fill w lang this args size _ s'
    | arrayFrom args => exact tracks_arrayFrom w lang args size _ s'
    | repeatText this args => exact tracks_repeatText w lang this args size _ s'
    | arrayBuffer args => exact tracks_arrayBuffer w lang args size _ s'
    | typedArray bytesPerElement args => exact tracks_typedArray w lang bytesPerElement args size _ s'
    | pad this args =>
      refine iff_of_true (fun fuel => ?_) fun fuel => Act.within_pure.mpr (Nat.zero_le _)
      exact (affords_pad w lang fuel this args size s').mono (Nat.le_add_left _ _)
    | collection entries args =>
      refine iff_of_true (fun fuel => ?_) fun fuel => Act.within_pure.mpr (Nat.zero_le _)
      exact (affords_collection w lang fuel entries args size s').mono (Nat.zero_le _)
  simp only [Call.paid_run_iff, Call.Covered]
  constructor
  · intro h fuel size s' hsize
    exact (hbuiltin size _ s').mp (fun fuel => h fuel size s' hsize) fuel
  · intro h fuel size s' hsize
    exact (hbuiltin size _ s').mpr (fun fuel => h fuel size s' hsize) fuel

end XChainVM.Harness
