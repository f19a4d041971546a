import XChainVM.Harness.PaidAllocations

/-! # Sizes a builtin confirms

A wrapper charges for the size it was shown; the builtin reads again. A call whose
receiver and arguments answer the builtin no more than they answered the wrapper
pays for what it allocates.
-/

namespace XChainVM.Harness

open Js Machine

variable {σ : Type} (w : World σ) (lang : Language)

/-- The number `fill` charges for. -/
def lengthShown (this : Val) : Act σ Number := do
  let n ← if this.isNullish then pure (.number (.finite 0)) else w.read this .length
  w.toNumber n

/-- The count `repeat` is given and, where it is positive, the length of the text. -/
def repeatShown (this : Val) (args : List Val) : Act σ (Number × Option ℕ) := do
  let c ← w.toNumber (arg args 0)
  if exceeds c 0 then return (c, some (← w.toText lang this)) else return (c, none)

def elementsShown (args : List Val) : Act σ (Option Number) :=
  match arg args 0 with
  | .prim (.number n) => pure (some n)
  | a => sizedProbe w a

/-- The size shown covers `n` units, or there is just the one that is free. -/
def Shows (size : Option Number) (n : ℕ) : Prop := n ≤ 1 ∨ n ≤ toLength (size.getD .nan)

/-- What the builtin reads of the receiver and of the arguments is no more than what the
wrapper was shown: the length of `fill`, the elements of `Array.from` and of a typed array,
the count and the text of `repeat`, the number an `ArrayBuffer` is given. -/
def Call.Confirmed (s : σ) : Call → Prop
  | .fill this args =>
    Act.Follows (lengthShown w this) (fun _ => do forward w args; w.lengthOf this)
      (fun x n => n ≤ toLength x) s
  | .arrayFrom args => ∀ fuel,
    Act.Follows (sizedProbe w (arg args 0)) (fun _ => do forward w args; fromExtent w fuel args) Shows s
  | .repeatText this args =>
    Act.Follows (repeatShown w lang this args)
      (fun _ => do
        forward w args
        let length ← w.toText lang this
        return (length, ← w.toNumber (arg args 0)))
      (fun shown read => read.1 * toLength read.2 ≤ 1 ∨
        toLength read.2 ≤ toLength shown.1 ∧ ∃ length ∈ shown.2, read.1 ≤ length) s
  | .arrayBuffer args =>
    Act.Follows (spreadArguments w args) (fun args' => w.indexOf (arg args' 0))
      (fun _ n => n ≤ 1 ∨ ∃ x, arg args 0 = .number x ∧ n ≤ toLength x) s
  | .typedArray bytesPerElement args => ∀ fuel,
    Act.Follows (elementsShown w args)
      (fun size => do
        let _ ← if size.isNone then iterableBy w (arg args 0) else pure false
        elementsOf w fuel (← spreadArguments w args))
      (fun size elements => ∀ n ∈ elements, n * bytesPerElement ≤ 1 ∨ n ≤ toLength (size.getD .nan)) s
  | .pad .. | .collection .. => True

/-- A count above one is charged in full. -/
theorem le_worth_finite {m : ℕ} {q : ℚ} (h : (m : ℚ) ≤ q) : m ≤ worth (some (.finite q)) + 1 := by
  by_cases hone : m ≤ 1
  · omega
  have hm : (2 : ℚ) ≤ m := by exact_mod_cast Nat.lt_of_not_le hone
  have hexceeds : exceeds (.finite q) 1 = true := decide_eq_true (by linarith)
  have hle : (1 : ℚ) ≤ q := by linarith
  rw [worth, hexceeds, if_pos rfl, billed, if_pos hle]
  have hfloor : (m : ℤ) ≤ Rat.floor q := Rat.le_floor_iff.mpr (by exact_mod_cast h)
  omega

theorem toLength_le {q : ℚ} : (toLength (.finite q) : ℚ) ≤ max q 0 := by
  simp only [toLength, toIntegerOrInfinity]
  split
  · rename_i hq
    have hfloor : (0 : ℤ) ≤ q.floor := Rat.le_floor_iff.mpr (by exact_mod_cast hq)
    have hle : ((min q.floor.toNat MAX_SAFE_INTEGER : ℕ) : ℤ) ≤ q.floor := by omega
    have hcast : (q.floor : ℚ) ≤ q := Rat.le_floor_iff.mp le_rfl
    exact le_max_of_le_left (le_trans (by exact_mod_cast hle) hcast)
  · rename_i hq
    have hfloor : (0 : ℤ) ≤ (-q).floor := Rat.le_floor_iff.mpr (by push_cast; linarith)
    have hzero : (-(-q).floor).toNat = 0 := by omega
    rw [hzero]
    simp

/-- A count up to the one shown, of parts up to the size shown, is charged. -/
theorem le_worth_times {m j k : ℕ} {x : Number} (h : m ≤ toLength x) (hj : j ≤ k) (hmax : m * j ≤ MAX_SAFE_INTEGER) :
    m * j ≤ worth (some (times x k)) + 1 := by
  cases x with
  | nan =>
    have hm : m = 0 := by simpa [toLength, toIntegerOrInfinity] using h
    simp [hm]
  | infinity negative =>
    cases negative with
    | true =>
      have hm : m = 0 := by simpa [toLength, toIntegerOrInfinity] using h
      simp [hm]
    | false =>
      by_cases hk : k = 0
      · have hj : j = 0 := by omega
        simp [hj]
      · simp only [times, if_neg hk]
        change m * j ≤ MAX_SAFE_INTEGER + 1
        omega
  | finite q =>
    have hle : (m : ℚ) ≤ max q 0 := le_trans (by exact_mod_cast h) toLength_le
    rcases le_total q 0 with hq | hq
    · rw [max_eq_right hq] at hle
      have hm : m = 0 := by exact_mod_cast le_antisymm hle (Nat.cast_nonneg m)
      simp [hm]
    · rw [max_eq_left hq] at hle
      refine le_worth_finite ?_
      push_cast
      exact mul_le_mul hle (by exact_mod_cast hj) (Nat.cast_nonneg j) hq

theorem within_of_le {m : Act σ ℕ} {c : ℕ} {s : σ} (h : ∀ n s', (m s).2 = some (n, s') → n ≤ c + 1) :
    Act.Within c m s := by
  intro n s' hn
  have := h n s' hn
  omega

theorem fitting_answer {n m : ℕ} {s s' : σ} (h : (w.fitting n s).2 = some (m, s')) :
    m = n ∧ n ≤ MAX_SAFE_INTEGER := by
  rw [World.fitting] at h
  split at h
  · rename_i hfits
    cases h
    exact ⟨rfl, w.fits_le n hfits⟩
  · cases h

theorem relativeIndex_le (len : ℕ) (z : Integer) : relativeIndex len z ≤ len := by
  cases z with
  | finite z =>
    simp only [relativeIndex]
    split <;> omega
  | infinity negative =>
    cases negative
    · exact le_rfl
    · exact Nat.zero_le len

/-- The elements that are filled lie within the length. -/
theorem fillExtent_answer {this : Val} {args : List Val} {s s' : σ} {n : ℕ}
    (h : (fillExtent w this args s).2 = some (n, s')) :
    ∃ len s₁, (w.lengthOf this s).2 = some (len, s₁) ∧ n ≤ len := by
  obtain ⟨len, s₁, hlen, h⟩ := Act.bind_answer.mp h
  obtain ⟨start, s₂, -, h⟩ := Act.bind_answer.mp h
  refine ⟨len, s₁, hlen, ?_⟩
  have hfit (stop : Integer) {s : σ} (h : (w.fitting (relativeIndex len stop - relativeIndex len start) s).2 = some (n, s')) :
      n ≤ len := by
    rw [(fitting_answer w h).1]
    exact (Nat.sub_le _ _).trans (relativeIndex_le len stop)
  split at h
  all_goals
    obtain ⟨stop, s₃, -, h⟩ := Act.bind_answer.mp h
    exact hfit stop h

theorem repeatExtent_answer {this : Val} {args : List Val} {s s' : σ} {n : ℕ}
    (h : (repeatExtent w lang this args s).2 = some (n, s')) :
    ∃ length s₁ y s₂, (w.toText lang this s).2 = some (length, s₁) ∧
      (w.toNumber (arg args 0) s₁).2 = some (y, s₂) ∧ n = length * toLength y ∧ n ≤ MAX_SAFE_INTEGER := by
  obtain ⟨length, s₁, hlength, h⟩ := Act.bind_answer.mp h
  obtain ⟨z, s₂, hz, h⟩ := Act.bind_answer.mp h
  obtain ⟨y, hy, rfl⟩ := Act.map_answer.mp hz
  refine ⟨length, s₁, y, s₂, hlength, hy, ?_⟩
  cases hinteger : toIntegerOrInfinity y with
  | infinity negative =>
    rw [hinteger] at h
    cases h
  | finite z =>
    rw [hinteger] at h
    dsimp only at h
    split at h
    · cases h
    · obtain ⟨rfl, hmax⟩ := fitting_answer w h
      refine ⟨?_, hmax⟩
      rw [toLength, hinteger]
      dsimp only
      rcases Nat.eq_zero_or_pos length with rfl | hpos
      · simp
      · have hle : z.toNat ≤ length * z.toNat := Nat.le_mul_of_pos_left _ hpos
        rw [min_eq_left (hle.trans hmax)]

theorem arrayBufferExtent_answer {args : List Val} {s s' : σ} {n : ℕ}
    (h : (arrayBufferExtent w args s).2 = some (n, s')) : ∃ s₁, (w.indexOf (arg args 0) s).2 = some (n, s₁) := by
  obtain ⟨m, s₁, hm, h⟩ := Act.bind_answer.mp h
  obtain ⟨limit, s₂, -, h⟩ := Act.bind_answer.mp h
  cases limit with
  | none =>
    obtain ⟨rfl, -⟩ := fitting_answer w h
    exact ⟨s₁, hm⟩
  | some limit =>
    dsimp only at h
    split at h
    · cases h
    · obtain ⟨_, _, -, h⟩ := Act.bind_answer.mp h
      obtain ⟨rfl, -⟩ := fitting_answer w h
      exact ⟨s₁, hm⟩

theorem typedArrayExtent_answer {fuel bytesPerElement : ℕ} {args : List Val} {s s' : σ} {n : ℕ}
    (h : (typedArrayExtent w fuel bytesPerElement args s).2 = some (some n, s')) :
    (∃ s₁, (elementsOf w fuel args s).2 = some (some n, s₁)) ∧ n * bytesPerElement ≤ MAX_SAFE_INTEGER := by
  obtain ⟨elements, s₁, helements, h⟩ := Act.bind_answer.mp h
  cases elements with
  | none => cases h
  | some m =>
    obtain ⟨_, s₂, hfits, h⟩ := Act.bind_answer.mp h
    cases h
    exact ⟨⟨s₁, helements⟩, (fitting_answer w hfits).2⟩

/-- What the probe of a wrapper answers is what it was shown. -/
theorem probe_fill (this : Val) (args : List Val) :
    (Call.fill this args).probe w lang = some <$> lengthShown w this := by
  by_cases h : this.isNullish <;> simp [Call.probe, lengthShown, h]

theorem probe_repeatText (this : Val) (args : List Val) :
    (Call.repeatText this args).probe w lang = (fun shown => shown.2.map (times shown.1)) <$> repeatShown w lang this args := by
  simp only [Call.probe, repeatShown, map_bind]
  congr 1
  funext c
  split <;> simp

theorem probe_typedArray (bytesPerElement : ℕ) (args : List Val) :
    (Call.typedArray bytesPerElement args).probe w lang =
      Option.map (times · bytesPerElement) <$> elementsShown w args := by
  simp only [Call.probe, elementsShown]
  cases arg args 0 with
  | object id => rfl
  | prim p => cases p <;> rfl

theorem probe_arrayBuffer {args : List Val} {s s' : σ} {size : Option Number}
    (h : ((Call.arrayBuffer args).probe w lang s).2 = some (size, s')) :
    s' = s ∧ ∀ x, arg args 0 = .number x → size = some x := by
  rw [Call.probe] at h
  cases harg : arg args 0 with
  | object id =>
    rw [harg] at h
    cases h
    exact ⟨rfl, fun x hx => by cases hx⟩
  | prim p =>
    rw [harg] at h
    cases p with
    | number x =>
      cases h
      refine ⟨rfl, fun y hy => ?_⟩
      cases hy
      rfl
    | _ =>
      cases h
      exact ⟨rfl, fun x hx => by cases hx⟩

theorem typedArray_asked_le {fuel bytesPerElement : ℕ} {args : List Val} {shown : Option Number} {s s' : σ} {n : ℕ}
    (hread : ∀ elements s₁, ((do elementsOf w fuel (← spreadArguments w args)) s).2 = some (elements, s₁) →
      ∀ m ∈ elements, m * bytesPerElement ≤ 1 ∨ m ≤ toLength (shown.getD .nan))
    (hn : ((do
      let args ← spreadArguments w args
      let elements ← typedArrayExtent w fuel bytesPerElement args
      pure (elements.getD 0 * bytesPerElement)) s).2 = some (n, s')) :
    n ≤ worth (shown.map (times · bytesPerElement)) + 1 := by
  obtain ⟨args', s₁, hspread, hn⟩ := Act.bind_answer.mp hn
  obtain ⟨elements, s₂, hextent, hn⟩ := Act.bind_answer.mp hn
  cases hn
  cases elements with
  | none =>
    rw [Option.getD_none, Nat.zero_mul]
    exact Nat.zero_le _
  | some m =>
    obtain ⟨⟨s₃, helements⟩, hmax⟩ := typedArrayExtent_answer w hextent
    rw [Option.getD_some]
    rcases hread (some m) s₃ (Act.bind_answer.mpr ⟨args', s₁, hspread, helements⟩) m rfl with hone | hle
    · omega
    · cases shown with
      | none =>
        have hm : m = 0 := by simpa [toLength, toIntegerOrInfinity] using hle
        rw [hm, Nat.zero_mul]
        exact Nat.zero_le _
      | some x => exact le_worth_times hle le_rfl hmax

/-- The size the builtin is asked for is one the number shown covers. -/
theorem Call.covered_of_confirmed {call : Call} {s : σ} (h : call.Confirmed w lang s) (fuel : ℕ) :
    call.Covered w lang fuel s := by
  intro size s' hprobe
  suffices hle : ∀ n s'', (call.asked w lang fuel size s').2 = some (n, s'') → n ≤ worth size + 1 by
    refine within_of_le fun n s'' hn => ?_
    have := hle n s'' hn
    omega
  intro n s'' hn
  cases call with
  | fill this args =>
    rw [probe_fill] at hprobe
    obtain ⟨x, hx, rfl⟩ := Act.map_answer.mp hprobe
    obtain ⟨u, s₁, hforward, hextent⟩ := Act.bind_answer.mp hn
    obtain ⟨len, s₂, hlen, hle⟩ := fillExtent_answer w hextent
    have hconfirmed := h x s' hx len s₂ (Act.bind_answer.mpr ⟨u, s₁, hforward, hlen⟩)
    exact (hle.trans hconfirmed).trans (toLength_le_worth x)
  | arrayFrom args =>
    have hworth : toLength (size.getD .nan) ≤ worth size + 1 := by
      cases size with
      | none => exact Nat.zero_le _
      | some x => exact toLength_le_worth x
    rcases h fuel size s' hprobe n s'' hn with hone | hle <;> omega
  | repeatText this args =>
    rw [probe_repeatText] at hprobe
    obtain ⟨⟨c, shown⟩, hshown, rfl⟩ := Act.map_answer.mp hprobe
    obtain ⟨u, s₁, hforward, hextent⟩ := Act.bind_answer.mp hn
    obtain ⟨length, s₂, y, s₃, hlength, hy, rfl, hmax⟩ := repeatExtent_answer w lang hextent
    have hread : ((do
        forward w args
        let length ← w.toText lang this
        return (length, ← w.toNumber (arg args 0)) : Act σ (ℕ × Number)) s').2 = some ((length, y), s₃) :=
      Act.bind_answer.mpr ⟨u, s₁, hforward, Act.bind_answer.mpr ⟨length, s₂, hlength,
        Act.bind_answer.mpr ⟨y, s₃, hy, rfl⟩⟩⟩
    rcases h (c, shown) s' hshown (length, y) s₃ hread with hone | ⟨hcount, length', hlength', hle⟩
    · exact le_trans hone (Nat.le_add_left 1 _)
    · cases hlength'
      rw [Nat.mul_comm] at hmax ⊢
      exact le_worth_times hcount hle hmax
  | arrayBuffer args =>
    obtain ⟨rfl, hsize⟩ := probe_arrayBuffer w lang hprobe
    obtain ⟨args', s₁, hspread, hextent⟩ := Act.bind_answer.mp hn
    obtain ⟨s₂, hindex⟩ := arrayBufferExtent_answer w hextent
    rcases h args' s₁ hspread n s₂ hindex with hone | ⟨x, hx, hle⟩
    · omega
    · rw [hsize x hx]
      exact hle.trans (toLength_le_worth x)
  | typedArray bytesPerElement args =>
    rw [probe_typedArray] at hprobe
    obtain ⟨shown, hshown, rfl⟩ := Act.map_answer.mp hprobe
    cases shown with
    | none =>
      obtain ⟨iterable, s₁, hiterable, hn⟩ := Act.bind_answer.mp
        (show ((iterableBy w (arg args 0) >>= fun _ => _) s').2 = some (n, s'') from hn)
      exact typedArray_asked_le w (fun elements s₃ hread => h fuel none s' hshown elements s₃
        (Act.bind_answer.mpr ⟨iterable, s₁, hiterable, hread⟩)) hn
    | some x => exact typedArray_asked_le w (fun elements s₃ hread => h fuel (some x) s' hshown elements s₃ hread) hn
  | pad this args =>
    cases hn
    exact Nat.zero_le _
  | collection entries args =>
    cases hn
    exact Nat.zero_le _

/-- A call whose receiver and arguments answer the builtin no more than they answered the
wrapper pays for what it allocates, however long its walks are observed. -/
theorem Call.paid_of_confirmed (call : Call) (s : σ) (h : call.Confirmed w lang s) (fuel : ℕ) :
    Paid (call.run w lang fuel s).1 :=
  (call.paid_iff_covered w lang s).mpr (Call.covered_of_confirmed w lang h) fuel

/-- A contract with no objects of its own: conversions of primitives, and arguments passed on. -/
def plainWorld : World Unit where
  stringToNumber s := if s = "1000000" then .finite 1000000 else .nan
  get s _ _ := ⟨0, some (.undefined, s)⟩
  toPrimitive s _ _ := ⟨0, some (.undefined, s)⟩
  isCallable _ _ := false
  openIterator _ _ _ := ⟨0, none⟩
  step s _ := ⟨0, some (none, s)⟩
  map s _ v _ := ⟨0, some (v, s)⟩
  entry s _ := ⟨0, some ((), s)⟩
  typedArrayLength _ _ := none
  isArrayBuffer _ _ := false
  spread s args := ⟨0, some (args, s)⟩
  reserve s _ := ⟨0, some ((), s)⟩
  fits n := n < 2 ^ 32
  fits_le n h := (of_decide_eq_true h).le.trans (by decide)

def plainLanguage : Language := ⟨fun _ => "0", fun _ => some .nan, fun _ => some "true"⟩

def setWorld (size : ℕ) : World ℕ where
  stringToNumber _ := .nan
  get s _
    | .size => ⟨0, some (.number (.finite size), s)⟩
    | .iterator => ⟨0, some (.object 1, s)⟩
    | _ => ⟨0, some (.undefined, s)⟩
  toPrimitive s _ _ := ⟨0, some (.undefined, s)⟩
  isCallable _ v := v = .object 1
  openIterator _ _ _ := ⟨0, some (.object 2, 0)⟩
  step s _ := if s < size then ⟨0, some (some (.number (.finite s)), s + 1)⟩ else ⟨0, some (none, s)⟩
  map s _ v _ := ⟨0, some (v, s)⟩
  entry s _ := ⟨0, some ((), s)⟩
  typedArrayLength _ _ := none
  isArrayBuffer _ _ := false
  spread s args := ⟨0, some (args, s)⟩
  reserve s _ := ⟨0, some ((), s)⟩
  fits n := n < 2 ^ 32
  fits_le n h := (of_decide_eq_true h).le.trans (by decide)

theorem readMapped_setWorld {size fuel k n s : ℕ} (hk : k ≤ size)
    (h : (readMapped (setWorld size) none (.object 2) fuel k k).2 = some (n, s)) : n ≤ size := by
  induction fuel generalizing k with
  | zero =>
    cases h
    exact hk
  | succ fuel ih =>
    obtain ⟨v, s', hv, h⟩ := Act.bind_answer.mp h
    by_cases hlt : k < size
    · simp only [World.stepOf, ask, setWorld, if_pos hlt] at hv
      cases hv
      exact ih hlt h
    · simp only [World.stepOf, ask, setWorld, if_neg hlt] at hv
      cases hv
      cases h
      exact hk

/-- `Array.from(new Set([0, 1, 2, 3, 4]))` -/
theorem paid_of_confirmed_set : Paid ((Call.arrayFrom [.object 0]).run (setWorld 5) plainLanguage 9 0).1 := by
  refine Call.paid_of_confirmed (setWorld 5) plainLanguage (.arrayFrom [.object 0]) 0 (fun fuel => ?_) 9
  intro size s hsize n s' hn
  cases hsize
  exact .inr (readMapped_setWorld (k := 0) (Nat.zero_le 5) hn)

/-- `new ArrayBuffer('1000000')`: the probe sees no number, the builtin converts the text. -/
theorem numeric_string_unpaid :
    ¬ Paid ((Call.arrayBuffer [.prim (.string "1000000")]).run plainWorld plainLanguage 0 ()).1 := by
  have hrun : ((Call.arrayBuffer [.prim (.string "1000000")]).run plainWorld plainLanguage 0 ()).1 =
      [.charge 0, .alloc 1000000] := by decide +kernel
  intro h
  have hle := h _ [] (List.append_nil _).symm
  rw [hrun] at hle
  revert hle
  decide

end XChainVM.Harness
