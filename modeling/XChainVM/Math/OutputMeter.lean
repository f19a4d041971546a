import XChainVM.Harness.Values
import XChainVM.Machine.Fallible
import XChainVM.Math.Decimal

/-! # The output meter of the math API

A result is priced by the length its fixed notation is predicted to have, before it is written out.
The arithmetic is that of a decimal library, which rounds most results to its precision and hands
some operands on as they are.
-/

namespace XChainVM.Math

open Machine

def MAX_MATH_INPUT_LENGTH : ℕ := 256

def MATH_OUTPUT_GAS_THRESHOLD : ℕ := 256

namespace BigNumber

def isZero : BigNumber → Bool
  | finite d => d.isZero
  | _ => false

def isComplex : BigNumber → Bool
  | complex => true
  | _ => false

/-- The exponent field: not a number for values that are not finite, absent for complex ones. -/
def e : BigNumber → Option Js.Number
  | finite d => some (.finite d.e)
  | infinity _ | nan => some .nan
  | complex => none

end BigNumber

/-- The operations of the decimal library. `compare` has no value where an operand is not a
number. -/
structure MathLibrary where
  bignumber : String → Except String BigNumber
  add : BigNumber → BigNumber → Except String BigNumber
  subtract : BigNumber → BigNumber → Except String BigNumber
  multiply : BigNumber → BigNumber → Except String BigNumber
  divide : BigNumber → BigNumber → Except String BigNumber
  mod : BigNumber → BigNumber → Except String BigNumber
  compare : BigNumber → BigNumber → Option ℤ
  abs : BigNumber → BigNumber
  sqrt : BigNumber → Except String BigNumber
  pow : BigNumber → BigNumber → Except String BigNumber
  log : BigNumber → Except String BigNumber
  log2 : BigNumber → Except String BigNumber
  log10 : BigNumber → Except String BigNumber
  format : BigNumber → String

/-- What a call throws: the fault of the gas meter, or an error, which `safeMath` turns into a
revert. -/
inductive Thrown where
  | gasExhausted
  | error (message : String)
  | revert (message : String)

def predictedFixedLength : BigNumber → Option ℕ
  | .finite d => some (d.e.natAbs + 70)
  | .infinity _ | .nan => none
  | .complex => some 70

section

variable (lib : MathLibrary)

def validateInput (val : String) : Except String String :=
  if MAX_MATH_INPUT_LENGTH < Harness.textLength val then
    .error ("math input exceeds maximum length (" ++ toString MAX_MATH_INPUT_LENGTH ++ " chars)")
  else .ok val

/-- `bignumber(validateInput(val))`. -/
def operand (val : String) : Except String BigNumber := validateInput val >>= lib.bignumber

def safeDivide (a b : String) : Except String BigNumber := do
  let bb ← operand lib b
  if bb.isZero then .error "Division by zero"
  else lib.divide (← operand lib a) bb

def cmp (a b : String) : Except String (Option ℤ) := do
  let x ← operand lib a
  let y ← operand lib b
  pure (lib.compare x y)

/-- `n <= 0`, for a number that may be `NaN`. -/
def atMostZero : Option ℤ → Bool
  | some n => n ≤ 0
  | none => false

def atLeastZero : Option ℤ → Bool
  | some n => 0 ≤ n
  | none => false

/-- The operations that return a number as text. -/
inductive Call where
  | add (a b : String) | subtract (a b : String) | multiply (a b : String) | divide (a b : String)
  | mod (a b : String) | min (a b : String) | max (a b : String) | abs (a : String)
  | sqrt (a : String) | pow (a b : String) | log (a : String) | log2 (a : String)
  | log10 (a : String)

def result : Call → Except String BigNumber
  | .add a b => do lib.add (← operand lib a) (← operand lib b)
  | .subtract a b => do lib.subtract (← operand lib a) (← operand lib b)
  | .multiply a b => do lib.multiply (← operand lib a) (← operand lib b)
  | .divide a b => safeDivide lib a b
  | .mod a b => do lib.mod (← operand lib a) (← operand lib b)
  | .min a b => do
    let ba ← operand lib a
    let bb ← operand lib b
    pure (if atMostZero (← cmp lib a b) then ba else bb)
  | .max a b => do
    let ba ← operand lib a
    let bb ← operand lib b
    pure (if atLeastZero (← cmp lib a b) then ba else bb)
  | .abs a => do pure (lib.abs (← operand lib a))
  | .sqrt a => do lib.sqrt (← operand lib a)
  | .pow a b => do lib.pow (← operand lib a) (← operand lib b)
  | .log a => do lib.log (← operand lib a)
  | .log2 a => do lib.log2 (← operand lib a)
  | .log10 a => do lib.log10 (← operand lib a)

/-- Whether a call formats with `fmtReal`. -/
def Call.isReal : Call → Bool
  | sqrt _ | pow _ _ | log _ | log2 _ | log10 _ => true
  | _ => false

variable {σ : Type} (outputGasHook : Option (ℕ → EStateM Thrown σ Unit))

/-- The charge of `chargeOutput`: what the predicted length exceeds the threshold by. -/
def outputCharge (val : BigNumber) : EStateM Thrown σ Unit :=
  match outputGasHook, val.e with
  | some hook, some _ =>
    match predictedFixedLength val with
    | some length =>
      if MATH_OUTPUT_GAS_THRESHOLD < length then hook (length - MATH_OUTPUT_GAS_THRESHOLD)
      else pure ()
    | none => pure ()
  | _, _ => pure ()

def chargeOutput (val : BigNumber) : EStateM Thrown σ BigNumber := do
  outputCharge outputGasHook val
  pure val

def fmt (val : BigNumber) : EStateM Thrown σ String := do
  pure (lib.format (← chargeOutput outputGasHook val))

def fmtReal (val : BigNumber) : EStateM Thrown σ String :=
  if val.isComplex then throw (.error "result is not a real number")
  else do
    let val ← chargeOutput outputGasHook val
    let s := lib.format val
    if s = "Infinity" ∨ s = "-Infinity" ∨ s = "NaN" then
      throw (.error "result is not a finite number")
    else pure s

def safeMath {α : Type} (fn : EStateM Thrown σ α) : EStateM Thrown σ α :=
  tryCatch fn fun
    | .gasExhausted => throw .gasExhausted
    | .error message => throw (.revert ("math error: " ++ message))
    | .revert message => throw (.revert ("math error: " ++ message))

def raised {α : Type} : Except String α → EStateM Thrown σ α
  | .ok a => pure a
  | .error message => throw (.error message)

def Call.run (call : Call) : EStateM Thrown σ String :=
  safeMath do
    let val ← raised (result lib call)
    if call.isReal then fmtReal lib outputGasHook val else fmt lib outputGasHook val

end

/-- Finite results have at most 64 significant digits, the precision of the library. -/
def Rounds (r : Except String BigNumber) : Prop := ∀ d, r = .ok (.finite d) → d.significant ≤ 64

/-- What the API relies on: fixed notation, the precision of the rounded operations, and exact
absolute values. A remainder by zero, where it is finite, is the first operand. -/
structure Documented (lib : MathLibrary) : Prop where
  format : ∀ d, lib.format (.finite d) = d.fixed
  add : ∀ a b, Rounds (lib.add a b)
  subtract : ∀ a b, Rounds (lib.subtract a b)
  multiply : ∀ a b, Rounds (lib.multiply a b)
  divide : ∀ a b, Rounds (lib.divide a b)
  mod : ∀ a b, b.isZero = false → Rounds (lib.mod a b)
  modZero : ∀ a b d, b.isZero = true → lib.mod a b = .ok (.finite d) → a = .finite d
  abs : ∀ a d, lib.abs a = .finite d ↔ ∃ x, a = .finite x ∧ d = x.abs
  sqrt : ∀ a, Rounds (lib.sqrt a)
  pow : ∀ a b, Rounds (lib.pow a b)
  log : ∀ a, Rounds (lib.log a)
  log2 : ∀ a, Rounds (lib.log2 a)
  log10 : ∀ a, Rounds (lib.log10 a)

def keptOperand (lib : MathLibrary) : Call → Except String (Option BigNumber)
  | .min a b => do
    if atMostZero (← cmp lib a b) then some <$> operand lib a else some <$> operand lib b
  | .max a b => do
    if atLeastZero (← cmp lib a b) then some <$> operand lib a else some <$> operand lib b
  | .abs a => some <$> operand lib a
  | .mod a b => do
    if (← operand lib b).isZero then some <$> operand lib a else pure none
  | _ => pure none

def keptSign (call : Call) (d : Decimal) : ℕ :=
  match call with
  | .abs _ => 0
  | _ => d.sign.length

/-- The digits of the operand that is handed on fit beside its exponent. -/
def DigitsFit (lib : MathLibrary) (call : Call) : Prop :=
  ∀ d, keptOperand lib call = .ok (some (.finite d)) →
    (d.significant + keptSign call d : ℤ) ≤ 69 + max d.e 0

variable {lib : MathLibrary}

theorem Rounds.unary {f : BigNumber → Except String BigNumber} (hf : ∀ x, Rounds (f x)) (a : String) :
    Rounds (do f (← operand lib a)) := by
  intro d h
  obtain ⟨x, -, h⟩ := bind_ok h
  exact hf x d h

theorem Rounds.binary {f : BigNumber → BigNumber → Except String BigNumber}
    (hf : ∀ x y, Rounds (f x y)) (a b : String) :
    Rounds (do f (← operand lib a) (← operand lib b)) := by
  intro d h
  obtain ⟨x, -, h⟩ := bind_ok h
  obtain ⟨y, -, h⟩ := bind_ok h
  exact hf x y d h

theorem rounds_safeDivide (hlib : Documented lib) (a b : String) : Rounds (safeDivide lib a b) := by
  intro d h
  obtain ⟨y, -, h⟩ := bind_ok h
  split at h
  · cases h
  · obtain ⟨x, -, h⟩ := bind_ok h
    exact hlib.divide x y d h

def HandsOn (lib : MathLibrary) (call : Call) (d : Decimal) : Prop :=
  ∃ x, keptOperand lib call = .ok (some (.finite x)) ∧ d.significant = x.significant ∧
    d.e = x.e ∧ d.sign.length = keptSign call x

/-- The operand picked by a comparison is handed on as it is. -/
theorem kept_of_picked {p : Option ℤ → Bool} {a b : String} {val : BigNumber}
    (h : (do
      let ba ← operand lib a
      let bb ← operand lib b
      pure (if p (← cmp lib a b) then ba else bb)) = Except.ok val) :
    (do if p (← cmp lib a b) then some <$> operand lib a else some <$> operand lib b) =
      Except.ok (some val) := by
  obtain ⟨x, hx, h⟩ := bind_ok h
  obtain ⟨y, hy, h⟩ := bind_ok h
  obtain ⟨c, hc, h⟩ := bind_ok h
  obtain rfl := Except.ok.inj h
  simp only [hc, hx, hy, bind_eq_ok_iff, Except.ok.injEq, exists_eq_left']
  split <;> rfl

theorem handsOn_abs (hlib : Documented lib) {a : String} {d : Decimal}
    (h : result lib (.abs a) = .ok (.finite d)) : HandsOn lib (.abs a) d := by
  obtain ⟨x, hx, h⟩ := bind_ok h
  obtain ⟨x, rfl, rfl⟩ := (hlib.abs _ _).mp (Except.ok.inj h)
  refine ⟨x, ?_, rfl, rfl, rfl⟩
  rw [keptOperand, hx]
  rfl

theorem rounded_or_handsOn_mod (hlib : Documented lib) {a b : String} {d : Decimal}
    (h : result lib (.mod a b) = .ok (.finite d)) :
    (d.significant ≤ 64 ∧ keptOperand lib (.mod a b) = .ok none) ∨ HandsOn lib (.mod a b) d := by
  obtain ⟨x, hx, h⟩ := bind_ok h
  obtain ⟨y, hy, h⟩ := bind_ok h
  cases hzero : y.isZero with
  | false =>
    refine .inl ⟨hlib.mod x y hzero d h, ?_⟩
    simp only [keptOperand, hy, bind_eq_ok_iff, Except.ok.injEq, exists_eq_left', hzero]
    rfl
  | true =>
    obtain rfl := hlib.modZero x y d hzero h
    refine .inr ⟨d, ?_, rfl, rfl, rfl⟩
    simp only [keptOperand, hy, hx, bind_eq_ok_iff, Except.ok.injEq, exists_eq_left', hzero]
    rfl

/-- A finite result is rounded, or an operand handed on, without its sign by `abs`. -/
theorem rounded_or_handsOn (hlib : Documented lib) {call : Call} {d : Decimal}
    (h : result lib call = .ok (.finite d)) :
    (d.significant ≤ 64 ∧ keptOperand lib call = .ok none) ∨ HandsOn lib call d := by
  cases call with
  | add a b => exact .inl ⟨Rounds.binary hlib.add a b d h, rfl⟩
  | subtract a b => exact .inl ⟨Rounds.binary hlib.subtract a b d h, rfl⟩
  | multiply a b => exact .inl ⟨Rounds.binary hlib.multiply a b d h, rfl⟩
  | divide a b => exact .inl ⟨rounds_safeDivide hlib a b d h, rfl⟩
  | mod a b => exact rounded_or_handsOn_mod hlib h
  | min a b => exact .inr ⟨d, kept_of_picked h, rfl, rfl, rfl⟩
  | max a b => exact .inr ⟨d, kept_of_picked h, rfl, rfl, rfl⟩
  | abs a => exact .inr (handsOn_abs hlib h)
  | sqrt a => exact .inl ⟨Rounds.unary hlib.sqrt a d h, rfl⟩
  | pow a b => exact .inl ⟨Rounds.binary hlib.pow a b d h, rfl⟩
  | log a => exact .inl ⟨Rounds.unary hlib.log a d h, rfl⟩
  | log2 a => exact .inl ⟨Rounds.unary hlib.log2 a d h, rfl⟩
  | log10 a => exact .inl ⟨Rounds.unary hlib.log10 a d h, rfl⟩

/-- The prediction covers a finite result exactly where the digits of an operand handed on fit. -/
theorem length_fixed_le_predicted_iff (hlib : Documented lib) {call : Call} {d : Decimal}
    (h : result lib call = .ok (.finite d)) :
    d.fixed.length ≤ d.e.natAbs + 70 ↔ DigitsFit lib call := by
  have hroom : (3 : ℤ) ≤ 70 := by omega
  have hiff := d.length_fixed_le_iff hroom
  rw [Int.abs_eq_natAbs] at hiff
  have hsign := d.length_sign_le
  obtain ⟨hround, hkept⟩ | ⟨x, hkept, hdigits, he, hwidth⟩ := rounded_or_handsOn hlib h
  · constructor
    · intro _ y hy
      rw [hkept] at hy
      cases hy
    · intro _
      omega
  · constructor
    · intro hle y hy
      rw [hkept] at hy
      cases hy
      omega
    · intro hfit
      have := hfit x hkept
      omega

variable {σ : Type} {outputGasHook : Option (ℕ → EStateM Thrown σ Unit)}

theorem safeMath_eq_ok {α : Type} {fn : EStateM Thrown σ α} {st st' : σ} {a : α}
    (h : safeMath fn st = .ok a st') : fn st = .ok a st' := by
  simp only [safeMath, tryCatch, tryCatchThe, MonadExceptOf.tryCatch, EStateM.tryCatch] at h
  cases hfn : fn st with
  | ok b st'' =>
    rw [hfn] at h
    exact h
  | error thrown st'' =>
    rw [hfn] at h
    cases thrown <;> cases h

theorem bind_eq_ok {α β : Type} {m : EStateM Thrown σ α} {f : α → EStateM Thrown σ β} {st st' : σ}
    {b : β} (h : (m >>= f) st = .ok b st') : ∃ a st'', m st = .ok a st'' ∧ f a st'' = .ok b st' := by
  rw [bind_apply] at h
  cases hm : m st with
  | ok a st'' =>
    rw [hm] at h
    exact ⟨a, st'', rfl, h⟩
  | error thrown st'' =>
    rw [hm] at h
    cases h

theorem chargeOutput_val {val val' : BigNumber} {st st' : σ}
    (h : chargeOutput outputGasHook val st = .ok val' st') : val' = val := by
  obtain ⟨-, st'', -, h⟩ := bind_eq_ok h
  cases h
  rfl

theorem fmt_eq_ok {val : BigNumber} {st st' : σ} {s : String}
    (h : fmt lib outputGasHook val st = .ok s st') :
    chargeOutput outputGasHook val st = .ok val st' ∧ s = lib.format val := by
  obtain ⟨val', st'', hcharge, hpure⟩ := bind_eq_ok h
  obtain rfl := chargeOutput_val hcharge
  cases hpure
  exact ⟨hcharge, rfl⟩

theorem fmtReal_eq_ok {val : BigNumber} {st st' : σ} {s : String}
    (h : fmtReal lib outputGasHook val st = .ok s st') :
    chargeOutput outputGasHook val st = .ok val st' ∧ s = lib.format val := by
  rw [fmtReal] at h
  split at h
  · cases h
  · obtain ⟨val', st'', hcharge, hchecked⟩ := bind_eq_ok h
    obtain rfl := chargeOutput_val hcharge
    simp only at hchecked
    split at hchecked
    · cases hchecked
    · cases hchecked
      exact ⟨hcharge, rfl⟩

/-- A call that returns has charged for the value it formats. -/
theorem Call.run_eq_ok {call : Call} {st st' : σ} {s : String}
    (h : call.run lib outputGasHook st = .ok s st') : ∃ val, result lib call = .ok val ∧
      chargeOutput outputGasHook val st = .ok val st' ∧ s = lib.format val := by
  obtain ⟨val, st'', hval, hformat⟩ := bind_eq_ok (safeMath_eq_ok h)
  obtain ⟨hresult, rfl⟩ : result lib call = .ok val ∧ st'' = st := by
    cases hresult : result lib call with
    | ok val' =>
      rw [hresult] at hval
      cases hval
      exact ⟨rfl, rfl⟩
    | error message =>
      rw [hresult] at hval
      cases hval
  refine ⟨val, hresult, ?_⟩
  split at hformat
  · exact fmtReal_eq_ok hformat
  · exact fmt_eq_ok hformat

theorem codeUnits_magnitude {digits : List (Fin 10)} {e : ℤ} {c : Char}
    (h : c ∈ Decimal.magnitude digits e) : Js.codeUnits c = 1 := by
  have hdigit : ∀ {digits : List (Fin 10)}, c ∈ Decimal.digitChars digits → Js.codeUnits c = 1 := by
    intro digits hc
    obtain ⟨d, -, rfl⟩ := List.mem_map.mp hc
    have hall : ∀ d : Fin 10, Js.codeUnits d.val.digitChar = 1 := by decide
    exact hall d
  have hzero : ∀ {n : ℕ}, c ∈ List.replicate n '0' → Js.codeUnits c = 1 := by
    intro n hc
    obtain rfl := List.eq_of_mem_replicate hc
    decide
  unfold Decimal.magnitude at h
  split at h
  · obtain rfl | h := List.mem_cons.mp h
    · decide
    · obtain rfl | h := List.mem_cons.mp h
      · decide
      · exact (List.mem_append.mp h).elim hzero hdigit
  · split at h
    · exact (List.mem_append.mp h).elim hdigit hzero
    · obtain h | h := List.mem_append.mp h
      · exact hdigit h
      · obtain rfl | h := List.mem_cons.mp h
        · decide
        · exact hdigit h

theorem textLength_fixed (d : Decimal) : Harness.textLength d.fixed = d.fixed.length := by
  have hunits : ∀ c ∈ d.fixed.toList, Js.codeUnits c = 1 := by
    intro c hc
    rw [Decimal.fixed, String.toList_ofList] at hc
    obtain hc | hc := List.mem_append.mp hc
    · unfold Decimal.sign at hc
      split at hc
      · obtain rfl := List.mem_singleton.mp hc
        decide
      · cases hc
    · exact codeUnits_magnitude hc
  rw [Harness.textLength, List.map_congr_left hunits, List.map_const', List.sum_replicate_nat,
    String.length_toList, Nat.mul_one]

/-- A call that returns the text of a finite result has charged for the predicted length, and the
text is no longer than predicted exactly where the digits of an operand handed on fit. -/
theorem output_predicted_iff (hlib : Documented lib) {call : Call} {st st' : σ} {s : String}
    {d : Decimal} (hrun : call.run lib outputGasHook st = .ok s st')
    (hresult : result lib call = .ok (.finite d)) :
    chargeOutput outputGasHook (.finite d) st = .ok (.finite d) st' ∧
    ((∀ length ∈ predictedFixedLength (.finite d), Harness.textLength s ≤ length) ↔
      DigitsFit lib call) := by
  obtain ⟨val, hval, hcharge, rfl⟩ := Call.run_eq_ok hrun
  obtain rfl : val = .finite d := Except.ok.inj (hval.symm.trans hresult)
  refine ⟨hcharge, ?_⟩
  rw [hlib.format, textLength_fixed, ← length_fixed_le_predicted_iff hlib hresult]
  simp [predictedFixedLength]

/-- A library that reads and writes plain decimals and takes absolute values. -/
def plainLibrary : MathLibrary where
  bignumber val := match plainNumber val.toList with
    | some n => .ok n
    | none => .error ("[DecimalError] Invalid argument: " ++ val)
  add _ _ := .ok .nan
  subtract _ _ := .ok .nan
  multiply _ _ := .ok .nan
  divide _ _ := .ok .nan
  mod _ _ := .ok .nan
  compare _ _ := none
  abs | .finite d => .finite d.abs | .infinity _ => .infinity false | n => n
  sqrt _ := .ok .nan
  pow _ _ := .ok .nan
  log _ := .ok .nan
  log2 _ := .ok .nan
  log10 _ := .ok .nan
  format | .finite d => d.fixed | .infinity false => "Infinity" | .infinity true => "-Infinity" | _ => "NaN"

theorem documented_plainLibrary : Documented plainLibrary := by
  have hnan : Rounds (.ok .nan) := by rintro d ⟨⟩
  refine ⟨fun d => rfl, fun _ _ => hnan, fun _ _ => hnan, fun _ _ => hnan, fun _ _ => hnan,
    fun _ _ _ => hnan, ?_, ?_, fun _ => hnan, fun _ _ => hnan, fun _ => hnan, fun _ => hnan,
    fun _ => hnan⟩
  · rintro a b d - ⟨⟩
  · rintro (d | negative | _ | _) d'
    · constructor
      · rintro ⟨⟩
        exact ⟨d, rfl, rfl⟩
      · rintro ⟨x, ⟨⟩, rfl⟩
        rfl
    all_goals
      constructor
      · rintro ⟨⟩
      · rintro ⟨x, ⟨⟩, -⟩

theorem output_predicted_iff_short :
    ∃ d, result plainLibrary (.abs "-20.5") = .ok (.finite d) ∧
      ∀ length ∈ predictedFixedLength (.finite d), Harness.textLength "20.5" ≤ length := by
  obtain ⟨d, hresult⟩ : ∃ d, result plainLibrary (.abs "-20.5") = .ok (.finite d) := ⟨_, rfl⟩
  have hrun : (Call.abs "-20.5").run plainLibrary (none : Option (ℕ → EStateM Thrown Unit Unit)) () =
      .ok "20.5" () := by rfl
  refine ⟨d, hresult, (output_predicted_iff documented_plainLibrary hrun hresult).2.mpr ?_⟩
  have hkept : keptOperand plainLibrary (.abs "-20.5") =
      .ok (some (.finite ⟨true, [2, 0, 5], 1, by decide⟩)) := rfl
  intro x hx
  rw [hkept] at hx
  cases hx
  decide

/-- The absolute value of 254 digits behind the point keeps them all, beyond the 71 characters
predicted. -/
theorem abs_outgrows_prediction :
    let input := String.ofList ('0' :: '.' :: List.replicate 254 '1')
    ∃ d, result plainLibrary (.abs input) = .ok (.finite d) ∧
      Harness.textLength input ≤ MAX_MATH_INPUT_LENGTH ∧
      predictedFixedLength (.finite d) = some 71 ∧ Harness.textLength d.fixed = 256 ∧
      (Call.abs input).run plainLibrary (none : Option (ℕ → EStateM Thrown Unit Unit)) () =
        .ok d.fixed () := by
  intro input
  have hresult : result plainLibrary (.abs input) =
      .ok (.finite ⟨false, List.replicate 254 1, -1, by decide +kernel⟩) := by decide +kernel
  refine ⟨_, hresult, by decide +kernel, by decide, by decide +kernel, ?_⟩
  have hreal : (Call.abs input).isReal = false := rfl
  rw [Call.run, hresult, hreal]
  rfl

end XChainVM.Math
