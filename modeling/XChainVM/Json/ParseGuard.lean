import XChainVM.Harness.Values

/-! # The guard in front of JSON.parse

The text is scanned once for the nesting of its brackets, string literals left out, before the
native parser builds the value.
-/

namespace XChainVM.Json

abbrev Text := List ℕ

/-- Where the scan stands: outside string literals, in one, or behind a backslash in one. -/
inductive Mode where
  | outside
  | literal
  | escaped
  deriving DecidableEq

/-- The scan from a depth on: none where it faults, else the depth at the end. -/
def scan (limit : ℕ) : ℕ → Mode → Text → Option ℕ
  | depth, _, [] => some depth
  | depth, .outside, ch :: rest =>
    if ch = 34 then scan limit depth .literal rest
    else if ch = 91 ∨ ch = 123 then
      if depth + 1 > limit then none else scan limit (depth + 1) .outside rest
    else if ch = 93 ∨ ch = 125 then scan limit (depth - 1) .outside rest
    else scan limit depth .outside rest
  | depth, .literal, ch :: rest =>
    if ch = 92 then scan limit depth .escaped rest
    else if ch = 34 then scan limit depth .outside rest
    else scan limit depth .literal rest
  | depth, .escaped, _ :: rest => scan limit depth .literal rest

/-- `__guardParseDepth` returns. The guard is on, which takes a positive limit. -/
def guardParseDepth (limit : ℕ) (stackPoison : Bool) (text : Text) : Bool :=
  !stackPoison && (scan limit 0 .outside text).isSome

def Plain (t : Text) : Prop := ∀ ch ∈ t, ch ∉ [34, 91, 93, 123, 125]

/-- The first argument of `JSON.parse`: a text, an object or function with what `String` makes of it,
or another primitive, whose text has no bracket. -/
inductive Argument where
  | text (t : Text)
  | object (coerced : Option Text)
  | primitive (t : {t : Text // Plain t})
  | symbol

inductive Outcome where
  | outOfStack
  | threw
  /-- The native parser is given the text. -/
  | native (t : Text)

/-- `JSON.parse` with the guard on. Gas for the text is charged first. -/
def parse (limit : ℕ) (stackPoison : Bool) (allocGas : ℕ → Bool) : Argument → Outcome
  | .text t =>
    if !allocGas t.length then .threw
    else if guardParseDepth limit stackPoison t then .native t
    else .outOfStack
  | .object none => .threw
  | .object (some s) =>
    if !allocGas s.length then .threw
    else if guardParseDepth limit stackPoison s then .native s
    else .outOfStack
  | .primitive t => .native t
  | .symbol => .threw

variable {limit : ℕ}

theorem scan_plain {depth : ℕ} {t : Text} (h : Plain t) (rest : Text) :
    scan limit depth .outside (t ++ rest) = scan limit depth .outside rest := by
  induction t with
  | nil => rfl
  | cons ch t ih =>
    have hch := h ch List.mem_cons_self
    simp only [List.mem_cons, List.not_mem_nil, or_false, not_or] at hch
    obtain ⟨h34, h91, h93, h123, h125⟩ := hch
    rw [List.cons_append, scan, if_neg h34, if_neg (not_or.mpr ⟨h91, h123⟩), if_neg (not_or.mpr ⟨h93, h125⟩)]
    exact ih fun x hx => h x (List.mem_cons_of_mem _ hx)

/-- Every text that reaches the native parser is within the limit. -/
theorem scan_of_native {stackPoison : Bool} {allocGas : ℕ → Bool} {a : Argument} {t : Text}
    (h : parse limit stackPoison allocGas a = .native t) : (scan limit 0 .outside t).isSome = true := by
  have hguarded : ∀ s, (if !allocGas s.length then Outcome.threw
      else if guardParseDepth limit stackPoison s then .native s else .outOfStack) = .native t →
        (scan limit 0 .outside t).isSome = true := by
    intro s hs
    split at hs
    · cases hs
    · split at hs
      · next hguard =>
        cases hs
        exact (Bool.and_eq_true_iff.mp hguard).2
      · cases hs
  match a, h with
  | .text s, h => exact hguarded s h
  | .object none, h => cases h
  | .object (some s), h => exact hguarded s h
  | .primitive s, h =>
    cases h
    have hplain : scan limit 0 .outside (s.val ++ []) = some 0 := scan_plain s.property []
    rw [List.append_nil] at hplain
    rw [hplain]
    rfl
  | .symbol, h => cases h

end XChainVM.Json
