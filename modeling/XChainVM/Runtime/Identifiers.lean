import XChainVM.Js.Text

/-! # Identifier preimages

The joined texts whose hashes identify an attestation request and a cross-chain call. Every
field is normalised first; the discriminator of a root that is one subcommand of a batch is
kept as the text it is.
-/

namespace XChainVM.Runtime

open Js

/-- `/^[0-9]+\.[0-9]+$/`. -/
def isComposite (text : String) : Bool :=
  match text.toList.span Char.isDigit with
  | (whole, '.' :: position) => !whole.isEmpty && isDigits position
  | _ => false

/-- The text of `normalizeRootDiscriminator(value)`. -/
def normalizeRootDiscriminator (lang : Language) (value : Value) : Option String :=
  if value.isNullish then some ""
  else do
    let text ← lang.text value
    if isComposite text then some text
    else do
      let n ← lang.toNumber value
      some (lang.numberText n)

/-- The text of `value || ''`. -/
def textOrEmpty (lang : Language) (value : Value) : Option String :=
  lang.text (value.orElse (.string ""))

/-- The text of `value != null ? Number(value) : ''`. -/
def indexText (lang : Language) (value : Value) : Option String :=
  if value.isNullish then some "" else (lang.toNumber value).map lang.numberText

/-- `typeof value === 'string' ? value : ''`. -/
def pathText : Value → String
  | .string s => s
  | _ => ""

structure RequestFields where
  txHash : Value
  rootActionIndex : Value
  callPath : Value
  contractIndex : Value
  emissionIndex : ℕ

/-- The fields of a request after normalisation. -/
structure RequestTexts where
  txHash : String
  rootActionIndex : String
  callPath : String
  contractIndex : String
  emissionIndex : ℕ
  deriving DecidableEq

namespace RequestTexts

variable (t : RequestTexts)

def fields : List String :=
  [t.txHash, t.rootActionIndex, t.callPath, t.contractIndex, toString t.emissionIndex]

def preimage : String :=
  t.txHash ++ ":" ++ t.rootActionIndex ++ ":" ++ t.callPath ++ ":" ++ t.contractIndex ++ ":" ++
    toString t.emissionIndex

def Admitted : Prop := ∀ field ∈ [t.txHash, t.rootActionIndex, t.callPath, t.contractIndex],
  ':' ∉ field.toList

end RequestTexts

def RequestFields.normalize (lang : Language) (f : RequestFields) : Option RequestTexts := do
  let txHash ← textOrEmpty lang f.txHash
  let rootActionIndex ← normalizeRootDiscriminator lang f.rootActionIndex
  let contractIndex ← indexText lang f.contractIndex
  some ⟨txHash, rootActionIndex, pathText f.callPath, contractIndex, f.emissionIndex⟩

def buildRequestIdPreimage (lang : Language) (f : RequestFields) : Option String :=
  (f.normalize lang).map RequestTexts.preimage

structure CallFields where
  network : Value
  sourceChain : String
  txHash : Value
  rootActionIndex : Value
  contractIndex : Value
  callPath : Value
  emissionIndex : ℕ
  targetChain : String

/-- The fields of a call after normalisation. -/
structure CallTexts where
  network : String
  sourceChain : String
  txHash : String
  rootActionIndex : String
  contractIndex : String
  callPath : String
  emissionIndex : ℕ
  targetChain : String
  deriving DecidableEq

namespace CallTexts

variable (t : CallTexts)

def fields : List String :=
  [t.network, t.sourceChain, t.txHash, t.rootActionIndex, t.contractIndex, t.callPath,
    toString t.emissionIndex, t.targetChain]

def preimage : String :=
  t.network ++ ":" ++ t.sourceChain ++ ":" ++ t.txHash ++ ":" ++ t.rootActionIndex ++ ":" ++
    t.contractIndex ++ ":" ++ t.callPath ++ ":" ++ toString t.emissionIndex ++ ":" ++ t.targetChain

def Admitted : Prop :=
  ∀ field ∈ [t.network, t.sourceChain, t.txHash, t.rootActionIndex, t.contractIndex, t.callPath,
    t.targetChain], ':' ∉ field.toList

end CallTexts

def CallFields.normalize (lang : Language) (f : CallFields) : Option CallTexts := do
  let network ← textOrEmpty lang f.network
  let txHash ← textOrEmpty lang f.txHash
  let rootActionIndex ← normalizeRootDiscriminator lang f.rootActionIndex
  let contractIndex ← indexText lang f.contractIndex
  some ⟨network, f.sourceChain, txHash, rootActionIndex, contractIndex, pathText f.callPath,
    f.emissionIndex, f.targetChain⟩

def buildCallIdPreimage (lang : Language) (f : CallFields) : Option String :=
  (f.normalize lang).map CallTexts.preimage

theorem separator_notMem_toString (n : ℕ) : ':' ∉ (toString n).toList := by
  intro h
  exact absurd (isDigit_of_mem_toString h) (by decide)

theorem normalizeRootDiscriminator_composite (lang : Language) {text : String}
    (h : isComposite text = true) : normalizeRootDiscriminator lang (.string text) = some text := by
  simp [normalizeRootDiscriminator, Value.isNullish, Language.text, h]

namespace RequestTexts

theorem toList_preimage (t : RequestTexts) : t.preimage.toList = joined ':' t.fields := by
  simp [preimage, joined, fields, List.intercalate]

theorem Admitted.fields {t : RequestTexts} (h : t.Admitted) : ∀ x ∈ t.fields, ':' ∉ x.toList := by
  intro x hx
  simp only [RequestTexts.fields, List.mem_cons, List.not_mem_nil, or_false] at hx
  obtain rfl | rfl | rfl | rfl | rfl := hx
  iterate 4 exact h _ (by simp)
  exact separator_notMem_toString _

theorem preimage_injective {t u : RequestTexts} (ht : t.Admitted) (hu : u.Admitted)
    (h : t.preimage = u.preimage) : t = u := by
  have hfields : t.fields = u.fields := by
    refine joined_injective (by simp [RequestTexts.fields]) (by simp [RequestTexts.fields])
      ht.fields hu.fields ?_
    rw [← toList_preimage, ← toList_preimage, h]
  cases t
  cases u
  simp only [RequestTexts.fields, List.cons.injEq, and_true] at hfields
  obtain ⟨htx, hroot, hpath, hcontract, hindex⟩ := hfields
  simp [htx, hroot, hpath, hcontract, toString_injective hindex]

end RequestTexts

namespace CallTexts

theorem toList_preimage (t : CallTexts) : t.preimage.toList = joined ':' t.fields := by
  simp [preimage, joined, fields, List.intercalate]

theorem Admitted.fields {t : CallTexts} (h : t.Admitted) : ∀ x ∈ t.fields, ':' ∉ x.toList := by
  intro x hx
  simp only [CallTexts.fields, List.mem_cons, List.not_mem_nil, or_false] at hx
  obtain rfl | rfl | rfl | rfl | rfl | rfl | rfl | rfl := hx
  iterate 6 exact h _ (by simp)
  · exact separator_notMem_toString _
  · exact h _ (by simp)

theorem preimage_injective {t u : CallTexts} (ht : t.Admitted) (hu : u.Admitted)
    (h : t.preimage = u.preimage) : t = u := by
  have hfields : t.fields = u.fields := by
    refine joined_injective (by simp [CallTexts.fields]) (by simp [CallTexts.fields])
      ht.fields hu.fields ?_
    rw [← toList_preimage, ← toList_preimage, h]
  cases t
  cases u
  simp only [CallTexts.fields, List.cons.injEq, and_true] at hfields
  obtain ⟨hnetwork, hsource, htx, hroot, hcontract, hpath, hindex, htarget⟩ := hfields
  simp [hnetwork, hsource, htx, hroot, hcontract, hpath, toString_injective hindex, htarget]

end CallTexts

/-- A request joins five fields and a call eight. -/
theorem request_preimage_ne_call {r : RequestTexts} {c : CallTexts} (hr : r.Admitted)
    (hc : c.Admitted) : r.preimage ≠ c.preimage := by
  intro h
  have hfields : r.fields = c.fields := by
    refine joined_injective (by simp [RequestTexts.fields]) (by simp [CallTexts.fields])
      hr.fields hc.fields ?_
    rw [← RequestTexts.toList_preimage, ← CallTexts.toList_preimage, h]
  exact absurd (congrArg List.length hfields) (by simp [RequestTexts.fields, CallTexts.fields])

end XChainVM.Runtime
