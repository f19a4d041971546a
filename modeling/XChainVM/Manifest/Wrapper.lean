import XChainVM.Manifest.Serializer

/-! # Reading the manifest of a contract

The wrapper runs the module, reads its `meta` and serializes that, each within a `try`, and then reports
the other exports together with what it found. The host cuts a report that is too long, and a report
that is cut is no JSON.
-/

namespace XChainVM.Manifest

open Harness Js Machine Stringify
open Json (Text)

def META_JSON_MAX_CHARS : ℕ := 4096

def RETURN_VALUE_MAX_CHARS : ℕ := 65536

def units (s : String) : Text := s.toList.map Char.toNat

/-- The contract's code while `meta` is read: its getter, with its value, and the hooks that are run when the value is
serialized. -/
structure Meta where
  getter : Reply
  hooks : List Reply

structure MetaReport where
  metaType : String
  metaJson : Option Text
  metaError : Bool
  metaOversize : Bool
  deriving DecidableEq

/-- What the wrapper reads of the other exports. -/
structure Fields where
  permissions : Option Val
  permissionsType : String
  maxTakeBps : Option Number
  maxTakeBpsType : String
  hasInitialize : Bool
  deriving DecidableEq

structure Module where
  reads : Code Fields
  /-- The permissions within the report, whose elements may be serialized by code of the contract. -/
  permissionsText : Option Val → Code Text

/-- `typeof v`. -/
def typeOf (h : Heap) : Val → String
  | .prim .undefined => "undefined"
  | .prim .null => "object"
  | .prim (.bool _) => "boolean"
  | .prim (.number _) => "number"
  | .prim (.bigint _) => "bigint"
  | .prim (.string _) => "string"
  | .prim .symbol => "symbol"
  | .object id => if (h.object id).callable then "function" else "object"

def metaType (h : Heap) : Val → String
  | .prim .null => "null"
  | .object id => if (h.object id).isArray then "array" else typeOf h (.object id)
  | v => typeOf h v

/-- What `JSON.stringify` made of an object. -/
def metaOfText : Option Text → MetaReport
  | none => ⟨"object", none, true, false⟩
  | some text =>
    if META_JSON_MAX_CHARS < text.length then ⟨"object", none, false, true⟩
    else if text.head? = some 123 then ⟨"object", some text, false, false⟩
    else ⟨"object", none, true, false⟩

def hexDigit (n : ℕ) : ℕ := if n < 10 then 48 + n else 87 + n

def quoteUnit (ch : ℕ) : Text :=
  if ch = 34 ∨ ch = 92 then [92, ch]
  else if ch = 8 then units "\\b"
  else if ch = 9 then units "\\t"
  else if ch = 10 then units "\\n"
  else if ch = 12 then units "\\f"
  else if ch = 13 then units "\\r"
  else if ch < 32 then units "\\u00" ++ [hexDigit (ch / 16), hexDigit (ch % 16)]
  else [ch]

/-- A text as a JSON string; `JSON.stringify` answers with no text that has a lone surrogate. -/
def quote (text : Text) : Text := 34 :: text.flatMap quoteUnit ++ [34]

def boolText (b : Bool) : Text := units (if b then "true" else "false")

def numberText (lang : Language) : Option Number → Text
  | some (.finite q) => units (lang.numberText (.finite q))
  | _ => units "null"

def field (name : String) (value : Text) : Text := quote (units name) ++ 58 :: value

def reportText (lang : Language) (f : Fields) (permissions : Text) (m : MetaReport) : Text :=
  123 :: field "permissions" permissions ++ 44 :: field "permissionsType" (quote (units f.permissionsType)) ++
    44 :: field "maxTakeBps" (numberText lang f.maxTakeBps) ++
    44 :: field "maxTakeBpsType" (quote (units f.maxTakeBpsType)) ++
    44 :: field "hasInitialize" (boolText f.hasInitialize) ++ 44 :: field "metaType" (quote (units m.metaType)) ++
    44 :: field "metaJson" ((m.metaJson.map quote).getD (units "null")) ++
    44 :: field "metaError" (boolText m.metaError) ++ 44 :: field "metaOversize" (boolText m.metaOversize) ++ [125]

/-- The read of `meta`; a module may export none. -/
def readMeta (e : Engine) : Option Meta → Isolate → Option (Answer MetaReport × Isolate)
  | none, i => some (.ok ⟨"undefined", none, false, false⟩, i)
  | some m, i =>
    if i.gas < m.getter.spent then some (.outOfGas, i)
    else
      let i := i.after m.getter
      if m.getter.threw then some (.ok ⟨"undefined", none, true, false⟩, i)
      else
        let type := metaType i.heap m.getter.answer
        if type = "object" then
          -- only running out of gas cannot be caught
          (e.stringify m.getter.answer m.hooks i).map fun
            | (.ok text, i) => (.ok (metaOfText text), i)
            | (.threw, i) => (.ok ⟨"object", none, true, false⟩, i)
            | (.outOfGas, i) => (.outOfGas, i)
        else some (.ok ⟨type, none, false, false⟩, i)

def parseReport (lang : Language) (f : Fields) (permissions : Text) (m : MetaReport) : Option (Fields × Text × MetaReport) :=
  if (reportText lang f permissions m).length ≤ RETURN_VALUE_MAX_CHARS then some (f, permissions, m) else none

/-- `JSON.stringify` of the report. -/
def writeReport (e : Engine) (m : Module) (r : MetaReport) (f : Fields) (i : Isolate) :
    Answer (Option (Fields × Text × MetaReport)) × Isolate :=
  if e.guarding ≠ .off ∧ i.poison = true then (.threw, i)
  else
    Answer.andThen ((m.permissionsText f.permissions).run i) fun permissions i =>
      Answer.andThen (i.allocGas (reportText e.lang f permissions r).length) fun _ i => (.ok (parseReport e.lang f permissions r), i)

def report (e : Engine) (m : Module) (r : MetaReport) (i : Isolate) :
    Answer (Option (Fields × Text × MetaReport)) × Isolate :=
  Answer.andThen (m.reads.run i) (writeReport e m r)

/-- The read of the manifest, from the isolate in which the module has been run. -/
def readManifest (e : Engine) (m : Module) (exported : Option Meta) (i : Isolate) :
    Option (Answer (Option (Fields × Text × MetaReport)) × Isolate) :=
  (readMeta e exported i).map fun a => Answer.andThen a (report e m)

end XChainVM.Manifest
