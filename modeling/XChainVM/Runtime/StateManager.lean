import XChainVM.Js.Language
import XChainVM.Js.PlainObject

/-! # The state manager

One execution reads a snapshot of the contract's state and collects its writes
in a map of dirty keys, in which a deleted key is marked. Keys are in their
canonical string form.
-/

namespace XChainVM.Runtime

open Js

structure StateLimits where
  maxStateKeySize : ℕ
  maxStateValueSize : ℤ
  maxStateKeys : ℤ

inductive StateError where
  | keyType
  | keySize
  | keyNul
  | emptyValue
  | notFinite
  | notSerializable
  | valueSize
  | keyCount
  deriving DecidableEq, Repr

/-- `dirty` holds `none` at a deleted key. -/
structure StateManager where
  state : List (String × Value)
  dirty : List (String × Option Value)
  keyCount : ℤ
  rejectNulKeys : Bool

namespace StateManager

def new (initialState : List (String × Value)) (rejectNulKeys : Bool) : StateManager :=
  let state := initialState.filter fun field =>
    match field.2 with
    | .null | .undefined => false
    | _ => true
  ⟨state, [], state.length, rejectNulKeys⟩

def normKey (lang : Language) : Value → Option String
  | .string key => some key
  | .number n => some (lang.numberText n)
  | .bool b => some (if b then "true" else "false")
  | _ => none

def has (s : StateManager) (key : String) : Bool :=
  match s.dirty.lookup key with
  | some entry => entry.isSome
  | none => (s.state.lookup key).isSome

def checkKey (s : StateManager) (limits : StateLimits) (key : String) : Option StateError :=
  let maxKeySize := if limits.maxStateKeySize = 0 then 1024 else limits.maxStateKeySize
  if maxKeySize < key.utf8ByteSize then some .keySize
  else if s.rejectNulKeys && key.toList.contains '\x00' then some .keyNul
  else none

def checkValue (lang : Language) (limits : StateLimits) (value : Value) : Option StateError :=
  match value with
  | .null | .undefined => some .emptyValue
  | .number .nan | .number (.infinity _) => some .notFinite
  | value =>
    match lang.jsonText value with
    | none => some .notSerializable
    | some text => if limits.maxStateValueSize < text.utf8ByteSize then some .valueSize else none

def set (s : StateManager) (lang : Language) (limits : StateLimits) (key value : Value) :
    Except StateError StateManager :=
  match normKey lang key with
  | none => .error .keyType
  | some key =>
    match s.checkKey limits key with
    | some e => .error e
    | none =>
      match checkValue lang limits value with
      | some e => .error e
      | none =>
        if s.has key then .ok { s with dirty := setKey key (some value) s.dirty }
        else if limits.maxStateKeys ≤ s.keyCount then .error .keyCount
        else .ok { s with dirty := setKey key (some value) s.dirty, keyCount := s.keyCount + 1 }

def delete (s : StateManager) (lang : Language) (limits : StateLimits) (key : Value) :
    Except StateError StateManager :=
  match normKey lang key with
  | none => .error .keyType
  | some key =>
    match s.checkKey limits key with
    | some e => .error e
    | none =>
      if s.has key then .ok { s with dirty := setKey key none s.dirty, keyCount := s.keyCount - 1 }
      else .ok s

/-- The writes and the deletes of the run, each in the order of its first use. -/
def getChanges (s : StateManager) : List (String × Value) × List String :=
  (s.dirty.filterMap fun field => field.2.map (field.1, ·),
    s.dirty.filterMap fun field => if field.2.isNone then some field.1 else none)

end StateManager

end XChainVM.Runtime
