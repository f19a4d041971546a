import XChainVM.Js.Value

/-! # Consensus gates of an execution

A rule that moves a status or a gas total is armed at a height of its coin or at
a block time of its network. A gate that cannot be resolved stays off.
-/

namespace XChainVM.Runtime

open Js

/-- The coin of a `C:<COIN>:<index>` address. -/
def pkg3CoinFromAddress (contractAddress : Value) : Option String :=
  match contractAddress with
  | .string address =>
    match address.splitOn ":" with
    | "C" :: coin :: _ :: _ => if coin = "" then none else some coin
    | _ => none
  | _ => none

/-- An activation table from `<COIN>:<network>` to a height, `none` while unarmed. -/
abbrev HeightTable := List (String × Option ℚ)

def HeightTable.threshold (map : HeightTable) (coin network : String) : Option ℚ :=
  (map.lookup (coin ++ ":" ++ network)).join

def reached (threshold : Option ℚ) (height : Number) : Bool :=
  match threshold, height with
  | some armed, .finite q => armed ≤ q
  | _, _ => false

def resolveRegtestGenesisHeightGate (map : HeightTable) (network : Value) (coin : Option String)
    (blockHeight : Number) : Bool :=
  match network with
  | .string "regtest" => true
  | .string name =>
    if name = "testnet" ∨ name = "mainnet" then
      match coin with
      | some coin => reached (map.threshold coin name) blockHeight
      | none => false
    else false
  | _ => false

def resolvePerCoinHeightGate (table : HeightTable) (network : Value) (coin : Option String)
    (blockHeight : Number) : Bool :=
  match network with
  | .string "testnet" | .string "regtest" => true
  | .string name =>
    match coin with
    | some coin => reached (table.threshold coin name) blockHeight
    | none => false
  | _ => false

def GAS_CEILING_EXHAUSTED_ACTIVATION : HeightTable :=
  [("BTC:mainnet", none), ("LTC:mainnet", none), ("DOGE:mainnet", none),
    ("BTC:testnet", some 156908), ("LTC:testnet", some 4927400), ("DOGE:testnet", some 68005165)]

def HOST_FAULT_HALT_ACTIVATION : HeightTable :=
  [("BTC:mainnet", none), ("LTC:mainnet", none), ("DOGE:mainnet", none),
    ("BTC:testnet", some 157073), ("LTC:testnet", some 4928460), ("DOGE:testnet", some 68009330)]

def LINT_SYNTAX_DEPTH_ACTIVATION : HeightTable :=
  [("BTC:mainnet", none), ("LTC:mainnet", none), ("DOGE:mainnet", none),
    ("BTC:testnet", some 156908), ("LTC:testnet", some 4927400), ("DOGE:testnet", some 68005165)]

def RESOURCE_FAULT_SIGNAL_ACTIVATION : HeightTable :=
  [("BTC:mainnet", none), ("LTC:mainnet", none), ("DOGE:mainnet", none),
    ("BTC:testnet", some 156908), ("LTC:testnet", some 4927400), ("DOGE:testnet", some 68005165)]

def EXEC_LINT_ACTIVATION : HeightTable :=
  [("BTC:mainnet", some 0), ("LTC:mainnet", some 0), ("DOGE:mainnet", some 0)]

def EXEC_LINT_GAS_BYTES_PER_UNIT : ℕ := 256

def isGasCeilingExhaustedActive := resolveRegtestGenesisHeightGate GAS_CEILING_EXHAUSTED_ACTIVATION

def isHostFaultHaltActive := resolveRegtestGenesisHeightGate HOST_FAULT_HALT_ACTIVATION

def isLintSyntaxDepthActive := resolveRegtestGenesisHeightGate LINT_SYNTAX_DEPTH_ACTIVATION

def isResourceFaultSignalActive := resolveRegtestGenesisHeightGate RESOURCE_FAULT_SIGNAL_ACTIVATION

def isExecLintActive := resolvePerCoinHeightGate EXEC_LINT_ACTIVATION

/-- `Number.isFinite(blockTime) && blockTime >= armed`. -/
def atOrAfter (armed : ℚ) (blockTime : Number) : Bool := reached (some armed) blockTime

def BINARY_ALLOC_GATE_BLOCK_TIME : ℚ := 1786060800

def VM_LINT_HARDENING_GATE_BLOCK_TIME : ℚ := 1786060800

def STATE_KEY_NUL_GATE_BLOCK_TIME : ℚ := 1786060800

/-- A gate that is open from genesis off mainnet and from a block time elsewhere. -/
def resolveTestnetGenesisTimeGate (armed : ℚ) (network : Value) (blockTime : Number) : Bool :=
  network.equalsString "testnet" || network.equalsString "regtest" || atOrAfter armed blockTime

def isLintHardeningActive := resolveTestnetGenesisTimeGate VM_LINT_HARDENING_GATE_BLOCK_TIME

def isStateKeyNulRejectActive := resolveTestnetGenesisTimeGate STATE_KEY_NUL_GATE_BLOCK_TIME

/-- A block-time table from the network to the instant a rule arms at; `0` arms it
from genesis, whatever the block time. -/
def resolveBlockTimeGate (map : List (String × Option ℚ)) (network : Value) (blockTime : Number) :
    Bool :=
  match network with
  | .string name =>
    match (map.lookup name).join with
    | some armed => armed = 0 || atOrAfter armed blockTime
    | none => false
  | _ => false

def GAS_CEILING_SUCCESS_ACTIVATION : List (String × Option ℚ) :=
  [("mainnet", none), ("testnet", some 1791804379), ("regtest", some 0)]

def HOST_CALL_BOUNDS_ACTIVATION : List (String × Option ℚ) :=
  [("mainnet", none), ("testnet", some 1792303200), ("regtest", some 0)]

def isGasCeilingSuccessActive := resolveBlockTimeGate GAS_CEILING_SUCCESS_ACTIVATION

def isHostCallBoundsActive := resolveBlockTimeGate HOST_CALL_BOUNDS_ACTIVATION

end XChainVM.Runtime
