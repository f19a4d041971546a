import Mathlib.Data.List.Sort
import Mathlib.Data.Prod.Lex
import XChainVM.Js.PlainObject
import XChainVM.Js.Text
import XChainVM.Js.Utf16
import XChainVM.Math.OutputMeter

/-! # Seeded stakes

A simulator is told one stake at a time and keeps three views of them: the amount of each
staker, the roster of a token in order, and its total. A contract reads the views through the
accessors of its snapshot.
-/

namespace XChainVM.Math

def Decimal.value (d : Decimal) : ℚ :=
  let magnitude : ℕ := d.digits.foldl (fun n digit => 10 * n + digit.val) 0
  (if d.negative then -(magnitude : ℚ) else magnitude) * (10 : ℚ) ^ (d.e - (d.digits.length - 1))

namespace BigNumber

def isNumber : BigNumber → Bool
  | finite _ | infinity _ => true
  | nan | complex => false

def rank : BigNumber → WithBot (WithTop ℚ)
  | finite d => (d.value : WithTop ℚ)
  | infinity false => (⊤ : WithTop ℚ)
  | infinity true | nan | complex => ⊥

/-- `a.gt(b)` -/
def gt (a b : BigNumber) : Bool := a.isNumber && b.isNumber && decide (b.rank < a.rank)

theorem gt_iff {a b : BigNumber} (ha : a.isNumber) (hb : b.isNumber) : a.gt b ↔ b.rank < a.rank := by
  rw [gt, ha, hb, Bool.true_and, Bool.true_and, decide_eq_true_iff]

end BigNumber

end XChainVM.Math

namespace XChainVM.Simulator

open Js Math

def MAX_STAKERS_PER_TICK : ℕ := 1000

/-- What the simulator uses of the decimal library and of the language's strings. -/
structure StakeLibrary where
  /-- `bignumber(text)`, or nothing where it throws. -/
  bignumber : String → Option BigNumber
  plus : BigNumber → BigNumber → BigNumber
  /-- `big.toString()` -/
  text : BigNumber → String
  zero : BigNumber
  toLowerCase : String → String
  /-- `JSON.stringify(text)` -/
  quoted : String → String

/-- One contract's view of the stakes. The keys of the first hold a bar, so none is an inherited name. -/
structure Bucket where
  stakeByPubkeyTick : List (String × String) := []
  totalByTick : PlainObject := .empty
  stakersByTick : PlainObject := .empty

structure Stakes where
  contractStakeData : Bucket := {}
  contractStakeDataByIndex : List (ℕ × Bucket) := []

structure Stake where
  pubkey : String
  amount : String
  big : BigNumber
  deriving DecidableEq

def stakeOrder (a b : Stake) : ℤ :=
  if b.big.gt a.big then 1
  else if a.big.gt b.big then -1
  else if before a.pubkey b.pubkey then -1
  else if before b.pubkey a.pubkey then 1
  else 0

def pubkeyOf (key : String) : String := String.ofList (key.toList.takeWhile (· ≠ '|'))

def tickOf (key : String) : String := String.ofList ((key.toList.dropWhile (· ≠ '|')).drop 1)

section Seeding

variable (lib : StakeLibrary)

def stakeAmount (amount : String) : Except String BigNumber :=
  match lib.bignumber amount with
  | some big => .ok big
  | none => .error ("setStake: amount must be a decimal number, got " ++ lib.quoted amount)

def stakesOf (tick : String) : List (String × String) → Except String (List Stake)
  | [] => .ok []
  | (key, amt) :: entries =>
    if tickOf key = tick then do
      let big ← stakeAmount lib amt
      let rest ← stakesOf tick entries
      pure (if big.isZero then rest else ⟨pubkeyOf key, amt, big⟩ :: rest)
    else stakesOf tick entries

def sortStakes (stakes : List Stake) : List Stake := stakes.mergeSort fun a b => stakeOrder a b ≤ 0

def stakerValue (s : Stake) : Value := .object [("pubkey", .string s.pubkey), ("amount", .string s.amount)]

def totalOf (roster : List Stake) : String := lib.text (roster.foldl (fun sum s => lib.plus sum s.big) lib.zero)

/-- The part of `setStake` behind the check of its amount. -/
def Bucket.seed (pk tk amount : String) (bucket : Bucket) : Except String Unit × Bucket :=
  let bucket := { bucket with stakeByPubkeyTick := setKey (pk ++ "|" ++ tk) amount bucket.stakeByPubkeyTick }
  match stakesOf lib tk bucket.stakeByPubkeyTick with
  | .error e => (.error e, bucket)
  | .ok stakes =>
    let roster := sortStakes stakes
    (.ok (), { bucket with
      stakersByTick := bucket.stakersByTick.set tk (.array ((roster.take MAX_STAKERS_PER_TICK).map stakerValue))
      totalByTick := bucket.totalByTick.set tk (.string (totalOf lib roster)) })

/-- The bucket that a seed goes to. A contract's own bucket is made at its first seed. -/
def Stakes.bucket (contractIndex : Option ℕ) (stakes : Stakes) : Bucket :=
  match contractIndex with
  | none => stakes.contractStakeData
  | some index => (stakes.contractStakeDataByIndex.lookup index).getD {}

def Stakes.withBucket (contractIndex : Option ℕ) (bucket : Bucket) (stakes : Stakes) : Stakes :=
  match contractIndex with
  | none => { stakes with contractStakeData := bucket }
  | some index => { stakes with contractStakeDataByIndex := (index, bucket) :: stakes.contractStakeDataByIndex }

/-- The arguments of `setStake`, as texts. -/
structure Seed where
  pubkey : String
  tick : String
  amount : String
  contractIndex : Option ℕ

def setStake (seed : Seed) (stakes : Stakes) : Except String Unit × Stakes :=
  let bucket := stakes.bucket seed.contractIndex
  match stakeAmount lib seed.amount with
  | .error e => (.error e, stakes.withBucket seed.contractIndex bucket)
  | .ok _ =>
    let (answer, bucket) := bucket.seed lib (lib.toLowerCase seed.pubkey) seed.tick seed.amount
    (answer, stakes.withBucket seed.contractIndex bucket)

/-- `contractStakeDataByIndex.get(index) || contractStakeData` -/
def Stakes.snapshot (index : ℕ) (stakes : Stakes) : Bucket :=
  (stakes.contractStakeDataByIndex.lookup index).getD stakes.contractStakeData

end Seeding

def textOr (other : String) (text : String) : String := if text = "" then other else text

def getStake (lib : StakeLibrary) (snap : Bucket) (pubkey token : String) : String :=
  textOr "0" ((snap.stakeByPubkeyTick.lookup (lib.toLowerCase pubkey ++ "|" ++ token)).getD "")

def getTotalStaked (snap : Bucket) (token : String) : Value :=
  match snap.totalByTick.own.lookup token with
  | some total => total.orElse (.string "0")
  | none => .string "0"

def getStakers (snap : Bucket) (token : String) : List Value :=
  match snap.stakersByTick.own.lookup token with
  | some (.array stakers) => stakers
  | _ => []

end XChainVM.Simulator
