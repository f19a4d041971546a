import XChainVM.Runtime.IdentifierCalls

/-! # The emitters

Every method of the gateway that queues an action. The actions of this chain charge first, check
their parameters next and queue last; a cross-contract call, a cross-chain call and an attestation
request each have an order of their own.
-/

namespace XChainVM.Runtime

open Js EmitApi

/-- What the host knows while it answers any emitter. -/
structure GatewayContext extends EmitContext where
  slashTokenDelimGuardOn : Bool
  slashAmountPrecisionOn : Bool

def validateTypes (params : Value) : List String → Except EmitError Unit
  | [] => .ok ()
  | field :: rest =>
    let found := params.get field
    if found.isNullish || found.isString then validateTypes params rest
    else .error (.fieldType field found)

/-- `if (typeof params !== 'object' || params === null) params = {};` -/
def objectOrEmpty (params : Value) : Value := if params.isObject then params else .object []

def chargeEmission (ctx : EmitContext) : EmitApi Unit := charge ctx ctx.gasSchedule.emission

/-- The order of every emitter that requires fields: charge, check, queue. -/
def emitChecked (action : String) (required texts : List String) (ctx : EmitContext) (params : Value) :
    EmitApi Unit := do
  chargeEmission ctx
  check (shared (validateRequired params required))
  check (validateTypes params texts)
  add action params

def emitUnchecked (action : String) (ctx : EmitContext) (params : Value) : EmitApi Unit := do
  chargeEmission ctx
  add action (objectOrEmpty params)

namespace Emit

def send := emitChecked "SEND" ["destination", "tick", "quantity"] ["destination", "tick", "quantity"]
def destroy := emitChecked "DESTROY" ["tick", "quantity"] ["tick", "quantity"]
def issue := emitChecked "ISSUE" ["tick"] ["tick"]
def mint := emitChecked "MINT" ["tick", "quantity"] ["tick", "quantity"]
def order := emitChecked "ORDER" ["giveAmount", "getAmount"] ["giveAmount", "getAmount"]
def dispenser := emitUnchecked "DISPENSER"
def dividend :=
  emitChecked "DIVIDEND" ["tick", "dividendTick", "quantity"] ["tick", "dividendTick", "quantity"]
def airdrop := emitChecked "AIRDROP" ["tick", "quantity", "listActionIndex"] ["tick", "quantity"]
def callback := emitChecked "CALLBACK" ["tick"] ["tick"]
def file := emitUnchecked "FILE"
def list := emitUnchecked "LIST"
def coinpay := emitChecked "COINPAY" ["orderMatchActionIndex"] []
def sweep := emitChecked "SWEEP" ["destination"] ["destination"]
def link :=
  emitChecked "LINK" ["coin1", "coin1ActionIndex", "coin2", "coin2ActionIndex"] ["coin1", "coin2"]
def broadcast := emitUnchecked "BROADCAST"
def message := emitChecked "MESSAGE" ["destination"] ["destination"]

def checkVote (lang : Language) (params : Value) : Except EmitError Unit := do
  let version ← converted (lang.toNumber (params.get "version"))
  if version = .finite 1 then
    shared (validateRequired params ["pollRef", "ballot"])
    validateTypes params ["ballot"]
  else if version = .finite 0 then
    shared (validateRequired params ["tick", "endBlock", "options"])
    validateTypes params ["tick", "options"]
  else throw .voteVersion

def vote (ctx : EmitContext) (params : Value) : EmitApi Unit := do
  chargeEmission ctx
  let params := objectOrEmpty params
  check (checkVote ctx.lang params)
  add "VOTE" params

def execute (ctx : EmitContext) (params : Value) : EmitApi Unit :=
  call fun s => s.emitExecute ctx.toCallContext params

end Emit

def SLASH_AMOUNT_LEGACY_DECIMALS : ℕ := 8
def MAX_SLASH_AMOUNT_DECIMALS : ℕ := 18

def isHexDigit (c : Char) : Bool := c.isDigit || ('a' ≤ c && c ≤ 'f') || ('A' ≤ c && c ≤ 'F')

/-- `/^[0-9a-fA-F]{64}$/`. -/
def isPubkey (text : String) : Bool := text.toList.length = 64 && text.toList.all isHexDigit

/-- `/^[0-9]+(\.[0-9]{1,decimals})?$/`. -/
def isAmountForm (decimals : ℕ) (text : String) : Bool :=
  match text.toList.span Char.isDigit with
  | (whole, []) => !whole.isEmpty
  | (whole, '.' :: fraction) => !whole.isEmpty && isDigits fraction && fraction.length ≤ decimals
  | _ => false

def checkForm (form : String → Bool) (e : EmitError) : Value → Except EmitError String
  | .string text => if form text then .ok text else .error e
  | _ => .error e

def validateSlashArgs (ctx : GatewayContext) (pubkey token amount : Value) : Except EmitError Unit := do
  let _ ← checkForm isPubkey .pubkey pubkey
  let token ← checkForm (· ≠ "") .token token
  demand (!(ctx.slashTokenDelimGuardOn && token.toList.contains '|')) .tokenDelimiter
  let decimals := if ctx.slashAmountPrecisionOn then MAX_SLASH_AMOUNT_DECIMALS else SLASH_AMOUNT_LEGACY_DECIMALS
  let _ ← checkForm (isAmountForm decimals) .slashAmount amount
  pure ()

/-- `contract.slash`. -/
def slash (ctx : GatewayContext) (pubkey token amount : Value) : EmitApi Unit := do
  chargeEmission ctx.toEmitContext
  check (validateSlashArgs ctx pubkey token amount)
  add "SLASH" (.object [("contractIndex", ctx.contractIndex), ("pubkey", pubkey), ("token", token),
    ("amount", amount)])

/-- A call of an emitter with the arguments it is given. -/
inductive EmitCall where
  | send (params : Value)
  | destroy (params : Value)
  | issue (params : Value)
  | mint (params : Value)
  | order (params : Value)
  | dispenser (params : Value)
  | dividend (params : Value)
  | airdrop (params : Value)
  | callback (params : Value)
  | file (params : Value)
  | list (params : Value)
  | coinpay (params : Value)
  | sweep (params : Value)
  | link (params : Value)
  | broadcast (params : Value)
  | message (params : Value)
  | vote (params : Value)
  | execute (params : Value)
  | crossExecute (params : Value)
  | request (r : AttestRequest)
  | slash (pubkey token amount : Value)

namespace EmitCall

/-- The answer to a call. What it returns besides the state is left to the results on identifiers. -/
def answer (ctx : GatewayContext) : EmitCall → EmitApi Unit
  | send params => Emit.send ctx.toEmitContext params
  | destroy params => Emit.destroy ctx.toEmitContext params
  | issue params => Emit.issue ctx.toEmitContext params
  | mint params => Emit.mint ctx.toEmitContext params
  | order params => Emit.order ctx.toEmitContext params
  | dispenser params => Emit.dispenser ctx.toEmitContext params
  | dividend params => Emit.dividend ctx.toEmitContext params
  | airdrop params => Emit.airdrop ctx.toEmitContext params
  | callback params => Emit.callback ctx.toEmitContext params
  | file params => Emit.file ctx.toEmitContext params
  | list params => Emit.list ctx.toEmitContext params
  | coinpay params => Emit.coinpay ctx.toEmitContext params
  | sweep params => Emit.sweep ctx.toEmitContext params
  | link params => Emit.link ctx.toEmitContext params
  | broadcast params => Emit.broadcast ctx.toEmitContext params
  | message params => Emit.message ctx.toEmitContext params
  | vote params => Emit.vote ctx.toEmitContext params
  | execute params => Emit.execute ctx.toEmitContext params
  | crossExecute params => discard (Runtime.crossExecute ctx.toEmitContext params)
  | request r => discard (attestationRequest ctx.toEmitContext r)
  | slash pubkey token amount => Runtime.slash ctx pubkey token amount

def action : EmitCall → String
  | send _ => "SEND"
  | destroy _ => "DESTROY"
  | issue _ => "ISSUE"
  | mint _ => "MINT"
  | order _ => "ORDER"
  | dispenser _ => "DISPENSER"
  | dividend _ => "DIVIDEND"
  | airdrop _ => "AIRDROP"
  | callback _ => "CALLBACK"
  | file _ => "FILE"
  | list _ => "LIST"
  | coinpay _ => "COINPAY"
  | sweep _ => "SWEEP"
  | link _ => "LINK"
  | broadcast _ => "BROADCAST"
  | message _ => "MESSAGE"
  | vote _ => "VOTE"
  | execute _ => "EXECUTE"
  | crossExecute _ => "XCALL"
  | request _ => "ATTEST"
  | slash _ _ _ => "SLASH"

/-- The calls that check the cap before they charge, once the gate is on. -/
inductive CapFirst : EmitCall → Prop
  | execute (params : Value) : CapFirst (execute params)
  | crossExecute (params : Value) : CapFirst (crossExecute params)
  | request (r : AttestRequest) : CapFirst (request r)

end EmitCall

end XChainVM.Runtime
