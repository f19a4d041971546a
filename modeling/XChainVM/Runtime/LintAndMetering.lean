import XChainVM.Lint.Gate
import XChainVM.Machine.Memo
import XChainVM.Machine.Run

/-! # The caches of metered sources and of lint verdicts

Both are keyed by the digest of the source and one bit for each flag. The lint takes a flag that
is left out for an active rule, while its bit is that of a rule that is off.
-/

namespace XChainVM.Runtime

open Lint Machine

/-- `flag ? '1' : '0'` -/
def bit (b : Bool) : Char := if b then '1' else '0'

structure Caches where
  metered : Table String String := []
  lintVerdict : Table String Verdict := []

section Requests

variable (sha256 : String → String)

/-- `codeHash || sha256(code)` -/
def digest (code : String) : Option String → String
  | some codeHash => if codeHash = "" then sha256 code else codeHash
  | none => sha256 code

/-- The arguments of `getMeteredCode`. A digest that is passed is the source's. -/
structure MeterRequest where
  code : String
  flags : MeterFlags
  codeHash : Option String
  precomputed : ∀ d ∈ codeHash, d = sha256 code

/-- The arguments of `getLintVerdict`. -/
structure LintRequest where
  code : String
  enforceBannedAsync : Option Bool
  enforceLintHardening : Option Bool
  enforcePkg3Bans : Option Bool
  enforceLintGlobalAlias : Option Bool
  enforceBannedRest : Option Bool
  enforceLintOptionalChain : Option Bool
  codeHash : Option String
  enforceBannedWith : Option Bool
  enforceLintDestructure : Option Bool
  enforceLintSyntaxDepth : Option Bool
  precomputed : ∀ d ∈ codeHash, d = sha256 code

end Requests

variable {sha256 : String → String}

namespace MeterRequest

def bits (r : MeterRequest sha256) : List Char :=
  [isSet r.flags.specEvalOrder, isSet r.flags.meterCallSpread, isSet r.flags.meterRestPattern,
    isSet r.flags.nativeStackTerminal].map bit

def key (r : MeterRequest sha256) : String :=
  digest sha256 r.code r.codeHash ++ ":" ++ String.ofList r.bits

end MeterRequest

namespace LintRequest

def bits (r : LintRequest sha256) : List Char :=
  [isSet r.enforceBannedAsync, isSet r.enforceLintHardening, isSet r.enforcePkg3Bans,
    isSet r.enforceLintGlobalAlias, isSet r.enforceBannedRest, isSet r.enforceLintOptionalChain,
    isSet r.enforceBannedWith, isSet r.enforceLintDestructure, isSet r.enforceLintSyntaxDepth].map bit

def key (r : LintRequest sha256) : String :=
  digest sha256 r.code r.codeHash ++ ":" ++ String.ofList r.bits

/-- What the lint is passed: five of the flags as they came, the others as true or false. -/
def options (r : LintRequest sha256) : ValidateOptions where
  enforceBannedAsync := r.enforceBannedAsync
  enforceLintHardening := r.enforceLintHardening
  enforceBannedGenerator := r.enforcePkg3Bans
  enforceBannedWasm := r.enforcePkg3Bans
  enforceLintGlobalAlias := r.enforceLintGlobalAlias
  enforceBannedRest := r.enforceBannedRest
  enforceLintOptionalChain := some (isSet r.enforceLintOptionalChain)
  enforceBannedWith := some (isSet r.enforceBannedWith)
  enforceLintDestructure := some (isSet r.enforceLintDestructure)
  enforceLintSyntaxDepth := some (isSet r.enforceLintSyntaxDepth)

end LintRequest

variable (host : Host) (maxMeteredCacheSize : ℤ)

def getMeteredCode (r : MeterRequest sha256) (caches : Caches) : Except Fault String × Caches :=
  let (answer, metered) :=
    Table.consult maxMeteredCacheSize r.key (meterCode host.toToolchain r.code r.flags) caches.metered
  (answer, { caches with metered })

def getLintVerdict (r : LintRequest sha256) (caches : Caches) : Except Thrown Verdict × Caches :=
  let (answer, lintVerdict) :=
    Table.consult maxMeteredCacheSize r.key (validateSyntax host r.code r.options) caches.lintVerdict
  (answer, { caches with lintVerdict })

inductive Request (sha256 : String → String) where
  | meter (r : MeterRequest sha256)
  | lint (r : LintRequest sha256)

def serve (caches : Caches) : Request sha256 → Caches
  | .meter r => (getMeteredCode host maxMeteredCacheSize r caches).2
  | .lint r => (getLintVerdict host maxMeteredCacheSize r caches).2

theorem bit_injective : Function.Injective bit := by
  intro b b' h
  revert b b'
  decide

theorem digest_eq {code : String} {codeHash : Option String} (h : ∀ d ∈ codeHash, d = sha256 code) :
    digest sha256 code codeHash = sha256 code := by
  cases codeHash with
  | none => rfl
  | some d =>
    obtain rfl := h d rfl
    exact ite_eq_right_iff.mpr fun _ => rfl

/-- As many bits follow every digest, so a key determines both. -/
theorem of_key_eq (hsha : Function.Injective sha256) {code code' : String} {bits bits' : List Char}
    (hlength : bits.length = bits'.length)
    (h : sha256 code ++ ":" ++ String.ofList bits = sha256 code' ++ ":" ++ String.ofList bits') :
    code = code' ∧ bits = bits' := by
  have hlist := congrArg String.toList h
  simp only [String.toList_append, String.toList_ofList] at hlist
  obtain ⟨hfront, hbits⟩ := List.append_inj' hlist hlength
  obtain ⟨hdigest, -⟩ := List.append_inj' hfront rfl
  exact ⟨hsha (String.toList_inj.mp hdigest), hbits⟩

theorem isSet_eq_of_bit {flag flag' : Option Bool} (h : bit (isSet flag) = bit (isSet flag')) :
    isSet flag = isSet flag' := bit_injective h

/-- A bit and whether the flag is left out determine the flag. -/
theorem flag_eq {flag flag' : Option Bool} (hbit : bit (isSet flag) = bit (isSet flag'))
    (hnone : flag.isNone = flag'.isNone) : flag = flag' := by
  have hset := isSet_eq_of_bit hbit
  cases flag with
  | none =>
    cases flag' with
    | none => rfl
    | some b' => cases hnone
  | some b =>
    cases flag' with
    | none => cases hnone
    | some b' =>
      revert b b'
      decide

theorem MeterRequest.flags_of_key (hsha : Function.Injective sha256) {r r' : MeterRequest sha256}
    (h : r.key = r'.key) : r.code = r'.code ∧ r.flags.resolve = r'.flags.resolve := by
  rw [key, key, digest_eq r.precomputed, digest_eq r'.precomputed] at h
  have hlength : r.bits.length = r'.bits.length := rfl
  obtain ⟨hcode, hbits⟩ := of_key_eq hsha hlength h
  refine ⟨hcode, ?_⟩
  simp only [bits, List.map_cons, List.map_nil, List.cons.injEq, and_true] at hbits
  obtain ⟨horder, hspread, hrest, hterminal⟩ := hbits
  simp only [MeterFlags.resolve, isSet_eq_of_bit horder, isSet_eq_of_bit hspread, isSet_eq_of_bit hrest,
    isSet_eq_of_bit hterminal]

namespace LintRequest

def leftOut (r : LintRequest sha256) : List Bool :=
  [r.enforceBannedAsync, r.enforceLintHardening, r.enforcePkg3Bans, r.enforceLintGlobalAlias,
    r.enforceBannedRest].map Option.isNone

theorem of_key_eq (hsha : Function.Injective sha256) {r r' : LintRequest sha256} (h : r.key = r'.key) :
    r.code = r'.code ∧ r.bits = r'.bits := by
  rw [key, key, digest_eq r.precomputed, digest_eq r'.precomputed] at h
  have hlength : r.bits.length = r'.bits.length := rfl
  exact Runtime.of_key_eq hsha hlength h

theorem options_eq {r r' : LintRequest sha256} (hbits : r.bits = r'.bits) (hleft : r.leftOut = r'.leftOut) :
    r.options = r'.options := by
  simp only [bits, leftOut, List.map_cons, List.map_nil, List.cons.injEq, and_true] at hbits hleft
  obtain ⟨hasync, hhardening, hpkg3, halias, hrest, hchain, hwith, hdestructure, hdepth⟩ := hbits
  obtain ⟨lasync, lhardening, lpkg3, lalias, lrest⟩ := hleft
  simp only [options, flag_eq hasync lasync, flag_eq hhardening lhardening, flag_eq hpkg3 lpkg3,
    flag_eq halias lalias, flag_eq hrest lrest, isSet_eq_of_bit hchain, isSet_eq_of_bit hwith,
    isSet_eq_of_bit hdestructure, isSet_eq_of_bit hdepth]

end LintRequest

/-- Of two lints of one source with the same bits, both leave out the same of the five flags. -/
def Unambiguous (requests : List (Request sha256)) : Prop :=
  ∀ r r', .lint r ∈ requests → .lint r' ∈ requests → r.code = r'.code → r.bits = r'.bits → r.leftOut = r'.leftOut

variable (requests : List (Request sha256))

/-- Every entry is what some request of the sequence computed under its key, and the caches are in their bounds. -/
structure Consistent (caches : Caches) : Prop where
  metered : caches.metered.Stores fun key text =>
    ∃ r : MeterRequest sha256, .meter r ∈ requests ∧ r.key = key ∧ meterCode host.toToolchain r.code r.flags = .ok text
  lintVerdict : caches.lintVerdict.Stores fun key verdict =>
    ∃ r : LintRequest sha256, .lint r ∈ requests ∧ r.key = key ∧ validateSyntax host r.code r.options = .ok verdict
  metered_length : (caches.metered.length : ℤ) ≤ max 1 maxMeteredCacheSize
  lintVerdict_length : (caches.lintVerdict.length : ℤ) ≤ max 1 maxMeteredCacheSize

variable {host maxMeteredCacheSize requests} {caches : Caches}

theorem Consistent.start : Consistent host maxMeteredCacheSize requests {} where
  metered := by simp [Table.Stores]
  lintVerdict := by simp [Table.Stores]
  metered_length := by simp
  lintVerdict_length := by simp

theorem Consistent.serve (h : Consistent host maxMeteredCacheSize requests caches) {request : Request sha256}
    (hmem : request ∈ requests) :
    Consistent host maxMeteredCacheSize requests (serve host maxMeteredCacheSize caches request) := by
  cases request with
  | meter r =>
    exact ⟨Table.consult_stores h.metered fun text htext => ⟨r, hmem, rfl, htext⟩, h.lintVerdict,
      Table.consult_length h.metered_length, h.lintVerdict_length⟩
  | lint r =>
    exact ⟨h.metered, Table.consult_stores h.lintVerdict fun verdict hverdict => ⟨r, hmem, rfl, hverdict⟩,
      h.metered_length, Table.consult_length h.lintVerdict_length⟩

theorem Consistent.run (h : Consistent host maxMeteredCacheSize requests caches) {served : List (Request sha256)}
    (hmem : ∀ request ∈ served, request ∈ requests) :
    Consistent host maxMeteredCacheSize requests (run (Runtime.serve host maxMeteredCacheSize) caches served) := by
  induction served generalizing caches with
  | nil => exact h
  | cons request served ih =>
    obtain ⟨hrequest, hserved⟩ := List.forall_mem_cons.mp hmem
    exact ih (h.serve hrequest) hserved

theorem Consistent.metered_fresh (h : Consistent host maxMeteredCacheSize requests caches)
    (hsha : Function.Injective sha256) (r : MeterRequest sha256) :
    (getMeteredCode host maxMeteredCacheSize r caches).1 = meterCode host.toToolchain r.code r.flags := by
  refine Table.consult_fresh h.metered fun text hstored => ?_
  obtain ⟨r', -, hkey, htext⟩ := hstored
  obtain ⟨hcode, hflags⟩ := MeterRequest.flags_of_key hsha hkey
  rw [← htext, meterCode, meterCode, hcode, hflags]

theorem Consistent.verdict_fresh (h : Consistent host maxMeteredCacheSize requests caches)
    (hsha : Function.Injective sha256) (hunambiguous : Unambiguous requests) {r : LintRequest sha256}
    (hmem : .lint r ∈ requests) :
    (getLintVerdict host maxMeteredCacheSize r caches).1 = validateSyntax host r.code r.options := by
  refine Table.consult_fresh h.lintVerdict fun verdict hstored => ?_
  obtain ⟨r', hmem', hkey, hverdict⟩ := hstored
  obtain ⟨hcode, hbits⟩ := LintRequest.of_key_eq hsha hkey
  rw [← hverdict, hcode, LintRequest.options_eq hbits (hunambiguous r' r hmem' hmem hcode hbits)]

/-- What one request of a sequence sees of the caches, and what it leaves there. -/
structure ServedWell (host : Host) (maxMeteredCacheSize : ℤ) (requests : List (Request sha256)) (caches : Caches)
    (request : Request sha256) : Prop where
  metered : ∀ r, request = .meter r →
    (getMeteredCode host maxMeteredCacheSize r caches).1 = meterCode host.toToolchain r.code r.flags
  verdict : Unambiguous requests → ∀ r, request = .lint r →
    (getLintVerdict host maxMeteredCacheSize r caches).1 = validateSyntax host r.code r.options
  metered_throws : ∀ r e, request = .meter r → (getMeteredCode host maxMeteredCacheSize r caches).1 = .error e →
    serve host maxMeteredCacheSize caches request = caches
  verdict_throws : ∀ r e, request = .lint r → (getLintVerdict host maxMeteredCacheSize r caches).1 = .error e →
    serve host maxMeteredCacheSize caches request = caches
  metered_length : ((serve host maxMeteredCacheSize caches request).metered.length : ℤ) ≤ max 1 maxMeteredCacheSize
  verdict_length : ((serve host maxMeteredCacheSize caches request).lintVerdict.length : ℤ) ≤
    max 1 maxMeteredCacheSize

/-- Every request of a sequence is met as a fresh computation would meet it, a lint verdict provided the flags of the
sequence are unambiguous. -/
theorem caches_transparent (host : Host) (maxMeteredCacheSize : ℤ) (hsha : Function.Injective sha256)
    (first : List (Request sha256)) (request : Request sha256) (rest : List (Request sha256)) :
    ServedWell host maxMeteredCacheSize (first ++ request :: rest)
      (run (serve host maxMeteredCacheSize) {} first) request := by
  have hcaches : Consistent host maxMeteredCacheSize (first ++ request :: rest)
      (run (serve host maxMeteredCacheSize) {} first) :=
    Consistent.start.run fun r hr => List.mem_append_left _ hr
  have hmem : request ∈ first ++ request :: rest := List.mem_append_right _ List.mem_cons_self
  have hserved := hcaches.serve hmem
  exact {
    metered := fun r _ => hcaches.metered_fresh hsha r
    verdict := by
      rintro hunambiguous r rfl
      exact hcaches.verdict_fresh hsha hunambiguous hmem
    metered_throws := by
      rintro r e rfl he
      exact congrArg (fun metered => { run (serve host maxMeteredCacheSize) {} first with metered })
        (Table.consult_error he)
    verdict_throws := by
      rintro r e rfl he
      exact congrArg (fun lintVerdict => { run (serve host maxMeteredCacheSize) {} first with lintVerdict })
        (Table.consult_error he)
    metered_length := hserved.metered_length
    verdict_length := hserved.lintVerdict_length }

def asyncSource : String := "async function f() {}"

def asyncHost : Host :=
  sampleHost asyncSource [.name, .function, .name, .parenL, .parenR, .braceL, .braceR]
    (.node { type := .program }
      [.node { type := .functionDeclaration, field := .body, async := true }
        [.node { type := .identifier, field := .id, name := "f" } [], .node { type := .blockStatement, field := .body } []]])

def asyncRequest (enforceBannedAsync : Option Bool) : LintRequest fun code => code where
  code := asyncSource
  enforceBannedAsync
  enforceLintHardening := some false
  enforcePkg3Bans := some false
  enforceLintGlobalAlias := some false
  enforceBannedRest := some false
  enforceLintOptionalChain := some false
  codeHash := none
  enforceBannedWith := none
  enforceLintDestructure := none
  enforceLintSyntaxDepth := none
  precomputed := by simp

theorem caches_transparent_async :
    (getLintVerdict asyncHost 10 (asyncRequest (some true))
      (run (serve asyncHost 10) {} [.lint (asyncRequest (some false))])).1 =
        validateSyntax asyncHost asyncSource (asyncRequest (some true)).options := by
  have hserved := caches_transparent asyncHost 10 (fun _ _ h => h) [.lint (asyncRequest (some false))]
    (.lint (asyncRequest (some true))) []
  refine hserved.verdict ?_ _ rfl
  rintro r r' hr hr' - -
  simp only [List.cons_append, List.nil_append, List.mem_cons, Request.lint.injEq, List.not_mem_nil, or_false] at hr hr'
  obtain rfl | rfl := hr <;> obtain rfl | rfl := hr' <;> rfl

/-- After a lint with the async rule off, one with the rule left out is told that the source is valid; a fresh one
refuses it. -/
theorem left_out_flag_shares_verdict :
    let caches := run (serve asyncHost 10) {} [.lint (asyncRequest (some false))]
    (getLintVerdict asyncHost 10 (asyncRequest none) caches).1 = .ok .valid ∧
      ∃ message, validateSyntax asyncHost asyncSource (asyncRequest none).options = .ok (.invalid message) :=
  ⟨by decide +kernel, (asyncError ⟨.async, 1⟩).message, by decide +kernel⟩

end XChainVM.Runtime
