import XChainVM.Harness.Selection
import XChainVM.Machine.Memo
import XChainVM.Machine.Run

/-! # The compilation caches

V8 may take the data it is given for another source of the same length, so what keeps a cache
from changing a program is that data never meets a source it was not made from. A VM keeps
data for each harness and, within a block, for each contract source it has compiled.
-/

namespace XChainVM.Runtime

open Harness Machine

/-- What V8 keeps of a compilation, with the source it was made from. -/
structure CachedData where
  source : Script

/-- How `compileScriptSync` goes: it may throw, data may be attached or not, and data that is
passed may be taken or rejected. -/
inductive Compilation where
  | throws
  | done (attaches accepts : Bool)

structure CompiledScript where
  program : Script
  cachedData : Option CachedData

def compileScript (code : Script) (cachedData : Option CachedData) : Compilation → Option CompiledScript
  | .throws => none
  | .done attaches accepts =>
    match cachedData with
    | some data => some { program := if accepts then data.source else code, cachedData := none }
    | none => some { program := code, cachedData := if attaches then some ⟨code⟩ else none }

/-- The harness text that was loaded. Deriving it with no rules was checked to change nothing. -/
structure Selector where
  source : Script
  table : RuleTable
  unarmed : deriveHarness source [] = .ok source

/-- The sources the process has derived, and the data one VM has kept. -/
structure CompileCaches where
  sources : Table ℕ Script
  meteredSources : Table ℕ Script := []
  harnessCachedData : Option CachedData := none
  armedHarnessCache : Table ℕ (Option CachedData) := []
  blockCache : Option (Table String (Option CachedData)) := none

def initCaches (selector : Selector) : CompileCaches := { sources := [(0, selector.source)] }

section Compile

variable (selector : Selector) (sha256 : String → String) (maxBlockCacheSize : ℕ)

/-- `deriveHarness(HARNESS_SOURCE, rulesFor(mask))` -/
def derived (mask : ℕ) : Except String Script := do
  deriveHarness selector.source (← rulesFor selector.table mask)

def harnessSourceFor (mask : ℕ) (caches : CompileCaches) : Except String Script × CompileCaches :=
  let (source, sources) := Table.fetch mask (derived selector mask) caches.sources
  (source, { caches with sources })

def sourceFor (mask : ℕ) (caches : CompileCaches) : Except String Script × CompileCaches :=
  match caches.meteredSources.lookup mask with
  | some source => (.ok source, caches)
  | none =>
    let (source, caches) := harnessSourceFor selector mask caches
    let (source, meteredSources) :=
      Table.fetch mask (do buildStringResultMeterHarness (← source)) caches.meteredSources
    (source, { caches with meteredSources })

def CompileCaches.dataFor (mask : ℕ) (caches : CompileCaches) : Option CachedData :=
  if mask = 0 then caches.harnessCachedData else (caches.armedHarnessCache.lookup mask).join

def CompileCaches.keepData (mask : ℕ) (data : Option CachedData) (caches : CompileCaches) : CompileCaches :=
  if mask = 0 then { caches with harnessCachedData := data }
  else { caches with armedHarnessCache := (mask, data) :: caches.armedHarnessCache }

/-- What the string result meter puts in the place of the selector's `compileHarness`. -/
def compileHarness (mask : ℕ) (how : Compilation) (caches : CompileCaches) :
    Option CompiledScript × CompileCaches :=
  let cache := caches.dataFor mask
  match sourceFor selector mask caches with
  | (.error _, caches) => (none, caches)
  | (.ok source, caches) =>
    match compileScript source cache how with
    | none => (none, caches)
    | some script => (some script, if cache.isNone then caches.keepData mask script.cachedData else caches)

/-- `(contractIndex != null ? contractIndex : '0') + ':' + sha256(fullSource)` -/
def cacheKey (contractIndex : Option String) (fullSource : String) : String :=
  contractIndex.getD "0" ++ ":" ++ sha256 fullSource

def CompileCaches.blockData (key : String) (caches : CompileCaches) : Option CachedData :=
  caches.blockCache.bind fun cache => (cache.lookup key).join

def CompileCaches.keepBlockData (key : String) (data : Option CachedData) (caches : CompileCaches) : CompileCaches :=
  match caches.blockCache with
  | some cache =>
    if (cache.lookup key).isNone ∧ cache.length < maxBlockCacheSize then
      { caches with blockCache := some ((key, data) :: cache) }
    else caches
  | none => caches

def compileContract (contractIndex : Option String) (fullSource : String) (how : Compilation)
    (caches : CompileCaches) : Option CompiledScript × CompileCaches :=
  let key := cacheKey sha256 contractIndex fullSource
  match compileScript fullSource.toList (caches.blockData key) how with
  | none => (none, caches)
  | some script => (some script, caches.keepBlockData maxBlockCacheSize key script.cachedData)

inductive CompileEvent where
  | beginBlock
  | endBlock
  | harness (gates : HarnessGates) (how : Compilation)
  | contract (contractIndex : Option String) (fullSource : String) (how : Compilation)

/-- A script that was compiled, beside the source it was compiled for. -/
structure Compiled where
  wanted : Except String Script
  program : Script

structure Compiler where
  caches : CompileCaches
  compiled : List Compiled := []

def selected (gates : HarnessGates) : Except String Script := do
  let rules ← armedRules selector.table (RULES.filter gates.on)
  buildStringResultMeterHarness (← deriveHarness selector.source rules)

def Compiler.note (vm : Compiler) (wanted : Except String Script) : Option CompiledScript × CompileCaches → Compiler
  | (some script, caches) => { caches, compiled := ⟨wanted, script.program⟩ :: vm.compiled }
  | (none, caches) => { vm with caches }

def Compiler.step (vm : Compiler) : CompileEvent → Compiler
  | .beginBlock => { vm with caches := { vm.caches with blockCache := some [] } }
  | .endBlock => { vm with caches := { vm.caches with blockCache := none } }
  | .harness gates how =>
    vm.note (selected selector gates) (compileHarness selector (harnessMask gates) how vm.caches)
  | .contract contractIndex fullSource how =>
    vm.note (.ok fullSource.toList) (compileContract sha256 maxBlockCacheSize contractIndex fullSource how vm.caches)

end Compile

variable {selector : Selector} {sha256 : String → String} {maxBlockCacheSize : ℕ}

def metered (selector : Selector) (mask : ℕ) : Except String Script := do
  buildStringResultMeterHarness (← derived selector mask)

theorem metered_harnessMask (gates : HarnessGates) :
    metered selector (harnessMask gates) = selected selector gates := by
  simp only [metered, derived, selected, rulesFor_harnessMask, bind_assoc]

def MadeFrom (source : Except String Script) (data : Option CachedData) : Prop :=
  ∀ d ∈ data, source = .ok d.source

/-- No data is kept where it can meet a source it was not made from. -/
structure Coherent (selector : Selector) (sha256 : String → String) (compiles : String → Prop)
    (caches : CompileCaches) : Prop where
  sources : caches.sources.Stores fun mask source => derived selector mask = .ok source
  metered : caches.meteredSources.Stores fun mask source => metered selector mask = .ok source
  harness : MadeFrom (Runtime.metered selector 0) caches.harnessCachedData
  armed : caches.armedHarnessCache.Stores fun mask data => MadeFrom (Runtime.metered selector mask) data
  block : ∀ cache ∈ caches.blockCache, cache.Stores fun key data => ∃ index fullSource,
    compiles fullSource ∧ key = cacheKey sha256 index fullSource ∧ MadeFrom (.ok fullSource.toList) data

section Coherent

variable {compiles : String → Prop} {caches : CompileCaches}

theorem compileScript_made {code : Script} {data : Option CachedData} (hdata : MadeFrom (.ok code) data)
    {how : Compilation} {script : CompiledScript} (h : compileScript code data how = some script) :
    script.program = code ∧ MadeFrom (.ok code) script.cachedData := by
  cases how with
  | throws => cases h
  | done attaches accepts =>
    cases data with
    | some d =>
      have hd : code = d.source := Except.ok.inj (hdata d rfl)
      cases h
      refine ⟨?_, by rintro d ⟨⟩⟩
      rw [← hd, ite_self]
    | none =>
      cases h
      refine ⟨rfl, ?_⟩
      intro d hd
      cases attaches with
      | true => exact congrArg Except.ok (congrArg CachedData.source (Option.some.inj hd))
      | false => cases hd

theorem compileScript_served (code : Script) (data : Option CachedData) {how : Compilation} (hhow : how ≠ .throws) :
    ∃ script, compileScript code data how = some script := by
  cases how with
  | throws => exact absurd rfl hhow
  | done attaches accepts =>
    cases data with
    | some d => exact ⟨_, rfl⟩
    | none => exact ⟨_, rfl⟩

theorem madeFrom_join {κ : Type} [DecidableEq κ] {source : Except String Script} {key : κ}
    {cache : Table κ (Option CachedData)} (h : ∀ data, (key, data) ∈ cache → MadeFrom source data) :
    MadeFrom source (cache.lookup key).join := by
  intro d hd
  obtain ⟨data, hlookup, rfl⟩ : ∃ data, cache.lookup key = some data ∧ data = some d := by
    cases hlookup : cache.lookup key with
    | none =>
      rw [hlookup] at hd
      cases hd
    | some data =>
      rw [hlookup] at hd
      exact ⟨data, rfl, hd⟩
  exact h _ (Table.mem_of_lookup_eq hlookup) d rfl

namespace Coherent

theorem dataFor (h : Coherent selector sha256 compiles caches) (mask : ℕ) :
    MadeFrom (Runtime.metered selector mask) (caches.dataFor mask) := by
  unfold CompileCaches.dataFor
  split
  case isTrue hmask =>
    rw [hmask]
    exact h.harness
  case isFalse => exact madeFrom_join fun data hdata => h.armed (mask, data) hdata

theorem keepData (h : Coherent selector sha256 compiles caches) {mask : ℕ} {data : Option CachedData}
    (hdata : MadeFrom (Runtime.metered selector mask) data) :
    Coherent selector sha256 compiles (caches.keepData mask data) := by
  unfold CompileCaches.keepData
  split
  case isTrue hmask => exact { h with harness := hmask ▸ hdata }
  case isFalse => exact { h with armed := List.forall_mem_cons.mpr ⟨hdata, h.armed⟩ }

theorem harnessSourceFor (h : Coherent selector sha256 compiles caches) (mask : ℕ) :
    (Runtime.harnessSourceFor selector mask caches).1 = derived selector mask ∧
      Coherent selector sha256 compiles (Runtime.harnessSourceFor selector mask caches).2 :=
  ⟨Table.consult_fresh h.sources fun _ hstored => hstored,
    { h with sources := Table.consult_stores h.sources fun _ hfresh => hfresh }⟩

theorem sourceFor (h : Coherent selector sha256 compiles caches) (mask : ℕ) :
    (Runtime.sourceFor selector mask caches).1 = Runtime.metered selector mask ∧
      Coherent selector sha256 compiles (Runtime.sourceFor selector mask caches).2 := by
  unfold Runtime.sourceFor
  cases hlookup : caches.meteredSources.lookup mask with
  | some source => exact ⟨(h.metered _ (Table.mem_of_lookup_eq hlookup)).symm, h⟩
  | none =>
    obtain ⟨hsource, hcaches⟩ := h.harnessSourceFor mask
    have hfresh : (do buildStringResultMeterHarness (← (Runtime.harnessSourceFor selector mask caches).1)) =
        Runtime.metered selector mask := by
      rw [hsource]
      rfl
    constructor
    · exact (Table.consult_fresh h.metered fun _ hstored => hfresh.trans hstored).trans hfresh
    · exact { hcaches with metered := Table.consult_stores h.metered fun _ hmade => hfresh.symm.trans hmade }

theorem blockData (h : Coherent selector sha256 compiles caches) {index : Option String} {fullSource : String}
    (hsource : ∀ index' fullSource', compiles fullSource' →
      cacheKey sha256 index fullSource = cacheKey sha256 index' fullSource' → fullSource' = fullSource) :
    MadeFrom (.ok fullSource.toList) (caches.blockData (cacheKey sha256 index fullSource)) := by
  unfold CompileCaches.blockData
  cases hblock : caches.blockCache with
  | none => rintro d ⟨⟩
  | some cache =>
    apply madeFrom_join
    intro data hdata
    obtain ⟨index', fullSource', hcompiles, hkey, hmade⟩ := h.block cache hblock _ hdata
    rwa [hsource index' fullSource' hcompiles hkey] at hmade

theorem keepBlockData (h : Coherent selector sha256 compiles caches) {index : Option String} {fullSource : String}
    (hcompiles : compiles fullSource) {data : Option CachedData} (hdata : MadeFrom (.ok fullSource.toList) data) :
    Coherent selector sha256 compiles
      (caches.keepBlockData maxBlockCacheSize (cacheKey sha256 index fullSource) data) := by
  unfold CompileCaches.keepBlockData
  cases hblock : caches.blockCache with
  | none => exact h
  | some cache =>
    dsimp only
    split
    case isFalse => exact h
    case isTrue =>
      refine { h with block := ?_ }
      rintro cache ⟨⟩
      exact List.forall_mem_cons.mpr ⟨⟨index, fullSource, hcompiles, rfl, hdata⟩, h.block _ hblock⟩

theorem compileHarness (h : Coherent selector sha256 compiles caches) (mask : ℕ) (how : Compilation) :
    Coherent selector sha256 compiles (Runtime.compileHarness selector mask how caches).2 ∧
      ∀ script, (Runtime.compileHarness selector mask how caches).1 = some script →
        Runtime.metered selector mask = .ok script.program := by
  obtain ⟨hsource, hcaches⟩ := h.sourceFor mask
  have hdata := h.dataFor mask
  unfold Runtime.compileHarness
  rcases hr : Runtime.sourceFor selector mask caches with ⟨_ | source, caches'⟩
  · rw [hr] at hcaches
    exact ⟨hcaches, by rintro script ⟨⟩⟩
  · rw [hr] at hsource hcaches
    dsimp only at hsource ⊢
    rw [← hsource] at hdata
    cases hscript : compileScript source (caches.dataFor mask) how with
    | none => exact ⟨hcaches, by rintro script ⟨⟩⟩
    | some script =>
      obtain ⟨hprogram, hmade⟩ := compileScript_made hdata hscript
      rw [hsource] at hmade
      dsimp only
      constructor
      · split
        · exact hcaches.keepData hmade
        · exact hcaches
      · rintro script ⟨⟩
        rw [hprogram]
        exact hsource.symm

variable (maxBlockCacheSize) in
theorem compileContract (h : Coherent selector sha256 compiles caches) {index : Option String} {fullSource : String}
    (hcompiles : compiles fullSource)
    (hsource : ∀ index' fullSource', compiles fullSource' →
      cacheKey sha256 index fullSource = cacheKey sha256 index' fullSource' → fullSource' = fullSource)
    (how : Compilation) :
    Coherent selector sha256 compiles
        (Runtime.compileContract sha256 maxBlockCacheSize index fullSource how caches).2 ∧
      ∀ script, (Runtime.compileContract sha256 maxBlockCacheSize index fullSource how caches).1 = some script →
        script.program = fullSource.toList := by
  unfold Runtime.compileContract
  dsimp only
  cases hscript : compileScript fullSource.toList (caches.blockData (cacheKey sha256 index fullSource)) how with
  | none => exact ⟨h, by rintro script ⟨⟩⟩
  | some script =>
    obtain ⟨hprogram, hmade⟩ := compileScript_made (h.blockData hsource) hscript
    refine ⟨h.keepBlockData hcompiles hmade, ?_⟩
    rintro script ⟨⟩
    exact hprogram

theorem compileHarness_served (h : Coherent selector sha256 compiles caches) {mask : ℕ} {source : Script}
    (hmetered : Runtime.metered selector mask = .ok source) {how : Compilation} (hhow : how ≠ .throws) :
    ∃ script, (Runtime.compileHarness selector mask how caches).1 = some script := by
  obtain ⟨hsource, -⟩ := h.sourceFor mask
  unfold Runtime.compileHarness
  rcases hr : Runtime.sourceFor selector mask caches with ⟨_ | served, caches'⟩
  · rw [hr, hmetered] at hsource
    cases hsource
  · obtain ⟨script, hscript⟩ := compileScript_served served (caches.dataFor mask) hhow
    dsimp only
    rw [hscript]
    exact ⟨script, rfl⟩

end Coherent

end Coherent

def CompileEvent.fullSource? : CompileEvent → Option String
  | .contract _ fullSource _ => some fullSource
  | _ => none

def CompileEvent.wanted? (selector : Selector) : CompileEvent → Option (Except String Script)
  | .harness gates _ => some (selected selector gates)
  | .contract _ fullSource _ => some (.ok fullSource.toList)
  | _ => none

/-- V8 compiles what it is given, and the harness that is asked for can be derived. -/
def CompileEvent.Served (selector : Selector) : CompileEvent → Prop
  | .harness gates how => how ≠ .throws ∧ ∃ source, selected selector gates = .ok source
  | .contract _ _ how => how ≠ .throws
  | _ => True

theorem sha256_of_cacheKey (hdigest : ∀ s, (sha256 s).length = 64) {index index' : Option String}
    {source source' : String} (h : cacheKey sha256 index source = cacheKey sha256 index' source') :
    sha256 source = sha256 source' := by
  have hlist := congrArg String.toList h
  simp only [cacheKey, String.toList_append] at hlist
  apply String.toList_inj.mp
  apply (List.append_inj' hlist _).2
  rw [String.length_toList, String.length_toList, hdigest, hdigest]

/-- What holds of a VM whose scripts all have the program they were compiled for. -/
structure Compiler.Sound (selector : Selector) (sha256 : String → String) (compiles : String → Prop)
    (vm : Compiler) : Prop where
  coherent : Coherent selector sha256 compiles vm.caches
  compiled : ∀ c ∈ vm.compiled, c.wanted = .ok c.program

namespace Compiler.Sound

variable {compiles : String → Prop} {vm : Compiler}

theorem note (h : Sound selector sha256 compiles vm) {wanted : Except String Script}
    {result : Option CompiledScript × CompileCaches} (hcaches : Coherent selector sha256 compiles result.2)
    (hscript : ∀ script, result.1 = some script → wanted = .ok script.program) :
    Sound selector sha256 compiles (vm.note wanted result) := by
  obtain ⟨_ | script, caches⟩ := result
  · exact ⟨hcaches, h.compiled⟩
  · exact ⟨hcaches, List.forall_mem_cons.mpr ⟨hscript script rfl, h.compiled⟩⟩

theorem note_wanted {wanted : Except String Script} {result : Option CompiledScript × CompileCaches}
    {script : CompiledScript} (h : result.1 = some script) :
    (vm.note wanted result).compiled.map Compiled.wanted = wanted :: vm.compiled.map Compiled.wanted := by
  obtain ⟨_ | script, caches⟩ := result
  · cases h
  · rfl

theorem step (hdigest : ∀ s, (sha256 s).length = 64)
    (hcollision : ∀ a b, compiles a → compiles b → sha256 a = sha256 b → a = b)
    (h : Sound selector sha256 compiles vm) {e : CompileEvent} (he : ∀ source ∈ e.fullSource?, compiles source) :
    Sound selector sha256 compiles (vm.step selector sha256 maxBlockCacheSize e) := by
  cases e with
  | beginBlock =>
    refine ⟨{ h.coherent with block := ?_ }, h.compiled⟩
    rintro cache ⟨⟩ entry hentry
    cases hentry
  | endBlock =>
    refine ⟨{ h.coherent with block := ?_ }, h.compiled⟩
    rintro cache ⟨⟩
  | harness gates how =>
    obtain ⟨hcaches, hscript⟩ := h.coherent.compileHarness (harnessMask gates) how
    rw [metered_harnessMask] at hscript
    exact h.note hcaches hscript
  | contract index fullSource how =>
    have hcompiles : compiles fullSource := he fullSource rfl
    obtain ⟨hcaches, hscript⟩ := h.coherent.compileContract maxBlockCacheSize hcompiles
      (fun index' fullSource' hcompiles' hkey =>
        hcollision _ _ hcompiles' hcompiles (sha256_of_cacheKey hdigest hkey).symm) how
    exact h.note hcaches fun script h => congrArg Except.ok (hscript script h).symm

theorem run (hdigest : ∀ s, (sha256 s).length = 64)
    (hcollision : ∀ a b, compiles a → compiles b → sha256 a = sha256 b → a = b)
    (h : Sound selector sha256 compiles vm) {events : List CompileEvent}
    (hevents : ∀ e ∈ events, ∀ source ∈ e.fullSource?, compiles source) :
    Sound selector sha256 compiles (Machine.run (Compiler.step selector sha256 maxBlockCacheSize) vm events) := by
  induction events generalizing vm with
  | nil => exact h
  | cons e events ih =>
    obtain ⟨he, hevents⟩ := List.forall_mem_cons.mp hevents
    exact ih (h.step hdigest hcollision he) hevents

theorem step_wanted (h : Sound selector sha256 compiles vm) {e : CompileEvent} (he : e.Served selector) :
    (vm.step selector sha256 maxBlockCacheSize e).compiled.map Compiled.wanted =
      (e.wanted? selector).toList ++ vm.compiled.map Compiled.wanted := by
  cases e with
  | beginBlock => rfl
  | endBlock => rfl
  | harness gates how =>
    obtain ⟨hhow, source, hsource⟩ := he
    rw [← metered_harnessMask] at hsource
    obtain ⟨script, hscript⟩ := h.coherent.compileHarness_served hsource hhow
    exact note_wanted hscript
  | contract index fullSource how =>
    obtain ⟨script, hscript⟩ :=
      compileScript_served fullSource.toList (vm.caches.blockData (cacheKey sha256 index fullSource)) he
    have hcompiled : (compileContract sha256 maxBlockCacheSize index fullSource how vm.caches).1 = some script := by
      unfold compileContract
      dsimp only
      rw [hscript]
    exact note_wanted hcompiled

/-- No compilation that is served goes unrecorded. -/
theorem run_wanted (hdigest : ∀ s, (sha256 s).length = 64)
    (hcollision : ∀ a b, compiles a → compiles b → sha256 a = sha256 b → a = b)
    (h : Sound selector sha256 compiles vm) {events : List CompileEvent}
    (hevents : ∀ e ∈ events, ∀ source ∈ e.fullSource?, compiles source) (hserved : ∀ e ∈ events, e.Served selector) :
    (Machine.run (Compiler.step selector sha256 maxBlockCacheSize) vm events).compiled.map Compiled.wanted =
      (events.filterMap (CompileEvent.wanted? selector)).reverse ++ vm.compiled.map Compiled.wanted := by
  induction events generalizing vm with
  | nil => rfl
  | cons e events ih =>
    obtain ⟨he, hevents⟩ := List.forall_mem_cons.mp hevents
    obtain ⟨hserve, hserved⟩ := List.forall_mem_cons.mp hserved
    have hstep : Sound selector sha256 compiles (vm.step selector sha256 maxBlockCacheSize e) :=
      h.step hdigest hcollision he
    refine (ih hstep hevents hserved).trans ?_
    rw [h.step_wanted hserve]
    rw [List.filterMap_cons]
    cases e.wanted? selector with
    | none => rfl
    | some wanted => simp only [Option.toList_some, List.reverse_cons, List.append_assoc]

end Compiler.Sound

def Compiler.fresh (selector : Selector) : Compiler := { caches := initCaches selector }

theorem derived_zero : derived selector 0 = .ok selector.source := by
  have hrules : rulesFor selector.table 0 = .ok [] := by
    simp only [rulesFor, Nat.zero_and, ne_eq, not_true_eq_false, decide_false, List.filter_false]
    rfl
  rw [derived, hrules]
  exact selector.unarmed

theorem Compiler.fresh_sound (compiles : String → Prop) :
    (Compiler.fresh selector).Sound selector sha256 compiles where
  coherent :=
    { sources := by
        rintro entry hentry
        cases List.mem_singleton.mp hentry
        exact derived_zero
      metered := by
        rintro entry ⟨⟩
      harness := by
        rintro d ⟨⟩
      armed := by
        rintro entry ⟨⟩
      block := by
        rintro cache ⟨⟩ }
  compiled := by
    rintro c ⟨⟩

/-- In every order of blocks, executions and failed compilations, and whatever data V8 takes, each
harness that is compiled is the one its gates derive and each contract is its own source. -/
theorem compiled_is_selected (selector : Selector) (sha256 : String → String) (maxBlockCacheSize : ℕ)
    (events : List CompileEvent) (hdigest : ∀ s, (sha256 s).length = 64)
    (hcollision : ∀ a ∈ events.filterMap CompileEvent.fullSource?, ∀ b ∈ events.filterMap CompileEvent.fullSource?,
      sha256 a = sha256 b → a = b) :
    ∀ c ∈ (run (Compiler.step selector sha256 maxBlockCacheSize) (.fresh selector) events).compiled,
      c.wanted = .ok c.program := by
  have hfresh : (Compiler.fresh selector).Sound selector sha256 (· ∈ events.filterMap CompileEvent.fullSource?) :=
    Compiler.fresh_sound _
  refine (hfresh.run hdigest ?_ ?_).compiled
  · intro a b ha hb
    exact hcollision a ha b hb
  · intro e he source hsource
    exact List.mem_filterMap.mpr ⟨e, he, hsource⟩

def bareLines (applyLength html raw : String) : Script := (applyLength ++ "\n" ++ html ++ "\n" ++ raw ++ "\n").toList

def bareGuard : String := "if (typeof __stringRaw === 'function')"

def bareBody : Script := bareLines APPLY_LENGTH_LINE HTML_WRAPPERS (RAW_WRAPPER bareGuard)

def bareMetered (helpers : Script) : Script :=
  bareLines (APPLY_LENGTH_LINE ++ " var __stringResultMeterOn = globalThis.__STRING_RESULT_METER_ON === true;")
    GATED_HTML_WRAPPERS (GATED_RAW_WRAPPER bareGuard) ++ helpers ++ closing

def bareHelpers : Script := "helpers\n".toList

/-- Rules without edits put their helpers before the closing line. -/
theorem deriveHarness_helpers (text : Script) {rules : List HarnessRule} (hedits : ∀ rule ∈ rules, rule.edits = []) :
    deriveHarness (text ++ closing) rules = .ok (text ++ rules.flatMap HarnessRule.helpers ++ closing) := by
  have hplan (plan : Plan) : placeRules (text ++ closing) rules plan = .ok plan := by
    induction rules with
    | nil => rfl
    | cons rule rules ih =>
      obtain ⟨hrule, hrules⟩ := List.forall_mem_cons.mp hedits
      rw [placeRules, hrule]
      exact ih hrules
  have hlength : ((text ++ closing).length - closing.length : ℤ) = text.length := by
    rw [List.length_append]
    omega
  have hslice : sliceTo (text ++ closing) ((text ++ closing).length - closing.length) = text := by
    rw [hlength, sliceTo, if_neg (by omega), Int.toNat_natCast, List.take_left]
  unfold deriveHarness
  rw [if_pos (List.suffix_append text closing), hplan]
  exact congrArg (fun kept => Except.ok (kept ++ rules.flatMap HarnessRule.helpers ++ closing)) hslice

def bareSelector : Selector where
  source := bareBody ++ closing
  table := { rule := fun _ => ⟨"", [], bareHelpers⟩, argumentLine := [] }
  unarmed := by rw [deriveHarness_helpers _ (by simp), List.flatMap_nil, List.append_nil]

def bareGates (toStringSizeMeter : Bool) : HarnessGates where
  resourceFaultSignal := false
  hostErrorStackStrip := false
  hostCallBounds := false
  stringifyReentry := false
  perElementMeter := false
  stringReceiverMeter := false
  toStringSizeMeter := toStringSizeMeter
  nativeStackTerminal := false

theorem build_bareBody {helpers : Script} (hhelpers : helpers = [] ∨ helpers = bareHelpers) :
    buildStringResultMeterHarness (bareBody ++ helpers ++ closing) = .ok (bareMetered helpers) := by
  have hperElement : includesText (bareBody ++ helpers ++ closing)
      (RAW_WRAPPER "if (typeof __stringRaw === 'function' && !__pemArmed)") = false := by
    unfold includesText bareBody bareLines RAW_WRAPPER rawWrapper bareGuard HTML_WRAPPERS htmlWrappers APPLY_LENGTH_LINE
    simp only [String.toList_append, -String.reduceToList, -String.reduceAppend]
    obtain rfl | rfl := hhelpers
    all_goals
      repeat rw [String.toList_ofList]
      decide +kernel
  unfold buildStringResultMeterHarness
  dsimp only
  rw [hperElement, if_neg Bool.false_ne_true, if_neg Bool.false_ne_true]
  unfold bareMetered bareBody bareLines HTML_WRAPPERS GATED_HTML_WRAPPERS htmlWrappers RAW_WRAPPER GATED_RAW_WRAPPER
    rawWrapper bareGuard APPLY_LENGTH_LINE
  -- each literal as its list, so that no text is decoded
  simp only [String.toList_append, -String.reduceToList, -String.reduceAppend]
  obtain rfl | rfl := hhelpers
  all_goals
    repeat rw [String.toList_ofList]
    decide +kernel

theorem selected_bare {gates : HarnessGates} {rules : List HarnessRule}
    (hrules : armedRules bareSelector.table (RULES.filter gates.on) = .ok rules) (hedits : ∀ rule ∈ rules, rule.edits = [])
    (hhelpers : rules.flatMap HarnessRule.helpers = [] ∨ rules.flatMap HarnessRule.helpers = bareHelpers) :
    selected bareSelector gates = .ok (bareMetered (rules.flatMap HarnessRule.helpers)) := by
  unfold selected
  refine bind_eq_ok_iff.mpr ⟨rules, hrules, ?_⟩
  exact bind_eq_ok_iff.mpr ⟨_, deriveHarness_helpers bareBody hedits, build_bareBody hhelpers⟩

theorem selected_unarmed : selected bareSelector (bareGates false) = .ok (bareMetered []) := by
  have hrules : armedRules bareSelector.table (RULES.filter (bareGates false).on) = .ok [] := rfl
  have hselected := selected_bare hrules (by simp) (.inl rfl)
  rwa [List.flatMap_nil] at hselected

theorem selected_armed : selected bareSelector (bareGates true) = .ok (bareMetered bareHelpers) := by
  have hrules : armedRules bareSelector.table (RULES.filter (bareGates true).on) =
      .ok [⟨"", [], bareHelpers⟩] := rfl
  have hselected := selected_bare hrules (by simp) (.inr (List.append_nil _))
  rwa [List.flatMap_singleton] at hselected

def warmDigest (s : String) : String :=
  if s = "a" then "ca978112ca1bbdcafac231b39a23dc4da786eff8147c4e72b9807785afee48bb"
  else "3e23e8160039594a33894f6564e1b1348bbd7a0088d42c4acb73eeaed59c009d"

/-- Two executions with a gate between them and two sources of one length in one block, each met
again with the data that was kept, and V8 taking whatever it is given. -/
def warmBlock : List CompileEvent :=
  [.beginBlock, .harness (bareGates false) (.done true true), .contract none "a" (.done true true),
    .harness (bareGates true) (.done true true), .contract none "b" (.done true true),
    .harness (bareGates false) (.done true true), .harness (bareGates true) (.done true true),
    .contract none "a" (.done true true)]

def warmCompiler : Compiler := run (Compiler.step bareSelector warmDigest 10) (.fresh bareSelector) warmBlock

theorem warmBlock_served : ∀ e ∈ warmBlock, e.Served bareSelector := by
  have hunarmed : (CompileEvent.harness (bareGates false) (.done true true)).Served bareSelector :=
    ⟨by rintro ⟨⟩, _, selected_unarmed⟩
  have harmed : (CompileEvent.harness (bareGates true) (.done true true)).Served bareSelector :=
    ⟨by rintro ⟨⟩, _, selected_armed⟩
  have hcontract (source : String) : (CompileEvent.contract none source (.done true true)).Served bareSelector := by
    rintro ⟨⟩
  simp only [warmBlock, List.forall_mem_cons]
  exact ⟨trivial, hunarmed, hcontract _, harmed, hcontract _, hunarmed, harmed, hcontract _, by simp⟩

theorem compiled_is_selected_warm :
    (∀ c ∈ warmCompiler.compiled, c.wanted = .ok c.program) ∧ warmCompiler.compiled.map Compiled.wanted =
      [.ok ['a'], .ok (bareMetered bareHelpers), .ok (bareMetered []), .ok ['b'], .ok (bareMetered bareHelpers),
        .ok ['a'], .ok (bareMetered [])] := by
  have hdigest (s : String) : (warmDigest s).length = 64 := by
    unfold warmDigest
    split
    · decide
    · decide
  have hcollision : ∀ a ∈ warmBlock.filterMap CompileEvent.fullSource?,
      ∀ b ∈ warmBlock.filterMap CompileEvent.fullSource?, warmDigest a = warmDigest b → a = b := by decide
  constructor
  · exact compiled_is_selected bareSelector warmDigest 10 warmBlock hdigest hcollision
  · have hsound : (Compiler.fresh bareSelector).Sound bareSelector warmDigest
        (· ∈ warmBlock.filterMap CompileEvent.fullSource?) := Compiler.fresh_sound _
    have hwanted : warmCompiler.compiled.map Compiled.wanted =
        (warmBlock.filterMap (CompileEvent.wanted? bareSelector)).reverse ++ [] :=
      hsound.run_wanted hdigest (fun a b ha hb => hcollision a ha b hb)
        (fun e he source hsource => List.mem_filterMap.mpr ⟨e, he, hsource⟩) warmBlock_served
    rw [hwanted]
    simp only [warmBlock, CompileEvent.wanted?, List.filterMap_cons, List.filterMap_nil, selected_unarmed,
      selected_armed]
    rfl

end XChainVM.Runtime
