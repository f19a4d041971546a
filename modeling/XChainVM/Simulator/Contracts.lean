import XChainVM.Machine.Run
import XChainVM.Runtime.StateContinuity

/-! # Simulated contracts

Calls of the simulator are asynchronous: an execution is given the state when it begins, or when a
subprocess is sent it, and its result is committed when it ends, and a deploy may wait for the
manifest between taking its index and registering. Whatever overlaps, a result reaches the contract it was begun on and no other.
-/

namespace XChainVM.Simulator

open Js

def nearestDouble (n : ℤ) : ℤ :=
  if n.natAbs ≤ 2 ^ 53 then n
  else
    let step : ℤ := 2 ^ (n.natAbs.log2 - 52)
    let below := n / step
    if 2 * (n % step) < step ∨ 2 * (n % step) = step ∧ below % 2 = 0 then below * step else (below + 1) * step

structure SimContract where
  code : String
  address : String
  state : PlainObject

structure SimResult where
  success : Bool
  stateChanges : List (String × Value)
  stateDeletes : List String

def SimContract.commit (contract : SimContract) (result : SimResult) : SimContract :=
  { contract with state := Runtime.commit contract.state result.success (result.stateChanges, result.stateDeletes) }

structure Deploying where
  ticket : ℕ
  index : ℤ
  contract : SimContract

/-- An execution that has begun, with the contract object it holds and what it was given of it. -/
structure Running where
  ticket : ℕ
  object : ℕ
  given : SimContract

/-- A simulator. The last three fields are its history: the objects as they were made, the results in
the order they came in, and the indexes taken, newest first, with what was asked for. -/
structure Simulation where
  nextIndex : ℤ := 0
  contracts : List (ℤ × ℕ) := []
  objects : List SimContract := []
  deploying : List Deploying := []
  running : List Running := []
  tickets : ℕ := 0
  created : List SimContract := []
  finished : List (ℕ × SimResult) := []
  taken : List (Option ℤ × ℤ) := []

/-- What `deploy` is passed. -/
structure DeployOptions where
  code : String
  contractIndex : Option ℤ
  contractAddress : String
  state : PlainObject

inductive SimEvent where
  /-- A deploy begins. Only where its first checks pass does it wait for the manifest; otherwise
  it registers at once. A constructor may follow. -/
  | deploy (options : DeployOptions) (passes constructs : Bool)
  /-- The manifest is read, or reading it fails. -/
  | manifestRead (ticket : ℕ) (constructs : Option Bool)
  | execute (contractIndex : ℤ)
  /-- A virtual machine in a subprocess reads the state when the request is sent to it. -/
  | send (ticket : ℕ)
  /-- The virtual machine answers, or fails. -/
  | finish (ticket : ℕ) (result : Option SimResult)

namespace Simulation

variable (coin : String)

def takeIndex (contractIndex : Option ℤ) (s : Simulation) : ℤ × Simulation :=
  let index := contractIndex.getD s.nextIndex
  (index, { s with
    nextIndex := if s.nextIndex ≤ index then nearestDouble (index + 1) else s.nextIndex
    taken := (contractIndex, index) :: s.taken })

/-- `contracts.set(index, { code, address, state })` -/
def register (index : ℤ) (contract : SimContract) (s : Simulation) : Simulation :=
  { s with
    contracts := (index, s.objects.length) :: s.contracts
    objects := s.objects ++ [contract]
    created := s.created ++ [contract] }

/-- `execute`, up to its wait. With no contract at the index it throws. -/
def beginExecution (index : ℤ) (s : Simulation) : Simulation :=
  match s.contracts.lookup index with
  | none => s
  | some object =>
    match s.objects[object]? with
    | none => s
    | some given => { s with running := ⟨s.tickets, object, given⟩ :: s.running, tickets := s.tickets + 1 }

def construct (index : ℤ) (constructs : Bool) (s : Simulation) : Simulation :=
  if constructs then s.beginExecution index else s

def deploy (options : DeployOptions) (passes constructs : Bool) (s : Simulation) : Simulation :=
  let (index, s) := s.takeIndex options.contractIndex
  let address :=
    if options.contractAddress = "" then "C:" ++ coin ++ ":" ++ toString index else options.contractAddress
  let contract : SimContract := { code := options.code, address, state := options.state }
  if passes then
    { s with deploying := ⟨s.tickets, index, contract⟩ :: s.deploying, tickets := s.tickets + 1 }
  else (s.register index contract).construct index constructs

def manifestRead (ticket : ℕ) (constructs : Option Bool) (s : Simulation) : Simulation :=
  match s.deploying.find? (·.ticket = ticket) with
  | none => s
  | some d =>
    let s := { s with deploying := s.deploying.filter (·.ticket ≠ ticket) }
    match constructs with
    | none => s
    | some constructs => (s.register d.index d.contract).construct d.index constructs

def send (ticket : ℕ) (s : Simulation) : Simulation :=
  { s with
    running := s.running.map fun r =>
      if r.ticket = ticket then { r with given := s.objects[r.object]?.getD r.given } else r }

def finish (ticket : ℕ) (result : Option SimResult) (s : Simulation) : Simulation :=
  match s.running.find? (·.ticket = ticket) with
  | none => s
  | some r =>
    let s := { s with running := s.running.filter (·.ticket ≠ ticket) }
    match result with
    | none => s
    | some result =>
      { s with
        objects := s.objects.modify r.object (·.commit result)
        finished := s.finished ++ [(r.object, result)] }

def step (s : Simulation) : SimEvent → Simulation
  | .deploy options passes constructs => s.deploy coin options passes constructs
  | .manifestRead ticket constructs => s.manifestRead ticket constructs
  | .execute index => s.beginExecution index
  | .send ticket => s.send ticket
  | .finish ticket result => s.finish ticket result

def finishedOn (object : ℕ) (s : Simulation) : List SimResult :=
  s.finished.filterMap fun f => if f.1 = object then some f.2 else none

/-- Every object is a ledger of the results that came in for it, and an execution was given what the
earlier of them had left. -/
structure Isolated (s : Simulation) : Prop where
  object : ∀ id, s.objects[id]? = (s.created[id]?).map fun contract => (s.finishedOn id).foldl SimContract.commit contract
  given : ∀ r ∈ s.running, ∃ contract earlier, s.created[r.object]? = some contract ∧
    earlier <+: s.finishedOn r.object ∧ r.given = earlier.foldl SimContract.commit contract
  known : ∀ f ∈ s.finished, f.1 < s.created.length

namespace Isolated

variable {s : Simulation}

theorem takeIndex (h : s.Isolated) (contractIndex : Option ℤ) : (s.takeIndex contractIndex).2.Isolated :=
  ⟨h.object, h.given, h.known⟩

theorem length_eq (h : s.Isolated) : s.objects.length = s.created.length := by
  apply le_antisymm
  · by_contra hlt
    have := h.object s.created.length
    rw [List.getElem?_eq_none (le_refl _), Option.map_none, List.getElem?_eq_none_iff] at this
    omega
  · by_contra hlt
    have := h.object s.objects.length
    rw [List.getElem?_eq_none (le_refl _), eq_comm, Option.map_eq_none_iff, List.getElem?_eq_none_iff] at this
    omega

theorem finishedOn_new (h : s.Isolated) {id : ℕ} (hid : s.created.length ≤ id) : s.finishedOn id = [] := by
  apply List.filterMap_eq_nil_iff.mpr
  intro f hf
  rw [if_neg]
  have := h.known f hf
  omega

theorem register (h : s.Isolated) (index : ℤ) (contract : SimContract) : (s.register index contract).Isolated where
  object := by
    intro id
    change (s.objects ++ [contract])[id]? = ((s.created ++ [contract])[id]?).map _
    have hlength := h.length_eq
    obtain hlt | rfl | hgt := lt_trichotomy id s.created.length
    · rw [List.getElem?_append_left (hlength ▸ hlt), List.getElem?_append_left hlt]
      exact h.object id
    · have hnew : (s.register index contract).finishedOn s.created.length = [] := h.finishedOn_new (le_refl _)
      rw [List.getElem?_concat_length, hnew, ← hlength, List.getElem?_concat_length]
      rfl
    · rw [List.getElem?_eq_none, List.getElem?_eq_none]
      · rfl
      · rw [List.length_append, List.length_singleton]
        omega
      · rw [List.length_append, List.length_singleton]
        omega
  given := by
    intro r hr
    obtain ⟨contract', earlier, hcreated, hearlier, hgiven⟩ := h.given r hr
    refine ⟨contract', earlier, ?_, hearlier, hgiven⟩
    rw [← hcreated]
    exact List.getElem?_append_left (List.getElem?_eq_some_iff.mp hcreated).1
  known := by
    intro f hf
    change f.1 < (s.created ++ [contract]).length
    rw [List.length_append]
    exact Nat.lt_add_right _ (h.known f hf)

theorem beginExecution (h : s.Isolated) (index : ℤ) : (s.beginExecution index).Isolated := by
  unfold Simulation.beginExecution
  split
  · exact h
  · rename_i object _
    split
    · exact h
    · rename_i given hgiven
      refine ⟨h.object, ?_, h.known⟩
      rw [List.forall_mem_cons]
      refine ⟨?_, h.given⟩
      rw [h.object] at hgiven
      obtain ⟨contract, hcreated, rfl⟩ := Option.map_eq_some_iff.mp hgiven
      exact ⟨contract, _, hcreated, List.prefix_refl _, rfl⟩

theorem construct (h : s.Isolated) (index : ℤ) (constructs : Bool) : (s.construct index constructs).Isolated := by
  unfold Simulation.construct
  split
  · exact h.beginExecution index
  · exact h

theorem withDeploying (h : s.Isolated) (deploying : List Deploying) (tickets : ℕ) :
    Isolated { s with deploying, tickets } :=
  ⟨h.object, h.given, h.known⟩

theorem withRunning (h : s.Isolated) {running : List Running} (hrunning : running ⊆ s.running) :
    Isolated { s with running } :=
  ⟨h.object, fun r hr => h.given r (hrunning hr), h.known⟩

theorem finishedOn_append (s : Simulation) (object id : ℕ) (result : SimResult) :
    finishedOn id { s with finished := s.finished ++ [(object, result)] } =
      s.finishedOn id ++ if object = id then [result] else [] := by
  rw [finishedOn, List.filterMap_append]
  congr 1
  split
  case isTrue h => simp [h]
  case isFalse h => simp [h]

/-- A result is committed to the object it was begun on. -/
theorem commit (h : s.Isolated) {object : ℕ} (hobject : object < s.created.length) (result : SimResult) :
    Isolated { s with
      objects := s.objects.modify object (·.commit result)
      finished := s.finished ++ [(object, result)] } where
  object := by
    intro id
    change (s.objects.modify object _)[id]? = (s.created[id]?).map fun contract =>
      (finishedOn id { s with finished := s.finished ++ [(object, result)] }).foldl SimContract.commit contract
    rw [List.getElem?_modify, h.object, finishedOn_append]
    cases s.created[id]? with
    | none => rfl
    | some contract =>
      by_cases hid : object = id
      · simp [hid]
      · simp [hid]
  given := by
    intro r hr
    obtain ⟨contract, earlier, hcreated, hearlier, hgiven⟩ := h.given r hr
    refine ⟨contract, earlier, hcreated, ?_, hgiven⟩
    exact (finishedOn_append s object r.object result).symm ▸ hearlier.trans (List.prefix_append _ _)
  known := by
    intro f hf
    obtain hold | hnew := List.mem_append.mp hf
    · exact h.known f hold
    · rw [List.mem_singleton.mp hnew]
      exact hobject

theorem deploy (h : s.Isolated) (coin : String) (options : DeployOptions) (passes constructs : Bool) :
    (s.deploy coin options passes constructs).Isolated := by
  have htaken := h.takeIndex options.contractIndex
  unfold Simulation.deploy
  dsimp only
  split
  · exact htaken.withDeploying _ _
  · exact (htaken.register _ _).construct _ constructs

theorem manifestRead (h : s.Isolated) (ticket : ℕ) (constructs : Option Bool) :
    (s.manifestRead ticket constructs).Isolated := by
  unfold Simulation.manifestRead
  split
  · exact h
  · rename_i d _
    have hread := h.withDeploying (s.deploying.filter (·.ticket ≠ ticket)) s.tickets
    cases constructs with
    | none => exact hread
    | some constructs => exact (hread.register d.index d.contract).construct d.index constructs

theorem send (h : s.Isolated) (ticket : ℕ) : (s.send ticket).Isolated := by
  refine ⟨h.object, ?_, h.known⟩
  intro _ hsent
  obtain ⟨r, hr, rfl⟩ := List.mem_map.mp hsent
  obtain ⟨contract, earlier, hcreated, hearlier, hgiven⟩ := h.given r hr
  split
  · -- the object as it is now
    refine ⟨contract, _, hcreated, List.prefix_refl _, ?_⟩
    change s.objects[r.object]?.getD r.given = _
    rw [h.object, hcreated]
    rfl
  · exact ⟨contract, earlier, hcreated, hearlier, hgiven⟩

theorem finish (h : s.Isolated) (ticket : ℕ) (result : Option SimResult) : (s.finish ticket result).Isolated := by
  unfold Simulation.finish
  split
  · exact h
  · rename_i r hfind
    have hsubset : s.running.filter (·.ticket ≠ ticket) ⊆ s.running := List.filter_sublist.subset
    have hrest := h.withRunning hsubset
    cases result with
    | none => exact hrest
    | some result =>
      obtain ⟨contract, -, hcreated, -⟩ := h.given r (List.mem_of_find?_eq_some hfind)
      exact hrest.commit (List.getElem?_eq_some_iff.mp hcreated).1 result

theorem step (h : s.Isolated) (coin : String) (e : SimEvent) : (s.step coin e).Isolated := by
  cases e with
  | deploy options passes constructs => exact h.deploy coin options passes constructs
  | manifestRead ticket constructs => exact h.manifestRead ticket constructs
  | execute index => exact h.beginExecution index
  | send ticket => exact h.send ticket
  | finish ticket result => exact h.finish ticket result

theorem empty : Isolated {} where
  object := by
    intro id
    rfl
  given := by
    rintro r ⟨⟩
  known := by
    rintro f ⟨⟩

end Isolated

theorem nearestDouble_of_le {n : ℤ} (hn : 0 ≤ n) (h : n ≤ 2 ^ 53) : nearestDouble n = n := by
  unfold nearestDouble
  rw [if_pos]
  omega

/-- An index that nobody asked for lies above all that were taken before it, and contracts are
registered at the indexes taken. -/
structure Numbered (s : Simulation) : Prop where
  nonneg : 0 ≤ s.nextIndex
  below : ∀ t ∈ s.taken, t.2 < s.nextIndex
  fresh : s.taken.Pairwise fun later earlier => later.1 = none → earlier.2 < later.2
  waiting : ∀ d ∈ s.deploying, d.index ∈ s.taken.map Prod.snd
  registered : ∀ c ∈ s.contracts, c.1 ∈ s.taken.map Prod.snd

namespace Numbered

variable {s : Simulation}

theorem register (h : s.Numbered) {index : ℤ} (hindex : index ∈ s.taken.map Prod.snd) (contract : SimContract) :
    (s.register index contract).Numbered :=
  { h with registered := List.forall_mem_cons.mpr ⟨hindex, h.registered⟩ }

theorem beginExecution (h : s.Numbered) (index : ℤ) : (s.beginExecution index).Numbered := by
  unfold Simulation.beginExecution
  split
  · exact h
  · split
    · exact h
    · exact ⟨h.nonneg, h.below, h.fresh, h.waiting, h.registered⟩

theorem construct (h : s.Numbered) (index : ℤ) (constructs : Bool) : (s.construct index constructs).Numbered := by
  unfold Simulation.construct
  split
  · exact h.beginExecution index
  · exact h

theorem manifestRead (h : s.Numbered) (ticket : ℕ) (constructs : Option Bool) :
    (s.manifestRead ticket constructs).Numbered := by
  unfold Simulation.manifestRead
  split
  · exact h
  · rename_i d hfind
    have hread : Numbered { s with deploying := s.deploying.filter (·.ticket ≠ ticket) } :=
      { h with waiting := fun d hd => h.waiting d (List.mem_filter.mp hd).1 }
    cases constructs with
    | none => exact hread
    | some constructs => exact (hread.register (h.waiting d (List.mem_of_find?_eq_some hfind)) _).construct _ constructs

theorem finish (h : s.Numbered) (ticket : ℕ) (result : Option SimResult) : (s.finish ticket result).Numbered := by
  unfold Simulation.finish
  split
  · exact h
  · cases result with
    | none => exact ⟨h.nonneg, h.below, h.fresh, h.waiting, h.registered⟩
    | some result => exact ⟨h.nonneg, h.below, h.fresh, h.waiting, h.registered⟩

/-- As long as the next index is exact, the one taken is passed by it. -/
theorem takeIndex (h : s.Numbered) {contractIndex : Option ℤ} (hroom : s.nextIndex < 2 ^ 53)
    (hexplicit : ∀ i ∈ contractIndex, i < 2 ^ 53) :
    (s.takeIndex contractIndex).2.Numbered ∧ (s.takeIndex contractIndex).1 ∈ (s.takeIndex contractIndex).2.taken.map Prod.snd ∧
      ((s.takeIndex contractIndex).2.nextIndex ≤ s.nextIndex + 1 ∨
        ∃ i ∈ contractIndex, (s.takeIndex contractIndex).2.nextIndex ≤ i + 1) := by
  have hpass : s.nextIndex ≤ (s.takeIndex contractIndex).2.nextIndex ∧
      (s.takeIndex contractIndex).1 < (s.takeIndex contractIndex).2.nextIndex ∧
      ((s.takeIndex contractIndex).2.nextIndex ≤ s.nextIndex + 1 ∨
        ∃ i ∈ contractIndex, (s.takeIndex contractIndex).2.nextIndex ≤ i + 1) := by
    have hnonneg := h.nonneg
    unfold Simulation.takeIndex
    cases contractIndex with
    | none =>
      dsimp only [Option.getD_none]
      rw [if_pos (le_refl _), nearestDouble_of_le (by omega) (by omega)]
      exact ⟨by omega, by omega, .inl (le_refl _)⟩
    | some i =>
      have hi := hexplicit i rfl
      dsimp only [Option.getD_some]
      split
      case isTrue hle =>
        rw [nearestDouble_of_le (by omega) (by omega)]
        exact ⟨by omega, by omega, .inr ⟨i, rfl, le_refl _⟩⟩
      case isFalse hgt => exact ⟨le_refl _, by omega, .inl (by omega)⟩
  obtain ⟨hle, hlt, hnext⟩ := hpass
  refine ⟨?_, List.mem_cons_self, hnext⟩
  constructor
  · exact h.nonneg.trans hle
  · exact List.forall_mem_cons.mpr ⟨hlt, fun t ht => (h.below t ht).trans_le hle⟩
  · apply List.pairwise_cons.mpr
    refine ⟨?_, h.fresh⟩
    rintro t ht rfl
    exact h.below t ht
  · intro d hd
    exact List.mem_cons_of_mem _ (h.waiting d hd)
  · intro c hc
    exact List.mem_cons_of_mem _ (h.registered c hc)

end Numbered

end Simulation

def SimEvent.contractIndex? : SimEvent → Option ℤ
  | .deploy options _ _ => options.contractIndex
  | _ => none

namespace Simulation

variable {coin : String} {s : Simulation}

theorem nextIndex_beginExecution (s : Simulation) (index : ℤ) : (s.beginExecution index).nextIndex = s.nextIndex := by
  unfold beginExecution
  split
  · rfl
  · split
    · rfl
    · rfl

theorem nextIndex_construct (s : Simulation) (index : ℤ) (constructs : Bool) :
    (s.construct index constructs).nextIndex = s.nextIndex := by
  unfold construct
  split
  · exact nextIndex_beginExecution s index
  · rfl

theorem nextIndex_manifestRead (s : Simulation) (ticket : ℕ) (constructs : Option Bool) :
    (s.manifestRead ticket constructs).nextIndex = s.nextIndex := by
  unfold manifestRead
  split
  · rfl
  · cases constructs with
    | none => rfl
    | some constructs => exact nextIndex_construct _ _ _

theorem nextIndex_finish (s : Simulation) (ticket : ℕ) (result : Option SimResult) :
    (s.finish ticket result).nextIndex = s.nextIndex := by
  unfold finish
  split
  · rfl
  · cases result with
    | none => rfl
    | some result => rfl

theorem nextIndex_deploy (s : Simulation) (options : DeployOptions) (passes constructs : Bool) :
    (s.deploy coin options passes constructs).nextIndex = (s.takeIndex options.contractIndex).2.nextIndex := by
  unfold deploy
  dsimp only
  split
  · rfl
  · exact nextIndex_construct _ _ _

theorem Numbered.deploy (h : s.Numbered) (options : DeployOptions) (passes constructs : Bool)
    (hroom : s.nextIndex < 2 ^ 53) (hexplicit : ∀ i ∈ options.contractIndex, i < 2 ^ 53) :
    (s.deploy coin options passes constructs).Numbered := by
  obtain ⟨hnumbered, hindex, -⟩ := h.takeIndex hroom hexplicit
  unfold Simulation.deploy
  dsimp only
  split
  · exact { hnumbered with waiting := List.forall_mem_cons.mpr ⟨hindex, hnumbered.waiting⟩ }
  · exact (hnumbered.register hindex _).construct _ constructs

/-- A step passes the next index on by one at most, or to just above the index that it asks for. -/
theorem Numbered.step (h : s.Numbered) (e : SimEvent) (hroom : s.nextIndex < 2 ^ 53)
    (hexplicit : ∀ i ∈ e.contractIndex?, i < 2 ^ 53) :
    (s.step coin e).Numbered ∧ ((s.step coin e).nextIndex ≤ s.nextIndex + 1 ∨
      ∃ i ∈ e.contractIndex?, (s.step coin e).nextIndex ≤ i + 1) := by
  cases e with
  | deploy options passes constructs =>
    refine ⟨h.deploy options passes constructs hroom hexplicit, ?_⟩
    rw [Simulation.step, nextIndex_deploy]
    exact (h.takeIndex hroom hexplicit).2.2
  | manifestRead ticket constructs =>
    refine ⟨h.manifestRead ticket constructs, .inl ?_⟩
    rw [Simulation.step, nextIndex_manifestRead]
    omega
  | execute index =>
    refine ⟨h.beginExecution index, .inl ?_⟩
    rw [Simulation.step, nextIndex_beginExecution]
    omega
  | send ticket =>
    refine ⟨⟨h.nonneg, h.below, h.fresh, h.waiting, h.registered⟩, .inl ?_⟩
    change s.nextIndex ≤ s.nextIndex + 1
    omega
  | finish ticket result =>
    refine ⟨h.finish ticket result, .inl ?_⟩
    rw [Simulation.step, nextIndex_finish]
    omega

theorem Numbered.run {events : List SimEvent} (h : s.Numbered) (hroom : s.nextIndex + events.length ≤ 2 ^ 53)
    (hexplicit : ∀ e ∈ events, ∀ i ∈ e.contractIndex?, i + events.length ≤ 2 ^ 53) :
    (Machine.run (Simulation.step coin) s events).Numbered := by
  induction events generalizing s with
  | nil => exact h
  | cons e events ih =>
    rw [List.length_cons] at hroom hexplicit
    push_cast at hroom hexplicit
    obtain ⟨he, hevents⟩ := List.forall_mem_cons.mp hexplicit
    have hbelow : ∀ i ∈ e.contractIndex?, i < 2 ^ 53 := by
      intro i hi
      have := he i hi
      omega
    obtain ⟨hnumbered, hnext⟩ : (s.step coin e).Numbered ∧ ((s.step coin e).nextIndex ≤ s.nextIndex + 1 ∨
        ∃ i ∈ e.contractIndex?, (s.step coin e).nextIndex ≤ i + 1) := h.step e (by omega) hbelow
    apply ih hnumbered
    · obtain hnext | ⟨i, hi, hnext⟩ := hnext
      · omega
      · have := he i hi
        omega
    · intro e he i hi
      have := hevents e he i hi
      omega

theorem Numbered.empty : Numbered {} where
  nonneg := le_refl _
  below := by
    rintro t ⟨⟩
  fresh := List.Pairwise.nil
  waiting := by
    rintro d ⟨⟩
  registered := by
    rintro c ⟨⟩

end Simulation

/-- In every interleaving of deploys and executions each contract is a ledger of its own: its state is
what the results of the executions begun on it commit, in the order they came in, and an execution
was given what those before it had left. While indexes stay exact, an automatic deploy takes one
above all that were taken before it. -/
theorem contracts_isolated (coin : String) (events : List SimEvent) :
    let s := Machine.run (Simulation.step coin) {} events
    s.Isolated ∧
      (events.length ≤ 2 ^ 53 → (∀ e ∈ events, ∀ i ∈ e.contractIndex?, i + events.length ≤ 2 ^ 53) → s.Numbered) := by
  intro s
  constructor
  · exact Machine.run_invariant (fun s e h => h.step coin e) Simulation.Isolated.empty events
  · intro hlength hexplicit
    apply Simulation.Numbered.empty.run
    · change (0 : ℤ) + events.length ≤ 2 ^ 53
      omega
    · exact hexplicit

/-- Two executions overlap on the contract at 0 and a third runs on the one at 7. -/
theorem contracts_isolated_overlap :
    let initial : PlainObject := ⟨[], .objectPrototype, List.nodup_nil⟩
    let options : DeployOptions := ⟨"module.exports = {};", none, "", initial⟩
    let events : List SimEvent :=
      [.deploy options true false, .deploy { options with contractIndex := some 7 } false false,
        .manifestRead 0 (some false), .execute 0, .execute 7, .execute 0,
        .finish 3 (some ⟨true, [("a", .null)], []⟩), .finish 1 (some ⟨true, [("b", .null)], ["a"]⟩),
        .finish 2 none]
    let s := Machine.run (Simulation.step "BTC") {} events
    s.Isolated ∧ s.Numbered ∧
      s.objects.map (fun contract => (contract.address, contract.state.own.map Prod.fst)) =
        [("C:BTC:7", []), ("C:BTC:0", ["b"])] := by
  intro initial options events s
  obtain ⟨hisolated, hnumbered⟩ := contracts_isolated "BTC" events
  exact ⟨hisolated, hnumbered (by decide) (by decide), by decide +kernel⟩

end XChainVM.Simulator
