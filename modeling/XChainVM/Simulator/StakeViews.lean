import Mathlib.Data.List.Induction
import XChainVM.Machine.Run
import XChainVM.Simulator.Stakes

/-! # The views agree

The three views of a bucket are those of the last amount that each staker was given: the roster
is the only list of its stakes in order, whatever order they were seeded in.
-/

namespace XChainVM.Simulator

open Js Math

def Stake.place (s : Stake) : (WithBot (WithTop ℚ))ᵒᵈ ×ₗ List ℕ :=
  toLex (OrderDual.toDual s.big.rank, utf16 s.pubkey)

theorem before_iff {s t : String} : before s t ↔ utf16 s < utf16 t := decide_eq_true_iff

theorem stakeOrder_le_zero {a b : Stake} (ha : a.big.isNumber) (hb : b.big.isNumber) :
    stakeOrder a b ≤ 0 ↔ a.place ≤ b.place := by
  have hplace : a.place ≤ b.place ↔
      b.big.rank < a.big.rank ∨ a.big.rank = b.big.rank ∧ utf16 a.pubkey ≤ utf16 b.pubkey := by
    rw [Stake.place, Stake.place, Prod.Lex.toLex_le_toLex, OrderDual.toDual_lt_toDual, OrderDual.toDual_inj]
  rw [hplace, stakeOrder]
  simp only [BigNumber.gt_iff hb ha, BigNumber.gt_iff ha hb, before_iff]
  obtain hrank | hrank | hrank := lt_trichotomy a.big.rank b.big.rank
  · simp [hrank, hrank.not_gt, hrank.ne]
  · obtain hkey | hkey | hkey := lt_trichotomy (utf16 a.pubkey) (utf16 b.pubkey)
    · simp [hrank, hkey, hkey.le]
    · simp [hrank, hkey]
    · simp [hrank, hkey, hkey.not_gt, hkey.not_ge]
  · simp [hrank, hrank.not_gt]

theorem stakeOrder_asymm {a b : Stake} (hab : stakeOrder a b = -1) : stakeOrder b a ≠ -1 := by
  intro hba
  unfold stakeOrder at hab hba
  split at hab
  · omega
  · split at hab
    · simp_all
    · split at hab
      · rename_i hbefore
        have hnot : ¬before b.pubkey a.pubkey := by
          rw [before_iff]
          exact (before_iff.mp hbefore).not_gt
        simp_all
      · split at hab
        · omega
        · omega

theorem stakeOrder_eq {a b : Stake} (ha : a.big.isNumber) (hb : b.big.isNumber) (hle : a.place ≤ b.place)
    (hne : a.pubkey ≠ b.pubkey) : stakeOrder a b = -1 := by
  have horder := (stakeOrder_le_zero ha hb).mpr hle
  have hkey : before a.pubkey b.pubkey ∨ before b.pubkey a.pubkey := by
    rw [before_iff, before_iff]
    exact lt_or_gt_of_ne fun h => hne (utf16_injective h)
  unfold stakeOrder at horder ⊢
  split at horder
  · omega
  · split
    · contradiction
    · split
      · rfl
      · split
        · rfl
        · simp_all

theorem sortStakes_perm (stakes : List Stake) : (sortStakes stakes).Perm stakes := List.mergeSort_perm _ _

theorem sortStakes_sorted {stakes : List Stake} (h : ∀ s ∈ stakes, s.big.isNumber) :
    (sortStakes stakes).Pairwise fun a b => a.place ≤ b.place := by
  have hsort : sortStakes stakes = stakes.mergeSort fun a b => a.place ≤ b.place := by
    have hmap : ((stakes.mergeSort fun a b => stakeOrder a b ≤ 0).map id) =
        (stakes.map id).mergeSort fun a b => a.place ≤ b.place := by
      apply List.map_mergeSort
      intro a ha b hb
      rw [decide_eq_decide]
      exact stakeOrder_le_zero (h a ha) (h b hb)
    rwa [List.map_id, List.map_id] at hmap
  have hpairwise : (stakes.mergeSort fun a b => decide (a.place ≤ b.place)).Pairwise
      fun a b => decide (a.place ≤ b.place) = true :=
    List.pairwise_mergeSort (by simpa using fun a b c => le_trans)
      (by simpa using fun a b : Stake => le_total a.place b.place) stakes
  rw [hsort]
  simpa only [decide_eq_true_eq] using hpairwise

/-- The stakes of a token in order, for the amounts that were last given. -/
structure Roster (lib : StakeLibrary) (last : String → String → Option String) (token : String)
    (roster : List Stake) : Prop where
  sorted : roster.Pairwise fun a b => stakeOrder a b = -1
  mem : ∀ s, s ∈ roster ↔
    last s.pubkey token = some s.amount ∧ lib.bignumber s.amount = some s.big ∧ s.big.isZero = false

variable {lib : StakeLibrary} {last : String → String → Option String}

theorem Roster.unique {token : String} {roster roster' : List Stake} (h : Roster lib last token roster)
    (h' : Roster lib last token roster') : roster = roster' := by
  have hnodup {r : List Stake} (hr : Roster lib last token r) : r.Nodup := by
    apply hr.sorted.imp
    rintro a b hab rfl
    exact stakeOrder_asymm hab hab
  have hperm : roster.Perm roster' :=
    (List.perm_ext_iff_of_nodup (hnodup h) (hnodup h')).mpr fun s => (h.mem s).trans (h'.mem s).symm
  apply hperm.eq_of_pairwise _ h.sorted h'.sorted
  intro a b _ _ hab hba
  exact absurd hba (stakeOrder_asymm hab)

section Keys

variable {pk tk : String}

theorem toList_key (pk tk : String) : (pk ++ "|" ++ tk).toList = pk.toList ++ '|' :: tk.toList := by
  simp [String.toList_append]

theorem pubkeyOf_key (h : '|' ∉ pk.toList) : pubkeyOf (pk ++ "|" ++ tk) = pk := by
  have htake : (pk.toList ++ '|' :: tk.toList).takeWhile (· ≠ '|') = pk.toList := by
    rw [List.takeWhile_append_of_pos, List.takeWhile_cons_of_neg (by simp), List.append_nil]
    intro c hc
    simpa using ne_of_mem_of_not_mem hc h
  rw [pubkeyOf, toList_key, htake, String.ofList_toList]

theorem tickOf_key (h : '|' ∉ pk.toList) : tickOf (pk ++ "|" ++ tk) = tk := by
  have hdrop : (pk.toList ++ '|' :: tk.toList).dropWhile (· ≠ '|') = '|' :: tk.toList := by
    rw [List.dropWhile_append_of_pos, List.dropWhile_cons_of_neg (by simp)]
    intro c hc
    simpa using ne_of_mem_of_not_mem hc h
  rw [tickOf, toList_key, hdrop, List.drop_succ_cons, List.drop_zero, String.ofList_toList]

end Keys

def stake? (lib : StakeLibrary) (token : String) (entry : String × String) : Option Stake :=
  if tickOf entry.1 = token then
    match lib.bignumber entry.2 with
    | some big => if big.isZero then none else some ⟨pubkeyOf entry.1, entry.2, big⟩
    | none => none
  else none

theorem stake?_eq_some_iff {token : String} {entry : String × String} {s : Stake} :
    stake? lib token entry = some s ↔ tickOf entry.1 = token ∧ s.pubkey = pubkeyOf entry.1 ∧ s.amount = entry.2 ∧
      lib.bignumber entry.2 = some s.big ∧ s.big.isZero = false := by
  obtain ⟨pubkey, amount, big⟩ := s
  unfold stake?
  split
  case isFalse h => simp [h]
  case isTrue h =>
    cases hbig : lib.bignumber entry.2 with
    | none => simp
    | some b =>
      cases hzero : b.isZero
      · simp only [h, hzero, Bool.false_eq_true, if_false, Option.some.injEq, Stake.mk.injEq, true_and]
        constructor
        · rintro ⟨rfl, rfl, rfl⟩
          exact ⟨rfl, rfl, rfl, hzero⟩
        · rintro ⟨rfl, rfl, rfl, -⟩
          exact ⟨rfl, rfl, rfl⟩
      · simp only [h, hzero, if_true, reduceCtorEq, true_and, false_iff, not_and, Bool.not_eq_false]
        rintro - - hb
        cases hb
        exact hzero

theorem stakesOf_eq {token : String} {entries : List (String × String)}
    (h : ∀ entry ∈ entries, ∃ big, lib.bignumber entry.2 = some big) :
    stakesOf lib token entries = .ok (entries.filterMap (stake? lib token)) := by
  induction entries with
  | nil => rfl
  | cons entry entries ih =>
    obtain ⟨key, amt⟩ := entry
    obtain ⟨⟨big, hbig⟩, hrest⟩ := List.forall_mem_cons.mp h
    rw [stakesOf, ih hrest, List.filterMap_cons]
    by_cases htick : tickOf key = token
    · cases hzero : big.isZero
      all_goals simp [htick, stakeAmount, stake?, hbig, hzero, bind, Except.bind, pure, Except.pure]
    · simp [htick, stake?]

/-- The bucket holds the amounts that were last given, and both of its other views are up to date. -/
structure Bucket.Holds (lib : StakeLibrary) (last : String → String → Option String) (bucket : Bucket) : Prop where
  nodup : (bucket.stakeByPubkeyTick.map Prod.fst).Nodup
  entries : ∀ key amt, (key, amt) ∈ bucket.stakeByPubkeyTick ↔
    ∃ pk tk, '|' ∉ pk.toList ∧ key = pk ++ "|" ++ tk ∧ last pk tk = some amt
  bars : ∀ pk tk, last pk tk ≠ none → '|' ∉ pk.toList
  numbers : ∀ pk tk amt, last pk tk = some amt → ∃ big, lib.bignumber amt = some big ∧ big.isNumber
  seeded : ∀ pk tk, tk ≠ "__proto__" → last pk tk ≠ none →
    let roster := sortStakes (bucket.stakeByPubkeyTick.filterMap (stake? lib tk))
    bucket.stakersByTick.own.lookup tk = some (.array ((roster.take MAX_STAKERS_PER_TICK).map stakerValue)) ∧
      bucket.totalByTick.own.lookup tk = some (.string (totalOf lib roster))
  unseeded : ∀ tk, tk ≠ "__proto__" → (∀ pk, last pk tk = none) →
    bucket.stakersByTick.own.lookup tk = none ∧ bucket.totalByTick.own.lookup tk = none

namespace Bucket.Holds

variable {bucket : Bucket}

theorem roster (h : bucket.Holds lib last) (token : String) :
    Roster lib last token (sortStakes (bucket.stakeByPubkeyTick.filterMap (stake? lib token))) := by
  have hmem (s : Stake) : s ∈ bucket.stakeByPubkeyTick.filterMap (stake? lib token) ↔
      last s.pubkey token = some s.amount ∧ lib.bignumber s.amount = some s.big ∧ s.big.isZero = false := by
    simp only [List.mem_filterMap, Prod.exists, stake?_eq_some_iff]
    constructor
    · rintro ⟨key, amt, hentry, htick, hpubkey, hamount, hbig, hzero⟩
      obtain ⟨pk, tk, hbar, rfl, hlast⟩ := (h.entries key amt).mp hentry
      rw [tickOf_key hbar] at htick
      rw [pubkeyOf_key hbar] at hpubkey
      subst htick hamount
      rw [hpubkey]
      exact ⟨hlast, hbig, hzero⟩
    · rintro ⟨hlast, hbig, hzero⟩
      have hbar : '|' ∉ s.pubkey.toList := h.bars s.pubkey token (by simp [hlast])
      refine ⟨s.pubkey ++ "|" ++ token, s.amount, ?_, tickOf_key hbar, (pubkeyOf_key hbar).symm, rfl, hbig, hzero⟩
      exact (h.entries _ _).mpr ⟨s.pubkey, token, hbar, rfl, hlast⟩
  have hnumber (s : Stake) (hs : s ∈ bucket.stakeByPubkeyTick.filterMap (stake? lib token)) : s.big.isNumber := by
    obtain ⟨hlast, hbig, -⟩ := (hmem s).mp hs
    obtain ⟨big, hbig', hnumber⟩ := h.numbers _ _ _ hlast
    rw [hbig] at hbig'
    cases hbig'
    exact hnumber
  have hdistinct : (bucket.stakeByPubkeyTick.filterMap (stake? lib token)).Pairwise fun a b => a.pubkey ≠ b.pubkey := by
    rw [List.pairwise_filterMap]
    apply (List.pairwise_map.mp h.nodup).imp_of_mem
    rintro ⟨key, amt⟩ ⟨key', amt'⟩ hentry hentry' hne s hs s' hs' hpubkey
    apply hne
    obtain ⟨pk, tk, hbar, rfl, -⟩ := (h.entries key amt).mp hentry
    obtain ⟨pk', tk', hbar', rfl, -⟩ := (h.entries key' amt').mp hentry'
    obtain ⟨htick, hpk, -⟩ := stake?_eq_some_iff.mp hs
    obtain ⟨htick', hpk', -⟩ := stake?_eq_some_iff.mp hs'
    dsimp only at htick hpk htick' hpk' ⊢
    rw [tickOf_key hbar] at htick
    rw [tickOf_key hbar'] at htick'
    rw [pubkeyOf_key hbar] at hpk
    rw [pubkeyOf_key hbar'] at hpk'
    rw [htick, htick', ← hpk, ← hpk', hpubkey]
  constructor
  · have hperm := sortStakes_perm (bucket.stakeByPubkeyTick.filterMap (stake? lib token))
    have hsorted := (sortStakes_sorted hnumber).and (hdistinct.perm hperm.symm fun h => h.symm)
    apply hsorted.imp_of_mem
    rintro a b ha hb ⟨hle, hne⟩
    exact stakeOrder_eq (hnumber a (hperm.mem_iff.mp ha)) (hnumber b (hperm.mem_iff.mp hb)) hle hne
  · intro s
    rw [(sortStakes_perm _).mem_iff]
    exact hmem s

theorem empty : Bucket.Holds lib (fun _ _ => none) {} where
  nodup := List.nodup_nil
  entries := by simp
  bars := by simp
  numbers := by simp
  seeded := by simp
  unseeded := by
    intro tk _ _
    exact ⟨rfl, rfl⟩

end Bucket.Holds

theorem mem_setKey {key name : String} {v w : String} {fields : List (String × String)}
    (h : (fields.map Prod.fst).Nodup) :
    (name, w) ∈ setKey key v fields ↔ name = key ∧ w = v ∨ name ≠ key ∧ (name, w) ∈ fields := by
  have hlookup (fields : List (String × String)) (h : (fields.map Prod.fst).Nodup) :
      (name, w) ∈ fields ↔ fields.lookup name = some w := ⟨lookup_of_mem h, mem_of_lookup⟩
  rw [hlookup _ (nodup_setKey h), hlookup _ h, lookup_setKey]
  by_cases hname : name = key
  · simp [hname, eq_comm]
  · simp [hname]

theorem filterMap_setKey {β : Type*} {key v : String} {f : String × String → Option β} (h : ∀ w, f (key, w) = none)
    (fields : List (String × String)) : (setKey key v fields).filterMap f = fields.filterMap f := by
  induction fields with
  | nil => simp [setKey, h]
  | cons field rest ih =>
    obtain ⟨name, w⟩ := field
    rw [setKey]
    split
    case isTrue hname =>
      subst hname
      rw [List.filterMap_cons_none (h v), List.filterMap_cons_none (h w)]
    case isFalse => rw [List.filterMap_cons, ih, List.filterMap_cons]

theorem own_lookup_set {o : PlainObject} {key name : String} {v : Value} (hname : name ≠ "__proto__") :
    (o.set key v).own.lookup name = if name = key then some v else o.own.lookup name := by
  unfold PlainObject.set
  split
  case isFalse => exact lookup_setKey name o.own
  case isTrue h =>
    rw [if_neg (h.1.symm ▸ hname)]
    split
    all_goals rfl

def given (pk tk amount : String) (last : String → String → Option String) : String → String → Option String :=
  fun pk' tk' => if pk' = pk ∧ tk' = tk then some amount else last pk' tk'

section Seed

variable {bucket : Bucket} {pk tk amount : String}

theorem given_self : given pk tk amount last pk tk = some amount := if_pos ⟨rfl, rfl⟩

theorem given_of_ne {pk' tk' : String} (h : ¬(pk' = pk ∧ tk' = tk)) : given pk tk amount last pk' tk' = last pk' tk' :=
  if_neg h

/-- What holds of the amount given and of those given before holds of them all. -/
theorem of_given {P : String → String → Prop} (hself : P pk amount) (hlast : ∀ pk' tk' amt, last pk' tk' = some amt → P pk' amt)
    {pk' tk' amt : String} (h : given pk tk amount last pk' tk' = some amt) : P pk' amt := by
  rw [given] at h
  split at h
  case isTrue heq =>
    cases h
    exact heq.1 ▸ hself
  case isFalse => exact hlast pk' tk' amt h

theorem key_inj {pk' tk' : String} (hbar : '|' ∉ pk.toList) (hbar' : '|' ∉ pk'.toList)
    (h : pk' ++ "|" ++ tk' = pk ++ "|" ++ tk) : pk' = pk ∧ tk' = tk := by
  have hpk := congrArg pubkeyOf h
  have htk := congrArg tickOf h
  rw [pubkeyOf_key hbar', pubkeyOf_key hbar] at hpk
  rw [tickOf_key hbar', tickOf_key hbar] at htk
  exact ⟨hpk, htk⟩

theorem Bucket.Holds.entries_seed (h : bucket.Holds lib last) (hbar : '|' ∉ pk.toList) (key amt : String) :
    (key, amt) ∈ setKey (pk ++ "|" ++ tk) amount bucket.stakeByPubkeyTick ↔
      ∃ pk' tk', '|' ∉ pk'.toList ∧ key = pk' ++ "|" ++ tk' ∧ given pk tk amount last pk' tk' = some amt := by
  rw [mem_setKey h.nodup, h.entries]
  constructor
  · rintro (⟨rfl, rfl⟩ | ⟨hne, pk', tk', hbar', rfl, hlast⟩)
    · exact ⟨pk, tk, hbar, rfl, given_self⟩
    · refine ⟨pk', tk', hbar', rfl, (given_of_ne ?_).trans hlast⟩
      rintro ⟨rfl, rfl⟩
      exact hne rfl
  · rintro ⟨pk', tk', hbar', rfl, hlast⟩
    rw [given] at hlast
    split at hlast
    case isTrue heq =>
      obtain ⟨rfl, rfl⟩ := heq
      exact .inl ⟨rfl, (Option.some.inj hlast).symm⟩
    case isFalse hne => exact .inr ⟨fun hkey => hne (key_inj hbar hbar' hkey), pk', tk', hbar', rfl, hlast⟩

/-- The stakes of the other tokens stay. -/
theorem stakes_setKey (hbar : '|' ∉ pk.toList) {tk' : String} (hne : tk' ≠ tk) (entries : List (String × String)) :
    (setKey (pk ++ "|" ++ tk) amount entries).filterMap (stake? lib tk') = entries.filterMap (stake? lib tk') := by
  apply filterMap_setKey
  intro w
  rw [stake?, if_neg]
  rw [tickOf_key hbar]
  exact hne.symm

theorem Bucket.Holds.seed (h : bucket.Holds lib last) (hbar : '|' ∉ pk.toList) {big : BigNumber}
    (hbig : lib.bignumber amount = some big) (hnumber : big.isNumber) :
    (bucket.seed lib pk tk amount).1 = .ok () ∧ (bucket.seed lib pk tk amount).2.Holds lib (given pk tk amount last) := by
  have hnumbers (pk' tk' amt : String) (hlast : given pk tk amount last pk' tk' = some amt) :
      ∃ big, lib.bignumber amt = some big ∧ big.isNumber :=
    of_given (P := fun _ amt => ∃ big, lib.bignumber amt = some big ∧ big.isNumber) ⟨big, hbig, hnumber⟩ h.numbers hlast
  have hparses : ∀ entry ∈ setKey (pk ++ "|" ++ tk) amount bucket.stakeByPubkeyTick, ∃ big, lib.bignumber entry.2 = some big := by
    rintro ⟨key, amt⟩ hentry
    obtain ⟨pk', tk', -, -, hlast⟩ := (h.entries_seed hbar key amt).mp hentry
    obtain ⟨big, hbig, -⟩ := hnumbers pk' tk' amt hlast
    exact ⟨big, hbig⟩
  rw [Bucket.seed, stakesOf_eq hparses]
  refine ⟨rfl, nodup_setKey h.nodup, h.entries_seed hbar, ?_, hnumbers, ?_, ?_⟩
  · intro pk' tk' hlast
    obtain ⟨amt, hamt⟩ := Option.ne_none_iff_exists'.mp hlast
    refine of_given (P := fun pk _ => '|' ∉ pk.toList) hbar ?_ hamt
    intro pk' tk' amt hlast
    exact h.bars pk' tk' (by simp [hlast])
  · intro pk' tk' hproto hlast
    dsimp only
    rw [own_lookup_set hproto, own_lookup_set hproto]
    by_cases htk : tk' = tk
    · subst htk
      exact ⟨if_pos rfl, if_pos rfl⟩
    · rw [if_neg htk, if_neg htk, stakes_setKey hbar htk]
      rw [given_of_ne fun heq => htk heq.2] at hlast
      exact h.seeded pk' tk' hproto hlast
  · intro tk' hproto hlast
    have htk : tk' ≠ tk := by
      rintro rfl
      exact absurd (given_self.symm.trans (hlast pk)) (by simp)
    dsimp only
    rw [own_lookup_set hproto, own_lookup_set hproto, if_neg htk, if_neg htk]
    apply h.unseeded tk' hproto
    intro pk'
    exact (given_of_ne fun heq => htk heq.2).symm.trans (hlast pk')

end Seed

def Seed.record (lib : StakeLibrary) (last : String → String → Option String) (seed : Seed) :
    String → String → Option String :=
  if (lib.bignumber seed.amount).isSome then given (lib.toLowerCase seed.pubkey) seed.tick seed.amount last else last

def lastAmounts (lib : StakeLibrary) (seeds : List Seed) : String → String → Option String :=
  seeds.foldl (Seed.record lib) fun _ _ => none

/-- The seeds a contract can see: its own, or if it has none, those for every contract. -/
def visibleTo (index : ℕ) (seeds : List Seed) : List Seed :=
  let own := seeds.filter (·.contractIndex = some index)
  if own = [] then seeds.filter (·.contractIndex = none) else own

def runSeeds (lib : StakeLibrary) (seeds : List Seed) : Stakes :=
  Machine.run (fun stakes seed => (setStake lib seed stakes).2) {} seeds

/-- Lower-cased keys without a bar, and amounts that are numbers where they parse. -/
structure Seed.Ordinary (lib : StakeLibrary) (seed : Seed) : Prop where
  bar : '|' ∉ (lib.toLowerCase seed.pubkey).toList
  number : ∀ big ∈ lib.bignumber seed.amount, big.isNumber

theorem bucket_withBucket (stakes : Stakes) (c c' : Option ℕ) (bucket : Bucket) :
    (stakes.withBucket c bucket).bucket c' = if c' = c then bucket else stakes.bucket c' := by
  cases c with
  | none =>
    cases c' with
    | none => rfl
    | some index' => rfl
  | some index =>
    cases c' with
    | none => rfl
    | some index' =>
      by_cases h : index' = index
      · subst h
        simp [Stakes.withBucket, Stakes.bucket]
      · simp [Stakes.withBucket, Stakes.bucket, List.lookup_cons, beq_eq_false_iff_ne.mpr h, h]

/-- A seed reaches its own bucket and leaves the others, and makes the bucket even if it throws. -/
theorem setStake_eq (stakes : Stakes) (seed : Seed) : (setStake lib seed stakes).2 = stakes.withBucket seed.contractIndex
    (if (lib.bignumber seed.amount).isSome then
      ((stakes.bucket seed.contractIndex).seed lib (lib.toLowerCase seed.pubkey) seed.tick seed.amount).2
    else stakes.bucket seed.contractIndex) := by
  rw [setStake, stakeAmount]
  cases lib.bignumber seed.amount with
  | none => rfl
  | some big => rfl

theorem runSeeds_holds {seeds : List Seed} (h : ∀ seed ∈ seeds, seed.Ordinary lib) (c : Option ℕ) :
    ((runSeeds lib seeds).bucket c).Holds lib (lastAmounts lib (seeds.filter (·.contractIndex = c))) := by
  induction seeds using List.reverseRecOn with
  | nil =>
    cases c with
    | none => exact Bucket.Holds.empty
    | some index => exact Bucket.Holds.empty
  | append_singleton seeds seed ih =>
    have hseeds := ih fun s hs => h s (List.mem_append_left _ hs)
    have hseed : seed.Ordinary lib := h seed (by simp)
    rw [runSeeds, Machine.run_concat, setStake_eq, bucket_withBucket, List.filter_append, List.filter_singleton]
    by_cases hc : c = seed.contractIndex
    · subst hc
      rw [if_pos rfl, decide_eq_true rfl, Bool.cond_true, lastAmounts, List.foldl_append, List.foldl_cons, List.foldl_nil,
        Seed.record]
      cases hbig : lib.bignumber seed.amount with
      | none => exact hseeds
      | some big => exact (hseeds.seed hseed.bar hbig (hseed.number big hbig)).2
    · rw [if_neg hc, decide_eq_false (Ne.symm hc), Bool.cond_false, List.append_nil]
      exact hseeds

theorem runSeeds_lookup (seeds : List Seed) (index : ℕ) :
    ((runSeeds lib seeds).contractStakeDataByIndex.lookup index).isSome ↔ seeds.filter (·.contractIndex = some index) ≠ [] := by
  induction seeds using List.reverseRecOn with
  | nil => simp [runSeeds]
  | append_singleton seeds seed ih =>
    rw [runSeeds, Machine.run_concat, setStake_eq, ← runSeeds, List.filter_append, List.filter_singleton]
    cases hc : seed.contractIndex with
    | none => simpa [Stakes.withBucket] using ih
    | some index' =>
      by_cases hindex : index = index'
      · simp [Stakes.withBucket, hindex]
      · simpa [Stakes.withBucket, List.lookup_cons, beq_eq_false_iff_ne.mpr hindex, Ne.symm hindex] using ih

/-- The bucket a contract reads holds the amounts that it can see. -/
theorem snapshot_holds {seeds : List Seed} (h : ∀ seed ∈ seeds, seed.Ordinary lib) (index : ℕ) :
    ((runSeeds lib seeds).snapshot index).Holds lib (lastAmounts lib (visibleTo index seeds)) := by
  have hlookup : ((runSeeds lib seeds).contractStakeDataByIndex.lookup index).isSome ↔
      seeds.filter (·.contractIndex = some index) ≠ [] := runSeeds_lookup seeds index
  rw [Stakes.snapshot, visibleTo]
  cases hbucket : (runSeeds lib seeds).contractStakeDataByIndex.lookup index with
  | none =>
    have hnone : seeds.filter (·.contractIndex = some index) = [] := by simpa [hbucket] using hlookup
    rw [if_pos hnone]
    exact runSeeds_holds h none
  | some bucket =>
    have hsome : seeds.filter (·.contractIndex = some index) ≠ [] := by simpa [hbucket] using hlookup
    rw [if_neg hsome]
    have hown := runSeeds_holds h (some index)
    rwa [Stakes.bucket, hbucket] at hown

/-- What a contract reads depends on the last amount of each staker alone. The roster it is given is
the only list of the stakes in order, cut at the cap, and the total adds the whole of it. -/
theorem seeded_views (lib : StakeLibrary) (seeds : List Seed) (h : ∀ seed ∈ seeds, seed.Ordinary lib) (index : ℕ) :
    let snap := (runSeeds lib seeds).snapshot index
    let last := lastAmounts lib (visibleTo index seeds)
    (∀ pubkey token, '|' ∉ (lib.toLowerCase pubkey).toList →
      getStake lib snap pubkey token = textOr "0" ((last (lib.toLowerCase pubkey) token).getD "")) ∧
    ∀ token, token ≠ "__proto__" → ∃ roster, Roster lib last token roster ∧
      (∀ other, Roster lib last token other → other = roster) ∧
      getStakers snap token = (roster.take MAX_STAKERS_PER_TICK).map stakerValue ∧
      ((∀ pk, last pk token = none) → getTotalStaked snap token = .string "0") ∧
      ∀ pk, last pk token ≠ none → getTotalStaked snap token = (Value.string (totalOf lib roster)).orElse (.string "0") := by
  intro snap last
  have hsnap : snap.Holds lib last := snapshot_holds h index
  constructor
  · intro pubkey token hbar
    have hlookup : snap.stakeByPubkeyTick.lookup (lib.toLowerCase pubkey ++ "|" ++ token) =
        last (lib.toLowerCase pubkey) token := by
      ext amt
      constructor
      · intro hamt
        obtain ⟨pk, tk, hbar', hkey, hlast⟩ := (hsnap.entries _ amt).mp (mem_of_lookup hamt)
        obtain ⟨rfl, rfl⟩ := key_inj hbar' hbar hkey
        exact hlast
      · intro hlast
        exact lookup_of_mem hsnap.nodup ((hsnap.entries _ amt).mpr ⟨_, token, hbar, rfl, hlast⟩)
    rw [getStake, hlookup]
  · intro token hproto
    have hroster := hsnap.roster token
    refine ⟨_, hroster, fun other hother => hother.unique hroster, ?_, ?_, ?_⟩
    · by_cases hseeded : ∃ pk, last pk token ≠ none
      · obtain ⟨pk, hlast⟩ := hseeded
        rw [getStakers, (hsnap.seeded pk token hproto hlast).1]
      · have hnone : ∀ pk, last pk token = none := by simpa using hseeded
        have hempty : sortStakes (snap.stakeByPubkeyTick.filterMap (stake? lib token)) = [] := by
          apply List.eq_nil_iff_forall_not_mem.mpr
          intro s hs
          exact absurd ((hroster.mem s).mp hs).1 (by simp [hnone])
        rw [getStakers, (hsnap.unseeded token hproto hnone).1, hempty]
        rfl
    · intro hnone
      rw [getTotalStaked, (hsnap.unseeded token hproto hnone).2]
    · intro pk hlast
      rw [getTotalStaked, (hsnap.seeded pk token hproto hlast).2]

def whole : BigNumber → ℕ
  | .finite d => d.value.num.toNat
  | _ => 0

def wholeNumber (n : ℕ) : BigNumber := (plainNumber (toString n).toList).getD .nan

def wholeLibrary : StakeLibrary where
  bignumber text := plainNumber text.toList
  plus a b := wholeNumber (whole a + whole b)
  text big := toString (whole big)
  zero := wholeNumber 0
  toLowerCase s := String.ofList (s.toList.map Char.toLower)
  quoted s := "\"" ++ s ++ "\""

def threeSeeds : List Seed :=
  [⟨"B", "T", "5", none⟩, ⟨"a", "T", "7", none⟩, ⟨"b", "T", "12", none⟩]

theorem seeded_views_threeSeeds :
    let snap := (runSeeds wholeLibrary threeSeeds).snapshot 1
    getStake wholeLibrary snap "B" "T" = "12" ∧
      ∃ roster : List Stake, getStakers snap "T" = (roster.take MAX_STAKERS_PER_TICK).map stakerValue ∧
        (⟨"b", "12", wholeNumber 12⟩ : Stake) ∈ roster ∧ (⟨"a", "7", wholeNumber 7⟩ : Stake) ∈ roster := by
  intro snap
  have hordinary : ∀ seed ∈ threeSeeds, seed.Ordinary wholeLibrary := by
    simp only [threeSeeds, List.forall_mem_cons, List.not_mem_nil, false_implies, implies_true, and_true]
    exact ⟨⟨by decide, by decide⟩, ⟨by decide, by decide⟩, by decide, by decide⟩
  obtain ⟨hstake, hviews⟩ := seeded_views wholeLibrary threeSeeds hordinary 1
  constructor
  · exact (hstake "B" "T" (by decide)).trans (by decide)
  · obtain ⟨roster, hroster, -, hstakers, -⟩ := hviews "T" (by decide)
    exact ⟨roster, hstakers, (hroster.mem _).mpr (by decide), (hroster.mem _).mpr (by decide)⟩

end XChainVM.Simulator
