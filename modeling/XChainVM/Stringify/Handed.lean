import XChainVM.Stringify.Faults

/-! # What a resolution hands over

The slots a frame is done with nest no deeper than the limit leaves at that frame. While a frame is
inert, nothing of the contract has run since it was entered, so that what was read from it is still
what stands in it.
-/

namespace XChainVM.Stringify

open Harness Machine

/-- What the frame is done with runs no code of the contract, within `n` more containers. -/
def Frame.Kept (h : Heap) (props : Option (List String)) (n : ℕ) (f : Frame) : Prop :=
  match f.out with
  | some slots => ∀ slot ∈ slots, h.Settled props n slot.2
  | none => ∀ key ∈ f.past, ∃ v, h.data? f.src key = some v ∧ h.Inert props n v

def Kept (h : Heap) (props : Option (List String)) (limit : ℕ) : List Frame → Prop
  | [] => True
  | f :: rest => f.Kept h props (limit - (rest.length + 1)) ∧ Kept h props limit rest

/-- An inert frame with its slot in hand, none between two slots. -/
structure Frame.Faithful (h : Heap) (props : Option (List String)) (hand : Option (String × Val)) (f : Frame) :
    Prop where
  toJSON : h.hasToJSON (.object f.src) = false
  names : h.names props f.src = f.past ++ hand.toList.map Prod.fst ++ f.todo
  slot : ∀ key v, hand = some (key, v) → h.data? f.src key = some v

def Whole (h : Heap) (props : Option (List String)) : Option (String × Val) → List Frame → Prop
  | _, [] => True
  | hand, f :: rest =>
    f.out = none → f.Faithful h props hand ∧ Whole h props (some (f.pKey, .object f.src)) rest

def Phase.asks : Phase → Bool
  | .list _ _ _ | .fetch _ | .readToJSON _ _ | .callToJSON _ _ | .replace _ _ => true
  | _ => false

/-- The contract's code leaves the frames alone and what they are done with inert; no BigInt gets into the
copy while BigInts have a `toJSON`, and no wrapper is passed by reference as an object. -/
structure Tame (w : Walk) (s : State) (r : Reply) : Prop where
  pool : r.pool = s.pool
  kept : s.phase.asks = true → Kept r.heap s.propList w.depthLimit s.pool.frames
  leaf : ∀ key v hooked p unwrapped, s.phase = .settle key v hooked → s.heap.classify v = .leaf p unwrapped →
    s.heap.hasToJSON (.prim p) = false
  wrapper : ∀ f rest, s.phase = .next → s.pool.frames = f :: rest → f.todo = [] → f.out = none →
    (s.heap.object f.src).wrapped = none

structure Open (w : Walk) (s : State) : Prop where
  kept : Kept s.heap s.propList w.depthLimit s.pool.frames
  within : s.pool.frames.length ≤ w.depthLimit
  forward : s.pool.forwardList = s.propList

def Inv (w : Walk) (s : State) : Prop :=
  match s.phase with
  | .done (.handed c) => s.heap.Settled s.pool.forwardList w.depthLimit c
  | .done _ => True
  | .list _ _ _ => s.pool.frames = []
  | .next => Open w s ∧ Whole s.heap s.propList none s.pool.frames
  | .fetch _ => Open w s ∧ ∀ f ∈ s.pool.frames.head?, f.out.isSome
  | .settle key v false =>
    Open w s ∧ s.heap.hasToJSON v = false ∧ Whole s.heap s.propList (some (key, v)) s.pool.frames
  | _ => Open w s

variable {w : Walk} {s : State} {h : Heap} {props : Option (List String)} {n : ℕ}

theorem Frame.kept_copy {f : Frame} {slots : List (String × Copy)} (hcopy : f.out = some slots) :
    f.Kept h props n ↔ ∀ slot ∈ slots, h.Settled props n slot.2 := by
  unfold Frame.Kept
  rw [hcopy]

theorem Frame.kept_inert {f : Frame} (hinert : f.out = none) :
    f.Kept h props n ↔ ∀ key ∈ f.past, ∃ v, h.data? f.src key = some v ∧ h.Inert props n v := by
  unfold Frame.Kept
  rw [hinert]

theorem Frame.Kept.quiet {f : Frame} (hkept : f.Kept h props n) (hinert : f.out = none) : f.quiet h = true := by
  unfold Frame.quiet
  rw [List.all_eq_true]
  intro key hkey
  obtain ⟨v, hv, -⟩ := (Frame.kept_inert hinert).mp hkept key hkey
  rw [hv]
  rfl

/-- The slots read again are the ones that were read. -/
theorem Frame.Kept.backfill {f : Frame} (hkept : f.Kept h props n) (hinert : f.out = none) :
    (f.backfill h fun key => (h.data? f.src key).getD .undefined).Kept h props n := by
  rw [Frame.kept_copy rfl]
  intro slot hslot
  obtain ⟨key, hkey, hentry⟩ := List.mem_filterMap.mp hslot
  obtain ⟨v, hv, hv'⟩ := (Frame.kept_inert hinert).mp hkept key hkey
  dsimp only at hentry
  rw [hv, Option.getD_some] at hentry
  unfold Frame.entry at hentry
  split at hentry
  · split at hentry
    · obtain rfl := Option.some.inj hentry
      exact Heap.settled_leaf rfl
    · cases hentry
  · obtain rfl := Option.some.inj hentry
    exact hv'.settled

/-- A copy takes a settled slot. -/
theorem Frame.Kept.commit_copy {f : Frame} (hkept : f.Kept h props n) (hcopy : f.out.isSome) (key : String)
    {slot : Option (String × Copy)} (hslot : ∀ entry ∈ slot, h.Settled props n entry.2) :
    (f.commit key slot).Kept h props n := by
  obtain ⟨slots, hslots⟩ := Option.isSome_iff_exists.mp hcopy
  rw [Frame.kept_copy hslots] at hkept
  have hout : (f.commit key slot).out = some (slots ++ slot.toList) := by rw [Frame.commit, hslots, Option.map_some]
  rw [Frame.kept_copy hout]
  intro entry hentry
  obtain hentry | hentry := List.mem_append.mp hentry
  · exact hkept entry hentry
  · exact hslot entry (Option.mem_toList.mp hentry)

/-- An inert frame is done with an inert slot. -/
theorem Frame.Kept.commit_inert {f : Frame} (hkept : f.Kept h props n) (hinert : f.out = none) {key : String}
    {v : Val} (hv : h.data? f.src key = some v) (hinertv : h.Inert props n v) (slot : Option (String × Copy)) :
    (f.commit key slot).Kept h props n := by
  rw [Frame.kept_inert hinert] at hkept
  have hout : (f.commit key slot).out = none := by rw [Frame.commit, hinert, Option.map_none]
  rw [Frame.kept_inert hout]
  intro other hother
  obtain hother | hother := List.mem_append.mp hother
  · exact hkept other hother
  · obtain rfl := List.mem_singleton.mp hother
    exact ⟨v, hv, hinertv⟩

/-- The slot in hand is done. -/
theorem Frame.Faithful.commit {f : Frame} {key : String} {v : Val} (hf : f.Faithful h props (some (key, v)))
    (slot : Option (String × Copy)) : (f.commit key slot).Faithful h props none where
  toJSON := hf.toJSON
  names := by
    have hnames := hf.names
    simpa [Frame.commit] using hnames
  slot := nofun

/-- The result of a frame that is done. -/
theorem Frame.Kept.result {f : Frame} (hkept : f.Kept h props n) (htodo : f.todo = [])
    (hfaithful : f.out = none → f.Faithful h props none ∧ (h.object f.src).wrapped = none) :
    h.Settled props (n + 1) f.result := by
  unfold Frame.result
  cases hout : f.out with
  | some slots =>
    rw [Frame.kept_copy hout] at hkept
    exact hkept
  | none =>
    rw [Frame.kept_inert hout] at hkept
    obtain ⟨hwhole, hwrapped⟩ := hfaithful hout
    have hnames := hwhole.names
    rw [htodo] at hnames
    refine Heap.settled_ref (Heap.Inert.container hwhole.toJSON hwrapped fun key hkey => hkept key ?_)
    simpa [hnames] using hkey

theorem Whole.of_copy {f : Frame} (hcopy : f.out.isSome) (hand : Option (String × Val)) (rest : List Frame) :
    Whole h props hand (f :: rest) := by
  intro hinert
  rw [hinert] at hcopy
  cases hcopy

theorem frames_setTop {f : Frame} {rest : List Frame} (hframes : s.pool.frames = f :: rest) (g : Frame) :
    (s.setTop g).pool.frames = g :: rest := by
  rw [State.setTop, hframes, List.tail_cons]

theorem Open.setTop {f g : Frame} {rest : List Frame} (hopen : Open w s) (hframes : s.pool.frames = f :: rest)
    (hg : g.Kept s.heap s.propList (w.depthLimit - (rest.length + 1))) : Open w (s.setTop g) := by
  obtain ⟨hkept, hwithin, hforward⟩ := hopen
  have htop := frames_setTop hframes g
  rw [hframes] at hkept hwithin
  refine ⟨?_, ?_, hforward⟩
  · rw [htop]
    exact ⟨hg, hkept.2⟩
  · rw [htop]
    exact hwithin

structure Frame.Renewed (h : Heap) (props : Option (List String)) (n : ℕ) (dirty : Bool) (f g : Frame) : Prop where
  kept : g.Kept h props n
  todo : g.todo = f.todo
  copied : dirty = true → g.out.isSome
  same : g.out = none → g = f

theorem Frame.Renewed.clean {f g : Frame} {dirty : Bool} (hg : f.Renewed h props n dirty g) (hnone : g.out = none) :
    dirty = false := by
  cases dirty with
  | false => rfl
  | true =>
    have hcopied := hg.copied rfl
    rw [hnone] at hcopied
    cases hcopied

theorem inv_spend {k : State → State} (n : ℕ) (hk : ∀ gas owed, Inv w (k { s with gas, owed })) :
    Inv w (s.spend n k) := by
  unfold State.spend
  split
  · trivial
  · split
    · trivial
    · exact hk _ _

theorem inv_asks {k : State → State} {r : Reply} (hpool : r.pool = s.pool)
    (hk : ∀ gas owed poison, Inv w (k { s with heap := r.heap, gas, owed, poison })) : Inv w (s.asks r k) := by
  have hafter : s.after r = { s with
      heap := r.heap, gas := s.gas - r.spent, owed := s.owed + r.spent, poison := s.poison || r.poisons } := by
    rw [State.after, hpool]
  unfold State.asks
  split
  · trivial
  · split
    · trivial
    · rw [hafter]
      exact hk _ _ _

theorem inv_materialize {k : State → Frame → State} {r : Reply} {f : Frame} (hkept : f.Kept s.heap props n)
    (hk : ∀ gas owed g, f.Renewed s.heap props n true g → Inv w (k { s with gas, owed } g)) :
    Inv w (s.materialize r f k) := by
  unfold State.materialize
  split
  · next hcopy => exact hk s.gas s.owed f ⟨hkept, rfl, fun _ => hcopy, fun _ => rfl⟩
  · next hcopy =>
    have hinert : f.out = none := by simpa using hcopy
    refine inv_spend _ fun gas owed => ?_
    rw [if_pos (hkept.quiet hinert)]
    exact hk gas owed _ ⟨hkept.backfill hinert, rfl, fun _ => rfl, nofun⟩

theorem inv_materializeIf {k : State → Frame → State} {r : Reply} {f : Frame} (dirty : Bool)
    (hkept : f.Kept s.heap props n)
    (hk : ∀ gas owed g, f.Renewed s.heap props n dirty g → Inv w (k { s with gas, owed } g)) :
    Inv w (s.materializeIf dirty r f k) := by
  unfold State.materializeIf
  cases dirty with
  | true => exact inv_materialize hkept hk
  | false => exact hk s.gas s.owed f ⟨hkept, rfl, nofun, fun _ => rfl⟩

theorem inv_callReplacer (hopen : Open w s) (key : String) (v : Val) (hooked : Bool)
    (hready : hooked = false → s.heap.hasToJSON v = false ∧ Whole s.heap s.propList (some (key, v)) s.pool.frames) :
    Inv w (Walk.callReplacer s key v hooked) := by
  unfold Walk.callReplacer
  split
  · exact inv_spend 1 fun gas owed => ⟨hopen.kept, hopen.within, hopen.forward⟩
  · cases hooked with
    | true => exact ⟨hopen.kept, hopen.within, hopen.forward⟩
    | false => exact ⟨⟨hopen.kept, hopen.within, hopen.forward⟩, hready rfl⟩

theorem inv_resolve (hopen : Open w s) (key : String) (v : Val)
    (hwhole : Whole s.heap s.propList (some (key, v)) s.pool.frames) : Inv w (Walk.resolve s key v) := by
  unfold Walk.resolve
  split
  · exact ⟨hopen.kept, hopen.within, hopen.forward⟩
  · next hno => exact inv_callReplacer hopen key v false fun _ => ⟨by simpa using hno, hwhole⟩

/-- A container that stays inert has no hook of its own. -/
theorem inv_pushFrame (hopen : Open w s) (r : Reply) (src : ℕ) (isArr dirty : Bool) (key : String)
    (hclean : dirty = false → s.heap.hasToJSON (.object src) = false ∧
      Whole s.heap s.propList (some (key, .object src)) s.pool.frames) :
    Inv w (w.pushFrame s r src isArr dirty key) := by
  unfold Walk.pushFrame
  refine inv_spend 1 fun gas owed => ?_
  split
  · trivial
  · dsimp only
    split
    · trivial
    · next hroom =>
      set f : Frame := ⟨src, isArr, [], s.heap.names s.propList src, none, key⟩
      have hf : f.Kept s.heap s.propList (w.depthLimit - (s.pool.frames.length + 1)) := by
        rw [Frame.kept_inert rfl]
        exact fun key hkey => absurd hkey List.not_mem_nil
      have hpush (gas owed : ℕ) (entered : List (List String)) :
          Inv w ({ s with gas, owed, entered }.materializeIf dirty r f fun s f =>
            { s with pool := { s.pool with frames := f :: s.pool.frames }, phase := .next }) := by
        refine inv_materializeIf dirty hf fun gas owed g hg => ⟨⟨⟨hg.kept, hopen.kept⟩, ?_, hopen.forward⟩, ?_⟩
        · dsimp only at hroom ⊢
          rw [List.length_cons]
          omega
        · intro hinert
          obtain rfl := hg.same hinert
          obtain ⟨htoJSON, hwhole⟩ := hclean (hg.clean hinert)
          exact ⟨⟨htoJSON, by simp [f], nofun⟩, hwhole⟩
      unfold State.spendScan
      split
      · exact inv_spend _ fun gas owed => hpush _ _ _
      · exact hpush _ _ _

/-- The frame around takes the result of the frame that is done. -/
theorem inv_popFrame {r : Reply} {f : Frame} {rest : List Frame} (hopen : Open w s)
    (hwhole : Whole s.heap s.propList none s.pool.frames) (hframes : s.pool.frames = f :: rest) (htodo : f.todo = [])
    (hwrapped : f.out = none → (s.heap.object f.src).wrapped = none) : Inv w (Walk.popFrame s r f rest) := by
  obtain ⟨hkept, hwithin, hforward⟩ := hopen
  rw [hframes] at hkept hwithin hwhole
  have hroom : w.depthLimit - rest.length = w.depthLimit - (rest.length + 1) + 1 := by
    rw [List.length_cons] at hwithin
    omega
  have hresult : s.heap.Settled s.propList (w.depthLimit - rest.length) f.result := by
    rw [hroom]
    exact hkept.1.result htodo fun hinert => ⟨(hwhole hinert).1, hwrapped hinert⟩
  unfold Walk.popFrame
  split
  · change s.heap.Settled s.pool.forwardList w.depthLimit f.result
    rw [hforward]
    exact hresult
  · next pf rest =>
    refine inv_materializeIf _ hkept.2.1 fun gas owed g hg => ?_
    have hlength : (g.commit f.pKey (some (f.pKey, f.result)) :: rest).length ≤ w.depthLimit := by
      simp only [List.length_cons] at hwithin ⊢
      omega
    dsimp only
    rw [hframes, List.tail_cons, List.tail_cons]
    cases hcopy : g.out with
    | some slots =>
      have hsome : g.out.isSome := by rw [hcopy]; rfl
      have hslot : ∀ entry ∈ some (f.pKey, f.result),
          s.heap.Settled s.propList (w.depthLimit - (rest.length + 1)) entry.2 := by
        rintro _ ⟨⟩
        exact hresult
      have hcommit := hg.kept.commit_copy hsome f.pKey hslot
      refine ⟨⟨⟨hcommit, hkept.2.2⟩, hlength, hforward⟩, Whole.of_copy ?_ none rest⟩
      rw [Frame.commit, hcopy]
      rfl
    | none =>
      obtain rfl := hg.same hcopy
      have hinert : f.out = none := by simpa using hg.clean hcopy
      obtain ⟨hfaithful, hrest⟩ := (hwhole hinert).2 hcopy
      have href : f.result = .ref f.src := by rw [Frame.result, hinert]
      have hinertv : s.heap.Inert s.propList (w.depthLimit - (g :: rest).length) (.object f.src) := by
        rw [href, hroom] at hresult
        rw [hroom]
        exact hresult
      have hcommit := hg.kept.commit_inert hcopy (hfaithful.slot _ _ rfl) hinertv (some (f.pKey, f.result))
      exact ⟨⟨⟨hcommit, hkept.2.2⟩, hlength, hforward⟩, fun _ => ⟨hfaithful.commit _, hrest⟩⟩

theorem inv_next {r : Reply} (hphase : s.phase = .next) (h : Inv w s) (htame : Tame w s r) :
    Inv w (Walk.next s r) := by
  unfold Inv at h
  rw [hphase] at h
  obtain ⟨hopen, hwhole⟩ := h
  unfold Walk.next
  split
  · trivial
  · next f rest hframes =>
    split
    · next htodo => exact inv_popFrame hopen hwhole hframes htodo (htame.wrapper f rest hphase hframes htodo)
    · next key todo htodo =>
      have hkept := hopen.kept
      rw [hframes] at hkept hwhole
      dsimp only
      split
      · next v hv =>
        refine inv_resolve (hopen.setTop (g := { f with todo }) hframes hkept.1) key v ?_
        rw [frames_setTop hframes]
        intro hinert
        obtain ⟨hfaithful, hrest⟩ := hwhole hinert
        refine ⟨⟨hfaithful.toJSON, ?_, ?_⟩, hrest⟩
        · have hnames := hfaithful.names
          simpa [State.setTop, htodo] using hnames
        · rintro _ _ ⟨rfl, rfl⟩
          exact hv
      · refine inv_materialize hkept.1 fun gas owed g hg => ?_
        have htop := hopen.setTop hframes hg.kept
        refine ⟨⟨htop.kept, htop.within, htop.forward⟩, ?_⟩
        rintro _ ⟨⟩
        exact hg.copied rfl

/-- What a slot that is not gone into leaves in its frame. -/
theorem inv_commit {f : Frame} {rest : List Frame} (hopen : Open w s) (hframes : s.pool.frames = f :: rest)
    {g : Frame} {key : String} {v : Val} {slot : Option (String × Copy)}
    (hkept : g.Kept s.heap s.propList (w.depthLimit - (rest.length + 1)))
    (hslot : ∀ entry ∈ slot, s.heap.Settled s.propList (w.depthLimit - (rest.length + 1)) entry.2)
    (hinert : g.out = none → s.heap.hasToJSON v = false ∧ s.heap.Childless v ∧
      Whole s.heap s.propList (some (key, v)) (g :: rest)) :
    Inv w { s.setTop (g.commit key slot) with phase := .next } := by
  cases hcopy : g.out with
  | some slots =>
    have hsome : g.out.isSome := by rw [hcopy]; rfl
    have htop := hopen.setTop hframes (hkept.commit_copy hsome key hslot)
    refine ⟨⟨htop.kept, htop.within, htop.forward⟩, ?_⟩
    dsimp only
    rw [frames_setTop hframes]
    refine Whole.of_copy ?_ none rest
    rw [Frame.commit, hcopy]
    rfl
  | none =>
    obtain ⟨htoJSON, hchildless, hwhole⟩ := hinert hcopy
    obtain ⟨hfaithful, hrest⟩ := hwhole hcopy
    have hcommit := hkept.commit_inert hcopy (hfaithful.slot key v rfl) (Heap.inert_childless htoJSON hchildless) slot
    have htop := hopen.setTop hframes hcommit
    refine ⟨⟨htop.kept, htop.within, htop.forward⟩, ?_⟩
    dsimp only
    rw [frames_setTop hframes]
    exact fun _ => ⟨hfaithful.commit slot, hrest⟩

theorem settled_entry {isArr : Bool} {key : String} {v : Val} (hskip : h.skips v = true) :
    ∀ entry ∈ Frame.entry h isArr key v, h.Settled props n entry.2 := by
  unfold Frame.entry
  rw [if_pos hskip]
  cases isArr with
  | true =>
    rintro _ ⟨⟩
    exact Heap.settled_leaf rfl
  | false => nofun

theorem inv_settle {r : Reply} {key : String} {v : Val} {hooked : Bool} (hphase : s.phase = .settle key v hooked)
    (h : Inv w s) (htame : Tame w s r) : Inv w (w.settle s r key v hooked) := by
  have hopen : Open w s := by
    unfold Inv at h
    rw [hphase] at h
    cases hooked with
    | true => exact h
    | false => exact h.1
  have hready : hooked = false →
      s.heap.hasToJSON v = false ∧ Whole s.heap s.propList (some (key, v)) s.pool.frames := by
    rintro rfl
    unfold Inv at h
    rw [hphase] at h
    exact h.2
  have hleaf (p : Prim) (unwrapped : Bool) := htame.leaf key v hooked p unwrapped hphase
  have hclean (id : ℕ) (hv : v = .object id) (hdirty : (s.repFn || hooked && s.heap.hasToJSON v) = false) :
      s.heap.hasToJSON (.object id) = false := by
    subst hv
    cases hooked with
    | true => simpa using (Bool.or_eq_false_iff.mp hdirty).2
    | false => exact (hready rfl).1
  unfold Walk.settle
  dsimp only
  split
  · next hframes =>
    obtain ⟨hkind, -⟩ | ⟨p, unwrapped, hkind, -⟩ | ⟨id, isArr, hkind, hv⟩ := s.heap.classify_cases v
    · rw [hkind]
      trivial
    · rw [hkind]
      exact Heap.settled_leaf (hleaf p unwrapped hkind)
    · rw [hkind]
      refine inv_pushFrame hopen r id isArr _ key fun hdirty => ⟨hclean id hv hdirty, ?_⟩
      rw [hframes]
      trivial
  · next f rest hframes =>
    have hkept := hopen.kept
    rw [hframes] at hkept hready
    refine inv_materializeIf hooked hkept.1 fun gas owed g hg => ?_
    have hopen' : Open w { s with gas, owed } := ⟨hopen.kept, hopen.within, hopen.forward⟩
    have hstill (hnone : g.out = none) :
        s.heap.hasToJSON v = false ∧ Whole s.heap s.propList (some (key, v)) (g :: rest) := by
      have hclean := hg.clean hnone
      obtain rfl := hg.same hnone
      exact hready hclean
    dsimp only
    obtain ⟨hkind, hskip⟩ | ⟨p, unwrapped, hkind, hprim⟩ | ⟨id, isArr, hkind, hv⟩ := s.heap.classify_cases v
    · rw [hkind]
      refine inv_commit (v := v) hopen' hframes hg.kept (settled_entry hskip) fun hnone => ?_
      obtain ⟨htoJSON, hwhole⟩ := hstill hnone
      exact ⟨htoJSON, Heap.childless_of_skips hskip, hwhole⟩
    · rw [hkind]
      refine inv_materializeIf unwrapped hg.kept fun gas owed g' hg' => ?_
      have hpaid : Open w { s with gas, owed } := ⟨hopen.kept, hopen.within, hopen.forward⟩
      refine inv_commit (v := v) hpaid hframes hg'.kept ?_ fun hnone => ?_
      · rintro _ ⟨⟩
        exact Heap.settled_leaf (hleaf p unwrapped hkind)
      · have hclean := hg'.clean hnone
        obtain rfl := hg'.same hnone
        obtain ⟨htoJSON, hwhole⟩ := hstill hnone
        refine ⟨htoJSON, ?_, hwhole⟩
        rw [hprim hclean]
        trivial
    · rw [hkind]
      subst hv
      refine inv_pushFrame (hopen'.setTop hframes hg.kept) r id isArr _ key fun hdirty => ⟨hclean id rfl hdirty, ?_⟩
      have htop : (State.setTop { s with gas, owed } g).pool.frames = g :: rest := frames_setTop hframes g
      rw [htop]
      cases hcopy : g.out with
      | none => exact (hstill hcopy).2
      | some slots => exact Whole.of_copy (by rw [hcopy]; rfl) _ _

theorem inv_step (w : Walk) (s : State) (r : Reply) (h : Inv w s) (htame : Tame w s r) : Inv w (w.step s r) := by
  have hinv := h
  unfold Inv at hinv
  have hafter (hopen : Open w s) (hasks : s.phase.asks = true) (gas owed : ℕ) (poison : Bool) :
      Open w { s with heap := r.heap, gas, owed, poison } :=
    ⟨htame.kept hasks, hopen.within, hopen.forward⟩
  unfold Walk.step
  split
  · next acc hphase =>
    rw [hphase] at hinv
    refine inv_resolve ⟨?_, ?_, rfl⟩ "" w.root ?_
    · dsimp only
      rw [hinv]
      trivial
    · dsimp only
      rw [hinv]
      exact Nat.zero_le _
    · dsimp only
      rw [hinv]
      trivial
  · next id key todo acc hphase =>
    rw [hphase] at hinv
    split
    · exact hinv
    · exact inv_asks htame.pool fun gas owed poison => hinv
  · next hphase => exact inv_next hphase h htame
  · next key hphase =>
    rw [hphase] at hinv
    obtain ⟨hopen, hcopy⟩ := hinv
    refine inv_asks htame.pool fun gas owed poison => ?_
    refine inv_resolve (hafter hopen (by rw [hphase]; rfl) gas owed poison) key r.answer ?_
    dsimp only
    cases hframes : s.pool.frames with
    | nil => trivial
    | cons f rest => exact Whole.of_copy (hcopy f (by rw [hframes]; rfl)) _ _
  · next key v hphase =>
    rw [hphase] at hinv
    refine inv_asks htame.pool fun gas owed poison => ?_
    have hopen := hafter hinv (by rw [hphase]; rfl) gas owed poison
    split
    · exact inv_spend 1 fun gas owed => ⟨hopen.kept, hopen.within, hopen.forward⟩
    · exact inv_callReplacer hopen key v true nofun
  · next key v hphase =>
    rw [hphase] at hinv
    refine inv_asks htame.pool fun gas owed poison => ?_
    exact inv_callReplacer (hafter hinv (by rw [hphase]; rfl) gas owed poison) key r.answer true nofun
  · next key v hphase =>
    rw [hphase] at hinv
    refine inv_asks htame.pool fun gas owed poison => ?_
    have hopen := hafter hinv (by rw [hphase]; rfl) gas owed poison
    exact ⟨hopen.kept, hopen.within, hopen.forward⟩
  · next key v hooked hphase => exact inv_settle hphase h htame
  · exact h

theorem inv_start (w : Walk) (heap : Heap) (gas : ℕ) (poison : Bool) : Inv w (w.start heap gas poison) := by
  have hstart (s : State) (hpool : s.pool = ⟨[], none⟩) (hprops : s.propList = none) (v : Val) :
      Inv w (Walk.resolve s "" v) := by
    refine inv_resolve ⟨?_, ?_, ?_⟩ "" v ?_
    · rw [hpool]
      trivial
    · rw [hpool]
      exact Nat.zero_le _
    · rw [hpool, hprops]
    · rw [hpool]
      trivial
  unfold Walk.start
  dsimp only
  split
  · trivial
  · split
    · exact hstart _ rfl rfl _
    · split
      · unfold State.spendScan
        split
        · exact inv_spend _ fun gas owed => rfl
        · rfl
      · exact hstart _ rfl rfl _

end XChainVM.Stringify
