import XChainVM.Reentrant.Beside

/-! # The resolver side by side

One lemma for each part of the resolver. A frame that is gone into may be one that was used before; all that
is left of that is overwritten before it is read.
-/

namespace XChainVM.Reentrant

open Harness Js Machine Cut Stringify

variable {σ : Type} {k n : ℕ} {t₀ : Scratch} {listed : Prop} {enter : Request → Run (World σ × Scratch) Val}
  {enter' : Request → Run (World σ) Val} {c : Setting}

theorem Inside.outside {s : World σ × Scratch} {s' : World σ × Own} (h : Inside k t₀ listed n s s') :
    Outside k t₀ s s' :=
  h.toOutside

theorem beside_gasInside (units : ℕ) : Beside k t₀ (Inside k t₀ listed n) (Inside k t₀ listed n)
    ((poolStorage enter).gas units) ((ownStorage enter').gas units) :=
  beside_gas (fun _ _ h => h.outside) units

theorem beside_worldInside : Beside k t₀ (Inside k t₀ listed n) (Inside k t₀ listed n)
    (poolStorage enter).world (ownStorage enter').world :=
  beside_world fun _ _ h => h.outside

theorem beside_gasScan (units : ℕ) : Beside k t₀ (Inside k t₀ listed n) (Inside k t₀ listed n)
    ((poolStorage enter).gasScan units) ((ownStorage enter').gasScan units) := by
  unfold Storage.gasScan
  split
  · exact beside_gasInside _
  · exact beside_pure _

theorem beside_update {i : ℕ} (hi : i < n) (change : Frame → Frame) :
    Beside k t₀ (Inside k t₀ listed n) (Inside k t₀ listed n)
      ((poolStorage enter).update (.cell (.level k) i) change) ((ownStorage enter').update i change) :=
  (beside_get hi).bind fun _ => beside_set i _

section Hooks

variable (henter : ∀ r s, Faithful (enter r) (enter' r) s)

include henter

theorem beside_read (id : ℕ) (key : String) : Beside k t₀ (Inside k t₀ listed n) (Inside k t₀ listed n)
    ((poolStorage enter).read id key) ((ownStorage enter').read id key) := by
  apply beside_worldInside.bind
  intro w
  split
  · exact beside_pure _
  · exact beside_hook henter _

theorem beside_backfill {i : ℕ} (hi : i < n) (rounds b : ℕ) :
    Beside k t₀ (Inside k t₀ listed n) (Inside k t₀ listed n)
      ((poolStorage enter).backfill (.cell (.level k) i) rounds b) ((ownStorage enter').backfill i rounds b) := by
  induction rounds generalizing b with
  | zero => exact beside_cutOff
  | succ rounds ih =>
    apply (beside_get hi).bind
    intro f
    split
    · exact (beside_read henter _ _).bind fun v => beside_worldInside.bind fun w =>
        (beside_update hi _).bind fun _ => ih (b + 1)
    · exact beside_pure _

theorem beside_materialize {i : ℕ} (hi : i < n) : Beside k t₀ (Inside k t₀ listed n) (Inside k t₀ listed n)
    ((poolStorage enter).materialize c (.cell (.level k) i)) ((ownStorage enter').materialize c i) := by
  apply (beside_get hi).bind
  intro f
  split
  · exact beside_pure _
  · exact (beside_gasInside _).bind fun _ => (beside_update hi _).bind fun _ => beside_backfill henter hi _ _

theorem beside_materializeIf {i : ℕ} (hi : i < n) (dirty : Bool) :
    Beside k t₀ (Inside k t₀ listed n) (Inside k t₀ listed n)
      ((poolStorage enter).materializeIf c dirty (.cell (.level k) i))
      ((ownStorage enter').materializeIf c dirty i) := by
  unfold Storage.materializeIf
  split
  · exact beside_materialize henter hi
  · exact beside_pure _

theorem beside_applyToJSON (key : String) (v : Val) : Beside k t₀ (Inside k t₀ listed n) (Inside k t₀ listed n)
    ((poolStorage enter).applyToJSON key v) ((ownStorage enter').applyToJSON key v) := by
  apply beside_worldInside.bind
  intro w
  split
  · apply (beside_hook henter _).bind
    intro tj
    apply beside_worldInside.bind
    intro w
    split
    · exact (beside_gasInside _).bind fun _ => (beside_hook henter _).bind fun _ => beside_pure _
    · exact beside_pure _
  · exact beside_pure _

theorem beside_resolveSlot (holder : Option ℕ) (key : String) (v : Val) :
    Beside k t₀ (Inside k t₀ listed n) (Inside k t₀ listed n)
      ((poolStorage enter).resolveSlot c holder key v) ((ownStorage enter').resolveSlot c holder key v) := by
  apply (beside_applyToJSON henter key v).bind
  intro r
  unfold Storage.applyReplacer
  split
  · exact (beside_gasInside _).bind fun _ => (beside_hook henter _).bind fun _ => beside_pure _
  · exact beside_pure _

theorem beside_readSlot {i : ℕ} (hi : i < n) (f : Frame) :
    Beside k t₀ (Inside k t₀ listed n) (Inside k t₀ listed n)
      ((poolStorage enter).readSlot c (.cell (.level k) i) f) ((ownStorage enter').readSlot c i f) := by
  apply beside_worldInside.bind
  intro w
  split
  · exact beside_pure _
  · exact (beside_materialize henter hi).bind fun _ => (beside_get hi).bind fun _ => beside_hook henter _

theorem beside_listItems (lang : Language) (id : ℕ) (todo : List ℕ) (list : List String) :
    Beside k t₀ (Inside k t₀ listed n) (Inside k t₀ listed n)
      ((poolStorage enter).listItems lang id todo list) ((ownStorage enter').listItems lang id todo list) := by
  induction todo generalizing list with
  | nil => exact beside_pure _
  | cons i rest ih => exact (beside_read henter _ _).bind fun v => beside_worldInside.bind fun w => ih _

theorem beside_propertyList (lang : Language) (replacer : Val) :
    Beside k t₀ (Inside k t₀ listed n) (Inside k t₀ listed n)
      ((poolStorage enter).propertyList lang replacer) ((ownStorage enter').propertyList lang replacer) := by
  apply beside_worldInside.bind
  intro w
  cases replacer with
  | prim p => exact beside_pure _
  | object id =>
    dsimp only
    split
    · exact (beside_gasScan _).bind fun _ => (beside_listItems henter _ _ _ _).bind fun _ => beside_pure _
    · exact beside_pure _

end Hooks

/-- Both storages have a frame at the next index, and the frames are the same but for their keys. -/
def Opened (k : ℕ) (t₀ : Scratch) (listed : Prop) (n : ℕ) (s : World σ × Scratch) (s' : World σ × Own) : Prop :=
  Inside k t₀ listed n s s' ∧ ∃ f f', s.2.cells (.level k) n = some f ∧ s'.2.cells n = some f' ∧
    ∀ keys m, f.sized keys m = f'.sized keys m

section Next

variable {s : World σ × Scratch} {s' : World σ × Own} (h : Inside k t₀ listed n s s')

include h

/-- A write at the next index leaves the frames under way. -/
theorem Inside.put_next (f : Frame) : Inside k t₀ listed n (s.1, s.2.put (.level k) n f) s' :=
  { h with
    outer := (h.put n f).outer
    cells := fun i hi => by
      rw [put_level, if_neg fun hand => hi.ne hand.2]
      exact h.cells i hi }

theorem Inside.put_own_next (f : Frame) : Inside k t₀ listed n s (s'.1, s'.2.put n f) :=
  { h with
    cells := fun i hi => by
      rw [Own.put_cells, if_neg hi.ne]
      exact h.cells i hi }

theorem takeOwn_next : ∃ t, takeOwn n s' = ([], .ok n, s'.1, t) ∧ Inside k t₀ listed n s (s'.1, t) := by
  unfold takeOwn
  split
  · exact ⟨s'.2, rfl, h⟩
  · exact ⟨s'.2.put n .blank, rfl, h.put_own_next _⟩

/-- What the harness finds or makes at the next index, unless a frame is charged after a stack fault. -/
theorem take_next (hfree : (s.2.cells (.level k) n).isSome = true ∨ (s.1.inherited n).isSome = false) :
    (∃ l t, take n s = (l, .ok (.cell (.level k) n), s.1, t) ∧ visible l = [] ∧ Inside k t₀ listed n (s.1, t) s') ∨
      s.1.poison = true ∧ take n s = ([], .error (some .stackError), s) := by
  rcases hcell : s.2.cells (.level k) n with _ | f
  · rw [hcell] at hfree
    have htake : take n s = (newFrame >>= fun f => do
        modify fun t => t.put (.level k) n f
        pure (Loc.cell (.level k) n)) s := by
      simp only [take, Eff.state_bind_apply, h.frames, hcell, hfree.resolve_left Bool.false_ne_true]
      rfl
    have hput (l : List (Note Mark)) (hl : visible l = []) (hnew : newFrame s = (l, .ok .blank, s)) :
        ∃ l t, take n s = (l, .ok (.cell (.level k) n), s.1, t) ∧ visible l = [] ∧
          Inside k t₀ listed n (s.1, t) s' := by
      refine ⟨l, s.2.put (.level k) n .blank, ?_, hl, h.put_next _⟩
      rw [htake, Eff.bind_ok hnew]
      simp [modify, bind, Eff.bind, pure, Eff.pure]
    by_cases hnested : 1 < s.2.nested
    · rcases hpoison : s.1.poison with _ | _
      · refine .inl (hput [.charge RSF_COPY_GAS] rfl ?_)
        simp [newFrame, hnested, gas, world, hpoison, bind, Eff.bind, Eff.state, Eff.charge, pure, Eff.pure]
      · refine .inr ⟨rfl, ?_⟩
        have hnew : newFrame s = ([], .error (some .stackError), s) := by
          simp [newFrame, hnested, gas, world, hpoison, bind, Eff.bind, Eff.state, raise, Eff.throw]
        rw [htake, Eff.bind_error hnew]
    · refine .inl (hput [] rfl ?_)
      simp [newFrame, hnested, bind, Eff.bind, Eff.state, pure, Eff.pure]
  · refine .inl ⟨[], s.2, ?_, rfl, h⟩
    simp only [take, Eff.state_bind_apply, h.frames, hcell]
    rfl

end Next

/-- An element that is found on the prototype shows. -/
theorem take_free {α : Type} {s : World σ × Scratch} (hframes : s.2.frames = .level k)
    {f : Loc → Run (World σ × Scratch) α} (hwithout : Without Inherited ((take n >>= f) s).1) :
    (s.2.cells (.level k) n).isSome = true ∨ (s.1.inherited n).isSome = false := by
  rcases hcell : s.2.cells (.level k) n with _ | g
  · rcases hfound : s.1.inherited n with _ | g
    · exact .inr rfl
    · have htake : take n s = ([.effect (.inherited n)], .ok (.found n), s) := by
        simp only [take, Eff.state_bind_apply, hframes, hcell, hfound]
        rfl
      rw [Eff.bind_ok htake] at hwithout
      exact (hwithout (.inherited n) (List.mem_cons_self ..) trivial).elim
  · exact .inl rfl

theorem beside_reuse (src : ℕ) (isArr : Bool) (key : String) :
    Beside k t₀ (Inside k t₀ listed n) (Opened k t₀ listed n)
      ((poolStorage enter).update (.cell (.level k) n) (Frame.reuse src isArr key))
      ((ownStorage enter').update n (Frame.reuse src isArr key)) := by
  intro s s' h _
  have hcell := (put_level s.2 n (Frame.reuse src isArr key ((s.2.cells (.level k) n).getD .blank)) (.level k)
    n).trans (if_pos ⟨rfl, rfl⟩)
  have hown := (Own.put_cells s'.2 n (Frame.reuse src isArr key ((s'.2.cells n).getD .blank)) n).trans (if_pos rfl)
  exact ⟨rfl, rfl, (h.put_next _).put_own_next _, _, _, hcell, hown, fun _ _ => rfl⟩

theorem beside_sized (keys : List String) (m : ℕ) :
    Beside k t₀ (Opened k t₀ listed n) (Inside k t₀ listed (n + 1))
      ((poolStorage enter).update (.cell (.level k) n) (Frame.sized keys m))
      ((ownStorage enter').update n (Frame.sized keys m)) := by
  rintro s s' ⟨h, f, f', hf, hf', hsame⟩ _
  have hpool : (poolStorage enter).update (.cell (.level k) n) (Frame.sized keys m) s =
      ([], .ok (), s.1, s.2.put (.level k) n (f.sized keys m)) := by
    change (([] : List (Note Mark)), Except.ok (), s.1, s.2.put (.level k) n _) = _
    rw [hf, Option.getD_some]
  have hown : (ownStorage enter').update n (Frame.sized keys m) s' =
      ([], .ok (), s'.1, s'.2.put n (f.sized keys m)) := by
    change (([] : List (Note Mark)), Except.ok (), s'.1, s'.2.put n _) = _
    rw [hf', Option.getD_some, hsame]
  have hput := h.put n (f.sized keys m)
  rw [hpool, hown]
  refine ⟨rfl, rfl, { hput with cells := fun i hi => ?_ }⟩
  rcases Nat.lt_succ_iff_lt_or_eq.mp hi with hlt | rfl
  · exact hput.cells i hlt
  · rw [put_level, Own.put_cells, if_pos ⟨rfl, rfl⟩, if_pos rfl]
    exact ⟨rfl, rfl⟩

theorem Opened.outside {s : World σ × Scratch} {s' : World σ × Own} (h : Opened k t₀ listed n s s') :
    Outside k t₀ s s' :=
  h.1.toOutside

theorem beside_openFrame (henter : ∀ r s, Faithful (enter r) (enter' r) s) (src : ℕ) (isArr dirty : Bool)
    (key : String) : Beside k t₀ (Inside k t₀ listed n) (Inside k t₀ listed (n + 1))
      ((poolStorage enter).openFrame c (.cell (.level k) n) n src isArr dirty key)
      ((ownStorage enter').openFrame c n n src isArr dirty key) := by
  apply (beside_reuse src isArr key).bind
  intro _
  apply (beside_gas (fun _ _ h => h.outside) 1).bind
  intro _
  split
  · apply Beside.bind (Q := Inside k t₀ listed n)
    · exact beside_poisonStack.mono_left fun _ _ h => h.1
    · exact fun _ => beside_raise (fun _ _ h => h.outside) _
  · apply (beside_world fun _ _ h => h.outside).bind
    intro w
    apply (beside_sized _ _).bind
    intro _
    exact (beside_gasScan _).bind fun _ => beside_materializeIf henter (Nat.lt_succ_self n) dirty

theorem gas_poisoned {κ : Type} {w : World σ} {t : κ} (h : w.poison = true) (units : ℕ) :
    gas units (w, t) = ([], .error (some .stackError), w, t) := by
  simp [gas, world, h, bind, Eff.bind, raise, Eff.throw]

theorem beside_pushFrame (henter : ∀ r s, Faithful (enter r) (enter' r) s) (src : ℕ) (isArr dirty : Bool)
    (key : String) : Beside k t₀ (Inside k t₀ listed n) (Inside k t₀ listed (n + 1))
      ((poolStorage enter).pushFrame c n src isArr dirty key)
      ((ownStorage enter').pushFrame c n src isArr dirty key) := by
  intro s s' h hwithout
  rcases take_next h (take_free h.frames hwithout) with ⟨l, t, htake, hvisible, hinside⟩ | ⟨hpoison, htake⟩
  · obtain ⟨t', hown, hboth⟩ := takeOwn_next hinside
    exact alike_step htake hown hvisible (beside_openFrame henter src isArr dirty key _ _ hboth) hwithout
  · -- the charge for a new frame raises what the charge for the container would
    obtain ⟨t', hown, -⟩ := takeOwn_next h
    have hleft : (poolStorage enter).pushFrame c n src isArr dirty key s = ([], .error (some .stackError), s) :=
      Eff.bind_error htake
    have hupdate : (ownStorage enter').update n (Frame.reuse src isArr key) (s'.1, t') =
        ([], .ok (), s'.1, t'.put n (Frame.reuse src isArr key ((t'.cells n).getD .blank))) := rfl
    have hopen : (ownStorage enter').openFrame c n n src isArr dirty key (s'.1, t') =
        ([], .error (some .stackError), s'.1, t'.put n (Frame.reuse src isArr key ((t'.cells n).getD .blank))) := by
      have hgas (t : Own) : (ownStorage enter').gas 1 (s'.1, t) = ([], .error (some .stackError), s'.1, t) :=
        gas_poisoned (h.world ▸ hpoison) 1
      rw [Storage.openFrame, Eff.bind_ok hupdate, Eff.bind_error (hgas _)]
      rfl
    have hright : (ownStorage enter').pushFrame c n src isArr dirty key s' = _ := Eff.bind_ok hown
    rw [hleft, hright, hopen]
    exact ⟨rfl, rfl, h.world, h.nested, h.outer⟩

theorem beside_commit {i : ℕ} (hi : i < n) (j : ℕ) (slots : Bool → List (String × Copy)) :
    Beside k t₀ (Inside k t₀ listed n) (Inside k t₀ listed n)
      ((poolStorage enter).commit (.cell (.level k) i) j slots) ((ownStorage enter').commit i j slots) :=
  beside_update hi _

section Loop

variable (henter : ∀ r s, Faithful (enter r) (enter' r) s)

include henter

theorem beside_pop (fi : ℕ) (f : Frame) : Beside k t₀ (Inside k t₀ listed (fi + 2)) (Inside k t₀ listed (fi + 1))
    ((poolStorage enter).pop c fi (.cell (.level k) (fi + 1)) f) ((ownStorage enter').pop c fi (fi + 1) f) := by
  have hfi : fi < fi + 2 := by omega
  apply beside_frameAt hfi
  apply (beside_materializeIf henter hfi _).bind
  intro _
  apply (beside_get (Nat.lt_succ_self (fi + 1))).bind
  intro g s s' h
  exact beside_update (Nat.lt_succ_self fi) _ s s' (h.weaken (Nat.le_succ _))

/-- The frames under way are those up to the index to go on with. -/
theorem alike_slot (fi : ℕ) (f : Frame) {s : World σ × Scratch} {s' : World σ × Own}
    (h : Inside k t₀ listed (fi + 1) s s') :
    Alike Inherited (fun a t a' t' => a = a' ∧ Inside k t₀ listed (a + 1) t t') (Outside k t₀)
      ((poolStorage enter).slot c fi (.cell (.level k) fi) f) ((ownStorage enter').slot c fi fi f) s s' := by
  have hfi := Nat.lt_succ_self fi
  apply (beside_readSlot henter hfi f s s' h).bind
  rintro raw s₁ _ s₁' ⟨rfl, h⟩
  apply (beside_get hfi s₁ s₁' h).bind
  rintro g s₂ _ s₂' ⟨rfl, h⟩
  apply (beside_resolveSlot henter _ _ raw s₂ s₂' h).bind
  rintro r s₃ _ s₃' ⟨rfl, h⟩
  apply (beside_materializeIf henter hfi r.2 s₃ s₃' h).bind
  rintro _ s₄ _ s₄' ⟨-, h⟩
  apply (beside_worldInside s₄ s₄' h).bind
  rintro w s₅ _ s₅' ⟨rfl, h⟩
  split
  · apply (beside_update hfi _ s₅ s₅' h).bind
    rintro _ s₆ _ s₆' ⟨-, h⟩
    apply (beside_pushFrame henter _ _ _ _ s₆ s₆' h).bind
    rintro _ s₇ _ s₇' ⟨-, h⟩
    exact alike_pure ⟨rfl, h⟩
  · apply (beside_materializeIf henter hfi _ s₅ s₅' h).bind
    rintro _ s₆ _ s₆' ⟨-, h⟩
    apply (beside_commit hfi _ _ s₆ s₆' h).bind
    rintro _ s₇ _ s₇' ⟨-, h⟩
    exact alike_pure ⟨rfl, h⟩
  · apply (beside_commit hfi _ _ s₅ s₅' h).bind
    rintro _ s₆ _ s₆' ⟨-, h⟩
    exact alike_pure ⟨rfl, h⟩

theorem beside_loop (rounds fi : ℕ) : Beside k t₀ (Inside k t₀ listed (fi + 1)) (Inside k t₀ listed 0)
    ((poolStorage enter).loop c rounds fi) ((ownStorage enter').loop c rounds fi) := by
  induction rounds generalizing fi with
  | zero => exact beside_cutOff
  | succ rounds ih =>
    apply beside_frameAt (Nat.lt_succ_self fi)
    apply (beside_get (Nat.lt_succ_self fi)).bind
    intro f
    split
    · cases fi with
      | zero => exact (beside_pure _).mono_left fun _ _ h => h.weaken (Nat.zero_le _)
      | succ fi => exact (beside_pop henter fi f).bind fun _ => ih fi
    · intro s s' h
      apply (alike_slot henter fi f h).bind
      rintro a t _ t' ⟨rfl, h⟩
      exact ih a t t' h

end Loop

theorem beside_forward (list : Option (List String)) : Beside k t₀ (Inside k t₀ listed n) (Inside k t₀ True n)
    ((poolStorage enter).forward list) ((ownStorage enter').forward list) :=
  fun _ _ h _ => ⟨rfl, rfl, { h with list := fun _ => rfl }⟩

variable (henter : ∀ r s, Faithful (enter r) (enter' r) s)

include henter

theorem beside_resolveRoot (value : Val) : Beside k t₀ (Inside k t₀ listed 0) (Inside k t₀ True 0)
    ((poolStorage enter).resolveRoot c value) ((ownStorage enter').resolveRoot c value) := by
  apply (beside_forward _).bind
  intro _
  apply (beside_resolveSlot henter _ _ value).bind
  intro r
  apply beside_worldInside.bind
  intro w
  split
  · exact beside_pure _
  · exact beside_pure _
  · exact (beside_pushFrame henter _ _ _ _).bind fun _ => (beside_loop henter _ 0).bind fun _ => beside_pure _

theorem beside_resolveForStringify (p : Program σ) (rounds : ℕ) (value replacer : Val) :
    Beside k t₀ (Inside k t₀ listed 0) (Inside k t₀ True 0)
      ((poolStorage enter).resolveForStringify p rounds value replacer)
      ((ownStorage enter').resolveForStringify p rounds value replacer) := by
  apply beside_worldInside.bind
  intro w
  split
  · exact beside_raise (fun _ _ h => h.outside) _
  · apply (beside_propertyList henter _ _).bind
    intro list
    exact beside_resolveRoot henter value

end XChainVM.Reentrant
