import XChainVM.Allocators.ObjectSpread

/-! # When filling an object late is the same

A literal may be filled after everything in it has been evaluated when the copy of each
source and the conversion of each key commute with what is evaluated after them, each
source is copied key by key as `Object.keys` lists it, and no assignment meets an
inherited accessor or read-only property.
-/

namespace XChainVM.Allocators.ObjectSpread

open Machine Eff

variable {σ ε χ K V : Type} [DecidableEq K] (w : Realm σ ε χ K V)

namespace Realm

def AssignDefines (t : Target K V) (key : K) (v : V) (s : σ) : Prop :=
  w.assign t key v s = ([], .ok (t.define key v), s)

def listedAt (source : V) (s : σ) (key : K) : Bool := !w.isSymbol key && w.enumerable source key s

/-- Every key left is enumerable in its turn exactly when it was listed, and its assignment
defines it. -/
def CopiedAsListed (source : V) (listed : K → Bool) : List K → Target K V → σ → Prop
  | [], _, _ => True
  | key :: keys, t, s =>
    w.enumerable source key s = listed key ∧
      if listed key then After (w.get source key) s fun v s' =>
        w.AssignDefines t key v s' ∧ CopiedAsListed source listed keys (t.define key v) s'
      else CopiedAsListed source listed keys t s

/-- The elements left may be evaluated before the target is filled any further. -/
def Deferrable : List (Property σ ε χ K V) → Target K V → σ → Prop
  | [], _, _ => True
  | .spread argument :: rest, t, s => After argument s fun source s' =>
      Commutes (w.copyDataProperties t source) (w.segments rest) s' ∧
      (After (w.segments rest) s' fun _ last => w.isNullish source = false →
        w.CopiedAsListed source (w.listedAt source last) (w.ownKeys source last) t last) ∧
      After (w.copyDataProperties t source) s' fun t s'' => Deferrable rest t s''
  | .proto value :: rest, t, s => After value s fun v s' =>
      (After (w.segments rest) s' fun _ last =>
        w.assign t w.protoKey v last = ([], .ok (w.setProto t v), last)) ∧
      Deferrable rest (w.setProto t v) s'
  | .named key value :: rest, t, s =>
      Agree (value (some key)) (value none) s ∧ After (value none) s fun v s' =>
        (After (w.segments rest) s' fun _ last => w.AssignDefines t key v last) ∧
        Deferrable rest (t.define key v) s'
  | .computed key value :: rest, t, s => After key s fun keyValue s₁ =>
      Commutes (w.toPropertyKey keyValue) (do let v ← value none; let segs ← w.segments rest; pure (v, segs))
        s₁ ∧
      After (w.toPropertyKey keyValue) s₁ fun k s₂ =>
        Agree (value (some k)) (value none) s₂ ∧ After (value none) s₂ fun v s₃ =>
          (After (w.segments rest) s₃ fun _ last => w.AssignDefines t k v last) ∧
          Deferrable rest (t.define k v) s₃
  | .member _ :: _, _, _ => False

/-- The literal is not rewritten to segments, or it may be filled late. -/
def MayFillLate (properties : List (Property σ ε χ K V)) (s : σ) : Prop :=
  properties.any Property.isSpread = true → properties.any Property.isMember = false →
    w.Deferrable properties w.emptyObject s

theorem copyKeys_listed {source : V} {listed : K → Bool} {keys : List K} {t : Target K V} {s : σ}
    (h : w.CopiedAsListed source listed keys t s) :
    w.copyKeys source keys t s = w.assignKeys source (keys.filter listed) t s := by
  induction keys generalizing t s with
  | nil => rfl
  | cons key keys ih =>
    obtain ⟨henumerable, hkey⟩ := h
    rw [copyKeys, state_bind_apply, henumerable]
    cases hlisted : listed key with
    | false =>
      simp only [hlisted, Bool.false_eq_true, if_false] at hkey ⊢
      rw [List.filter_cons_of_neg (by simp [hlisted])]
      exact ih hkey
    | true =>
      simp only [hlisted, if_true] at hkey ⊢
      rw [List.filter_cons_of_pos hlisted, assignKeys]
      refine bind_congr_at fun v s' hv => ?_
      obtain ⟨hassign, hrest⟩ := hkey v s' hv
      rw [bind_ok hassign, ih hrest, List.nil_append]

theorem objspreadFrom_nil (t : Target K V) (spread : ℕ) (s : σ) :
    Agree (w.objspreadFrom [] t spread) (pure t) s := by
  by_cases hcharged : GROW_THRESHOLD < spread
  · simp only [objspreadFrom, if_pos hcharged]
    exact agree_charge_bind.mpr (Agree.refl _ s)
  · simp only [objspreadFrom, if_neg hcharged]
    exact Agree.refl _ s

/-- The number of keys copied so far is only charged for. -/
theorem objspreadFrom_units (segs : List (Segment K V)) (t : Target K V) (n m : ℕ) (s : σ) :
    Agree (w.objspreadFrom segs t n) (w.objspreadFrom segs t m) s := by
  induction segs generalizing t n m s with
  | nil => exact (w.objspreadFrom_nil t n s).trans (w.objspreadFrom_nil t m s).symm
  | cons seg segs ih =>
    cases seg with
    | s source =>
      simp only [objspreadFrom]
      split
      · exact ih t n m s
      · exact agree_bind_iff.mpr fun s _ _ => agree_bind_iff.mpr fun t s' _ => ih t _ _ s'
    | p key v =>
      simp only [objspreadFrom]
      exact agree_bind_iff.mpr fun key _ _ => agree_bind_iff.mpr fun t s' _ => ih t n m s'

/-- A source copied as it is listed is copied by the helper as the language does it. -/
theorem objspreadFrom_source {source : V} {t : Target K V} {s : σ} (segs : List (Segment K V)) (n : ℕ)
    (h : w.isNullish source = false →
      w.CopiedAsListed source (w.listedAt source s) (w.ownKeys source s) t s) :
    Agree (w.objspreadFrom (.s source :: segs) t n)
      (w.copyDataProperties t source >>= fun t => w.objspreadFrom segs t n) s := by
  rw [objspreadFrom, copyDataProperties]
  cases hnullish : w.isNullish source with
  | true =>
    simp only [if_true, pure_bind]
    exact Agree.refl _ s
  | false =>
    simp only [Bool.false_eq_true, if_false, bind_assoc]
    refine agree_bind_iff.mpr fun s' s'' hs => ?_
    cases hs
    have hCopy : w.assignKeys source (w.okeys source s) t s = w.copyKeys source (w.ownKeys source s) t s :=
      (w.copyKeys_listed (h hnullish)).symm
    refine Agree.bind ⟨by rw [hCopy], by rw [hCopy]⟩ fun t s' _ => ?_
    exact w.objspreadFrom_units segs t _ n s'

theorem objspreadFrom_assigned {key : K} {v : V} {t t' : Target K V} {s : σ} (segs : List (Segment K V))
    (n : ℕ) (h : w.assign t key v s = ([], .ok t', s)) :
    Agree (w.objspreadFrom (.p (.key key) v :: segs) t n) (w.objspreadFrom segs t' n) s := by
  simp only [objspreadFrom, segmentKey, pure_bind]
  rw [Agree, bind_ok h]
  exact ⟨rfl, rfl⟩

/-- What is left of a literal, evaluated first and put into the target after. -/
def fillLate (properties : List (Property σ ε χ K V)) (t : Target K V) : Eff σ ε χ (Target K V) := do
  let segs ← w.segments properties
  w.objspreadFrom segs t 0

theorem fillLate_agrees {properties : List (Property σ ε χ K V)} {t : Target K V} {s : σ}
    (h : w.Deferrable properties t s) :
    Agree (w.fillLate properties t) (w.propertyDefinitions properties t) s := by
  induction properties generalizing t s with
  | nil => exact w.objspreadFrom_nil t 0 s
  | cons property rest ih =>
    cases property with
    | member position => exact h.elim
    | spread argument =>
      simp only [fillLate, segments, propertyDefinitions, bind_assoc, pure_bind]
      refine agree_bind_iff.mpr fun source s' hsource => ?_
      obtain ⟨hcommutes, hlisted, hrest⟩ := h source s' hsource
      have hLate : Agree (w.segments rest >>= fun segs => w.objspreadFrom (.s source :: segs) t 0)
          (w.segments rest >>= fun segs =>
            w.copyDataProperties t source >>= fun t => w.objspreadFrom segs t 0) s' :=
        agree_bind_iff.mpr fun segs last hlast => w.objspreadFrom_source segs 0 (hlisted segs last hlast)
      have hNow : Agree (w.copyDataProperties t source >>= fun t => w.fillLate rest t)
          (w.copyDataProperties t source >>= w.propertyDefinitions rest) s' :=
        agree_bind_iff.mpr fun t s'' ht => ih (hrest t s'' ht)
      exact hLate.trans ((hcommutes.bind fun t segs => w.objspreadFrom segs t 0).symm.trans hNow)
    | proto value =>
      simp only [fillLate, segments, propertyDefinitions, bind_assoc, pure_bind]
      refine agree_bind_iff.mpr fun v s' hv => ?_
      obtain ⟨hassign, hrest⟩ := h v s' hv
      have hLate : Agree (w.segments rest >>= fun segs => w.objspreadFrom (.p (.key w.protoKey) v :: segs) t 0)
          (w.fillLate rest (w.setProto t v)) s' :=
        agree_bind_iff.mpr fun segs last hlast => w.objspreadFrom_assigned segs 0 (hassign segs last hlast)
      exact hLate.trans (ih hrest)
    | named key value =>
      simp only [fillLate, segments, propertyDefinitions, bind_assoc, pure_bind]
      obtain ⟨hname, hvalue⟩ := h
      refine Agree.bind hname.symm fun v s' hv => ?_
      obtain ⟨hassign, hrest⟩ := hvalue v s' hv
      have hLate : Agree (w.segments rest >>= fun segs => w.objspreadFrom (.p (.key key) v :: segs) t 0)
          (w.fillLate rest (t.define key v)) s' :=
        agree_bind_iff.mpr fun segs last hlast => w.objspreadFrom_assigned segs 0 (hassign segs last hlast)
      exact hLate.trans (ih hrest)
    | computed key value =>
      simp only [fillLate, segments, propertyDefinitions, bind_assoc, pure_bind]
      refine agree_bind_iff.mpr fun keyValue s₁ hkey => ?_
      obtain ⟨hcommutes, hvalue⟩ := h keyValue s₁ hkey
      have hLate := hcommutes.bind fun k left =>
        w.assign t k left.1 >>= fun t => w.objspreadFrom left.2 t 0
      simp only [bind_assoc, pure_bind] at hLate
      refine Agree.trans (Agree.symm hLate) (agree_bind_iff.mpr fun k s₂ hk => ?_)
      obtain ⟨hname, hvalue⟩ := hvalue k s₂ hk
      refine Agree.bind hname.symm fun v s₃ hv => ?_
      obtain ⟨hassign, hrest⟩ := hvalue v s₃ hv
      refine Agree.trans (agree_bind_iff.mpr fun segs last hlast => ?_) (ih hrest)
      rw [Agree, bind_ok (hassign segs last hlast)]
      exact ⟨rfl, rfl⟩

omit [DecidableEq K] in
theorem objspreadmeter_agrees (source : V) (s : σ) : Agree (w.objspreadmeter source) (pure source) s := by
  by_cases hnullish : w.isNullish source
  · rw [objspreadmeter, if_pos hnullish]
    exact Agree.refl _ s
  · rw [objspreadmeter, if_neg hnullish, Agree, state_bind_apply]
    by_cases hcharged : GROW_THRESHOLD < (w.okeys source s).length
    · rw [if_pos hcharged]
      exact agree_charge_bind.mpr (Agree.refl _ s)
    · rw [if_neg hcharged]
      exact ⟨rfl, rfl⟩

theorem propertyDefinitions_metered (properties : List (Property σ ε χ K V)) (t : Target K V) (s : σ) :
    Agree (w.propertyDefinitions (properties.map w.meterSpread) t) (w.propertyDefinitions properties t)
      s := by
  induction properties generalizing t s with
  | nil => exact Agree.refl _ s
  | cons property rest ih =>
    cases property with
    | spread argument =>
      simp only [List.map_cons, meterSpread, propertyDefinitions, bind_assoc]
      refine agree_bind_iff.mpr fun source s' _ => ?_
      have hMetered := Agree.bind (w.objspreadmeter_agrees source s')
        (f := fun source => w.copyDataProperties t source >>= fun t =>
          w.propertyDefinitions (rest.map w.meterSpread) t)
        (g := fun source => w.copyDataProperties t source >>= fun t => w.propertyDefinitions rest t)
        fun source s'' _ => agree_bind_iff.mpr fun t s₁ _ => ih t s₁
      rwa [pure_bind] at hMetered
    | proto value => exact agree_bind_iff.mpr fun v s' _ => ih _ s'
    | named key value => exact agree_bind_iff.mpr fun v s' _ => ih _ s'
    | computed key value =>
      exact agree_bind_iff.mpr fun keyValue _ _ => agree_bind_iff.mpr fun k _ _ =>
        agree_bind_iff.mpr fun v s' _ => ih _ s'
    | member position => exact agree_bind_iff.mpr fun t s' _ => ih t s'

/-- The rewritten literal builds what the language builds where the object may be filled late. -/
theorem objspread_agrees (properties : List (Property σ ε χ K V)) (s : σ)
    (h : w.MayFillLate properties s) : Agree (w.rewritten properties) (w.original properties) s := by
  rw [rewritten]
  cases hspread : properties.any Property.isSpread with
  | false => exact Agree.refl _ s
  | true =>
    cases hmember : properties.any Property.isMember with
    | true => exact w.propertyDefinitions_metered properties w.emptyObject s
    | false => exact w.fillLate_agrees (h hspread hmember)

end Realm

inductive Datum where
  | objectPrototype
  | null
  | undefined
  | number (n : ℕ)
  | object (props : List (String × Datum))

/-- Plain objects below an intact `Object.prototype`. -/
def plainRealm : Realm Unit Empty Empty String Datum where
  objectPrototype := .objectPrototype
  isObject
    | .objectPrototype | .object _ => true
    | _ => false
  isNull
    | .null => true
    | _ => false
  isUndefined
    | .undefined => true
    | _ => false
  protoKey := "__proto__"
  isSymbol _ := false
  toPropertyKey
    | .number n => pure (toString n)
    | _ => pure "[object Object]"
  ownKeys
    | .object props, _ => props.map Prod.fst
    | _, _ => []
  enumerable _ _ _ := true
  get source key :=
    match source with
    | .object props => pure ((props.lookup key).getD .undefined)
    | _ => pure .undefined
  inherited proto key _ :=
    match proto with
    | .objectPrototype =>
      if key = "__proto__" then some fun t v =>
        match v with
        | .null | .object _ => pure { t with proto := v }
        | _ => pure t
      else none
    | _ => none
  member _ t := pure t

/-- `{...{x: 1}, y: 2}`. -/
theorem objspread_agrees_plain :
    Agree (plainRealm.rewritten
        [.spread (pure (.object [("x", .number 1)])), .named "y" fun _ => pure (.number 2)])
      (plainRealm.original
        [.spread (pure (.object [("x", .number 1)])), .named "y" fun _ => pure (.number 2)]) () := by
  refine plainRealm.objspread_agrees _ () fun _ _ source s' hsource => ?_
  cases hsource
  refine ⟨⟨rfl, rfl⟩, fun segs last _ _ => ⟨rfl, fun v s' hv => ?_⟩, fun t s' ht => ?_⟩
  · cases hv
    exact ⟨rfl, trivial⟩
  · cases ht
    refine ⟨⟨rfl, rfl⟩, fun v s' hv => ?_⟩
    cases hv
    exact ⟨fun segs last _ => rfl, trivial⟩

/-- `{...JSON.parse('{"__proto__": null}')}` has no property and no prototype when rewritten. -/
theorem proto_key_sets_prototype :
    ¬ Agree (plainRealm.rewritten [.spread (pure (.object [("__proto__", .null)]))])
      (plainRealm.original [.spread (pure (.object [("__proto__", .null)]))]) () := by
  rintro ⟨-, hobject⟩
  injection hobject with hobject
  injection hobject with hobject
  injection hobject with _ hprops
  exact absurd hprops (List.cons_ne_nil _ _).symm

end XChainVM.Allocators.ObjectSpread
