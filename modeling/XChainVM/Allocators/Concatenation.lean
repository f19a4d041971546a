import XChainVM.Machine.Effects
import XChainVM.Harness.Values

/-! # Template literals and concatenation

A template literal becomes `__tmpl` of its parts, `a + b` becomes `__concat(a, b)`
and `x += b` on an identifier becomes `x = __concat(x, b)`. The language converts
each value of a template to a string right after its expression; `__tmpl` adds it to
a text once all expressions have been evaluated.
-/

namespace XChainVM.Allocators.Concatenation

open Js Machine Harness

variable {σ ε χ : Type}

inductive PreferredType where
  | default
  | string
  deriving DecidableEq

/-- What a site shows of its evaluation: which expression is evaluated, which object is
converted to which text, and the effects of each. -/
inductive Mark (ε : Type) where
  | evaluate (i : ℕ)
  | inner (e : ε)
  | convert (i : ℕ)
  | converting (e : ε)
  | converted (text : String)
  deriving DecidableEq

def Mark.isConversion {ε : Type} : Mark ε → Bool
  | convert _ | converting _ | converted _ => true
  | evaluate _ | inner _ => false

structure Realm (σ ε χ : Type) where
  lang : Language
  /-- `ToPrimitive` of an object. -/
  toPrimitive : ℕ → PreferredType → Eff σ ε χ Prim
  /-- What the conversion of a symbol to a string throws. -/
  symbolError : χ
  /-- `a + b` for two values. -/
  plus : Val → Val → Eff σ ε χ Val

namespace Realm

variable (w : Realm σ ε χ)

def primText : Prim → Option String
  | .undefined => some "undefined"
  | .null => some "null"
  | .bool b => some (if b then "true" else "false")
  | .number n => some (w.lang.numberText n)
  | .bigint z => some (toString z)
  | .string s => some s
  | .symbol => none

def textOf (p : Prim) : Eff σ ε χ String :=
  match w.primText p with
  | some text => pure text
  | none => Eff.throw w.symbolError

def objectText (id : ℕ) (hint : PreferredType) : Eff σ ε χ String := do
  let p ← w.toPrimitive id hint
  w.textOf p

def text (hint : PreferredType) : Val → Eff σ ε χ String
  | .prim p => w.textOf p
  | .object id => w.objectText id hint

/-- The text of the value of the `i`th expression. -/
def toText (hint : PreferredType) (i : ℕ) : Val → Eff σ (Mark ε) χ String
  | .prim p => Eff.lift .converting (w.textOf p)
  | .object id => do
    Eff.emit (.convert i)
    let text ← Eff.lift .converting (w.objectText id hint)
    Eff.emit (.converted text)
    pure text

end Realm

def evaluate (i : ℕ) (expr : Eff σ ε χ Val) : Eff σ (Mark ε) χ Val := do
  Eff.emit (.evaluate i)
  Eff.lift .inner expr

/-- A template after its first text: each expression with the text that follows it. -/
abbrev Template (σ ε χ : Type) := List (Eff σ ε χ Val × String)

variable (w : Realm σ ε χ)

/-- The language's template from expression `i` on, appended to `r`. -/
def templateFrom : ℕ → Template σ ε χ → String → Eff σ (Mark ε) χ String
  | _, [], r => pure r
  | i, (expr, quasi) :: rest, r => do
    let v ← evaluate i expr
    let text ← w.toText .string i v
    templateFrom (i + 1) rest (r ++ text ++ quasi)

/-- The values of the expressions from `i` on, each with the text that follows it. -/
def evaluateFrom : ℕ → Template σ ε χ → Eff σ (Mark ε) χ (List (Val × String))
  | _, [] => pure []
  | i, (expr, quasi) :: rest => do
    let v ← evaluate i expr
    let values ← evaluateFrom (i + 1) rest
    pure ((v, quasi) :: values)

/-- The value of an expression, or one of the template's own texts. -/
inductive Part where
  | quasi (text : String)
  | value (i : ℕ) (v : Val)

/-- The elements of the array `__tmpl` is called with, after the first text. -/
def partsFrom : ℕ → List (Val × String) → List Part
  | _, [] => []
  | i, (v, quasi) :: rest => .value i v :: .quasi quasi :: partsFrom (i + 1) rest

def GROW_THRESHOLD : ℕ := 256

/-- The loop of `__tmpl`. -/
def tmplFrom : List Part → String → ℕ → Eff σ (Mark ε) χ String
  | [], r, maxLen => do
    let grew := textLength r - maxLen
    if GROW_THRESHOLD < grew then Eff.charge grew
    pure r
  | part :: rest, r, maxLen => do
    let s ← match part with
      | .quasi text => pure text
      | .value i v => w.toText .default i v
    tmplFrom rest (r ++ s) (max maxLen (textLength s))

def tmpl (parts : List Part) : Eff σ (Mark ε) χ String := tmplFrom w parts "" 0

def slen : Val → ℕ
  | .prim (.string s) => textLength s
  | _ => 0

/-- `__concat`. -/
def concat (a b : Val) : Eff σ (Mark ε) χ Val := do
  let r ← Eff.lift .inner (w.plus a b)
  match r with
  | .prim (.string s) => do
    let grew := textLength s - max (slen a) (slen b)
    if GROW_THRESHOLD < grew then Eff.charge grew
  | _ => pure ()
  pure r

/-- An identifier: how it resolves, without effects, and the reads and writes of what it
resolves to. -/
structure Identifier (σ ε χ : Type) where
  Ref : Type
  resolve : σ → Ref
  getValue : Ref → Eff σ ε χ Val
  putValue : Ref → Val → Eff σ ε χ Unit

def Identifier.reference (x : Identifier σ ε χ) : Eff σ (Mark ε) χ x.Ref := fun s => ([], .ok (x.resolve s), s)

inductive Site (σ ε χ : Type) where
  | templateLiteral (first : String) (rest : Template σ ε χ)
  | plus (left right : Eff σ ε χ Val)
  | plusAssign (left : Identifier σ ε χ) (right : Eff σ ε χ Val)

namespace Site

def original : Site σ ε χ → Eff σ (Mark ε) χ Val
  | templateLiteral first rest => do
    let text ← templateFrom w 0 rest first
    pure (.prim (.string text))
  | plus left right => do
    let a ← evaluate 0 left
    let b ← evaluate 1 right
    Eff.lift .inner (w.plus a b)
  | plusAssign left right => do
    let ref ← left.reference
    let a ← Eff.lift .inner (left.getValue ref)
    let b ← evaluate 1 right
    let r ← Eff.lift .inner (w.plus a b)
    Eff.lift .inner (left.putValue ref r)
    pure r

/-- The expression `convertConcat` and `convertTemplateLiteral` put in its place. -/
def rewritten : Site σ ε χ → Eff σ (Mark ε) χ Val
  | templateLiteral first rest => do
    let values ← evaluateFrom 0 rest
    let text ← tmpl w (.quasi first :: partsFrom 0 values)
    pure (.prim (.string text))
  | plus left right => do
    let a ← evaluate 0 left
    let b ← evaluate 1 right
    concat w a b
  | plusAssign left right => do
    let ref ← left.reference
    let again ← left.reference
    let a ← Eff.lift .inner (left.getValue again)
    let b ← evaluate 1 right
    let r ← concat w a b
    Eff.lift .inner (left.putValue ref r)
    pure r

end Site

/-- The claimed agreement: of a template the string or what is thrown, and the conversions; of a
sum everything it shows. -/
def Site.Preserved (s : σ) : Site σ ε χ → Prop
  | templateLiteral first rest => Eff.AgreeOn Mark.isConversion
      ((templateLiteral first rest).rewritten w) ((templateLiteral first rest).original w) s s
  | plus left right => Eff.Agree ((plus left right).rewritten w) ((plus left right).original w) s
  | plusAssign left right =>
      Eff.Agree ((plusAssign left right).rewritten w) ((plusAssign left right).original w) s

/-- No conversion to a string and later evaluation get in each other's way. -/
def Settled : ℕ → Template σ ε χ → σ → Prop
  | _, [], _ => True
  | i, (expr, _) :: rest, s => ∀ v s', (expr s).2 = (.ok v, s') →
      Eff.CommutesOn Mark.isConversion (w.toText .string i v) (evaluateFrom (i + 1) rest) s' ∧
        ∀ text s'', (w.text .string v s').2 = (.ok text, s'') → Settled (i + 1) rest s''

/-- Each value in turn converts with the default hint to what it converts to as a string. -/
def ConvertsAlike : List (Val × String) → σ → σ → Prop
  | [], _, _ => True
  | (v, _) :: rest, s, s' =>
      Eff.AgreeOn (fun _ => true) (w.text .default v) (w.text .string v) s s' ∧
        ∀ text s₁ s₂, (w.text .default v s).2 = (.ok text, s₁) → (w.text .string v s').2 = (.ok text, s₂) →
          ConvertsAlike rest s₁ s₂

def Site.Settled (s : σ) : Site σ ε χ → Prop
  | templateLiteral _ rest => Concatenation.Settled w 0 rest s
  | plus _ _ | plusAssign _ _ => True

def Site.ConvertsAlike (s : σ) : Site σ ε χ → Prop
  | templateLiteral _ rest => Eff.After (evaluateFrom 0 rest : Eff σ (Mark ε) χ _) s fun values s' =>
      Concatenation.ConvertsAlike w values s' s'
  | plus _ _ | plusAssign _ _ => True

theorem evaluate_answer {i : ℕ} {expr : Eff σ ε χ Val} {s : σ} :
    (evaluate i expr s).2 = (expr s).2 := by
  rw [evaluate, Eff.bind_ok (rfl : (Eff.emit (Mark.evaluate i) : Eff σ (Mark ε) χ Unit) s = _)]
  rfl

/-- What a conversion answers, marks aside. -/
theorem toText_answer {hint : PreferredType} {i : ℕ} {v : Val} {s : σ} :
    ((w.toText hint i v : Eff σ (Mark ε) χ String) s).2 = (w.text hint v s).2 := by
  cases v with
  | prim p => rfl
  | object id =>
    rw [Realm.toText, Eff.bind_ok (rfl : (Eff.emit (Mark.convert i) : Eff σ (Mark ε) χ Unit) s = _)]
    change _ = (w.objectText id hint s).2
    rcases h : w.objectText id hint s with ⟨t, e | text, s'⟩
    · rw [Eff.bind_error (show Eff.lift Mark.converting (w.objectText id hint) s = _ by rw [Eff.lift, h])]
    · rw [Eff.bind_ok (show Eff.lift Mark.converting (w.objectText id hint) s = _ by rw [Eff.lift, h])]
      rfl

theorem agree_concat (a b : Val) (s : σ) :
    Eff.Agree (concat w a b) (Eff.lift .inner (w.plus a b) : Eff σ (Mark ε) χ Val) s := by
  suffices h : Eff.Agree (concat w a b) (Eff.lift .inner (w.plus a b) >>= pure) s by rwa [bind_pure] at h
  rw [concat, Eff.agree_bind_iff]
  intro r s' _
  split
  · dsimp only
    split
    · rw [Eff.agree_charge_bind]
      exact Eff.Agree.refl _ _
    · exact Eff.Agree.refl _ _
  · exact Eff.Agree.refl _ _

theorem agree_tmplFrom_nil (r : String) (maxLen : ℕ) (s : σ) :
    Eff.Agree (tmplFrom w [] r maxLen) (pure r : Eff σ (Mark ε) χ String) s := by
  rw [tmplFrom]
  dsimp only
  split
  · rw [Eff.agree_charge_bind]
    exact Eff.Agree.refl _ _
  · exact Eff.Agree.refl _ _

/-- The values converted in turn and appended to `r`. -/
def convertFrom (hint : PreferredType) : ℕ → List (Val × String) → String → Eff σ (Mark ε) χ String
  | _, [], r => pure r
  | i, (v, quasi) :: rest, r => do
    let text ← w.toText hint i v
    convertFrom hint (i + 1) rest (r ++ text ++ quasi)

/-- `__tmpl` converts its values with the default hint. -/
theorem agree_tmplFrom (i : ℕ) (values : List (Val × String)) (r : String) (maxLen : ℕ) (s : σ) :
    Eff.Agree (tmplFrom w (partsFrom i values) r maxLen)
      (convertFrom w .default i values r : Eff σ (Mark ε) χ String) s := by
  induction values generalizing i r maxLen s with
  | nil => exact agree_tmplFrom_nil w r maxLen s
  | cons value rest ih =>
    obtain ⟨v, quasi⟩ := value
    simp only [partsFrom, tmplFrom, convertFrom, pure_bind, Eff.agree_bind_iff]
    intro text s' _
    exact ih (i + 1) _ _ s'

/-- Where nothing gets in the way, the language's template may be taken for one that evaluates
all expressions first. -/
theorem agreeOn_templateFrom {i : ℕ} {rest : Template σ ε χ} {s : σ} (h : Settled w i rest s) (r : String) :
    Eff.AgreeOn Mark.isConversion (templateFrom w i rest r)
      (evaluateFrom i rest >>= fun values => convertFrom w .string i values r) s s := by
  induction rest generalizing i r s with
  | nil => exact ⟨rfl, rfl⟩
  | cons part rest ih =>
    obtain ⟨expr, quasi⟩ := part
    simp only [templateFrom, evaluateFrom, bind_assoc, pure_bind, convertFrom]
    rw [Eff.agreeOn_bind_iff]
    intro v s₁ hv
    obtain ⟨hswap, hrest⟩ := h v s₁ (by rwa [evaluate_answer] at hv)
    refine Eff.AgreeOn.trans ?_ (hswap.bind fun text values =>
      convertFrom w .string (i + 1) values (r ++ text ++ quasi))
    rw [Eff.agreeOn_bind_iff]
    intro text s₂ htext
    exact ih (hrest text s₂ (by rwa [toText_answer] at htext)) _

/-- What the effects of a conversion are is told by what they are followed by. -/
theorem converting_append_inj {l l' : List ε} {t t' : List (Mark ε)}
    (ht : ∀ e, t.head? ≠ some (.converting e)) (ht' : ∀ e, t'.head? ≠ some (.converting e)) :
    l.map Mark.converting ++ t = l'.map Mark.converting ++ t' ↔ l = l' ∧ t = t' := by
  constructor
  · intro h
    induction l generalizing l' with
    | nil =>
      cases l' with
      | nil => exact ⟨rfl, h⟩
      | cons e l' =>
        subst h
        exact absurd rfl (ht e)
    | cons e l ih =>
      cases l' with
      | nil =>
        subst h
        exact absurd rfl (ht' e)
      | cons e' l' =>
        simp only [List.map_cons, List.cons_append, List.cons.injEq, Mark.converting.injEq] at h
        obtain ⟨rfl, htail⟩ := ih h.2
        exact ⟨by rw [h.1], htail⟩
  · rintro ⟨rfl, rfl⟩
    rfl

theorem filter_converting (l : List ε) :
    (l.map Mark.converting).filter Mark.isConversion = l.map Mark.converting := by
  rw [List.filter_eq_self]
  intro m hm
  obtain ⟨e, -, rfl⟩ := List.mem_map.mp hm
  rfl

theorem conversions_object_error {hint : PreferredType} {id : ℕ} {s s' : σ} {t : List (Note ε)} {e : χ}
    (h : w.objectText id hint s = (t, .error e, s')) (i : ℕ) (f : String → Eff σ (Mark ε) χ String) :
    (visible ((w.toText hint i (.object id) >>= f) s).1).filter Mark.isConversion =
        .convert i :: ((visible t).map .converting ++ []) ∧
      ((w.toText hint i (.object id) >>= f) s).2.1 = .error e := by
  rw [Realm.toText, bind_assoc, Eff.bind_ok (rfl : (Eff.emit (Mark.convert i) : Eff σ (Mark ε) χ Unit) s = _),
    bind_assoc, Eff.bind_error (show Eff.lift Mark.converting (w.objectText id hint) s = _ by rw [Eff.lift, h])]
  refine ⟨?_, rfl⟩
  rw [List.singleton_append, visible_effect_cons, visible_map, List.filter_cons_of_pos rfl,
    filter_converting, List.append_nil]

theorem conversions_object_ok {hint : PreferredType} {id : ℕ} {s s' : σ} {t : List (Note ε)} {text : String}
    (h : w.objectText id hint s = (t, .ok text, s')) (i : ℕ) (f : String → Eff σ (Mark ε) χ String) :
    (visible ((w.toText hint i (.object id) >>= f) s).1).filter Mark.isConversion =
        .convert i :: ((visible t).map .converting ++
          .converted text :: (visible (f text s').1).filter Mark.isConversion) ∧
      ((w.toText hint i (.object id) >>= f) s).2.1 = (f text s').2.1 := by
  have hrest : (do Eff.emit (.converted text); pure text >>= f : Eff σ (Mark ε) χ String) s' =
      (.effect (.converted text) :: (f text s').1, (f text s').2) := by
    rw [pure_bind, Eff.bind_ok (rfl : (Eff.emit (Mark.converted text) : Eff σ (Mark ε) χ Unit) s' = _)]
    rfl
  rw [Realm.toText, bind_assoc, Eff.bind_ok (rfl : (Eff.emit (Mark.convert i) : Eff σ (Mark ε) χ Unit) s = _),
    bind_assoc, Eff.bind_ok (show Eff.lift Mark.converting (w.objectText id hint) s = _ by rw [Eff.lift, h]),
    bind_assoc, hrest]
  refine ⟨?_, rfl⟩
  rw [List.singleton_append, visible_effect_cons, visible_append, visible_map, visible_effect_cons,
    List.filter_cons_of_pos rfl, List.filter_append, filter_converting, List.filter_cons_of_pos rfl]

/-- The conversions of an object agree, with what follows them, exactly when the object converts
alike and what follows agrees. -/
theorem agreeOn_object_iff (i id : ℕ) (f g : String → Eff σ (Mark ε) χ String) (s s' : σ) :
    Eff.AgreeOn Mark.isConversion (w.toText .default i (.object id) >>= f)
        (w.toText .string i (.object id) >>= g) s s' ↔
      Eff.AgreeOn (fun _ => true) (w.objectText id .default) (w.objectText id .string) s s' ∧
        ∀ text s₁ s₂, (w.objectText id .default s).2 = (.ok text, s₁) →
          (w.objectText id .string s').2 = (.ok text, s₂) →
          Eff.AgreeOn Mark.isConversion (f text) (g text) s₁ s₂ := by
  have hnil (e : ε) : ([] : List (Mark ε)).head? ≠ some (.converting e) := by simp
  have hcons (text : String) (rest : List (Mark ε)) (e : ε) :
      (Mark.converted text :: rest).head? ≠ some (.converting e) := by simp
  simp only [Eff.AgreeOn, List.filter_true]
  rcases h : w.objectText id .default s with ⟨t, e | text, s₁⟩ <;>
    rcases h' : w.objectText id .string s' with ⟨t', e' | text', s₂⟩
  · obtain ⟨hlog, hanswer⟩ := conversions_object_error w h i f
    obtain ⟨hlog', hanswer'⟩ := conversions_object_error w h' i g
    rw [hlog, hlog', hanswer, hanswer', List.cons.injEq, converting_append_inj hnil hnil]
    simp
  · obtain ⟨hlog, -⟩ := conversions_object_error w h i f
    obtain ⟨hlog', -⟩ := conversions_object_ok w h' i g
    rw [hlog, hlog', List.cons.injEq, converting_append_inj hnil (hcons text' _)]
    simp
  · obtain ⟨hlog, -⟩ := conversions_object_ok w h i f
    obtain ⟨hlog', -⟩ := conversions_object_error w h' i g
    rw [hlog, hlog', List.cons.injEq, converting_append_inj (hcons text _) hnil]
    simp
  · obtain ⟨hlog, hanswer⟩ := conversions_object_ok w h i f
    obtain ⟨hlog', hanswer'⟩ := conversions_object_ok w h' i g
    rw [hlog, hlog', hanswer, hanswer', List.cons.injEq, converting_append_inj (hcons text _) (hcons text' _)]
    simp only [true_and, List.cons.injEq, Mark.converted.injEq, Except.ok.injEq, Prod.mk.injEq]
    constructor
    · rintro ⟨⟨heffects, rfl, hrest⟩, hend⟩
      refine ⟨⟨heffects, rfl⟩, ?_⟩
      rintro _ _ _ ⟨rfl, rfl⟩ ⟨-, rfl⟩
      exact ⟨hrest, hend⟩
    · rintro ⟨⟨heffects, rfl⟩, hrest⟩
      obtain ⟨hlogs, hend⟩ := hrest text s₁ s₂ ⟨rfl, rfl⟩ ⟨rfl, rfl⟩
      exact ⟨⟨heffects, rfl, hlogs⟩, hend⟩

/-- The values of a template are converted alike by `__tmpl` and by the language exactly when
each in turn converts alike. -/
theorem agreeOn_convertFrom_iff (i : ℕ) (values : List (Val × String)) (r : String) (s s' : σ) :
    Eff.AgreeOn Mark.isConversion (convertFrom w .default i values r : Eff σ (Mark ε) χ String)
      (convertFrom w .string i values r) s s' ↔ ConvertsAlike w values s s' := by
  induction values generalizing i r s s' with
  | nil => exact iff_of_true ⟨rfl, rfl⟩ trivial
  | cons value rest ih =>
    obtain ⟨v, quasi⟩ := value
    cases v with
    | prim p =>
      cases htext : w.primText p with
      | none =>
        -- a symbol, which neither side converts
        have hthrow : w.textOf p = Eff.throw w.symbolError := by rw [Realm.textOf, htext]
        simp only [convertFrom, ConvertsAlike, Realm.toText, Realm.text, hthrow]
        refine iff_of_true ⟨rfl, rfl⟩ ⟨⟨rfl, rfl⟩, ?_⟩
        intro text s₁ s₂ h
        cases h
      | some text =>
        have hpure : w.textOf p = pure text := by rw [Realm.textOf, htext]
        have hlift : Eff.lift Mark.converting (pure text : Eff σ ε χ String) = pure text := rfl
        simp only [convertFrom, ConvertsAlike, Realm.toText, Realm.text, hpure, hlift, pure_bind, ih]
        constructor
        · intro h
          refine ⟨⟨rfl, rfl⟩, ?_⟩
          intro _ _ _ h₁ h₂
          cases h₁
          cases h₂
          exact h
        · intro h
          exact h.2 text s s' rfl rfl
    | object id =>
      rw [convertFrom, convertFrom, agreeOn_object_iff, ConvertsAlike]
      simp only [ih]
      rfl

/-- The rewrite of a template or of a sum agrees with the language exactly when the values of the
template convert alike. -/
theorem Site.concat_agrees_iff (site : Site σ ε χ) (s : σ) (h : site.Settled w s) :
    site.Preserved w s ↔ site.ConvertsAlike w s := by
  cases site with
  | templateLiteral first rest =>
    have hinj : Function.Injective fun text => Val.prim (.string text) := fun a b h => by
      cases h
      rfl
    have hfirst (parts : List Part) :
        (tmpl w (.quasi first :: parts) : Eff σ (Mark ε) χ String) =
          tmplFrom w parts first (textLength first) := by simp [tmpl, tmplFrom]
    have hrewritten : Eff.AgreeOn Mark.isConversion
        (evaluateFrom 0 rest >>= fun values => tmpl w (.quasi first :: partsFrom 0 values))
        (evaluateFrom 0 rest >>= fun values => convertFrom w .default 0 values first) s s := by
      rw [Eff.agreeOn_bind_iff]
      intro values s' _
      rw [hfirst]
      exact (agree_tmplFrom w 0 values first _ s').agreeOn _
    have hmap : (templateLiteral first rest).Preserved w s ↔ Eff.AgreeOn Mark.isConversion
        (evaluateFrom 0 rest >>= fun values => tmpl w (.quasi first :: partsFrom 0 values))
        (templateFrom w 0 rest first) s s := by
      rw [← Eff.agreeOn_map_iff hinj]
      simp [Preserved, rewritten, original]
    have hdeferred := agreeOn_templateFrom w h first
    rw [hmap, ConvertsAlike]
    constructor
    · intro hagree values s' hvalues
      have hboth := (hrewritten.symm.trans hagree).trans hdeferred
      exact (agreeOn_convertFrom_iff w 0 values first s' s').mp (Eff.agreeOn_bind_iff.mp hboth values s' hvalues)
    · intro halike
      refine hrewritten.trans (Eff.AgreeOn.trans ?_ hdeferred.symm)
      rw [Eff.agreeOn_bind_iff]
      intro values s' hvalues
      exact (agreeOn_convertFrom_iff w 0 values first s' s').mpr (halike values s' hvalues)
  | plus left right =>
    refine iff_of_true ?_ trivial
    simp only [Preserved, rewritten, original, Eff.agree_bind_iff]
    intro a s₁ _ b s₂ _
    exact agree_concat w a b s₂
  | plusAssign left right =>
    refine iff_of_true ?_ trivial
    have hrewritten : (plusAssign left right).rewritten w s = (do
        let a ← Eff.lift .inner (left.getValue (left.resolve s))
        let b ← evaluate 1 right
        let r ← concat w a b
        Eff.lift .inner (left.putValue (left.resolve s) r)
        pure r : Eff σ (Mark ε) χ Val) s := rfl
    have horiginal : (plusAssign left right).original w s = (do
        let a ← Eff.lift .inner (left.getValue (left.resolve s))
        let b ← evaluate 1 right
        let r ← Eff.lift .inner (w.plus a b)
        Eff.lift .inner (left.putValue (left.resolve s) r)
        pure r : Eff σ (Mark ε) χ Val) s := rfl
    rw [Preserved, Eff.Agree, hrewritten, horiginal]
    change Eff.Agree _ _ s
    simp only [Eff.agree_bind_iff]
    intro a s₁ _ b s₂ _
    exact (agree_concat w a b s₂).bind fun r s₃ _ => Eff.Agree.refl _ s₃

/-- A world with the one object `[1, 2]`, whose `join` is seen. -/
def joined : Realm ℕ String Unit where
  lang := ⟨fun _ => "0", fun _ => some .nan, fun _ => some "true"⟩
  toPrimitive _ _ := do
    Eff.emit "join"
    pure (.string "1,2")
  symbolError := ()
  plus a _ := pure a

/-- `n++, 'b'`. -/
def countUp : Eff ℕ String Unit Val := fun n => ([.effect "n++"], .ok (.prim (.string "b")), n + 1)

/-- `${[1, 2]} and ${(n++, 'b')}` is what the language makes of it. -/
theorem concat_agrees_iff_joined :
    (Site.templateLiteral "" [(pure (.object 0), " and "), (countUp, "")]).Preserved joined 0 := by
  have hsettled : (Site.templateLiteral "" [(pure (.object 0), " and "), (countUp, "")]).Settled joined 0 := by
    intro v s hv
    cases hv
    refine ⟨⟨rfl, rfl⟩, ?_⟩
    intro text s' _ v s'' hv
    cases hv
    exact ⟨⟨rfl, rfl⟩, fun _ _ _ => trivial⟩
  refine (Site.concat_agrees_iff joined _ 0 hsettled).mpr ?_
  intro values s hvalues
  cases hvalues
  refine ⟨⟨rfl, rfl⟩, ?_⟩
  intro text s₁ s₂ h₁ h₂
  cases h₁
  cases h₂
  exact ⟨⟨rfl, rfl⟩, fun _ _ _ _ _ => trivial⟩

/-- A world with the one object `{ valueOf: () => true, toString: () => 'a' }`. -/
def twoFaced : Realm Unit Empty Unit where
  lang := ⟨fun _ => "0", fun _ => some .nan, fun _ => some "true"⟩
  toPrimitive _
    | .default => pure (.bool true)
    | .string => pure (.string "a")
  symbolError := ()
  plus a _ := pure a

/-- The template of that object alone is `a`, its rewrite `true`. -/
theorem template_takes_valueOf :
    ¬(Site.templateLiteral "" [(pure (.object 0), "")]).Preserved twoFaced () := by
  intro h
  have hrewritten : ((Site.templateLiteral "" [(pure (.object 0), "")]).rewritten twoFaced ()).2.1 =
      .ok (.prim (.string "true")) := by rfl
  have horiginal : ((Site.templateLiteral "" [(pure (.object 0), "")]).original twoFaced ()).2.1 =
      .ok (.prim (.string "a")) := by rfl
  have heq := h.2
  rw [hrewritten, horiginal] at heq
  simp at heq

end XChainVM.Allocators.Concatenation
