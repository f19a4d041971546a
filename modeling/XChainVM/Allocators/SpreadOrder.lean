import XChainVM.Allocators.ArraySpread

/-! # The order in which a spread list is built

A list in which nothing is evaluated after a spread is built by the same steps in
the same order. In any other list the first source is iterated too late, unless an
expression throws before.
-/

namespace XChainVM.Allocators.ArraySpread

open Machine

variable {σ ε χ V : Type}

theorem Site.converted_eq {site : Site σ ε χ V} {segs : List (SegmentExpr σ ε χ V)}
    (h : site.converted = some segs) : segs = site.elements.map Element.toSegment := by
  cases site with
  | literal elements =>
    simp only [converted, convertArraySpread] at h
    split at h <;> cases h
    rfl
  | arguments gate elements =>
    simp only [converted, convertCallSpread] at h
    split at h <;> cases h
    rfl

def build (w : Realm σ ε χ V) : ℕ → List (Segment V) → Slots V → Eff σ (Mark ε) χ (Slots V)
  | _, [], r => pure r
  | i, .h :: rest, r => build w (i + 1) rest (r ++ [none])
  | i, .e v :: rest, r => build w (i + 1) rest (r ++ [some v])
  | i, .s source :: rest, r => do
    let vs ← w.spreadOut i source
    build w (i + 1) rest (r ++ vs.map some)

variable (w : Realm σ ε χ V)

theorem segments_holes (i : ℕ) (elements : List (Element σ ε χ V)) (h : elements.all Element.isHole) :
    segments i (elements.map Element.toSegment) =
      (pure (elements.map fun _ => .h) : Eff σ (Mark ε) χ (List (Segment V))) := by
  induction elements generalizing i with
  | nil => rfl
  | cons element rest ih =>
    cases element with
    | hole => simp [segments, Element.toSegment, ih (i + 1) (by simpa [Element.isHole] using h)]
    | plain expr => simp [Element.isHole] at h
    | spread expr => simp [Element.isHole] at h

theorem build_holes (i : ℕ) (elements : List (Element σ ε χ V)) (h : elements.all Element.isHole)
    (r : Slots V) :
    build w i (elements.map fun _ => .h) r = w.arrayAccumulation i elements r := by
  induction elements generalizing i r with
  | nil => rfl
  | cons element rest ih =>
    cases element with
    | hole => exact ih (i + 1) (by simpa [Element.isHole] using h) (r ++ [none])
    | plain expr => simp [Element.isHole] at h
    | spread expr => simp [Element.isHole] at h

theorem segments_build (i : ℕ) (elements : List (Element σ ε χ V)) (h : SpreadLast elements)
    (r : Slots V) :
    (segments i (elements.map Element.toSegment) >>= fun values => build w i values r) =
      w.arrayAccumulation i elements r := by
  induction elements generalizing i r with
  | nil => rfl
  | cons element rest ih =>
    simp only [List.map_cons]
    cases element with
    | hole =>
      simp only [segments, Element.toSegment, bind_assoc, pure_bind, build, Realm.arrayAccumulation]
      exact ih (i + 1) h (r ++ [none])
    | plain expr =>
      simp only [segments, Element.toSegment, bind_assoc, pure_bind, build, Realm.arrayAccumulation]
      congr 1
      funext v
      exact ih (i + 1) h (r ++ [some v])
    | spread expr =>
      simp only [segments, Element.toSegment, bind_assoc, pure_bind, build, Realm.arrayAccumulation,
        segments_holes (i + 1) rest h]
      congr 1
      funext source
      congr 1
      funext vs
      exact build_holes w (i + 1) rest h _

theorem orBuiltin_of_none {α : Type} {own : σ → Option (Eff σ ε χ α)} {s : σ} (h : own s = none) (a : α) :
    (Realm.orBuiltin own a : Eff σ (Mark ε) χ α) s = ([], .ok a, s) := by
  simp [Realm.orBuiltin, h, Eff.pure_apply]

theorem orBuiltin_bind_of_none {α β : Type} {own : σ → Option (Eff σ ε χ α)} {s : σ} (h : own s = none)
    (a : α) (f : α → Eff σ (Mark ε) χ β) : (Realm.orBuiltin own a >>= f) s = f a s := by
  rw [Eff.bind_ok (orBuiltin_of_none h a), List.nil_append]

theorem shows_orBuiltin {α : Type} {own : σ → Option (Eff σ ε χ α)} {s : σ} (h : own s ≠ none) (a : α) :
    Eff.Shows .replacedBuiltin (Realm.orBuiltin own a : Eff σ (Mark ε) χ α) s := by
  obtain ⟨m, hm⟩ := Option.ne_none_iff_exists'.mp h
  simp only [Eff.Shows, Realm.orBuiltin, hm]
  rw [Eff.bind_ok (rfl : (Eff.emit Mark.replacedBuiltin : Eff σ (Mark ε) χ Unit) s = _)]
  simp

theorem pushAll_of_builtin {r : Slots V} {vs : List V} {s : σ} (h : w.PushesBuiltin r vs s) :
    w.pushAll r vs s = ([], .ok (r ++ vs.map some), s) := by
  induction vs generalizing r with
  | nil => simp [Realm.pushAll, Eff.pure_apply]
  | cons v vs ih =>
    obtain ⟨hfirst, hrest⟩ := h
    rw [Realm.pushAll, orBuiltin_bind_of_none hfirst, ih hrest]
    simp

theorem shows_pushAll {r : Slots V} {vs : List V} {s : σ} (h : ¬w.PushesBuiltin r vs s) :
    Eff.Shows .replacedBuiltin (w.pushAll r vs) s := by
  induction vs generalizing r with
  | nil => exact absurd trivial h
  | cons v vs ih =>
    by_cases hfirst : w.push r v s = none
    · have hrest := ih fun hrest => h ⟨hfirst, hrest⟩
      rw [Eff.Shows, Realm.pushAll, orBuiltin_bind_of_none hfirst]
      exact hrest
    · exact (shows_orBuiltin hfirst _).bind_left _

theorem spreadOut_snd (i : ℕ) (source : V) (s : σ) :
    (w.spreadOut i source s).2 = (w.iterate source s).2 := by
  unfold Realm.spreadOut
  rw [Eff.bind_ok (rfl : (Eff.emit (Mark.iterate i) : Eff σ (Mark ε) χ Unit) s = _)]
  rfl

variable (own : Slots V → σ → Option (Eff σ ε χ (Slots V)))

theorem agree_arrspreadFrom (i n : ℕ) (values : List (Segment V)) (r : Slots V) (s : σ)
    (h : w.Intact (fun r s => own r s = none) values r s) :
    Eff.Agree (w.arrspreadFrom i values r n >>= fun r => Realm.orBuiltin (own r) r) (build w i values r) s := by
  induction values generalizing i n r s with
  | nil =>
    have hlast : Eff.Agree (Realm.orBuiltin (own r) r) (pure r : Eff σ (Mark ε) χ (Slots V)) s :=
      (Eff.agree_congr (orBuiltin_of_none h r)).mpr ⟨rfl, rfl⟩
    simp only [Realm.arrspreadFrom, build]
    split
    · simpa [Eff.agree_charge_bind] using hlast
    · simpa using hlast
  | cons value rest ih =>
    cases value with
    | h =>
      obtain ⟨hmissing, hrest⟩ := h
      simp only [Realm.arrspreadFrom, build, bind_assoc]
      exact (Eff.agree_congr (orBuiltin_bind_of_none hmissing _ _)).mpr (ih (i + 1) n (r ++ [none]) s hrest)
    | e v =>
      obtain ⟨hpush, hrest⟩ := h
      simp only [Realm.arrspreadFrom, build, bind_assoc]
      exact (Eff.agree_congr (orBuiltin_bind_of_none hpush _ _)).mpr (ih (i + 1) n (r ++ [some v]) s hrest)
    | s source =>
      simp only [Realm.arrspreadFrom, build, bind_assoc, Eff.agree_bind_iff]
      intro vs s' hvs
      obtain ⟨hpushes, hrest⟩ := h vs s' (by rwa [spreadOut_snd] at hvs)
      refine (Eff.agree_congr (?_ : _ = _)).mpr (ih (i + 1) (n + vs.length) (r ++ vs.map some) s' hrest)
      rw [Eff.bind_ok (pushAll_of_builtin w hpushes), List.nil_append]

theorem shows_arrspreadFrom (i n : ℕ) (values : List (Segment V)) (r : Slots V) (s : σ)
    (h : ¬w.Intact (fun r s => own r s = none) values r s) :
    Eff.Shows .replacedBuiltin (w.arrspreadFrom i values r n >>= fun r => Realm.orBuiltin (own r) r) s := by
  induction values generalizing i n r s with
  | nil =>
    have hlast := shows_orBuiltin h r
    simp only [Realm.arrspreadFrom]
    split
    · rw [bind_assoc]
      exact Eff.Shows.bind_right rfl hlast
    · exact hlast
  | cons value rest ih =>
    cases value with
    | h =>
      simp only [Realm.arrspreadFrom, bind_assoc]
      by_cases hmissing : w.missingValue s = none
      · have hrest := ih (i + 1) n (r ++ [none]) s fun hrest => h ⟨hmissing, hrest⟩
        rwa [Eff.Shows, orBuiltin_bind_of_none hmissing]
      · exact (shows_orBuiltin hmissing _).bind_left _
    | e v =>
      simp only [Realm.arrspreadFrom, bind_assoc]
      by_cases hpush : w.push r v s = none
      · have hrest := ih (i + 1) n (r ++ [some v]) s fun hrest => h ⟨hpush, hrest⟩
        rwa [Eff.Shows, orBuiltin_bind_of_none hpush]
      · exact (shows_orBuiltin hpush _).bind_left _
    | s source =>
      simp only [Realm.Intact, not_forall] at h
      obtain ⟨vs, s', hvs, h⟩ := h
      simp only [Realm.arrspreadFrom, bind_assoc]
      apply Eff.Shows.bind_right (by rw [spreadOut_snd]; exact hvs)
      by_cases hpushes : w.PushesBuiltin r vs s'
      · have hrest := ih (i + 1) (n + vs.length) (r ++ vs.map some) s' fun hrest => h ⟨hpushes, hrest⟩
        rwa [Eff.Shows, Eff.bind_ok (pushAll_of_builtin w hpushes), List.nil_append]
      · exact (shows_pushAll w hpushes).bind_left _

/-- A throw up to the first source ends both lists there. -/
theorem ends_of_leading_error (i : ℕ) (elements : List (Element σ ε χ V)) (r : Slots V)
    {s s' : σ} {t : List (Note (Mark ε))} {x : χ} (h : leading i elements s = (t, .error x, s')) :
    segments i (elements.map Element.toSegment) s = (t, .error x, s') ∧
      w.arrayAccumulation i elements r s = (t, .error x, s') := by
  induction elements generalizing i r s t with
  | nil => cases h
  | cons element rest ih =>
    simp only [List.map_cons]
    cases element with
    | hole =>
      obtain ⟨hsegments, harray⟩ := ih (i + 1) (r ++ [none]) h
      exact ⟨Eff.bind_error hsegments, harray⟩
    | plain expr =>
      rcases heval : (Realm.evaluate i expr : Eff σ (Mark ε) χ V) s with ⟨t₁, e | v, s₁⟩
      · rw [leading, Eff.bind_error heval] at h
        cases h
        exact ⟨Eff.bind_error heval, Eff.bind_error heval⟩
      · rw [leading, Eff.bind_ok heval] at h
        obtain ⟨hlog, hend⟩ := Prod.mk.inj h
        obtain ⟨hsegments, harray⟩ := ih (i + 1) (r ++ [some v]) (Prod.ext rfl hend)
        constructor
        · rw [Element.toSegment, segments, Eff.bind_ok heval, Eff.bind_error hsegments, hlog]
        · rw [Realm.arrayAccumulation, Eff.bind_ok heval, harray, hlog]
    | spread expr =>
      rcases heval : (Realm.evaluate i expr : Eff σ (Mark ε) χ V) s with ⟨t₁, e | v, s₁⟩
      · rw [leading, Eff.bind_error heval] at h
        cases h
        exact ⟨Eff.bind_error heval, Eff.bind_error heval⟩
      · rw [leading, Eff.bind_ok heval] at h
        cases h

/-- Where an expression is left, the next effect of the segments is its evaluation. -/
theorem segments_starts (i : ℕ) (elements : List (Element σ ε χ V)) (h : ¬elements.all Element.isHole)
    (k : List (Segment V) → Eff σ (Mark ε) χ (Slots V)) (s : σ) :
    ∃ j t, visible ((segments i (elements.map Element.toSegment) >>= k) s).1 = .evaluate j :: t := by
  have hstart (j : ℕ) (expr : Eff σ ε χ V) (f : V → Eff σ (Mark ε) χ (Slots V)) :
      ∃ t, visible ((Realm.evaluate j expr >>= f) s).1 = .evaluate j :: t := by
    rw [Realm.evaluate, bind_assoc, Eff.bind_ok (rfl : Eff.emit (Mark.evaluate j) s = _)]
    exact ⟨_, visible_effect_cons _ _⟩
  induction elements generalizing i k with
  | nil => exact absurd rfl h
  | cons element rest ih =>
    simp only [List.map_cons]
    cases element with
    | hole =>
      simp only [Element.toSegment, segments, bind_assoc]
      exact ih (i + 1) (by simpa [Element.isHole] using h) _
    | plain expr =>
      simp only [Element.toSegment, segments, bind_assoc]
      exact ⟨i, hstart i expr _⟩
    | spread expr =>
      simp only [Element.toSegment, segments, bind_assoc]
      exact ⟨i, hstart i expr _⟩

/-- Otherwise the language iterates the first source where the rewrite goes on evaluating. -/
theorem visible_ne_of_not_spreadLast (i : ℕ) (elements : List (Element σ ε χ V))
    (hlast : ¬SpreadLast elements) (r : Slots V) (k : List (Segment V) → Eff σ (Mark ε) χ (Slots V))
    {s s' : σ} {t : List (Note (Mark ε))} (h : leading i elements s = (t, .ok (), s')) :
    visible ((segments i (elements.map Element.toSegment) >>= k) s).1 ≠
      visible (w.arrayAccumulation i elements r s).1 := by
  induction elements generalizing i r k s t with
  | nil => exact absurd trivial hlast
  | cons element rest ih =>
    simp only [List.map_cons]
    cases element with
    | hole =>
      simp only [Element.toSegment, segments, bind_assoc]
      exact ih (i + 1) hlast (r ++ [none]) _ h
    | plain expr =>
      simp only [Element.toSegment, segments, bind_assoc, Realm.arrayAccumulation]
      rcases heval : (Realm.evaluate i expr : Eff σ (Mark ε) χ V) s with ⟨t₁, e | v, s₁⟩
      · rw [leading, Eff.bind_error heval] at h
        cases h
      · rw [leading, Eff.bind_ok heval] at h
        obtain ⟨-, hend⟩ := Prod.mk.inj h
        have hne := ih (i + 1) hlast (r ++ [some v]) (fun segs => pure (.e v :: segs) >>= k)
          (Prod.ext rfl hend)
        rw [Eff.bind_ok heval, Eff.bind_ok heval]
        simpa using hne
    | spread expr =>
      simp only [Element.toSegment, segments, bind_assoc, Realm.arrayAccumulation]
      rcases heval : (Realm.evaluate i expr : Eff σ (Mark ε) χ V) s with ⟨t₁, e | source, s₁⟩
      · rw [leading, Eff.bind_error heval] at h
        cases h
      · obtain ⟨j, t₂, ht₂⟩ := segments_starts (i + 1) rest hlast
          (fun segs => k (.s source :: segs)) s₁
        rw [Eff.bind_ok heval, Eff.bind_ok heval, Realm.spreadOut, bind_assoc,
          Eff.bind_ok (rfl : Eff.emit (Mark.iterate i) s₁ = _)]
        simp only [pure_bind, visible_append, ht₂, visible_effect_cons, List.cons_append, ne_eq,
          List.append_cancel_left_eq]
        simp

theorem avoids_arrayAccumulation (i : ℕ) (elements : List (Element σ ε χ V)) (r : Slots V) :
    Eff.Avoids .replacedBuiltin (w.arrayAccumulation i elements r) := by
  have heval (j : ℕ) (expr : Eff σ ε χ V) :
      Eff.Avoids .replacedBuiltin (Realm.evaluate j expr : Eff σ (Mark ε) χ V) :=
    (Eff.avoids_emit (by simp)).bind fun _ => Eff.avoids_lift (by simp) expr
  have hspread (j : ℕ) (source : V) : Eff.Avoids .replacedBuiltin (w.spreadOut j source) :=
    (Eff.avoids_emit (by simp)).bind fun _ => Eff.avoids_lift (by simp) _
  induction elements generalizing i r with
  | nil => exact Eff.avoids_pure _ _
  | cons element rest ih =>
    cases element with
    | hole => exact ih (i + 1) _
    | plain expr => exact (heval i expr).bind fun v => ih (i + 1) _
    | spread expr => exact (heval i expr).bind fun source => (hspread i source).bind fun vs => ih (i + 1) _

def oneArray : Realm (List ℕ) Empty Empty ℕ where
  iterate _ := fun s => ([], .ok s, s)
  push _ _ _ := none
  arrayIterator _ _ := none
  missingValue _ := none

/-- `[...xs, (xs.push(2), 9)]`. -/
def growingLiteral : Site (List ℕ) Empty Empty ℕ :=
  .literal [.spread (pure 0), .plain fun s => ([], .ok 9, s ++ [2])]

end XChainVM.Allocators.ArraySpread
