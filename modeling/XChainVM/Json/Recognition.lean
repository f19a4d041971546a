import XChainVM.Json.Descent

/-! # The parser accepts what the grammar derives

Each accepting run has a derivation with the depth it reports, and each derivation is followed, given
two nested calls for each unit of the text. A parser with more calls reads no text otherwise.
-/

namespace XChainVM.Json

variable {depth d : ℕ} {t rest : Text} {b : Bracket}

theorem Reading.andThen_eq_some {r : Reading} {k : Text → Reading} {deepest : ℕ}
    (h : r.andThen k = ⟨deepest, some rest⟩) :
    ∃ t, r = ⟨r.deepest, some t⟩ ∧ k t = ⟨(k t).deepest, some rest⟩ ∧ deepest = max r.deepest (k t).deepest := by
  rcases r with ⟨deepest₁, - | t⟩
  · cases h
  · obtain ⟨hdeepest, hrest⟩ := Reading.mk.inj h
    exact ⟨t, rfl, by rw [← hrest], hdeepest.symm⟩

theorem separated_eq_some {closing deepest : ℕ} {more : Text → Reading}
    (h : separated closing depth more t = ⟨deepest, some rest⟩) :
    (∃ t', t = 44 :: t' ∧ more t' = ⟨deepest, some rest⟩) ∨ (t = closing :: rest ∧ deepest = depth) := by
  cases t with
  | nil => cases h
  | cons ch t =>
    rw [separated] at h
    split at h
    · next hcomma => exact .inl ⟨t, by rw [hcomma], h⟩
    · split at h
      · next hclose =>
        cases h
        exact .inr ⟨by rw [hclose], rfl⟩
      · cases h

/-- What an accepting run of `readValue` saw. -/
theorem readValue_eq_some {fuel deepest : ℕ} (h : readValue (fuel + 1) depth t = ⟨deepest, some rest⟩) :
    (scalar (skip t) = some rest ∧ deepest = depth) ∨
    (∃ b t', skip t = Bracket.opening b :: t' ∧ skip t' = b.closing :: rest ∧ deepest = depth + 1) ∨
    (∃ b t', skip t = Bracket.opening b :: t' ∧ readItems fuel b (depth + 1) t' = ⟨deepest, some rest⟩) := by
  rw [readValue] at h
  split at h
  · cases h
  · next ch t' hskip =>
    split at h
    · next hopened =>
      obtain ⟨hdeepest, hrest⟩ := Reading.mk.inj h
      exact .inl ⟨by rw [hskip, hrest], hdeepest.symm⟩
    · next b hopened =>
      have hopening := Bracket.opened_eq_some.mp hopened
      rw [hopening] at hskip
      split at h
      · next hclose =>
        cases h
        exact .inr (.inl ⟨b, t', hskip, List.eq_cons_of_mem_head? hclose, rfl⟩)
      · exact .inr (.inr ⟨b, t', hskip, h⟩)

theorem readItems_eq_some {fuel deepest : ℕ} (h : readItems (fuel + 1) b depth t = ⟨deepest, some rest⟩) :
    ∃ t₁ t₂ e, b.label t = some t₁ ∧ readValue fuel depth t₁ = ⟨e, some t₂⟩ ∧
      ((∃ t₃ f, skip t₂ = 44 :: t₃ ∧ readItems fuel b depth t₃ = ⟨f, some rest⟩ ∧ deepest = max e f) ∨
        (skip t₂ = b.closing :: rest ∧ deepest = max e depth)) := by
  rw [readItems] at h
  split at h
  · cases h
  · next t₁ hlabel =>
    obtain ⟨t₂, hvalue, hmore, hdeepest⟩ := Reading.andThen_eq_some h
    refine ⟨t₁, t₂, _, hlabel, hvalue, ?_⟩
    obtain ⟨t₃, hcomma, hitems⟩ | ⟨hclose, hdepth⟩ := separated_eq_some hmore
    · exact .inl ⟨t₃, _, hcomma, hitems, hdeepest⟩
    · exact .inr ⟨hclose, by rw [hdeepest, hdepth]⟩

theorem read_sound (fuel : ℕ) :
    (∀ depth t deepest rest, readValue fuel depth t = ⟨deepest, some rest⟩ → ∃ d, deepest = depth + d ∧ Value d t rest) ∧
    (∀ b depth t deepest rest, readItems fuel b depth t = ⟨deepest, some rest⟩ →
      ∃ d, deepest = depth + d ∧ Items b d t rest) := by
  induction fuel with
  | zero => refine ⟨fun _ _ _ _ h => ?_, fun _ _ _ _ _ h => ?_⟩ <;> cases h
  | succ fuel ih =>
    obtain ⟨ihValue, ihItems⟩ := ih
    constructor
    · intro depth t deepest rest h
      obtain ⟨hscalar, rfl⟩ | ⟨b, t', hopen, hclose, rfl⟩ | ⟨b, t', hopen, hrun⟩ := readValue_eq_some h
      · exact ⟨0, rfl, .scalar hscalar⟩
      · exact ⟨1, rfl, .empty hopen hclose⟩
      · obtain ⟨d, rfl, hitems⟩ := ihItems _ _ _ _ _ hrun
        exact ⟨d + 1, by omega, .filled hopen hitems⟩
    · intro b depth t deepest rest h
      obtain ⟨t₁, t₂, e, hlabel, hrun, hend⟩ := readItems_eq_some h
      obtain ⟨d, rfl, hvalue⟩ := ihValue _ _ _ _ hrun
      obtain ⟨t₃, f, hcomma, hmore, rfl⟩ | ⟨hclose, rfl⟩ := hend
      · obtain ⟨e, rfl, hitems⟩ := ihItems _ _ _ _ _ hmore
        exact ⟨max d e, by omega, .cons hlabel hvalue hcomma hitems⟩
      · exact ⟨d, by omega, .last hlabel hvalue hclose⟩

theorem scalar_bracket {ch : ℕ} (hch : ch ∈ [91, 93, 123]) : scalar (ch :: t) = none := by
  simp only [List.mem_cons, List.not_mem_nil, or_false] at hch
  rcases hch with rfl | rfl | rfl <;>
    simp [scalar, keywords, keyword, number, sign, integerPart, digits, isDigit]

theorem scalar_not_opened {ch : ℕ} (h : scalar (ch :: t) = some rest) : Bracket.opened ch = none := by
  by_contra hopened
  obtain ⟨b, hb⟩ := Option.ne_none_iff_exists'.mp hopened
  have hch := Bracket.opened_eq_some.mp hb
  have : scalar (ch :: t) = none := scalar_bracket (by cases b <;> simp [hch, Bracket.opening])
  rw [this] at h
  cases h

theorem Value.not_closing (h : Value d t rest) : (skip t).head? ≠ some Bracket.square.closing := by
  intro hclose
  obtain ⟨t', hskip⟩ : ∃ t', skip t = 93 :: t' := ⟨_, List.eq_cons_of_mem_head? hclose⟩
  cases h with
  | scalar h =>
    rw [hskip, scalar_bracket (by decide)] at h
    cases h
  | @empty b _ _ _ hopen => cases b <;> simp [hskip, Bracket.opening] at hopen
  | @filled b _ _ _ _ hopen => cases b <;> simp [hskip, Bracket.opening] at hopen

theorem Items.not_closing (h : Items b d t rest) : (skip t).head? ≠ some b.closing := by
  obtain ⟨t₁, t₂, e, hlabel, hvalue⟩ : ∃ t₁ t₂ e, b.label t = some t₁ ∧ Value e t₁ t₂ := by
    cases h with
    | last hlabel hvalue => exact ⟨_, _, _, hlabel, hvalue⟩
    | cons hlabel hvalue => exact ⟨_, _, _, hlabel, hvalue⟩
  cases b with
  | square =>
    cases hlabel
    exact hvalue.not_closing
  | curly =>
    obtain ⟨t₁, t₂, hquote, -⟩ := key_eq_some hlabel
    rw [hquote]
    exact fun h => absurd (Option.some.inj h) (by decide)

theorem readValue_filled {fuel : ℕ} {t' : Text} (hopen : skip t = b.opening :: t')
    (hclose : (skip t').head? ≠ some b.closing) :
    readValue (fuel + 1) depth t = readItems fuel b (depth + 1) t' := by
  rw [readValue, hopen]
  dsimp only
  rw [Bracket.opened_eq_some.mpr rfl]
  dsimp only
  rw [if_neg hclose]

mutual

theorem read_complete {d : ℕ} {t rest : Text} : Value d t rest → ∀ fuel depth, 2 * t.length + 1 ≤ fuel →
    readValue fuel depth t = ⟨depth + d, some rest⟩
  | .scalar hscalar => by
    intro fuel depth hfuel
    obtain ⟨fuel, rfl⟩ := Nat.exists_eq_add_of_le' (Nat.one_le_of_lt hfuel)
    rw [readValue]
    cases hskip : skip t with
    | nil =>
      rw [hskip] at hscalar
      cases hscalar
    | cons ch t' =>
      rw [hskip] at hscalar
      dsimp only
      rw [scalar_not_opened hscalar, hscalar]
      rfl
  | .empty hopen hclose => by
    intro fuel depth hfuel
    obtain ⟨fuel, rfl⟩ := Nat.exists_eq_add_of_le' (Nat.one_le_of_lt hfuel)
    rw [readValue, hopen]
    dsimp only
    rw [Bracket.opened_eq_some.mpr rfl, hclose]
    exact if_pos rfl
  | .filled hopen hitems => by
    intro fuel depth hfuel
    have hread := readItems_complete hitems
    obtain ⟨fuel, rfl⟩ := Nat.exists_eq_add_of_le' (Nat.one_le_of_lt hfuel)
    have := length_of_skip hopen
    rw [readValue_filled hopen hitems.not_closing, hread fuel (depth + 1) (by omega), Nat.add_assoc,
      Nat.add_comm 1]

theorem readItems_complete {b : Bracket} {d : ℕ} {t rest : Text} : Items b d t rest → ∀ fuel depth,
    2 * t.length + 2 ≤ fuel → readItems fuel b depth t = ⟨depth + d, some rest⟩
  | .last hlabel hvalue hclose => by
    intro fuel depth hfuel
    have hread := read_complete hvalue
    obtain ⟨fuel, rfl⟩ := Nat.exists_eq_add_of_le' (Nat.one_le_of_lt hfuel)
    have := Bracket.length_label hlabel
    have hcomma : b.closing ≠ 44 := by cases b <;> decide
    rw [readItems, hlabel]
    dsimp only
    rw [hread fuel depth (by omega), Reading.andThen]
    dsimp only
    rw [hclose, separated, if_neg hcomma, if_pos rfl, max_eq_left (Nat.le_add_right _ _)]
  | .cons hlabel hvalue hcomma hitems => by
    intro fuel depth hfuel
    have hread := read_complete hvalue
    have hrest := readItems_complete hitems
    obtain ⟨fuel, rfl⟩ := Nat.exists_eq_add_of_le' (Nat.one_le_of_lt hfuel)
    have := Bracket.length_label hlabel
    have := hvalue.length_lt
    have := length_of_skip hcomma
    rw [readItems, hlabel]
    dsimp only
    rw [hread fuel depth (by omega), Reading.andThen]
    dsimp only
    rw [hcomma, separated, if_pos rfl, hrest fuel depth (by omega), Nat.add_max_add_left]

end

theorem read_fuel (fuel : ℕ) :
    (∀ depth t, 2 * t.length + 1 ≤ fuel → readValue (fuel + 1) depth t = readValue fuel depth t) ∧
    (∀ b depth t, 2 * t.length + 2 ≤ fuel → readItems (fuel + 1) b depth t = readItems fuel b depth t) := by
  induction fuel with
  | zero => exact ⟨fun _ _ h => absurd h (Nat.not_succ_le_zero _), fun _ _ _ h => absurd h (Nat.not_succ_le_zero _)⟩
  | succ fuel ih =>
    obtain ⟨ihValue, ihItems⟩ := ih
    constructor
    · intro depth t hfuel
      rw [readValue, readValue]
      cases hskip : skip t with
      | nil => rfl
      | cons ch t' =>
        have := length_of_skip hskip
        have hitems (b : Bracket) : readItems (fuel + 1) b (depth + 1) t' = readItems fuel b (depth + 1) t' :=
          ihItems _ _ _ (by omega)
        simp only [hitems]
    · intro b depth t hfuel
      rw [readItems, readItems]
      cases hlabel : b.label t with
      | none => rfl
      | some t₁ =>
        have := Bracket.length_label hlabel
        dsimp only
        rw [ihValue _ _ (by omega)]
        rcases hvalue : readValue fuel depth t₁ with ⟨deepest, - | t₂⟩
        · rfl
        · obtain ⟨d, -, hderived⟩ := (read_sound fuel).1 _ _ _ _ hvalue
          have := hderived.length_lt
          have hmore : separated b.closing depth (readItems (fuel + 1) b depth) (skip t₂) =
              separated b.closing depth (readItems fuel b depth) (skip t₂) := by
            cases hskip : skip t₂ with
            | nil => rfl
            | cons ch t₃ =>
              have := length_of_skip hskip
              rw [separated, separated, ihItems _ _ _ (by omega)]
          rw [Reading.andThen, Reading.andThen]
          dsimp only
          rw [hmore]

/-- More calls than two for each unit change nothing. -/
theorem readValue_enough (depth extra : ℕ) (t : Text) :
    readValue (2 * t.length + 1 + extra) depth t = readValue (2 * t.length + 1) depth t := by
  induction extra with
  | zero => rfl
  | succ extra ih => rw [← Nat.add_assoc, (read_fuel _).1 depth t (Nat.le_add_right _ _), ih]

/-- The parser accepts exactly the well-formed texts, and reports their depth. -/
theorem readText_accepts (d : ℕ) (text : Text) : readText text = ⟨d, some []⟩ ↔ WellFormed d text := by
  constructor
  · intro h
    obtain ⟨t, hvalue, hend, hdeepest⟩ := Reading.andThen_eq_some h
    obtain ⟨d', hd', hderived⟩ := (read_sound _).1 _ _ _ _ hvalue
    rw [Nat.zero_add] at hd'
    obtain ⟨hdepth, hrest⟩ := Reading.mk.inj hend
    rw [← hdepth, Nat.max_zero, hd'] at hdeepest
    refine ⟨t, hdeepest ▸ hderived, ?_⟩
    by_contra hmore
    rw [if_neg hmore] at hrest
    cases hrest
  · rintro ⟨rest, hvalue, hend⟩
    unfold readText
    rw [read_complete hvalue _ 0 le_rfl, Reading.andThen]
    dsimp only
    rw [if_pos hend, Nat.zero_add, Nat.max_zero]

end XChainVM.Json
