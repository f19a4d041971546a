import XChainVM.Json.ParseGuard

/-! # Reading JSON by recursive descent

The grammar relates the text before a value to the text after it. The parser follows it, one call for
each value and one for each bracket that is open, and keeps the deepest nesting it came to.
-/

namespace XChainVM.Json

def isBlank (ch : ℕ) : Bool := ch ∈ [9, 10, 13, 32]

def skip (t : Text) : Text := t.dropWhile isBlank

def isDigit (ch : ℕ) : Bool := 48 ≤ ch ∧ ch ≤ 57

def isHex (ch : ℕ) : Bool := isDigit ch ∨ (65 ≤ ch ∧ ch ≤ 70) ∨ (97 ≤ ch ∧ ch ≤ 102)

def digits : Text → Option Text
  | [] => none
  | ch :: rest => if isDigit ch then some (rest.dropWhile isDigit) else none

def sign (signs : List ℕ) : Text → Text
  | [] => []
  | ch :: rest => if ch ∈ signs then rest else ch :: rest

def integerPart : Text → Option Text
  | [] => none
  | ch :: rest => if ch = 48 then some rest else digits (ch :: rest)

def fraction : Text → Option Text
  | [] => some []
  | ch :: rest => if ch = 46 then digits rest else some (ch :: rest)

def exponent : Text → Option Text
  | [] => some []
  | ch :: rest => if ch = 69 ∨ ch = 101 then digits (sign [43, 45] rest) else some (ch :: rest)

def number (t : Text) : Option Text := (integerPart (sign [45] t)).bind fun t => (fraction t).bind exponent

/-- `true`, `false` and `null`. -/
def keywords : List Text := [[116, 114, 117, 101], [102, 97, 108, 115, 101], [110, 117, 108, 108]]

def keyword (word t : Text) : Option Text := if word <+: t then some (t.drop word.length) else none

def escapes : List ℕ := [34, 92, 47, 98, 102, 110, 114, 116]

def stringBody : Text → Option Text
  | [] => none
  | ch :: rest =>
    if ch = 34 then some rest
    else if ch = 92 then
      match rest with
      | [] => none
      | e :: rest =>
        if e ∈ escapes then stringBody rest
        else if e = 117 then
          match rest with
          | a :: b :: c :: d :: rest => if [a, b, c, d].all isHex then stringBody rest else none
          | _ => none
        else none
    else if ch < 32 then none
    else stringBody rest

def scalar : Text → Option Text
  | [] => none
  | ch :: rest =>
    if ch = 34 then stringBody rest
    else (keywords.findSome? fun word => keyword word (ch :: rest)).or (number (ch :: rest))

def colon (t : Text) : Option Text :=
  match skip t with
  | 58 :: t => some t
  | _ => none

def key (t : Text) : Option Text :=
  match skip t with
  | 34 :: t => (stringBody t).bind colon
  | _ => none

inductive Bracket where
  | square
  | curly
  deriving DecidableEq

namespace Bracket

def opening : Bracket → ℕ
  | square => 91
  | curly => 123

def closing : Bracket → ℕ
  | square => 93
  | curly => 125

def opened (ch : ℕ) : Option Bracket := if ch = 91 then some square else if ch = 123 then some curly else none

/-- What comes before an item: nothing in an array, a key in an object. -/
def label : Bracket → Text → Option Text
  | square => some
  | curly => key

end Bracket

mutual

/-- A value, with the nesting of its brackets, between the text from it on and the text after it. -/
inductive Value : ℕ → Text → Text → Prop where
  | scalar {t rest : Text} : scalar (skip t) = some rest → Value 0 t rest
  | empty {b : Bracket} {t t' rest : Text} : skip t = b.opening :: t' → skip t' = b.closing :: rest → Value 1 t rest
  | filled {b : Bracket} {d : ℕ} {t t' rest : Text} : skip t = b.opening :: t' → Items b d t' rest → Value (d + 1) t rest

/-- The items behind an opening bracket, with the closing one. -/
inductive Items : Bracket → ℕ → Text → Text → Prop where
  | last {b : Bracket} {d : ℕ} {t t₁ t₂ rest : Text} : b.label t = some t₁ → Value d t₁ t₂ →
      skip t₂ = b.closing :: rest → Items b d t rest
  | cons {b : Bracket} {d e : ℕ} {t t₁ t₂ t₃ rest : Text} : b.label t = some t₁ → Value d t₁ t₂ →
      skip t₂ = 44 :: t₃ → Items b e t₃ rest → Items b (max d e) t rest

end

/-- A text of nesting depth `d`. -/
def WellFormed (d : ℕ) (text : Text) : Prop := ∃ rest, Value d text rest ∧ skip rest = []

/-- How deep it went, and what is left, none after a syntax error. -/
structure Reading where
  deepest : ℕ
  rest : Option Text
  deriving DecidableEq

def Reading.andThen (r : Reading) (k : Text → Reading) : Reading :=
  match r.rest with
  | none => r
  | some t => ⟨max r.deepest (k t).deepest, (k t).rest⟩

def separated (closing depth : ℕ) (more : Text → Reading) : Text → Reading
  | [] => ⟨depth, none⟩
  | ch :: rest => if ch = 44 then more rest else if ch = closing then ⟨depth, some rest⟩ else ⟨depth, none⟩

mutual

/-- A value behind `depth` open brackets; so many nested calls are allowed. -/
def readValue : ℕ → ℕ → Text → Reading
  | 0, depth, _ => ⟨depth, none⟩
  | fuel + 1, depth, t =>
    match skip t with
    | [] => ⟨depth, none⟩
    | ch :: rest =>
      match Bracket.opened ch with
      | none => ⟨depth, scalar (ch :: rest)⟩
      | some b =>
        if (skip rest).head? = some b.closing then ⟨depth + 1, some (skip rest).tail⟩
        else readItems fuel b (depth + 1) rest

def readItems : ℕ → Bracket → ℕ → Text → Reading
  | 0, _, depth, _ => ⟨depth, none⟩
  | fuel + 1, b, depth, t =>
    match b.label t with
    | none => ⟨depth, none⟩
    | some t => (readValue fuel depth t).andThen fun t => separated b.closing depth (readItems fuel b depth) (skip t)

end

def readText (text : Text) : Reading :=
  (readValue (2 * text.length + 1) 0 text).andThen fun t => ⟨0, if skip t = [] then some [] else none⟩

instance (t : Text) : Decidable (Plain t) := inferInstanceAs (Decidable (∀ ch ∈ t, ch ∉ [34, 91, 93, 123, 125]))

def Takes (t rest : Text) : Prop := ∃ used, t = used ++ rest ∧ Plain used

namespace Takes

theorem refl (t : Text) : Takes t t := ⟨[], rfl, nofun⟩

theorem trans {t t' rest : Text} (h : Takes t t') (h' : Takes t' rest) : Takes t rest := by
  obtain ⟨used, rfl, hused⟩ := h
  obtain ⟨used', rfl, hused'⟩ := h'
  exact ⟨used ++ used', (List.append_assoc _ _ _).symm, List.forall_mem_append.mpr ⟨hused, hused'⟩⟩

theorem cons {ch : ℕ} {t rest : Text} (hch : ch ∉ [34, 91, 93, 123, 125]) (h : Takes t rest) : Takes (ch :: t) rest := by
  obtain ⟨used, rfl, hused⟩ := h
  exact ⟨ch :: used, rfl, List.forall_mem_cons.mpr ⟨hch, hused⟩⟩

theorem length_le {t rest : Text} (h : Takes t rest) : rest.length ≤ t.length := by
  obtain ⟨used, rfl, -⟩ := h
  rw [List.length_append]
  omega

theorem dropWhile {p : ℕ → Bool} (hp : ∀ ch, p ch = true → ch ∉ [34, 91, 93, 123, 125]) (t : Text) :
    Takes t (t.dropWhile p) :=
  ⟨t.takeWhile p, List.takeWhile_append_dropWhile.symm, fun ch hch =>
    hp ch (List.all_eq_true.mp List.all_takeWhile ch hch)⟩

end Takes

theorem takes_skip (t : Text) : Takes t (skip t) := by
  refine .dropWhile (fun ch hch => ?_) t
  have : ch ∈ [9, 10, 13, 32] := of_decide_eq_true hch
  simp only [List.mem_cons, List.not_mem_nil, or_false] at this ⊢
  omega

theorem isDigit_plain {ch : ℕ} (h : isDigit ch = true) : ch ∉ [34, 91, 93, 123, 125] := by
  have : 48 ≤ ch ∧ ch ≤ 57 := of_decide_eq_true h
  simp only [List.mem_cons, List.not_mem_nil, or_false]
  omega

theorem takes_digits {t rest : Text} (h : digits t = some rest) : Takes t rest ∧ rest.length < t.length := by
  cases t with
  | nil => cases h
  | cons ch t =>
    rw [digits] at h
    split at h
    · next hdigit =>
      cases h
      have htail := Takes.dropWhile (fun _ => isDigit_plain) t
      exact ⟨htail.cons (isDigit_plain hdigit), Nat.lt_succ_of_le htail.length_le⟩
    · cases h

theorem takes_sign {signs : List ℕ} (hsigns : Plain signs) (t : Text) : Takes t (sign signs t) := by
  cases t with
  | nil => exact .refl _
  | cons ch t =>
    rw [sign]
    split
    · next hch => exact (Takes.refl t).cons (hsigns ch hch)
    · exact .refl _

theorem takes_integerPart {t rest : Text} (h : integerPart t = some rest) : Takes t rest ∧ rest.length < t.length := by
  cases t with
  | nil => cases h
  | cons ch t =>
    rw [integerPart] at h
    split at h
    · next hch =>
      cases h
      rw [hch]
      exact ⟨(Takes.refl _).cons (by decide), Nat.lt_succ_self _⟩
    · exact takes_digits h

theorem takes_fraction {t rest : Text} (h : fraction t = some rest) : Takes t rest := by
  cases t with
  | nil =>
    cases h
    exact .refl _
  | cons ch t =>
    rw [fraction] at h
    split at h
    · next hch =>
      rw [hch]
      exact (takes_digits h).1.cons (by decide)
    · cases h
      exact .refl _

theorem takes_exponent {t rest : Text} (h : exponent t = some rest) : Takes t rest := by
  cases t with
  | nil =>
    cases h
    exact .refl _
  | cons ch t =>
    rw [exponent] at h
    split at h
    · next hch =>
      refine ((takes_sign (by decide) t).trans (takes_digits h).1).cons ?_
      rcases hch with rfl | rfl <;> decide
    · cases h
      exact .refl _

theorem takes_number {t rest : Text} (h : number t = some rest) : Takes t rest ∧ rest.length < t.length := by
  obtain ⟨t₁, hinteger, h⟩ := Option.bind_eq_some_iff.mp h
  obtain ⟨t₂, hfraction, hexponent⟩ := Option.bind_eq_some_iff.mp h
  obtain ⟨htakes, hlength⟩ := takes_integerPart hinteger
  have hsign : Takes t (sign [45] t) := takes_sign (by decide) t
  have hrest := (takes_fraction hfraction).trans (takes_exponent hexponent)
  have := hsign.length_le
  have := hrest.length_le
  exact ⟨(hsign.trans htakes).trans hrest, by omega⟩

theorem takes_keyword {word t rest : Text} (hword : word ∈ keywords) (h : keyword word t = some rest) :
    Takes t rest ∧ rest.length < t.length := by
  have hplain : Plain word ∧ 0 < word.length := by
    have hall : ∀ word ∈ keywords, Plain word ∧ 0 < word.length := by decide
    exact hall word hword
  unfold keyword at h
  split at h
  · next hprefix =>
    obtain ⟨t', rfl⟩ := hprefix
    cases h
    rw [List.drop_left]
    refine ⟨⟨word, rfl, hplain.1⟩, ?_⟩
    rw [List.length_append]
    omega
  · cases h

/-- A scalar that is no string. -/
theorem takes_scalar {ch : ℕ} {t rest : Text} (hch : ch ≠ 34) (h : scalar (ch :: t) = some rest) :
    Takes (ch :: t) rest ∧ rest.length < (ch :: t).length := by
  rw [scalar, if_neg hch, Option.or_eq_some_iff] at h
  obtain h | ⟨-, h⟩ := h
  · obtain ⟨word, hword, h⟩ := List.exists_of_findSome?_eq_some h
    exact takes_keyword hword h
  · exact takes_number h

/-- A unit of a string, or a backslash and any unit. -/
inductive Piece where
  | unit (ch : ℕ) (plain : ch ≠ 34 ∧ ch ≠ 92)
  | escaped (ch : ℕ)

def Piece.text : Piece → Text
  | unit ch _ => [ch]
  | escaped ch => [92, ch]

def literal (pieces : List Piece) : Text := pieces.flatMap Piece.text

theorem isHex_plain {ch : ℕ} (h : isHex ch = true) : ch ≠ 34 ∧ ch ≠ 92 := by
  simp only [isHex, isDigit, decide_eq_true_eq] at h
  omega

/-- A string ends at the first quote that no backslash is in front of. -/
theorem stringBody_pieces {t rest : Text} (h : stringBody t = some rest) :
    ∃ pieces, t = literal pieces ++ 34 :: rest := by
  fun_induction stringBody t
  case case2 t =>
    cases h
    exact ⟨[], rfl⟩
  case case4 e t he hne ih =>
    obtain ⟨pieces, rfl⟩ := ih h
    exact ⟨.escaped e :: pieces, rfl⟩
  case case5 a b c d t hhex hne hescape ih =>
    obtain ⟨pieces, rfl⟩ := ih h
    simp only [List.all_cons, List.all_nil, Bool.and_true, Bool.and_eq_true] at hhex
    obtain ⟨ha, hb, hc, hd⟩ := hhex
    exact ⟨.escaped 117 :: .unit a (isHex_plain ha) :: .unit b (isHex_plain hb) :: .unit c (isHex_plain hc) ::
      .unit d (isHex_plain hd) :: pieces, rfl⟩
  case case10 ch t hquote hbackslash hcontrol ih =>
    obtain ⟨pieces, rfl⟩ := ih h
    exact ⟨.unit ch ⟨hquote, hbackslash⟩ :: pieces, rfl⟩
  all_goals cases h

theorem length_stringBody {t rest : Text} (h : stringBody t = some rest) : rest.length < t.length := by
  obtain ⟨pieces, rfl⟩ := stringBody_pieces h
  rw [List.length_append, List.length_cons]
  omega

namespace Bracket

theorem opened_eq_some {ch : ℕ} {b : Bracket} : opened ch = some b ↔ ch = b.opening := by
  unfold opened
  cases b <;> split <;> simp_all [opening]

end Bracket

theorem colon_eq_some {t rest : Text} (h : colon t = some rest) : skip t = 58 :: rest := by
  unfold colon at h
  split at h
  · next hcolon =>
    cases h
    exact hcolon
  · cases h

theorem key_eq_some {t rest : Text} (h : key t = some rest) :
    ∃ t₁ t₂, skip t = 34 :: t₁ ∧ stringBody t₁ = some t₂ ∧ skip t₂ = 58 :: rest := by
  unfold key at h
  split at h
  · next hquote =>
    obtain ⟨t₂, hbody, h⟩ := Option.bind_eq_some_iff.mp h
    exact ⟨_, t₂, hquote, hbody, colon_eq_some h⟩
  · cases h

theorem length_of_skip {t rest : Text} {ch : ℕ} (h : skip t = ch :: rest) : rest.length < t.length := by
  have := (takes_skip t).length_le
  rw [h, List.length_cons] at this
  omega

theorem Bracket.length_label {b : Bracket} {t t' : Text} (h : b.label t = some t') : t'.length ≤ t.length := by
  cases b with
  | square =>
    cases h
    exact le_rfl
  | curly =>
    obtain ⟨t₁, t₂, hquote, hbody, hcolon⟩ := key_eq_some h
    have := length_of_skip hquote
    have := length_stringBody hbody
    have := length_of_skip hcolon
    omega

theorem length_scalar {t rest : Text} (h : scalar t = some rest) : rest.length < t.length := by
  cases t with
  | nil => cases h
  | cons ch t =>
    by_cases hch : ch = 34
    · rw [scalar, if_pos hch] at h
      exact Nat.lt_succ_of_lt (length_stringBody h)
    · exact (takes_scalar hch h).2

mutual

theorem Value.length_lt {d : ℕ} {t rest : Text} : Value d t rest → rest.length < t.length
  | .scalar h => (length_scalar h).trans_le (takes_skip _).length_le
  | .empty hopen hclose => by
    have := length_of_skip hopen
    have := length_of_skip hclose
    omega
  | .filled hopen hitems => by
    have := length_of_skip hopen
    have := hitems.length_lt
    omega

theorem Items.length_lt {b : Bracket} {d : ℕ} {t rest : Text} : Items b d t rest → rest.length < t.length
  | .last hlabel hvalue hclose => by
    have := Bracket.length_label hlabel
    have := hvalue.length_lt
    have := length_of_skip hclose
    omega
  | .cons hlabel hvalue hcomma hitems => by
    have := Bracket.length_label hlabel
    have := hvalue.length_lt
    have := length_of_skip hcomma
    have := hitems.length_lt
    omega

end

end XChainVM.Json
