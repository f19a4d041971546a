import Mathlib.Data.List.Sort
import XChainVM.Js.Text
import XChainVM.Machine.Fallible
import XChainVM.Splice.Spans

/-! # Deriving an armed harness

An armed harness is the base harness with the edits of its rules made in place and their helpers
put before the closing line. Every edit is located in the base harness, by its text, and owns the
lines it touches.
-/

namespace XChainVM.Harness

open XChainVM.Splice

abbrev Script := List Char

structure Edit where
  fromText : Script
  toText : Script

structure HarnessRule where
  label : String
  edits : List Edit
  helpers : Script

/-- An edit with the span of the base harness it replaces and the lines it owns. -/
structure Located where
  label : String
  start : ℕ
  stop : ℕ
  toText : Script
  lines : List ℕ

def closing : Script := "\x7d)();\n".toList

def lineBreaks (s : Script) : ℕ := splitLength ['\n'] s - 1

def lineAt (source : Script) (offset : ℕ) : ℕ := lineBreaks (source.take offset)

/-- `from.replace(/\n$/, '')`. -/
def dropFinalBreak (fromText : Script) : Script := withoutLastBreak '\n' fromText

/-- `from.trim()`. -/
def trimmed (fromText : Script) : String := Js.trim (String.ofList fromText)

def locateEdit (source : Script) (label : String) (edit : Edit) : Except String Located :=
  let hits : ℤ := (splitLength edit.fromText source : ℤ) - 1
  if hits ≠ 1 then
    .error ("xchain-vm: " ++ label ++ " harness edit matched " ++ toString hits ++ " times: "
      ++ trimmed edit.fromText)
  else if lineBreaks edit.fromText ≠ lineBreaks edit.toText then
    .error ("xchain-vm: " ++ label ++ " harness edit moves lines: " ++ trimmed edit.fromText)
  else
    -- with one hit the index is there
    let start := (indexOf edit.fromText source).getD 0
    let first := lineAt source start
    .ok {
      label, start
      stop := start + edit.fromText.length
      toText := edit.toText
      lines := List.range' first (lineBreaks (dropFinalBreak edit.fromText) + 1) }

def locateEdits (source : Script) (label : String) (edits : List Edit) :
    Except String (List Located) :=
  edits.mapM (locateEdit source label)

abbrev Owners := List (ℕ × String)

def ownLines (label : String) : List ℕ → Owners → Except String Owners
  | [], owner => .ok owner
  | line :: lines, owner =>
    match owner.lookup line with
    | some other =>
      .error ("xchain-vm: harness line " ++ toString (line + 1) ++ " is edited by both " ++ other
        ++ " and " ++ label)
    | none => ownLines label lines ((line, label) :: owner)

structure Plan where
  located : List Located
  owner : Owners

def placeEdits (label : String) : List Located → Plan → Except String Plan
  | [], plan => .ok plan
  | edit :: edits, plan => do
    let owner ← ownLines label edit.lines plan.owner
    placeEdits label edits { located := plan.located ++ [edit], owner }

def placeRules (source : Script) : List HarnessRule → Plan → Except String Plan
  | [], plan => .ok plan
  | rule :: rules, plan => do
    let edits ← locateEdits source rule.label rule.edits
    let plan ← placeEdits rule.label edits plan
    placeRules source rules plan

def Located.span (edit : Located) : Span Char := ⟨edit.start, edit.stop, edit.toText⟩

/-- `text.slice(0, stop)`. A negative stop counts from the end. -/
def sliceTo (text : Script) (stop : ℤ) : Script :=
  if stop < 0 then text.take (text.length + stop).toNat else text.take stop.toNat

def deriveHarness (source : Script) (rules : List HarnessRule) : Except String Script :=
  if closing <:+ source then do
    let plan ← placeRules source rules { located := [], owner := [] }
    let located := plan.located.insertionSort fun a b => b.start ≤ a.start
    let out := located.foldl (fun out edit => edit.span.replace out) source
    let helpers := rules.flatMap HarnessRule.helpers
    pure (sliceTo out (out.length - closing.length) ++ helpers ++ closing)
  else .error "xchain-vm: harness no longer ends with its closing line"

theorem lineBreaks_eq_count (s : Script) : lineBreaks s = s.count '\n' := by
  rw [lineBreaks, splitLength, if_neg (by simp), cuts_singleton, Nat.add_sub_cancel]

/-- The span of the base harness that an edit replaces, found by its text. -/
def region (source : Script) (edit : Edit) : Span Char :=
  let start := (indexOf edit.fromText source).getD 0
  ⟨start, start + edit.fromText.length, edit.toText⟩

def coveredLines (source : Script) (edit : Edit) : List ℕ :=
  List.range' (lineAt source (region source edit).start)
    (lineBreaks (dropFinalBreak edit.fromText) + 1)

def located (source : Script) (label : String) (edit : Edit) : Located where
  label := label
  start := (region source edit).start
  stop := (region source edit).stop
  toText := edit.toText
  lines := coveredLines source edit

/-- A split at the text of the edit cuts once, and the edit moves no lines. -/
def Locatable (source : Script) (edit : Edit) : Prop :=
  splitLength edit.fromText source = 2 ∧ lineBreaks edit.fromText = lineBreaks edit.toText

theorem locateEdit_eq_ok_iff {source : Script} {label : String} {edit : Edit} {l : Located} :
    locateEdit source label edit = .ok l ↔ Locatable source edit ∧ l = located source label edit := by
  simp only [locateEdit]
  split
  · constructor
    · rintro ⟨⟩
    · rintro ⟨⟨hhits, -⟩, -⟩
      omega
  · split
    · constructor
      · rintro ⟨⟩
      · rintro ⟨⟨-, hmoves⟩, -⟩
        contradiction
    · rename_i hhits hmoves
      constructor
      · intro h
        exact ⟨⟨by omega, not_not.mp hmoves⟩, (Except.ok.inj h).symm⟩
      · rintro ⟨-, rfl⟩
        rfl

theorem locateEdits_eq_ok_iff {source : Script} {label : String} {edits : List Edit}
    {ls : List Located} :
    locateEdits source label edits = .ok ls ↔
      (∀ edit ∈ edits, Locatable source edit) ∧ ls = edits.map (located source label) := by
  induction edits generalizing ls with
  | nil =>
    constructor
    · intro h
      exact ⟨by simp, (Except.ok.inj h).symm⟩
    · rintro ⟨-, rfl⟩
      rfl
  | cons edit edits ih =>
    simp only [locateEdits] at ih
    rw [locateEdits, List.mapM_cons]
    simp only [Machine.bind_eq_ok_iff, locateEdit_eq_ok_iff, ih, List.forall_mem_cons, List.map_cons]
    constructor
    · rintro ⟨_, ⟨hedit, rfl⟩, _, ⟨hedits, rfl⟩, h⟩
      exact ⟨⟨hedit, hedits⟩, (Except.ok.inj h).symm⟩
    · rintro ⟨⟨hedit, hedits⟩, rfl⟩
      exact ⟨_, ⟨hedit, rfl⟩, _, ⟨hedits, rfl⟩, rfl⟩

theorem lookup_eq_none_iff {owner : Owners} {line : ℕ} :
    owner.lookup line = none ↔ line ∉ owner.map Prod.fst := by
  rw [List.lookup_eq_none_iff, List.mem_map]
  constructor
  · rintro h ⟨entry, hentry, rfl⟩
    simpa using h entry hentry
  · intro h entry hentry
    rw [bne_iff_ne]
    rintro rfl
    exact h ⟨entry, hentry, rfl⟩

theorem ownLines_eq_ok_iff {label : String} {lines : List ℕ} {owner owner' : Owners} :
    ownLines label lines owner = .ok owner' ↔
      lines.Nodup ∧ (∀ line ∈ lines, line ∉ owner.map Prod.fst) ∧
        owner' = (lines.map (·, label)).reverse ++ owner := by
  induction lines generalizing owner with
  | nil => simp [ownLines, eq_comm]
  | cons line lines ih =>
    rw [ownLines]
    cases hlookup : owner.lookup line with
    | some other =>
      constructor
      · rintro ⟨⟩
      · rintro ⟨-, hfree, -⟩
        rw [lookup_eq_none_iff.mpr (hfree line List.mem_cons_self)] at hlookup
        cases hlookup
    | none =>
      rw [ih, List.nodup_cons]
      simp only [List.map_cons, List.mem_cons, not_or, List.reverse_cons, List.append_assoc,
        List.singleton_append]
      have hfree := lookup_eq_none_iff.mp hlookup
      constructor
      · rintro ⟨hnodup, hlines, rfl⟩
        refine ⟨⟨fun hmem => (hlines line hmem).1 rfl, hnodup⟩, ?_, rfl⟩
        rintro k (rfl | hk)
        · exact hfree
        · exact (hlines k hk).2
      · rintro ⟨⟨hmem, hnodup⟩, hlines, rfl⟩
        refine ⟨hnodup, ?_, rfl⟩
        intro k hk
        refine ⟨?_, hlines k (.inr hk)⟩
        rintro rfl
        exact hmem hk

def marks (label : String) (edits : List Located) : Owners :=
  edits.flatMap fun edit => edit.lines.map (·, label)

theorem mem_keys_append {added owner : Owners} {line : ℕ} :
    line ∈ (added.reverse ++ owner).map Prod.fst ↔
      line ∈ added.map Prod.fst ∨ line ∈ owner.map Prod.fst := by
  rw [List.map_append, List.map_reverse, List.mem_append, List.mem_reverse]

theorem keys_lines (label : String) (lines : List ℕ) :
    (lines.map (·, label)).map Prod.fst = lines := by
  rw [List.map_map]
  exact List.map_id _

theorem keys_marks (label : String) (edits : List Located) :
    (marks label edits).map Prod.fst = edits.flatMap Located.lines := by
  rw [marks, List.map_flatMap]
  simp only [keys_lines]

theorem placeEdits_eq_ok_iff {label : String} {edits : List Located} {plan plan' : Plan} :
    placeEdits label edits plan = .ok plan' ↔
      (edits.flatMap Located.lines).Nodup ∧
      (∀ line ∈ edits.flatMap Located.lines, line ∉ plan.owner.map Prod.fst) ∧
      plan' = ⟨plan.located ++ edits, (marks label edits).reverse ++ plan.owner⟩ := by
  induction edits generalizing plan with
  | nil => simp [placeEdits, marks, eq_comm]
  | cons edit edits ih =>
    rw [placeEdits, List.flatMap_cons, List.nodup_append]
    simp only [Machine.bind_eq_ok_iff, ownLines_eq_ok_iff, ih, List.mem_append, marks,
      List.flatMap_cons, List.reverse_append, List.append_assoc, List.singleton_append]
    constructor
    · rintro ⟨_, ⟨hlines, hfree, rfl⟩, hrest, hmem, rfl⟩
      simp only [mem_keys_append, keys_lines, not_or] at hmem
      refine ⟨⟨hlines, hrest, ?_⟩, ?_, rfl⟩
      · rintro a ha b hb rfl
        exact (hmem a hb).1 ha
      · rintro k (hk | hk)
        · exact hfree k hk
        · exact (hmem k hk).2
    · rintro ⟨⟨hlines, hrest, hdis⟩, hmem, rfl⟩
      refine ⟨_, ⟨hlines, fun k hk => hmem k (.inl hk), rfl⟩, hrest, ?_, rfl⟩
      intro k hk
      rw [mem_keys_append, keys_lines, not_or]
      exact ⟨fun hin => hdis k hin k hk rfl, hmem k (.inr hk)⟩

def edits (rules : List HarnessRule) : List Edit := rules.flatMap HarnessRule.edits

def locatedAll (source : Script) (rules : List HarnessRule) : List Located :=
  rules.flatMap fun rule => rule.edits.map (located source rule.label)

def marksAll (source : Script) (rules : List HarnessRule) : Owners :=
  rules.flatMap fun rule => marks rule.label (rule.edits.map (located source rule.label))

theorem locatedAll_lines (source : Script) (rule : HarnessRule) :
    (rule.edits.map (located source rule.label)).flatMap Located.lines =
      rule.edits.flatMap (coveredLines source) := by
  rw [List.flatMap_map]
  rfl

theorem placeRules_eq_ok_iff {source : Script} {rules : List HarnessRule} {plan plan' : Plan} :
    placeRules source rules plan = .ok plan' ↔
      (∀ edit ∈ edits rules, Locatable source edit) ∧
      ((edits rules).flatMap (coveredLines source)).Nodup ∧
      (∀ line ∈ (edits rules).flatMap (coveredLines source), line ∉ plan.owner.map Prod.fst) ∧
      plan' = ⟨plan.located ++ locatedAll source rules,
        (marksAll source rules).reverse ++ plan.owner⟩ := by
  induction rules generalizing plan with
  | nil => simp [placeRules, edits, locatedAll, marksAll, eq_comm]
  | cons rule rules ih =>
    have hedits : edits (rule :: rules) = rule.edits ++ edits rules := List.flatMap_cons
    rw [placeRules, hedits, List.flatMap_append, List.nodup_append]
    simp only [Machine.bind_eq_ok_iff, locateEdits_eq_ok_iff, placeEdits_eq_ok_iff, ih,
      List.mem_append, locatedAll, marksAll, List.flatMap_cons, List.reverse_append,
      List.append_assoc]
    constructor
    · rintro ⟨_, ⟨hloc, rfl⟩, _, ⟨hown, hfree, rfl⟩, hlocs, hrest, hmem, rfl⟩
      simp only [mem_keys_append, keys_marks, not_or] at hmem
      rw [locatedAll_lines] at hown hfree hmem
      refine ⟨?_, ⟨hown, hrest, ?_⟩, ?_, by simp only [List.append_assoc]⟩
      · rintro edit (he | he)
        · exact hloc edit he
        · exact hlocs edit he
      · rintro a ha b hb rfl
        exact (hmem a hb).1 ha
      · rintro k (hk | hk)
        · exact hfree k hk
        · exact (hmem k hk).2
    · rintro ⟨hloc, ⟨hown, hrest, hdis⟩, hmem, rfl⟩
      refine ⟨_, ⟨fun e he => hloc e (.inl he), rfl⟩, _, ⟨?_, ?_, rfl⟩,
        fun e he => hloc e (.inr he), hrest, ?_, by simp only [List.append_assoc]⟩
      · rw [locatedAll_lines]
        exact hown
      · rw [locatedAll_lines]
        exact fun k hk => hmem k (.inl hk)
      · intro k hk
        rw [mem_keys_append, keys_marks, locatedAll_lines, not_or]
        exact ⟨fun hin => hdis k hin k hk rfl, hmem k (.inr hk)⟩

end XChainVM.Harness
