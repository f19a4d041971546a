import Mathlib.Data.List.Forall2
import XChainVM.Runtime.StripParams

/-! # The work list computes the recursive filter

Every container of the heap stands for one object of the parameters. It is filled when its pair
leaves the stack, and by then holds the entries that are kept, each a leaf or the container that
stands for it.
-/

namespace XChainVM.Runtime

open Js

namespace StripParams

section Keys

variable {α : Type} {key : String} {value : α}

theorem ne_of_comesBefore {a b : String} (h : comesBefore a b = true) : a ≠ b := by
  rintro rfl
  unfold comesBefore at h
  split at h <;> simp at h <;> simp_all

/-- A key that comes after all that are there is added at the end. -/
theorem setOwn_of_last {fields : List (String × α)} (h : ∀ f ∈ fields, comesBefore f.1 key = true) :
    setOwn key value fields = fields ++ [(key, value)] := by
  induction fields with
  | nil => rfl
  | cons f rest ih =>
    obtain ⟨hf, hrest⟩ := List.forall_mem_cons.mp h
    rw [setOwn, if_neg (ne_of_comesBefore hf), if_pos hf, ih hrest, List.cons_append]

end Keys

def kept (fields : List (String × Value)) : List (String × Value) := fields.filter fun f => !isPrototypeKey f.1

theorem deepStripElements_eq (elements : List Value) :
    deepStripElements elements = elements.map Runtime.deepStripParams := by
  induction elements with
  | nil => rfl
  | cons v rest ih => rw [deepStripElements, ih, List.map_cons]

theorem deepStripFields_eq (fields : List (String × Value)) :
    deepStripFields fields = (kept fields).map fun f => (f.1, Runtime.deepStripParams f.2) := by
  induction fields with
  | nil => rfl
  | cons f rest ih =>
    obtain ⟨key, v⟩ := f
    rw [deepStripFields, ih, kept, kept, List.filter_cons]
    cases isPrototypeKey key <;> rfl

/-- The slot stands for the value, given what the containers stand for. -/
def Holds (sources : List Value) : Slot → Value → Prop
  | .leaf u, v => u = v ∧ v.isObject = false
  | .ref a, v => sources[a]? = some v ∧ v.isObject = true

/-- The container holds what is kept of the value. -/
inductive Copied (sources : List Value) : Value → Container → Prop where
  | array {slots : List Slot} {elements : List Value} :
      List.Forall₂ (Holds sources) slots elements → Copied sources (.array elements) (.array slots)
  | object {slots : List (String × Slot)} {fields : List (String × Value)} :
      slots.map Prod.fst = (kept fields).map Prod.fst →
        List.Forall₂ (Holds sources) (slots.map Prod.snd) ((kept fields).map Prod.snd) →
          Copied sources (.object fields) (.object slots)

theorem getElem?_append_of_eq {α : Type} {l : List α} {a : ℕ} {v : α} (h : l[a]? = some v) (more : List α) :
    (l ++ more)[a]? = some v := by
  obtain ⟨hlt, -⟩ := List.getElem?_eq_some_iff.mp h
  rw [List.getElem?_append_left hlt, h]

variable {sources : List Value} {slot : Slot} {v : Value} {c : Container}

theorem Holds.append (h : Holds sources slot v) (more : List Value) : Holds (sources ++ more) slot v := by
  cases slot with
  | leaf u => exact h
  | ref a => exact ⟨getElem?_append_of_eq h.1 more, h.2⟩

theorem Copied.append (h : Copied sources v c) (more : List Value) : Copied (sources ++ more) v c := by
  cases h with
  | array h => exact .array (h.imp fun _ _ hs => Holds.append hs more)
  | object hnames h => exact .object hnames (h.imp fun _ _ hs => Holds.append hs more)

def emptied : Value → Value
  | .array _ => .array []
  | _ => .object []

theorem copied_makeContainer (sources : List Value) (v : Value) : Copied sources (emptied v) (makeContainer v) := by
  cases v with
  | array elements => exact .array .nil
  | _ => exact .object rfl .nil

/-- Every container stands for an object, and is filled or waits on the stack. -/
structure Copies (sources : List Value) (w : Work) : Prop where
  length : sources.length = w.heap.length
  nodup : (w.stack.map Prod.snd).Nodup
  pending : ∀ src a, (src, a) ∈ w.stack →
    sources[a]? = some src ∧ src.isObject = true ∧ w.heap[a]? = some (makeContainer src)
  filled : ∀ a v, sources[a]? = some v → a ∉ w.stack.map Prod.snd →
    ∃ c, w.heap[a]? = some c ∧ Copied sources v c

/-- The same but for one container, which holds what is kept of `u`. -/
structure Filling (sources : List Value) (dst : ℕ) (u : Value) (w : Work) : Prop where
  length : sources.length = w.heap.length
  nodup : (w.stack.map Prod.snd).Nodup
  pending : ∀ src a, (src, a) ∈ w.stack →
    sources[a]? = some src ∧ src.isObject = true ∧ w.heap[a]? = some (makeContainer src)
  apart : dst ∉ w.stack.map Prod.snd
  current : ∃ c, w.heap[dst]? = some c ∧ Copied sources u c
  filled : ∀ a v, sources[a]? = some v → a ≠ dst → a ∉ w.stack.map Prod.snd →
    ∃ c, w.heap[a]? = some c ∧ Copied sources v c

variable {w : Work} {dst : ℕ} {u : Value}

theorem Copies.pop {src : Value} {heap : Heap} {stack : List (Value × ℕ)}
    (h : Copies sources ⟨heap, (src, dst) :: stack⟩) : Filling sources dst (emptied src) ⟨heap, stack⟩ := by
  obtain ⟨hapart, hnodup⟩ := List.nodup_cons.mp h.nodup
  obtain ⟨-, -, hheap⟩ := h.pending src dst List.mem_cons_self
  exact {
    length := h.length
    nodup := hnodup
    pending := fun src a hmem => h.pending src a (List.mem_cons_of_mem _ hmem)
    apart := hapart
    current := ⟨makeContainer src, hheap, copied_makeContainer sources src⟩
    filled := fun a v hv hne hmem => h.filled a v hv (by simpa [hne] using hmem) }

theorem Filling.settle (h : Filling sources dst u w) (hdst : sources[dst]? = some u) : Copies sources w where
  length := h.length
  nodup := h.nodup
  pending := h.pending
  filled a v hv hmem := by
    by_cases hne : a = dst
    · subst hne
      obtain rfl : u = v := Option.some.inj (hdst.symm.trans hv)
      exact h.current
    · exact h.filled a v hv hne hmem

theorem Work.write_getElem?_ne {a : ℕ} (hne : dst ≠ a) (f : Container → Container) :
    (w.write dst f).heap[a]? = w.heap[a]? :=
  List.getElem?_modify_ne f w.heap hne

theorem Work.write_getElem?_eq (f : Container → Container) :
    (w.write dst f).heap[dst]? = w.heap[dst]?.map f :=
  List.getElem?_modify_eq f dst w.heap

/-- A write into the current container leaves the others as they are. -/
theorem Filling.write (h : Filling sources dst u w) {u' : Value} {f : Container → Container}
    (hf : ∀ c, Copied sources u c → Copied sources u' (f c)) : Filling sources dst u' (w.write dst f) where
  length := by rw [Work.write, List.length_modify, h.length]
  nodup := h.nodup
  pending src a hmem := by
    have hne : dst ≠ a := by
      rintro rfl
      exact h.apart (List.mem_map.mpr ⟨_, hmem, rfl⟩)
    obtain ⟨hsrc, hobject, hheap⟩ := h.pending src a hmem
    exact ⟨hsrc, hobject, by rw [Work.write_getElem?_ne hne, hheap]⟩
  apart := h.apart
  current := by
    obtain ⟨c, hc, hcopied⟩ := h.current
    exact ⟨f c, by rw [Work.write_getElem?_eq, hc, Option.map_some], hf c hcopied⟩
  filled a v hv hne hmem := by
    obtain ⟨c, hc, hcopied⟩ := h.filled a v hv hne hmem
    exact ⟨c, by rw [Work.write_getElem?_ne hne.symm, hc], hcopied⟩

/-- A copied entry is a leaf, or a new container that waits on the stack. -/
theorem Filling.copySlot (h : Filling sources dst u w) (val : Value) :
    ∃ more, Filling (sources ++ more) dst u (StripParams.copySlot val w).2 ∧
      Holds (sources ++ more) (StripParams.copySlot val w).1 val := by
  unfold StripParams.copySlot
  split
  next hobject =>
    refine ⟨[val], ?_, ?_, hobject⟩
    · have hnew : (sources ++ [val])[w.heap.length]? = some val := by
        rw [← h.length, List.getElem?_concat_length]
      have hold : ∀ src a, (src, a) ∈ w.stack → a < w.heap.length := by
        intro src a hmem
        obtain ⟨-, -, hheap⟩ := h.pending src a hmem
        exact (List.getElem?_eq_some_iff.mp hheap).1
      have hfresh : w.heap.length ∉ w.stack.map Prod.snd := by
        intro hmem
        obtain ⟨⟨src, a⟩, hstack, rfl⟩ := List.mem_map.mp hmem
        exact absurd (hold src _ hstack) (Nat.lt_irrefl _)
      obtain ⟨c, hc, hcopied⟩ := h.current
      have hdst : dst < w.heap.length := (List.getElem?_eq_some_iff.mp hc).1
      exact {
        length := by simp [h.length]
        nodup := List.nodup_cons.mpr ⟨hfresh, h.nodup⟩
        pending := by
          intro src a hmem
          obtain hhead | htail := List.mem_cons.mp hmem
          · cases hhead
            exact ⟨hnew, hobject, List.getElem?_concat_length⟩
          · obtain ⟨hsrc, hobj, hheap⟩ := h.pending src a htail
            exact ⟨getElem?_append_of_eq hsrc _, hobj, getElem?_append_of_eq hheap _⟩
        apart := by
          simp only [List.map_cons, List.mem_cons, not_or]
          exact ⟨hdst.ne, h.apart⟩
        current := ⟨c, getElem?_append_of_eq hc _, hcopied.append _⟩
        filled := by
          intro a v hv hne hmem
          simp only [List.map_cons, List.mem_cons, not_or] at hmem
          have hlt : a < sources.length := by
            obtain ⟨hlt, -⟩ := List.getElem?_eq_some_iff.mp hv
            have hlast := hmem.1
            rw [← h.length] at hlast
            rw [List.length_append, List.length_singleton] at hlt
            omega
          rw [List.getElem?_append_left hlt] at hv
          obtain ⟨c, hc, hcopied⟩ := h.filled a v hv hne hmem.2
          exact ⟨c, getElem?_append_of_eq hc _, hcopied.append _⟩ }
    · rw [← h.length, List.getElem?_concat_length]
  next hleaf => exact ⟨[], by simpa using h, rfl, by simpa using hleaf⟩

theorem Copied.push {front : List Value} {val : Value} (hslot : Holds sources slot val)
    (h : Copied sources (.array front) c) : Copied sources (.array (front ++ [val])) (c.push slot) := by
  cases h with
  | array h => exact .array (List.rel_append h (.cons hslot .nil))

theorem Filling.copyElement {front : List Value} (h : Filling sources dst (.array front) w) (val : Value) :
    ∃ more, Filling (sources ++ more) dst (.array (front ++ [val])) (StripParams.copyElement dst w val) := by
  obtain ⟨more, hfilling, hslot⟩ := h.copySlot val
  exact ⟨more, hfilling.write fun c hc => hc.push hslot⟩

theorem Filling.copyElements {front : List Value} (h : Filling sources dst (.array front) w) (elements : List Value) :
    ∃ more, Filling (sources ++ more) dst (.array (front ++ elements))
      (elements.foldl (StripParams.copyElement dst) w) := by
  induction elements generalizing sources front w with
  | nil => exact ⟨[], by simpa using h⟩
  | cons val rest ih =>
    obtain ⟨more, hfilling⟩ := h.copyElement val
    obtain ⟨more', hrest⟩ := ih hfilling
    exact ⟨more ++ more', by simpa using hrest⟩

theorem kept_append (front : List (String × Value)) (f : String × Value) :
    kept (front ++ [f]) = kept front ++ if isPrototypeKey f.1 then [] else [f] := by
  simp only [kept, List.filter_append, List.filter_cons, List.filter_nil]
  cases isPrototypeKey f.1 <;> rfl

theorem Copied.assign {front : List (String × Value)} {f : String × Value} (hkey : isPrototypeKey f.1 = false)
    (hlast : ∀ g ∈ front, comesBefore g.1 f.1 = true) (hslot : Holds sources slot f.2)
    (h : Copied sources (.object front) c) : Copied sources (.object (front ++ [f])) (c.assign f.1 slot) := by
  cases h with
  | @object slots _ hnames h =>
    have hslots : ∀ s ∈ slots, comesBefore s.1 f.1 = true := by
      intro s hs
      have hname : s.1 ∈ (kept front).map Prod.fst := hnames ▸ List.mem_map_of_mem hs
      obtain ⟨g, hg, hgs⟩ := List.mem_map.mp hname
      exact hgs ▸ hlast g (List.mem_of_mem_filter hg)
    rw [Container.assign, setOwn_of_last hslots]
    refine .object ?_ ?_
    · simp [kept_append, hkey, hnames]
    · simpa [kept_append, hkey] using List.rel_append h (.cons hslot .nil)

theorem Copied.skip {front : List (String × Value)} {f : String × Value} (hkey : isPrototypeKey f.1 = true)
    (h : Copied sources (.object front) c) : Copied sources (.object (front ++ [f])) c := by
  cases h with
  | object hnames h =>
    have hkept : kept (front ++ [f]) = kept front := by simp [kept_append, hkey]
    exact .object (by rw [hkept, hnames]) (by rw [hkept]; exact h)

theorem Filling.copyField {front : List (String × Value)} (h : Filling sources dst (.object front) w)
    {f : String × Value} (hlast : ∀ g ∈ front, comesBefore g.1 f.1 = true) :
    ∃ more, Filling (sources ++ more) dst (.object (front ++ [f])) (StripParams.copyField dst w f) := by
  unfold StripParams.copyField
  split
  next hkey =>
    obtain ⟨c, hc, hcopied⟩ := h.current
    exact ⟨[], by simpa using { h with current := ⟨c, hc, hcopied.skip hkey⟩ }⟩
  next hkey =>
    obtain ⟨more, hfilling, hslot⟩ := h.copySlot f.2
    exact ⟨more, hfilling.write fun c hc => hc.assign (by simpa using hkey) hlast hslot⟩

theorem Filling.copyFields {front : List (String × Value)} (h : Filling sources dst (.object front) w)
    (fields : List (String × Value))
    (hordered : ((front ++ fields).map Prod.fst).Pairwise fun a b => comesBefore a b = true) :
    ∃ more, Filling (sources ++ more) dst (.object (front ++ fields))
      (fields.foldl (StripParams.copyField dst) w) := by
  induction fields generalizing sources front w with
  | nil => exact ⟨[], by simpa using h⟩
  | cons f rest ih =>
    have hlast : ∀ g ∈ front, comesBefore g.1 f.1 = true := by
      intro g hg
      rw [List.map_append, List.pairwise_append] at hordered
      exact hordered.2.2 g.1 (List.mem_map_of_mem hg) f.1 (by simp)
    obtain ⟨more, hfilling⟩ := h.copyField hlast
    obtain ⟨more', hrest⟩ := ih hfilling (by simpa using hordered)
    exact ⟨more ++ more', by simpa using hrest⟩

def KeysOrdered : Value → Prop
  | .object fields => (fields.map Prod.fst).Pairwise fun a b => comesBefore a b = true
  | _ => True

theorem Copies.turn (h : Copies sources w) (hordered : ∀ src a, (src, a) ∈ w.stack → KeysOrdered src) :
    ∃ more, Copies (sources ++ more) (StripParams.turn w) := by
  obtain ⟨heap, stack⟩ := w
  cases stack with
  | nil => exact ⟨[], by simpa [StripParams.turn] using h⟩
  | cons entry stack =>
    obtain ⟨src, dst⟩ := entry
    obtain ⟨hsrc, hobject, -⟩ := h.pending src dst List.mem_cons_self
    have hkeys := hordered src dst List.mem_cons_self
    cases src with
    | array elements =>
      obtain ⟨more, hfilling⟩ := h.pop.copyElements elements
      exact ⟨more, hfilling.settle (getElem?_append_of_eq hsrc more)⟩
    | object fields =>
      obtain ⟨more, hfilling⟩ := h.pop.copyFields fields hkeys
      exact ⟨more, hfilling.settle (getElem?_append_of_eq hsrc more)⟩
    | _ => cases hobject

def remaining (stack : List (Value × ℕ)) : ℕ := (stack.map fun entry => containers entry.1).sum

/-- The second stack has more on it, each value satisfying `P` and all together weighing at most `n`. -/
structure Pushes (P : Value → Prop) (n : ℕ) (stack stack' : List (Value × ℕ)) : Prop where
  each : ∀ entry ∈ stack', entry ∈ stack ∨ P entry.1
  remaining : remaining stack' ≤ remaining stack + n

variable {P : Value → Prop} {m n : ℕ} {stack stack' stack'' : List (Value × ℕ)}

theorem Pushes.refl (stack : List (Value × ℕ)) : Pushes P n stack stack :=
  ⟨fun _ h => .inl h, Nat.le_add_right _ _⟩

theorem Pushes.trans (h : Pushes P m stack stack') (h' : Pushes P n stack' stack'') : Pushes P (m + n) stack stack'' where
  each entry hentry := by
    obtain hold | hnew := h'.each entry hentry
    · exact h.each entry hold
    · exact .inr hnew
  remaining := by
    have := h.remaining
    have := h'.remaining
    omega

theorem pushes_copySlot {val : Value} (hval : P val) (w : Work) :
    Pushes P (containers val) w.stack (copySlot val w).2.stack := by
  unfold copySlot
  split
  · refine ⟨fun entry hentry => ?_, ?_⟩
    · obtain rfl | htail := List.mem_cons.mp hentry
      · exact .inr hval
      · exact .inl htail
    · simp only [StripParams.remaining, List.map_cons, List.sum_cons]
      omega
  · exact Pushes.refl w.stack

theorem pushes_copyElements {elements : List Value} (h : ∀ v ∈ elements, P v) (w : Work) :
    Pushes P (containersOf elements) w.stack (elements.foldl (copyElement dst) w).stack := by
  induction elements generalizing w with
  | nil => exact Pushes.refl w.stack
  | cons val rest ih =>
    obtain ⟨hval, hrest⟩ := List.forall_mem_cons.mp h
    exact (pushes_copySlot hval w).trans (ih hrest (copyElement dst w val))

theorem pushes_copyFields {fields : List (String × Value)} (h : ∀ f ∈ fields, P f.2) (w : Work) :
    Pushes P (containersOfFields fields) w.stack (fields.foldl (copyField dst) w).stack := by
  induction fields generalizing w with
  | nil => exact Pushes.refl w.stack
  | cons f rest ih =>
    obtain ⟨hval, hrest⟩ := List.forall_mem_cons.mp h
    have hfield : Pushes P (containers f.2) w.stack (copyField dst w f).stack := by
      unfold copyField
      split
      · exact Pushes.refl w.stack
      · exact pushes_copySlot hval w
    exact hfield.trans (ih hrest (copyField dst w f))

theorem everyElement_iff {P : List String → Prop} {elements : List Value} :
    EveryElement P elements ↔ ∀ v ∈ elements, EveryObject P v := by
  induction elements with
  | nil => simp [EveryElement]
  | cons v rest ih => simp [EveryElement, ih]

theorem everyField_iff {P : List String → Prop} {fields : List (String × Value)} :
    EveryField P fields ↔ ∀ f ∈ fields, EveryObject P f.2 := by
  induction fields with
  | nil => simp [EveryField]
  | cons f rest ih => simp [EveryField, ih]

theorem keysOrdered_of_ordered (h : Ordered v) : KeysOrdered v := by
  cases v with
  | object fields => exact h.1
  | _ => trivial

/-- A turn takes one container off what remains, and leaves ordered values on the stack. -/
theorem turn_remaining (hobject : ∀ entry ∈ w.stack, entry.1.isObject = true)
    (hordered : ∀ entry ∈ w.stack, Ordered entry.1) (hstack : w.stack ≠ []) :
    (∀ entry ∈ (turn w).stack, Ordered entry.1) ∧ remaining (turn w).stack + 1 ≤ remaining w.stack := by
  obtain ⟨heap, stack⟩ := w
  cases stack with
  | nil => exact absurd rfl hstack
  | cons entry stack =>
    obtain ⟨src, dst⟩ := entry
    obtain ⟨hsrc, hrest⟩ := List.forall_mem_cons.mp hordered
    have hsrcObject := hobject (src, dst) List.mem_cons_self
    have hpushes : ∃ n, Pushes Ordered n stack (turn ⟨heap, (src, dst) :: stack⟩).stack ∧ containers src = n + 1 := by
      cases src with
      | array elements =>
        exact ⟨_, pushes_copyElements (everyElement_iff.mp hsrc) ⟨heap, stack⟩, Nat.add_comm _ _⟩
      | object fields =>
        exact ⟨_, pushes_copyFields (everyField_iff.mp hsrc.2) ⟨heap, stack⟩, Nat.add_comm _ _⟩
      | _ => cases hsrcObject
    obtain ⟨n, hpushed, hcount⟩ := hpushes
    constructor
    · intro entry hentry
      obtain hold | hnew := hpushed.each entry hentry
      · exact hrest entry hold
      · exact hnew
    · have hle := hpushed.remaining
      simp only [remaining, List.map_cons, List.sum_cons, hcount] at hle ⊢
      omega

/-- As many turns as there are containers to copy empty the stack. -/
theorem Copies.drain (h : Copies sources w) (hordered : ∀ entry ∈ w.stack, Ordered entry.1) {turns : ℕ}
    (hturns : remaining w.stack ≤ turns) :
    ∃ more, Copies (sources ++ more) (StripParams.drain turns w) ∧ (StripParams.drain turns w).stack = [] := by
  induction turns generalizing sources w with
  | zero =>
    refine ⟨[], by simpa [StripParams.drain] using h, ?_⟩
    by_contra hne
    rw [StripParams.drain] at hne
    have hobject : ∀ entry ∈ w.stack, entry.1.isObject = true := fun entry hmem => (h.pending _ _ hmem).2.1
    have := (turn_remaining hobject hordered hne).2
    omega
  | succ turns ih =>
    rw [StripParams.drain]
    split
    next hempty => exact ⟨[], by simpa using h, List.isEmpty_iff.mp hempty⟩
    next hne =>
      have hobject : ∀ entry ∈ w.stack, entry.1.isObject = true := fun entry hmem => (h.pending _ _ hmem).2.1
      obtain ⟨hordered', hless⟩ := turn_remaining hobject hordered (by simpa using hne)
      obtain ⟨more, hcopies⟩ := h.turn fun src a hmem => keysOrdered_of_ordered (hordered _ hmem)
      obtain ⟨more', hdone, hstack⟩ := ih hcopies hordered' (by omega)
      exact ⟨more ++ more', by rw [← List.append_assoc]; exact hdone, hstack⟩

theorem deepStripParams_of_leaf (h : v.isObject = false) : Runtime.deepStripParams v = v := by
  cases v with
  | array elements => cases h
  | object fields => cases h
  | _ => rfl

theorem denotes_all {heap : Heap} {slots : List Slot} {values : List Value}
    (h : List.Forall₂ (Holds sources) slots values)
    (heach : ∀ v ∈ values, ∀ slot, Holds sources slot v → Denotes heap slot (Runtime.deepStripParams v)) :
    List.Forall₂ (Denotes heap) slots (values.map Runtime.deepStripParams) := by
  induction h with
  | nil => exact .nil
  | cons hslot _ ih =>
    obtain ⟨hv, hrest⟩ := List.forall_mem_cons.mp heach
    exact .cons (hv _ hslot) (ih hrest)

/-- With nothing left on the stack, what stands for a value denotes its filtered copy. -/
theorem Copies.denotes (h : Copies sources w) (hstack : w.stack = []) {n : ℕ} {v : Value} (hn : sizeOf v < n)
    {slot : Slot} (hslot : Holds sources slot v) : Denotes w.heap slot (Runtime.deepStripParams v) := by
  induction n generalizing v slot with
  | zero => exact absurd hn (Nat.not_lt_zero _)
  | succ n ih =>
    cases slot with
    | leaf u =>
      obtain ⟨rfl, hleaf⟩ := hslot
      rw [deepStripParams_of_leaf hleaf]
      exact .leaf u
    | ref a =>
      obtain ⟨hv, hobject⟩ := hslot
      obtain ⟨c, hc, hcopied⟩ := h.filled a v hv (by simp [hstack])
      cases hcopied with
      | @array slots elements hslots =>
        rw [Runtime.deepStripParams, deepStripElements_eq]
        refine .array hc (denotes_all hslots fun e he slot hslot => ih ?_ hslot)
        have hlt := List.sizeOf_lt_of_mem he
        simp only [Value.array.sizeOf_spec] at hn
        omega
      | @object slots fields hnames hslots =>
        rw [Runtime.deepStripParams, deepStripFields_eq]
        have hall : List.Forall₂ (Denotes w.heap) (slots.map Prod.snd)
            (((kept fields).map Prod.snd).map Runtime.deepStripParams) := by
          refine denotes_all hslots fun e he slot hslot => ih ?_ hslot
          obtain ⟨⟨key, value⟩, hf, rfl⟩ := List.mem_map.mp he
          have hlt := List.sizeOf_lt_of_mem (List.mem_of_mem_filter hf)
          simp only [Value.object.sizeOf_spec, Prod.mk.sizeOf_spec] at hn hlt
          dsimp only
          omega
        refine .object hc ?_ ?_
        · rw [hnames, List.map_map]
          rfl
        · rw [List.map_map] at hall ⊢
          exact hall

/-- A read of a prototype key reaches nothing of the parameters: an object has no such key and no prototype, and an
array has what every array inherits. -/
theorem Copies.get_prototypeKey (h : Copies sources w) (hstack : w.stack = []) {a : ℕ} (hc : w.heap[a]? = some c)
    {key : String} (hkey : isPrototypeKey key = true) : c.get key = .undefined ∨ c.get key = .arrayPrototype key := by
  have hlt : a < sources.length := by
    rw [h.length]
    exact (List.getElem?_eq_some_iff.mp hc).1
  obtain ⟨v, hv⟩ : ∃ v, sources[a]? = some v := ⟨_, List.getElem?_eq_getElem hlt⟩
  obtain ⟨c', hc', hcopied⟩ := h.filled a v hv (by simp [hstack])
  obtain rfl : c = c' := Option.some.inj (hc.symm.trans hc')
  cases hcopied with
  | array _ =>
    right
    have hcases : key = "__proto__" ∨ key = "constructor" := by simpa [isPrototypeKey] using hkey
    obtain rfl | rfl := hcases
    · have hindex : arrayIndex? "__proto__" = none := by decide +kernel
      simp [Container.get, hindex]
    · have hindex : arrayIndex? "constructor" = none := by decide +kernel
      simp [Container.get, hindex]
  | @object slots fields hnames _ =>
    left
    have hnone : slots.lookup key = none := by
      refine List.lookup_eq_none_iff.mpr fun s hs => ?_
      have hname : s.1 ∈ (kept fields).map Prod.fst := hnames ▸ List.mem_map_of_mem hs
      obtain ⟨f, hf, hfs⟩ := List.mem_map.mp hname
      have hkept : isPrototypeKey f.1 = false := by simpa [kept] using (List.mem_filter.mp hf).2
      rw [hfs] at hkept
      refine bne_iff_ne.mpr ?_
      rintro rfl
      exact absurd hkept (by simp [hkey])
    simp [Container.get, hnone]

mutual

theorem deepStripParams_clean (v : Value) : Clean (Runtime.deepStripParams v) := by
  cases v with
  | array elements => exact deepStripElements_clean elements
  | object fields =>
    refine ⟨?_, deepStripFields_clean fields⟩
    intro name hname
    rw [deepStripFields_eq, List.map_map] at hname
    obtain ⟨f, hf, rfl⟩ := List.mem_map.mp hname
    simpa [kept] using (List.mem_filter.mp hf).2
  | _ => trivial

theorem deepStripElements_clean (elements : List Value) :
    EveryElement (fun names => ∀ name ∈ names, isPrototypeKey name = false) (deepStripElements elements) := by
  cases elements with
  | nil => trivial
  | cons v rest => exact ⟨deepStripParams_clean v, deepStripElements_clean rest⟩

theorem deepStripFields_clean (fields : List (String × Value)) :
    EveryField (fun names => ∀ name ∈ names, isPrototypeKey name = false) (deepStripFields fields) := by
  cases fields with
  | nil => trivial
  | cons f rest =>
    obtain ⟨key, v⟩ := f
    rw [deepStripFields]
    split
    · exact deepStripFields_clean rest
    · exact ⟨deepStripParams_clean v, deepStripFields_clean rest⟩

end

mutual

/-- A value without prototype keys is its own copy. -/
theorem deepStripParams_of_clean (v : Value) (h : Clean v) : Runtime.deepStripParams v = v := by
  cases v with
  | array elements => exact congrArg Value.array (deepStripElements_of_clean elements h)
  | object fields => exact congrArg Value.object (deepStripFields_of_clean fields h.1 h.2)
  | _ => rfl

theorem deepStripElements_of_clean (elements : List Value)
    (h : EveryElement (fun names => ∀ name ∈ names, isPrototypeKey name = false) elements) :
    deepStripElements elements = elements := by
  cases elements with
  | nil => rfl
  | cons v rest =>
    rw [deepStripElements, deepStripParams_of_clean v h.1, deepStripElements_of_clean rest h.2]

theorem deepStripFields_of_clean (fields : List (String × Value))
    (hnames : ∀ name ∈ fields.map Prod.fst, isPrototypeKey name = false)
    (h : EveryField (fun names => ∀ name ∈ names, isPrototypeKey name = false) fields) :
    deepStripFields fields = fields := by
  cases fields with
  | nil => rfl
  | cons f rest =>
    obtain ⟨key, v⟩ := f
    obtain ⟨hkey, hrest⟩ := List.forall_mem_cons.mp hnames
    rw [deepStripFields, hkey, if_neg Bool.false_ne_true, deepStripParams_of_clean v h.1,
      deepStripFields_of_clean rest hrest h.2]

end

theorem copies_start {root : Value} (h : root.isObject = true) : Copies [root] (start root) where
  length := rfl
  nodup := by simp [start]
  pending := by
    intro src a hmem
    obtain ⟨rfl, rfl⟩ : src = root ∧ a = 0 := by simpa [start] using hmem
    exact ⟨rfl, h, rfl⟩
  filled := by
    intro a v hv hmem
    have hlt : a < 1 := (List.getElem?_eq_some_iff.mp hv).1
    simp [start] at hmem
    omega

/-- Within as many turns as the parameters have containers the work list ends, its copy is the recursive filter's, and no
read through a prototype key reaches anything of the parameters. The filter keeps a value without such keys, leaves
none at any level, and filtering twice is filtering once. -/
theorem deepStripParams_recursive (root : Value) (hordered : Ordered root) {turns : ℕ}
    (hturns : containers root ≤ turns) :
    (∃ (slot : Slot) (heap : Heap), deepStripParams turns root = some (slot, heap) ∧
      Denotes heap slot (Runtime.deepStripParams root) ∧
      ∀ (a : ℕ) (c : Container), heap[a]? = some c → ∀ key, isPrototypeKey key = true →
        c.get key = .undefined ∨ c.get key = .arrayPrototype key) ∧
    (Clean root → Runtime.deepStripParams root = root) ∧
    Clean (Runtime.deepStripParams root) ∧
    Runtime.deepStripParams (Runtime.deepStripParams root) = Runtime.deepStripParams root := by
  refine ⟨?_, deepStripParams_of_clean root, deepStripParams_clean root,
    deepStripParams_of_clean _ (deepStripParams_clean root)⟩
  unfold deepStripParams
  split
  next hobject =>
    have hremaining : remaining (start root).stack ≤ turns := by simpa [start, remaining] using hturns
    obtain ⟨more, hcopies, hstack⟩ :=
      (copies_start hobject).drain (by simpa [start] using hordered) hremaining
    have hroot : Holds ([root] ++ more) (.ref 0) root := ⟨rfl, hobject⟩
    dsimp only
    rw [hstack]
    exact ⟨_, _, rfl, hcopies.denotes hstack (Nat.lt_succ_self _) hroot, fun a c hc key hkey =>
      hcopies.get_prototypeKey hstack hc hkey⟩
  next hleaf =>
    refine ⟨_, _, rfl, ?_, fun a c hc => by simp at hc⟩
    rw [deepStripParams_of_leaf (by simpa using hleaf)]
    exact .leaf root

/-- `[{ "__proto__": { "a": true }, "b": [null] }]` -/
def nestedParams : Value :=
  .array [.object [("__proto__", .object [("a", .bool true)]), ("b", .array [.null])]]

theorem deepStripParams_recursive_nested :
    ∃ slot heap, deepStripParams 5 nestedParams = some (slot, heap) ∧
      Denotes heap slot (.array [.object [("b", .array [.null])]]) := by
  have hordered : Ordered nestedParams := by
    have hkeys : comesBefore "__proto__" "b" = true := by decide +kernel
    simp [Ordered, nestedParams, EveryObject, EveryElement, EveryField, hkeys]
  have hturns : containers nestedParams ≤ 5 := by decide
  obtain ⟨slot, heap, hcopy, hdenotes, -⟩ := (deepStripParams_recursive nestedParams hordered hturns).1
  exact ⟨slot, heap, hcopy, hdenotes⟩

end StripParams

end XChainVM.Runtime
