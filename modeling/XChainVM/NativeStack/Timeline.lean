import Mathlib.Algebra.Order.BigOperators.Group.List
import XChainVM.NativeStack.World

/-! # The order in which levels were saved

Frames, holds and applies each save the counter when they begin. A timeline lists them with the
calls under way, the last first, and each saved level is at least the load of the calls before it.
-/

namespace XChainVM.NativeStack

inductive Entry where
  /-- A frame under way with its record. -/
  | frame (n : ℕ) (entry units : Depth)
  /-- A record without a frame under way. -/
  | record (r : Record)
  | hold (t : Hold)
  | call (c : Call)

namespace Entry

def record? : Entry → Option Record
  | frame n entry _ => some ⟨.frame n, entry⟩
  | record r => some r
  | _ => none

def hold? : Entry → Option Hold
  | hold t => some t
  | _ => none

def call? : Entry → Option Call
  | frame n entry u => some (.frame n entry u)
  | call c => some c
  | _ => none

end Entry

abbrev Timeline := List Entry

namespace Timeline

def records (t : Timeline) : List Record := t.filterMap Entry.record?

def held (t : Timeline) : List Hold := t.filterMap Entry.hold?

def calls (t : Timeline) : List Call := t.filterMap Entry.call?

def load (t : Timeline) : Depth := (t.calls.map Call.units).sum

def Fits (blocked : ℕ) (before : Timeline) : Entry → Prop
  | .frame n entry _ => before.load ≤ entry ∧ Value.frame n ∉ before.records.map Record.token
  | .record r =>
    before.load ≤ r.saved ∧ r.token ∉ before.records.map Record.token ∧
      ((∃ n, r.token = .hand n) ∨ ∀ n entry u, Entry.frame n entry u ∈ before → n < blocked)
  | .hold t => before.load ≤ t.p ∧ t.a = before.records.length
  | .call (.frame _ _ _) => False
  | .call (.spread _ _ acts holds) =>
    acts = before.records.length ∧ holds = before.held.length ∧ ∃ x rest, before = .hold x :: rest
  | .call (.apply _ p _ acts holds) =>
    before.load ≤ p ∧ acts = before.records.length ∧ holds = before.held.length

def Sound (blocked : ℕ) : Timeline → Prop
  | [] => True
  | e :: before => Fits blocked before e ∧ Sound blocked before

@[simp] theorem records_append (s t : Timeline) : records (s ++ t) = s.records ++ t.records :=
  List.filterMap_append

@[simp] theorem held_append (s t : Timeline) : held (s ++ t) = s.held ++ t.held := List.filterMap_append

@[simp] theorem calls_append (s t : Timeline) : calls (s ++ t) = s.calls ++ t.calls := List.filterMap_append

@[simp] theorem load_append (s t : Timeline) : load (s ++ t) = s.load + t.load := by simp [load]

theorem records_cons (e : Entry) (t : Timeline) : records (e :: t) = e.record?.toList ++ t.records := by
  cases h : e.record? <;> simp [records, h]

theorem held_cons (e : Entry) (t : Timeline) : held (e :: t) = e.hold?.toList ++ t.held := by
  cases h : e.hold? <;> simp [held, h]

theorem calls_cons (e : Entry) (t : Timeline) : calls (e :: t) = e.call?.toList ++ t.calls := by
  cases h : e.call? <;> simp [calls, h]

namespace Sound

variable {blocked : ℕ} {front back : Timeline}

theorem append_right (h : Sound blocked (front ++ back)) : Sound blocked back := by
  induction front with
  | nil => exact h
  | cons e front ih => exact ih h.2

/-- A hold is of one of the frames there are. -/
theorem held_le {t : Timeline} (h : Sound blocked t) : ∀ x ∈ t.held, x.a ≤ t.records.length := by
  induction t with
  | nil => simp [held]
  | cons e before ih =>
    obtain ⟨hfits, hbefore⟩ := h
    intro x hx
    rw [held_cons, List.mem_append] at hx
    rw [records_cons, List.length_append]
    obtain hx | hx := hx
    · cases e with
      | hold y =>
        obtain rfl : x = y := by simpa [Entry.hold?] using hx
        rw [hfits.2]
        exact Nat.le_add_left _ _
      | frame n entry u => simp [Entry.hold?] at hx
      | record r => simp [Entry.hold?] at hx
      | call c => simp [Entry.hold?] at hx
    · exact (ih hbefore x hx).trans (Nat.le_add_left _ _)

/-- A call knows of no more holds than there are. -/
theorem calls_holds_le {t : Timeline} (h : Sound blocked t) : ∀ c ∈ t.calls, c.holds ≤ t.held.length := by
  induction t with
  | nil => simp [calls]
  | cons e before ih =>
    obtain ⟨hfits, hbefore⟩ := h
    intro c hc
    rw [calls_cons, List.mem_append] at hc
    rw [held_cons, List.length_append]
    obtain hc | hc := hc
    · cases e with
      | frame n entry u =>
        obtain rfl : c = .frame n entry u := by simpa [Entry.call?] using hc
        exact Nat.zero_le _
      | record r => simp [Entry.call?] at hc
      | hold x => simp [Entry.call?] at hc
      | call d =>
        obtain rfl : c = d := by simpa [Entry.call?] using hc
        have hcount : c.holds = (held before).length := by
          cases c with
          | frame n entry u => cases hfits
          | spread id u acts holds => exact hfits.2.1
          | apply u p q acts holds => exact hfits.2.2
        omega
    · exact (ih hbefore c hc).trans (Nat.le_add_left _ _)

end Sound

section

variable {blocked : ℕ} {t front back : Timeline}

/-- The last hold, when it is one of the innermost frame and no call has begun after it. -/
theorem eq_hold_cons {x : Hold} {holds : List Hold} (h : Sound blocked t) (hheld : held t = x :: holds)
    (hx : x.a = (records t).length) (hspares : ∀ c ∈ (calls t).head?, c.holds < (held t).length) :
    ∃ back, t = .hold x :: back ∧ held back = holds := by
  cases t with
  | nil => cases hheld
  | cons e before =>
    obtain ⟨hfits, hbefore⟩ := h
    have hle : ∀ y ∈ held before, y.a ≤ (records before).length := hbefore.held_le
    rw [held_cons] at hheld
    rw [records_cons] at hx
    rw [held_cons, calls_cons] at hspares
    cases e with
    | frame n entry u =>
      have hmem : x ∈ held before := by
        rw [show held before = x :: holds from hheld]
        exact List.mem_cons_self
      have hlt := hle x hmem
      simp only [Entry.record?, Option.toList_some, List.singleton_append, List.length_cons] at hx
      omega
    | record r =>
      have hmem : x ∈ held before := by
        rw [show held before = x :: holds from hheld]
        exact List.mem_cons_self
      have hlt := hle x hmem
      simp only [Entry.record?, Option.toList_some, List.singleton_append, List.length_cons] at hx
      omega
    | hold y =>
      obtain ⟨rfl, rfl⟩ : y = x ∧ held before = holds := by simpa [Entry.hold?] using hheld
      exact ⟨before, rfl, rfl⟩
    | call c =>
      have hlt : c.holds < (held before).length := by simpa [Entry.call?, Entry.hold?] using hspares
      have hcount : c.holds = (held before).length := by
        cases c with
        | frame n entry u => cases hfits
        | spread id u acts holds => exact hfits.2.1
        | apply u p q acts holds => exact hfits.2.2
      omega

/-- The last record, when it is one made by hand and no call has begun after it. -/
theorem eq_append_record {r : Record} {acts : List Record} (h : Sound blocked t) (hrecords : records t = r :: acts)
    (hhand : ∀ n, r.token ≠ .frame n) (hspares : ∀ c ∈ (calls t).head?, c.acts < (records t).length) :
    ∃ front back, t = front ++ .record r :: back ∧ calls front = [] ∧ records front = [] ∧ records back = acts := by
  induction t with
  | nil => cases hrecords
  | cons e before ih =>
    obtain ⟨hfits, hbefore⟩ := h
    rw [records_cons, calls_cons] at hspares
    rw [records_cons] at hrecords
    cases e with
    | frame n entry u =>
      obtain ⟨rfl, -⟩ : ⟨.frame n, entry⟩ = r ∧ records before = acts := by simpa [Entry.record?] using hrecords
      exact absurd rfl (hhand n)
    | record r' =>
      obtain ⟨rfl, rfl⟩ : r' = r ∧ records before = acts := by simpa [Entry.record?] using hrecords
      exact ⟨[], before, rfl, rfl, rfl, rfl⟩
    | hold y =>
      obtain ⟨front, back, rfl, hcalls, hrec, hback⟩ := ih hbefore (by simpa [Entry.record?] using hrecords)
        (by simpa [Entry.call?, Entry.record?] using hspares)
      exact ⟨.hold y :: front, back, rfl, by simpa [calls_cons, Entry.call?] using hcalls,
        by simpa [records_cons, Entry.record?] using hrec, hback⟩
    | call c =>
      have hlt : c.acts < (records before).length := by simpa [Entry.call?, Entry.record?] using hspares
      have hcount : c.acts = (records before).length := by
        cases c with
        | frame n entry u => cases hfits
        | spread id u acts holds => exact hfits.1
        | apply u p q acts holds => exact hfits.2.1
      omega

/-- Leaving a record drops the holds made after it, and no others. -/
theorem dropWhile_held {e : Entry} {r : Record} (h : Sound blocked (front ++ e :: back)) (he : e.record? = some r)
    (hfront : records front = []) :
    (held (front ++ e :: back)).dropWhile (fun x => (records (front ++ e :: back)).length ≤ x.a) = held back := by
  have hcount : (records (front ++ e :: back)).length = (records back).length + 1 := by
    simp [records_cons, hfront, he, Nat.add_comm]
  have hhold : e.hold? = none := by
    cases e with
    | hold x => cases he
    | frame n entry u => rfl
    | record r => rfl
    | call c => rfl
  have hnew : ∀ x ∈ held front, (records (front ++ e :: back)).length ≤ x.a := by
    rw [hcount]
    clear hcount
    induction front with
    | nil => simp [held]
    | cons d front ih =>
      rw [records_cons, List.append_eq_nil_iff] at hfront
      intro x hx
      rw [held_cons, List.mem_append] at hx
      obtain hx | hx := hx
      · cases d with
        | hold y =>
          obtain rfl : x = y := by simpa [Entry.hold?] using hx
          have hfits : x.a = (records (front ++ e :: back)).length := h.1.2
          rw [hfits, records_append, hfront.2, records_cons, he]
          simp [Nat.add_comm]
        | frame n entry u => simp [Entry.hold?] at hx
        | record r => simp [Entry.hold?] at hx
        | call c => simp [Entry.hold?] at hx
      · exact ih h.2 hfront.2 x hx
  have hold : ∀ x ∈ held back, ¬(records (front ++ e :: back)).length ≤ x.a := by
    intro x hx
    have hle := h.append_right.2.held_le x hx
    omega
  rw [held_append, held_cons, hhold, Option.toList_none, List.nil_append, List.dropWhile_append_of_pos]
  · cases hback : held back with
    | nil => rfl
    | cons x rest =>
      refine List.dropWhile_cons_of_neg ?_
      simpa using hold x (by simp [hback])
  · simpa using hnew

theorem Fits.mono {blocked' : ℕ} {before : Timeline} {e : Entry} (hle : blocked ≤ blocked')
    (h : Fits blocked before e) : Fits blocked' before e := by
  cases e with
  | record r =>
    obtain ⟨hload, hfresh, howner⟩ := h
    exact ⟨hload, hfresh, howner.imp_right fun hframes n entry u hmem => (hframes n entry u hmem).trans_le hle⟩
  | frame n entry u => exact h
  | hold x => exact h
  | call c => cases c <;> exact h

theorem Sound.mono {blocked' : ℕ} (hle : blocked ≤ blocked') (h : Sound blocked t) : Sound blocked' t := by
  induction t with
  | nil => trivial
  | cons e before ih => exact ⟨Fits.mono hle h.1, ih h.2⟩

/-- The entries that are no calls stay sound when calls before them end. -/
theorem Sound.replace {blocked' : ℕ} {rest rest' : Timeline} (h : Sound blocked (front ++ rest))
    (hfront : calls front = []) (hle : blocked ≤ blocked') (hload : load rest' ≤ load rest)
    (hrecords : records rest' = records rest)
    (hframes : ∀ n entry u, Entry.frame n entry u ∈ rest' → Entry.frame n entry u ∈ rest)
    (hrest : Sound blocked' rest') : Sound blocked' (front ++ rest') := by
  induction front with
  | nil => exact hrest
  | cons e front ih =>
    have hfits : Fits blocked (front ++ rest) e := h.1
    rw [calls_cons, List.append_eq_nil_iff] at hfront
    refine ⟨?_, ih h.2 hfront.2⟩
    change Fits blocked' (front ++ rest') e
    have hloads : load (front ++ rest') ≤ load (front ++ rest) := by
      rw [load_append, load_append]
      exact add_le_add_right hload _
    have hsame : records (front ++ rest') = records (front ++ rest) := by
      rw [records_append, records_append, hrecords]
    cases e with
    | frame n entry u => simp [Entry.call?] at hfront
    | call c => simp [Entry.call?] at hfront
    | record r =>
      obtain ⟨hsaved, hfresh, howner⟩ := Fits.mono hle hfits
      refine ⟨hloads.trans hsaved, by rwa [hsame], howner.imp_right fun hold n entry u hmem => hold n entry u ?_⟩
      rw [List.mem_append] at hmem ⊢
      exact hmem.imp_right (hframes n entry u)
    | hold x =>
      obtain ⟨hsaved, hcount⟩ := hfits
      exact ⟨hloads.trans hsaved, by rwa [hsame]⟩

theorem load_cons (e : Entry) (t : Timeline) : load (e :: t) = (e.call?.map Call.units).getD 0 + load t := by
  cases h : e.call? <;> simp [load, calls_cons, h]

/-- A call that keeps no record may end. -/
theorem Sound.remove_call {c : Call} (h : Sound blocked (front ++ .call c :: back)) (hfront : calls front = []) :
    Sound blocked (front ++ back) := by
  refine h.replace hfront le_rfl ?_ ?_ ?_ h.append_right.2
  · rw [load_cons]
    exact le_add_self
  · simp [records_cons, Entry.record?]
  · exact fun n entry u hmem => List.mem_cons_of_mem _ hmem

/-- A frame may end below one that was entered by hand. Its record stays. -/
theorem Sound.block {blocked' n : ℕ} {entry u : Depth} (h : Sound blocked (front ++ .frame n entry u :: back))
    (hfront : calls front = []) (hle : blocked ≤ blocked')
    (hyoung : ∀ m entry u, Entry.frame m entry u ∈ back → m < blocked') :
    Sound blocked' (front ++ .record ⟨.frame n, entry⟩ :: back) := by
  obtain ⟨⟨hload, hfresh⟩, hback⟩ := h.append_right
  refine h.replace hfront hle ?_ ?_ ?_ ⟨⟨hload, hfresh, .inr hyoung⟩, hback.mono hle⟩
  · rw [load_cons, load_cons]
    exact add_le_add_left zero_le _
  · simp [records_cons, Entry.record?]
  · intro m entry' u' hmem
    obtain hmem | hmem := List.mem_cons.mp hmem
    · cases hmem
    · exact List.mem_cons_of_mem _ hmem

/-- The last record above a frame is one made by hand, or one left behind inside the frame. -/
theorem Sound.record_above {n : ℕ} {entry u : Depth} {r : Record} {rest : List Record}
    (h : Sound blocked (front ++ .frame n entry u :: back)) (hfront : calls front = [])
    (hrecords : records front = r :: rest) :
    r.token ≠ .frame n ∧ ((∃ m, r.token = .hand m) ∨ n < blocked) := by
  obtain ⟨first, e, last, rfl, -, he, -⟩ := List.filterMap_eq_cons_iff.mp hrecords
  rw [List.append_assoc, List.cons_append] at h
  have hfits := h.append_right.1
  cases e with
  | frame m entry' u' => simp [calls, Entry.call?] at hfront
  | record r' =>
    cases he
    obtain ⟨-, hfresh, howner⟩ := hfits
    refine ⟨?_, howner.imp_right fun hframes => hframes n entry u (by simp)⟩
    rintro htoken
    refine hfresh (List.mem_map.mpr ⟨⟨.frame n, entry⟩, ?_, htoken.symm⟩)
    simp [records_cons, Entry.record?]
  | hold x => cases he
  | call c => cases he

end

end Timeline

end XChainVM.NativeStack
