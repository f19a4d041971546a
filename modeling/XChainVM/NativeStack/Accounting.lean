import XChainVM.NativeStack.Timeline

/-! # The counter accounts for every call under way

A state is explained by a timeline of its records, holds and calls. Frames, spread calls and applies
that begin and end keep it explained, and so does what the contract does by hand, as long as it
takes nothing back from below a spread call or an apply.
-/

namespace XChainVM.NativeStack

open Machine Timeline

def Value.serial : Value → ℕ
  | plain _ => 0
  | frame n | hand n => n

structure Explains (w : World) (t : Timeline) : Prop where
  acts : records t = w.hooks.acts
  holds : held t = w.hooks.holds
  calls : Timeline.calls t = w.calls
  sound : Sound w.blocked t
  accounted : w.load ≤ w.hooks.stackDepth
  young : ∀ r ∈ w.hooks.acts, r.token.serial < w.tokens
  blocked : w.blocked ≤ w.tokens

def Explained (w : World) : Prop := ∃ t, Explains w t

/-- The hold of a call under way, or of one before it, is not released. -/
def SparesHolds (w : World) (id : Value) : Prop :=
  w.hooks.releases id = true → ∀ c ∈ w.calls.head?, c.holds < w.hooks.holds.length

def SparesFrames (w : World) (token : Value) : Prop :=
  w.hooks.unwinds token = true → ∀ c ∈ w.calls.head?, c.acts < w.hooks.acts.length

namespace Explains

variable {w w' : World} {t : Timeline}

theorem load_eq (h : Explains w t) : Timeline.load t = w.load := by
  rw [Timeline.load, h.calls, World.load]

theorem congr (h : Explains w t) (hacts : w'.hooks.acts = w.hooks.acts) (hholds : w'.hooks.holds = w.hooks.holds)
    (hdepth : w'.hooks.stackDepth = w.hooks.stackDepth) (hcalls : w'.calls = w.calls)
    (hblocked : w'.blocked = w.blocked) (htokens : w.tokens ≤ w'.tokens) : Explains w' t where
  acts := by rw [h.acts, hacts]
  holds := by rw [h.holds, hholds]
  calls := by rw [h.calls, hcalls]
  sound := by rw [hblocked]; exact h.sound
  accounted := by rw [World.load, hcalls, hdepth]; exact h.accounted
  young := by rw [hacts]; exact fun r hr => (h.young r hr).trans_le htokens
  blocked := by rw [hblocked]; exact h.blocked.trans htokens

/-- A token that was just made is in no record. -/
theorem fresh (h : Explains w t) {token : Value} (htoken : token.serial = w.tokens) :
    token ∉ (records t).map Record.token := by
  rw [h.acts]
  intro hmem
  obtain ⟨r, hr, rfl⟩ := List.mem_map.mp hmem
  have hlt := h.young r hr
  omega

theorem frame_lt (h : Explains w t) {n : ℕ} {entry u : Depth} (hmem : Entry.frame n entry u ∈ t) :
    n < w.tokens := by
  have hrecord : (⟨.frame n, entry⟩ : Record) ∈ w.hooks.acts := by
    rw [← h.acts]
    exact List.mem_filterMap.mpr ⟨.frame n entry u, hmem, rfl⟩
  exact h.young _ hrecord

end Explains

namespace Explained

variable {w : World}

theorem start (limit : ℕ) : Explained (World.start limit) :=
  ⟨[], ⟨rfl, rfl, rfl, trivial, le_rfl, by simp [World.start], le_rfl⟩⟩

theorem poison (h : Explained w) (b : Bool) : Explained { w with hooks := { w.hooks with stackPoison := b } } := by
  obtain ⟨t, ht⟩ := h
  exact ⟨t, ht.congr rfl rfl rfl rfl rfl le_rfl⟩

theorem token (h : Explained w) : Explained { w with tokens := w.tokens + 1 } := by
  obtain ⟨t, ht⟩ := h
  exact ⟨t, ht.congr rfl rfl rfl rfl rfl (Nat.le_succ _)⟩

/-- A frame of the contract is entered. -/
theorem frame (h : Explained w) (u : Depth) :
    Explained
      { w with
        hooks :=
          { w.hooks with
            acts := ⟨.frame w.tokens, w.hooks.stackDepth⟩ :: w.hooks.acts
            stackDepth := w.hooks.stackDepth + u }
        live := .call (.frame w.tokens w.hooks.stackDepth u) :: w.live
        tokens := w.tokens + 1 } := by
  obtain ⟨t, ht⟩ := h
  refine ⟨.frame w.tokens w.hooks.stackDepth u :: t, ?_⟩
  constructor
  · simp [records_cons, Entry.record?, ht.acts]
  · simp [held_cons, Entry.hold?, ht.holds]
  · simp [calls_cons, Entry.call?, ht.calls, World.calls, Live.call?]
  · refine ⟨⟨?_, ht.fresh rfl⟩, ht.sound⟩
    rw [ht.load_eq]
    exact ht.accounted
  · simp only [World.load, World.calls, Live.call?, List.filterMap_cons, List.map_cons, List.sum_cons, Call.units]
    rw [add_comm]
    exact add_le_add_left ht.accounted u
  · intro r hr
    obtain rfl | hr := List.mem_cons.mp hr
    · exact Nat.lt_succ_self _
    · exact (ht.young r hr).trans (Nat.lt_succ_self _)
  · exact ht.blocked.trans (Nat.le_succ _)

/-- The contract enters a frame by hand. -/
theorem hand (h : Explained w) (u : Depth) :
    Explained
      { w with
        hooks :=
          { w.hooks with
            acts := ⟨.hand w.tokens, w.hooks.stackDepth⟩ :: w.hooks.acts
            stackDepth := w.hooks.stackDepth + u }
        tokens := w.tokens + 1 } := by
  obtain ⟨t, ht⟩ := h
  refine ⟨.record ⟨.hand w.tokens, w.hooks.stackDepth⟩ :: t, ?_⟩
  constructor
  · simp [records_cons, Entry.record?, ht.acts]
  · simp [held_cons, Entry.hold?, ht.holds]
  · exact ht.calls
  · refine ⟨⟨?_, ht.fresh rfl, .inl ⟨w.tokens, rfl⟩⟩, ht.sound⟩
    rw [ht.load_eq]
    exact ht.accounted
  · exact ht.accounted.trans le_self_add
  · intro r hr
    obtain rfl | hr := List.mem_cons.mp hr
    · exact Nat.lt_succ_self _
    · exact (ht.young r hr).trans (Nat.lt_succ_self _)
  · exact ht.blocked.trans (Nat.le_succ _)

/-- Arguments are held. -/
theorem hold (h : Explained w) (id : Value) (u : Depth) :
    Explained
      { w with
        hooks :=
          { w.hooks with
            holds := ⟨id, w.hooks.acts.length, w.hooks.stackDepth⟩ :: w.hooks.holds
            stackDepth := w.hooks.stackDepth + u } } := by
  obtain ⟨t, ht⟩ := h
  refine ⟨.hold ⟨id, w.hooks.acts.length, w.hooks.stackDepth⟩ :: t, ?_⟩
  constructor
  · simpa [records_cons, Entry.record?] using ht.acts
  · simp [held_cons, Entry.hold?, ht.holds]
  · exact ht.calls
  · refine ⟨⟨?_, ?_⟩, ht.sound⟩
    · rw [ht.load_eq]
      exact ht.accounted
    · rw [ht.acts]
  · exact ht.accounted.trans le_self_add
  · exact ht.young
  · exact ht.blocked

/-- A hold is released. -/
theorem release (h : Explained w) {id : Value} (hspares : SparesHolds w id) :
    Explained { w with hooks := w.hooks.release id } := by
  by_cases hreleases : w.hooks.releases id = true
  · obtain ⟨t, ht⟩ := h
    cases hholds : w.hooks.holds with
    | nil =>
      rw [Hooks.releases, hholds] at hreleases
      cases hreleases
    | cons x holds =>
      have hx : x.a = w.hooks.acts.length := by
        rw [Hooks.releases, hholds] at hreleases
        simpa using (Bool.and_eq_true_iff.mp hreleases).2
      have hspare : ∀ c ∈ (Timeline.calls t).head?, c.holds < (held t).length := by
        rw [ht.calls, ht.holds]
        exact hspares hreleases
      obtain ⟨back, rfl, hback⟩ := eq_hold_cons ht.sound (ht.holds.trans hholds) (by rw [hx, ht.acts]) hspare
      have hrelease : w.hooks.release id = { w.hooks with stackDepth := x.p, holds } := by
        rw [Hooks.release, hholds]
        simp [hreleases]
      rw [hrelease]
      refine ⟨back, ?_⟩
      have hcalls : Timeline.calls back = w.calls := by simpa [calls_cons, Entry.call?] using ht.calls
      constructor
      · simpa [records_cons, Entry.record?] using ht.acts
      · exact hback
      · exact hcalls
      · exact ht.sound.2
      · have hsaved : Timeline.load back ≤ x.p := ht.sound.1.1
        rwa [Timeline.load, hcalls] at hsaved
      · exact ht.young
      · exact ht.blocked
  · have hrelease : w.hooks.release id = w.hooks := by
      unfold Hooks.release
      split
      · simp [hreleases]
      · rfl
    rw [hrelease]
    exact h

/-- A frame entered by hand is left. -/
theorem unwind (h : Explained w) {token : Value} (htoken : ∀ n, token ≠ .frame n) (hspares : SparesFrames w token) :
    Explained { w with hooks := w.hooks.unwind token } := by
  cases hacts : w.hooks.acts with
  | nil =>
    have hunwind : w.hooks.unwind token = w.hooks := by
      rw [Hooks.unwind, hacts]
    rw [hunwind]
    exact h
  | cons r acts =>
    by_cases hunwinds : w.hooks.unwinds token = true
    · obtain ⟨t, ht⟩ := h
      have hr : r.token = token := by
        rw [Hooks.unwinds, hacts] at hunwinds
        simpa using (Bool.and_eq_true_iff.mp hunwinds).1
      have hspare : ∀ c ∈ (Timeline.calls t).head?, c.acts < (records t).length := by
        rw [ht.calls, ht.acts]
        exact hspares hunwinds
      obtain ⟨front, back, rfl, hcalls, hrecords, hback⟩ :=
        eq_append_record ht.sound (ht.acts.trans hacts) (by rwa [hr]) hspare
      have hunwind : w.hooks.unwind token =
          { w.hooks with
            holds := w.hooks.holds.dropWhile fun x => w.hooks.acts.length ≤ x.a
            acts
            stackDepth := r.saved } := by
        rw [Hooks.unwind, hacts]
        simp [hunwinds]
      rw [hunwind]
      refine ⟨back, ?_⟩
      have hcalls : Timeline.calls back = w.calls := by
        rw [← ht.calls]
        simp [hcalls, calls_cons, Entry.call?]
      constructor
      · exact hback
      · rw [← dropWhile_held ht.sound rfl hrecords, ht.acts, ht.holds]
      · exact hcalls
      · exact ht.sound.append_right.2
      · have hsaved : Timeline.load back ≤ r.saved := ht.sound.append_right.1.1
        rwa [Timeline.load, hcalls] at hsaved
      · intro x hx
        refine ht.young x ?_
        rw [hacts]
        exact List.mem_cons_of_mem _ hx
      · exact ht.blocked
    · have hunwind : w.hooks.unwind token = w.hooks := by
        rw [Hooks.unwind, hacts]
        simp [hunwinds]
      rw [hunwind]
      exact h

/-- A call site holds its arguments and makes the call. -/
theorem spread (h : Explained w) (id : Value) (u : Depth) :
    Explained
      { w with
        hooks :=
          { w.hooks with
            holds := ⟨id, w.hooks.acts.length, w.hooks.stackDepth⟩ :: w.hooks.holds
            stackDepth := w.hooks.stackDepth + u }
        live := .call (.spread id u w.hooks.acts.length (w.hooks.holds.length + 1)) :: w.live } := by
  obtain ⟨t, ht⟩ := h
  refine ⟨.call (.spread id u w.hooks.acts.length (w.hooks.holds.length + 1)) ::
    .hold ⟨id, w.hooks.acts.length, w.hooks.stackDepth⟩ :: t, ?_⟩
  constructor
  · exact ht.acts
  · exact congrArg _ ht.holds
  · exact congrArg _ ht.calls
  · refine ⟨⟨?_, ?_, _, _, rfl⟩, ⟨?_, ?_⟩, ht.sound⟩
    · rw [← ht.acts]
      rfl
    · rw [← ht.holds]
      rfl
    · rw [ht.load_eq]
      exact ht.accounted
    · rw [ht.acts]
  · simp only [World.load, World.calls, Live.call?, List.filterMap_cons, List.map_cons, List.sum_cons, Call.units]
    rw [add_comm]
    exact add_le_add_left ht.accounted u
  · exact ht.young
  · exact ht.blocked

/-- The arguments of an apply have been read. -/
theorem apply {u found : Depth} {live : List Live} (h : Explained w) (hlive : w.live = .reading u found :: live) :
    Explained
      { w with
        hooks :=
          { w.hooks with
            applyAct := w.hooks.acts.length
            stackDepth := w.hooks.stackDepth + u }
        live := .call (.apply u w.hooks.stackDepth w.hooks.applyAct w.hooks.acts.length w.hooks.holds.length) ::
          live } := by
  obtain ⟨t, ht⟩ := h
  have hcalls : live.filterMap Live.call? = w.calls := by
    rw [World.calls, hlive]
    rfl
  refine ⟨.call (.apply u w.hooks.stackDepth w.hooks.applyAct w.hooks.acts.length w.hooks.holds.length) :: t, ?_⟩
  constructor
  · exact ht.acts
  · exact ht.holds
  · exact congrArg _ (ht.calls.trans hcalls.symm)
  · refine ⟨⟨?_, ?_, ?_⟩, ht.sound⟩
    · rw [ht.load_eq]
      exact ht.accounted
    · rw [ht.acts]
    · rw [ht.holds]
  · simp only [World.load, World.calls, Live.call?, List.filterMap_cons, List.map_cons, List.sum_cons, Call.units,
      hcalls]
    rw [add_comm]
    exact add_le_add_left ht.accounted u
  · exact ht.young
  · exact ht.blocked

end Explained

namespace Explains

variable {w : World} {t : Timeline} {live : List Live}

/-- The last call stands behind records and holds only. -/
theorem split {c : Call} (h : Explains w t) (hlive : w.live = .call c :: live) :
    ∃ front e back, t = front ++ e :: back ∧ Timeline.calls front = [] ∧ e.call? = some c ∧
      Timeline.calls back = live.filterMap Live.call? := by
  have hcalls : w.calls = c :: live.filterMap Live.call? := by
    rw [World.calls, hlive]
    rfl
  obtain ⟨front, e, back, rfl, hfront, he, hback⟩ := List.filterMap_eq_cons_iff.mp (h.calls.trans hcalls)
  exact ⟨front, e, back, rfl, List.filterMap_eq_nil_iff.mpr hfront, he, hback⟩

theorem split_call {c : Call} (h : Explains w t) (hlive : w.live = .call c :: live)
    (hc : ∀ n entry u, c ≠ .frame n entry u) :
    ∃ front back, t = front ++ .call c :: back ∧ Timeline.calls front = [] ∧
      Timeline.calls back = live.filterMap Live.call? := by
  obtain ⟨front, e, back, rfl, hfront, he, hback⟩ := h.split hlive
  obtain rfl : e = .call c := by
    cases e with
    | frame n entry u =>
      cases he
      exact absurd rfl (hc n entry u)
    | call d =>
      cases he
      rfl
    | record r => cases he
    | hold x => cases he
  exact ⟨front, back, rfl, hfront, hback⟩

theorem split_frame {n : ℕ} {entry u : Depth} (h : Explains w t)
    (hlive : w.live = .call (.frame n entry u) :: live) :
    ∃ front back, t = front ++ .frame n entry u :: back ∧ Timeline.calls front = [] ∧
      Timeline.calls back = live.filterMap Live.call? := by
  obtain ⟨front, e, back, rfl, hfront, he, hback⟩ := h.split hlive
  obtain rfl : e = .frame n entry u := by
    cases e with
    | frame m entry' u' =>
      cases he
      rfl
    | call d =>
      cases he
      cases h.sound.append_right.1
    | record r => cases he
    | hold x => cases he
  exact ⟨front, back, rfl, hfront, hback⟩

end Explains

namespace Explained

variable {w : World} {live : List Live}

/-- A spread call or an apply ends, and the counter keeps at least what the calls before it need. -/
theorem leave {c : Call} {hooks : Hooks} (h : Explained w) (hlive : w.live = .call c :: live)
    (hc : ∀ n entry u, c ≠ .frame n entry u) (hacts : hooks.acts = w.hooks.acts)
    (hholds : hooks.holds = w.hooks.holds)
    (hdepth : w.hooks.stackDepth ≤ hooks.stackDepth ∨
      ∃ u q acts holds, c = .apply u hooks.stackDepth q acts holds) : Explained { w with hooks, live } := by
  obtain ⟨t, ht⟩ := h
  obtain ⟨front, back, rfl, hfront, hback⟩ := ht.split_call hlive hc
  refine ⟨front ++ back, ?_⟩
  constructor
  · rw [hacts, ← ht.acts]
    simp [records_cons, Entry.record?]
  · rw [hholds, ← ht.holds]
    simp [held_cons, Entry.hold?]
  · rw [calls_append, hfront]
    exact hback
  · exact ht.sound.remove_call hfront
  · obtain hdepth | ⟨u, q, acts, holds, rfl⟩ := hdepth
    · refine le_trans ?_ (ht.accounted.trans hdepth)
      simp only [World.load, World.calls, hlive, List.filterMap_cons, Live.call?, List.map_cons, List.sum_cons]
      exact le_add_self
    · have hsaved : Timeline.load back ≤ hooks.stackDepth := ht.sound.append_right.1.1
      rwa [Timeline.load, hback] at hsaved
  · rw [hacts]
    exact ht.young
  · exact ht.blocked

theorem unwind_innermost {h : Hooks} {n : ℕ} {entry : Depth} {older : List Record}
    (hacts : h.acts = ⟨.frame n, entry⟩ :: older) :
    h.unwinds (.frame n) = true ∧ h.unwind (.frame n) =
      { h with
        holds := h.holds.dropWhile fun x => h.acts.length ≤ x.a
        acts := older
        stackDepth := entry } := by
  have hunwinds : h.unwinds (.frame n) = true := by
    rw [Hooks.unwinds, hacts]
    simp [Value.strictEquals]
  refine ⟨hunwinds, ?_⟩
  unfold Hooks.unwind
  split
  · next r acts heq =>
    rw [hacts] at heq
    obtain ⟨rfl, rfl⟩ := List.cons.inj heq
    rw [if_pos hunwinds]
  · next heq =>
    rw [hacts] at heq
    cases heq

theorem unwind_of_not_unwinds {h : Hooks} {token : Value} (hunwinds : h.unwinds token = false) :
    h.unwind token = h := by
  unfold Hooks.unwind
  split
  · rw [if_neg (by simp [hunwinds])]
  · rfl

section

variable {front back : Timeline} {n : ℕ} {entry u : Depth}

theorem acts_of_explains (ht : Explains w (front ++ .frame n entry u :: back)) :
    w.hooks.acts = records front ++ ⟨.frame n, entry⟩ :: records back := by
  rw [← ht.acts]
  simp [records_cons, Entry.record?]

/-- A frame with nothing left open on it goes, and what stood before it is left. -/
theorem exit_innermost (ht : Explains w (front ++ .frame n entry u :: back)) (hrecords : records front = [])
    (hback : Timeline.calls back = live.filterMap Live.call?) :
    Explains (w.exit n entry live) back ∧ (w.hooks.unwind (.frame n)).stackDepth = entry := by
  have hacts := acts_of_explains ht
  rw [hrecords, List.nil_append] at hacts
  obtain ⟨hunwinds, hunwind⟩ := unwind_innermost hacts
  have hworld : (w.exit n entry live).hooks = w.hooks.unwind (.frame n) := rfl
  have hblocked : (w.exit n entry live).blocked = w.blocked := if_pos hunwinds
  refine ⟨?_, by rw [hunwind]⟩
  constructor
  · rw [hworld, hunwind]
  · rw [hworld, hunwind, ← dropWhile_held ht.sound rfl hrecords, ht.acts, ht.holds]
  · exact hback
  · rw [hblocked]
    exact ht.sound.append_right.2
  · rw [hworld, hunwind]
    have hsaved : Timeline.load back ≤ entry := ht.sound.append_right.1.1
    rwa [Timeline.load, hback] at hsaved
  · intro r hr
    rw [hworld, hunwind] at hr
    refine ht.young r ?_
    rw [hacts]
    exact List.mem_cons_of_mem _ hr
  · rw [hblocked]
    exact ht.blocked

/-- A frame with one left open on it leaves its record behind. -/
theorem exit_above {r : Record} {rest : List Record} (ht : Explains w (front ++ .frame n entry u :: back))
    (hlive : w.live = .call (.frame n entry u) :: live) (hfront : Timeline.calls front = [])
    (hback : Timeline.calls back = live.filterMap Live.call?) (hrecords : records front = r :: rest) :
    Explains (w.exit n entry live) (front ++ .record ⟨.frame n, entry⟩ :: back) ∧
      (w.handInnermost || n < w.blocked) = true := by
  have hacts := acts_of_explains ht
  rw [hrecords, List.cons_append] at hacts
  obtain ⟨htoken, howner⟩ := ht.sound.record_above hfront hrecords
  have hunwinds : w.hooks.unwinds (.frame n) = false := by
    rw [Hooks.unwinds, hacts]
    simp [Value.strictEquals, htoken]
  have hworld : (w.exit n entry live).hooks = w.hooks := unwind_of_not_unwinds hunwinds
  have hblocked : (w.exit n entry live).blocked = w.tokens := by
    change (if w.hooks.unwinds (.frame n) then w.blocked else w.tokens) = w.tokens
    simp [hunwinds]
  constructor
  · constructor
    · rw [hworld, ← ht.acts]
      simp [records_cons, Entry.record?]
    · rw [hworld, ← ht.holds]
      simp [held_cons, Entry.hold?]
    · rw [calls_append, hfront]
      exact hback
    · rw [hblocked]
      refine ht.sound.block hfront ht.blocked ?_
      intro m entry' u' hmem
      exact ht.frame_lt (List.mem_append_right _ (List.mem_cons_of_mem _ hmem))
    · rw [hworld]
      refine le_trans ?_ ht.accounted
      simp only [World.load, World.calls, hlive, List.filterMap_cons, Live.call?, List.map_cons, List.sum_cons]
      exact le_add_self
    · rw [hworld]
      exact ht.young
    · exact hblocked.le
  · obtain ⟨m, hm⟩ | hn := howner
    · obtain ⟨token, saved⟩ := r
      obtain rfl : token = .hand m := hm
      simp [World.handInnermost, hacts]
    · simp [hn]

end

/-- The innermost frame ends. Its own token leaves it, unless the contract has left a frame open. -/
theorem exit {n : ℕ} {entry u : Depth} (h : Explained w) (hlive : w.live = .call (.frame n entry u) :: live) :
    Explained (w.exit n entry live) ∧
      ((w.hooks.unwind (.frame n)).stackDepth = entry ∨ (w.handInnermost || n < w.blocked) = true) := by
  obtain ⟨t, ht⟩ := h
  obtain ⟨front, back, rfl, hfront, hback⟩ := ht.split_frame hlive
  cases hrecords : records front with
  | nil =>
    obtain ⟨hexplains, hdepth⟩ := exit_innermost ht hrecords hback
    exact ⟨⟨_, hexplains⟩, .inl hdepth⟩
  | cons r rest =>
    obtain ⟨hexplains, hopen⟩ := exit_above ht hlive hfront hback hrecords
    exact ⟨⟨_, hexplains⟩, .inr hopen⟩

end Explained

end XChainVM.NativeStack
