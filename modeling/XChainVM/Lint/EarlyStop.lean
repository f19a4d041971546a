import XChainVM.Lint.SyntaxDepth

/-! # The early stop agrees with the full scan

What the scan has measured, as if every open frame closed here, never falls from one token to the
next, and the running estimate is at most that. A scan that stops early has therefore passed what
the full scan is going to pass.
-/

namespace XChainVM.Lint

open Js

namespace Frame

def measured (f : Frame) : ℕ := max f.best (f.prefixes + f.ops + f.child)

theorem closeSegment_eq (f : Frame) : f.closeSegment = { f with best := f.measured } := by
  have hbest : f.closeSegment.best = f.measured := by
    unfold closeSegment measured
    dsimp only
    by_cases h : f.best < f.prefixes + f.ops + f.child
    · rw [if_pos h]
      exact (max_eq_right h.le).symm
    · rw [if_neg h]
      exact (max_eq_left (not_lt.mp h)).symm
  rw [← hbest]
  unfold closeSegment
  dsimp only
  split <;> rfl

theorem popInto_kind (f parent : Frame) : (f.popInto parent).kind = parent.kind := by
  unfold popInto
  dsimp only
  split <;> rfl

/-- The parent of a frame that is popped has the frame's weight as a child. -/
theorem popInto_measured (f parent : Frame) : (f.popInto parent).measured =
    max parent.measured (parent.prefixes + parent.ops + (FRAME_CONSTANT f.kind + f.measured)) := by
  unfold popInto
  rw [closeSegment_eq]
  dsimp only
  generalize FRAME_CONSTANT f.kind + f.measured = weight
  split
  · simp only [measured]
    omega
  · simp only [measured]
    omega

/-- `g` is the same frame with at least as much measured. -/
structure Grows (f g : Frame) : Prop where
  kind : g.kind = f.kind
  measured : f.measured ≤ g.measured

theorem Grows.refl (f : Frame) : Grows f f := ⟨rfl, le_rfl⟩

theorem Grows.popInto {f g : Frame} (h : Grows f g) (parent : Frame) :
    Grows (f.popInto parent) (g.popInto parent) := by
  refine ⟨(popInto_kind g parent).trans (popInto_kind f parent).symm, ?_⟩
  have hmeasured := h.measured
  rw [popInto_measured, popInto_measured, h.kind]
  omega

theorem grows_popInto (f parent : Frame) : Grows parent (f.popInto parent) := by
  refine ⟨popInto_kind f parent, ?_⟩
  rw [popInto_measured]
  exact le_max_left _ _

/-- A segment that is recorded may be dropped. -/
theorem grows_closeSegment (f : Frame) (prefixes ops child openDo : ℕ) (pending : Pending) :
    Grows f { f.closeSegment with prefixes, ops, child, openDo, pending } := by
  rw [closeSegment_eq]
  exact ⟨rfl, le_max_left _ _⟩

theorem grows_settlePending (f : Frame) (label : Label) : Grows f (f.settlePending label) := by
  have hclosed (openDo : ℕ) : Grows f ({ f with openDo, pending := .none } : Frame).closeSegment.resetSegment := by
    rw [closeSegment_eq]
    exact ⟨rfl, le_max_left _ _⟩
  unfold settlePending
  split
  · exact .refl f
  · unfold closeDo
    dsimp only
    split
    · exact ⟨rfl, le_rfl⟩
    · dsimp only
      split
      · exact hclosed f.openDo
      · exact ⟨rfl, le_rfl⟩

end Frame

namespace Stack

open XChainVM.Lint.Frame

def rootKind (frame : Frame) : List Frame → FrameKind
  | [] => frame.kind
  | parent :: below => rootKind parent below

theorem rootKind_congr {f g : Frame} (h : g.kind = f.kind) (below : List Frame) :
    rootKind g below = rootKind f below := by
  cases below with
  | nil => exact h
  | cons parent below => rfl

theorem closeAll_best_mono {f g : Frame} (h : Grows f g) (below : List Frame) :
    (closeAll f below).best ≤ (closeAll g below).best := by
  induction below generalizing f g with
  | nil =>
    rw [closeAll, closeAll, closeSegment_eq, closeSegment_eq]
    exact h.measured
  | cons parent below ih => exact ih (h.popInto parent)

/-- The outermost frame keeps its kind, and what all frames come to does not fall. -/
structure Leads (s t : Stack) : Prop where
  kind : rootKind t.frame t.below = rootKind s.frame s.below
  finalDepth : s.finalDepth ≤ t.finalDepth

theorem Leads.refl (s : Stack) : Leads s s := ⟨rfl, le_rfl⟩

theorem Leads.trans {s t u : Stack} (hst : Leads s t) (htu : Leads t u) : Leads s u :=
  ⟨htu.kind.trans hst.kind, hst.finalDepth.trans htu.finalDepth⟩

theorem Leads.of_grows {s : Stack} {frame : Frame} (h : Grows s.frame frame) : Leads s (s.setFrame frame) :=
  ⟨rootKind_congr h.kind s.below, Nat.add_le_add_left (closeAll_best_mono h s.below) _⟩

/-- A frame that is opened only adds a child. -/
theorem leads_push {s : Stack} {frame : Frame} (h : Grows s.frame frame) (kind : FrameKind) :
    Leads s ⟨newFrame kind, frame :: s.below⟩ := by
  refine ⟨rootKind_congr h.kind s.below, Nat.add_le_add_left ?_ _⟩
  have hopened : Grows s.frame ((newFrame kind).popInto frame) :=
    ⟨(popInto_kind _ _).trans h.kind, h.measured.trans (grows_popInto _ _).measured⟩
  exact closeAll_best_mono hopened s.below

/-- A frame that is closed has become a child of the one around it. -/
theorem leads_pop {frame parent parent' : Frame} (below : List Frame) (h : Grows (frame.popInto parent) parent') :
    Leads ⟨frame, parent :: below⟩ ⟨parent', below⟩ :=
  ⟨rootKind_congr (h.kind.trans (popInto_kind _ _)) below,
    Nat.add_le_add_left (closeAll_best_mono h below) _⟩

theorem leads_applyToken (s : Stack) (token : Token) (prev prevPrev : Option Label) :
    Leads s (s.applyToken token prev prevPrev).1 := by
  have hheads (openDo : ℕ) : Grows s.frame { s.frame with prefixes := s.frame.prefixes + 1, openDo } := by
    refine ⟨rfl, ?_⟩
    simp only [measured]
    omega
  have hops (weight : ℕ) : Grows s.frame { s.frame with ops := s.frame.ops + weight } := by
    refine ⟨rfl, ?_⟩
    simp only [measured]
    omega
  unfold applyToken
  dsimp only
  split
  · apply leads_push
    split
    · exact hops _
    · exact .refl _
  · split
    · obtain ⟨frame, below⟩ := s
      cases below with
      | nil => exact .refl _
      | cons parent below =>
        apply leads_pop below
        dsimp only
        split
        · exact ⟨rfl, le_rfl⟩
        · exact .refl _
    · split
      · exact .of_grows (grows_closeSegment _ _ _ _ _ _)
      · split
        · exact .of_grows (grows_closeSegment _ _ _ _ _ _)
        · split
          · exact .of_grows (hheads _)
          · split
            · split
              · exact .of_grows (hheads s.frame.openDo)
              · exact .refl _
            · split
              · exact .of_grows (hops _)
              · exact .refl _

/-- The running estimate, with the open segments of the frames around the innermost one. -/
theorem estimate_le (frame : Frame) (below : List Frame) :
    enclosing below + FRAME_CONSTANT frame.kind + frame.measured ≤
      FRAME_CONSTANT (rootKind frame below) + (closeAll frame below).best := by
  induction below generalizing frame with
  | nil =>
    rw [closeAll, closeSegment_eq]
    simp [enclosing, rootKind]
  | cons parent below ih =>
    have hpopped := ih (frame.popInto parent)
    rw [popInto_kind, popInto_measured, rootKind_congr (popInto_kind frame parent)] at hpopped
    have henclosing : enclosing (parent :: below) =
        FRAME_CONSTANT parent.kind + parent.prefixes + parent.ops + enclosing below := by
      simp [enclosing]
    rw [henclosing, rootKind, closeAll]
    omega

theorem depthNow_le (s : Stack) (hroot : rootKind s.frame s.below = .top) : s.depthNow ≤ s.finalDepth := by
  have := estimate_le s.frame s.below
  rwa [hroot] at this

end Stack

open XChainVM.Lint.Frame XChainVM.Lint.Stack

theorem passes_mono {a b : ℕ} (hab : a ≤ b) {limit : Number} (h : passes a limit = true) : passes b limit = true := by
  cases limit with
  | finite q =>
    have hlt : q < (a : ℚ) := of_decide_eq_true h
    exact decide_eq_true (hlt.trans_le (by exact_mod_cast hab))
  | infinity negative => exact h
  | nan => exact h

/-- The stack after a token, which settles what the one before left open. -/
def advance (s : Stack) (token : Token) (prev prevPrev : Option Label) : Stack × Bool :=
  (s.setFrame (s.frame.settlePending token.label)).applyToken token prev prevPrev

theorem leads_advance (s : Stack) (token : Token) (prev prevPrev : Option Label) :
    Leads s (advance s token prev prevPrev).1 :=
  (Leads.of_grows (grows_settlePending s.frame token.label)).trans (leads_applyToken _ token prev prevPrev)

theorem scan_cons (limit : Number) (s : Stack) (line : ℕ) (prev prevPrev : Option Label) (token : Token)
    (rest : List Token) (heof : token.label ≠ .eof) :
    scan limit s line prev prevPrev (token :: rest) =
      if (advance s token prev prevPrev).2 && passes (advance s token prev prevPrev).1.depthNow limit then
        ⟨token.line, (advance s token prev prevPrev).1.depthNow⟩
      else scan limit (advance s token prev prevPrev).1 token.line (some token.label) prev rest := by
  rw [scan, if_neg heof]
  rfl

/-- The full scan never stops before the end. -/
theorem scan_full (s : Stack) (line : ℕ) (prev prevPrev : Option Label) (token : Token) (rest : List Token)
    (heof : token.label ≠ .eof) : scan (.infinity false) s line prev prevPrev (token :: rest) =
      scan (.infinity false) (advance s token prev prevPrev).1 token.line (some token.label) prev rest := by
  rw [scan_cons _ s line prev prevPrev token rest heof]
  simp [passes]

/-- What is measured at any point is at most what the full scan measures. -/
theorem finalDepth_le_scan (s : Stack) (line : ℕ) (prev prevPrev : Option Label) (tokens : List Token) :
    s.finalDepth ≤ (scan (.infinity false) s line prev prevPrev tokens).depth := by
  induction tokens generalizing s line prev prevPrev with
  | nil => exact le_rfl
  | cons token rest ih =>
    by_cases heof : token.label = .eof
    · rw [scan, if_pos heof]
      exact (Leads.of_grows (grows_settlePending s.frame token.label)).finalDepth
    · rw [scan_full s line prev prevPrev token rest heof]
      exact (leads_advance s token prev prevPrev).finalDepth.trans (ih _ _ _ _)

/-- The scan that may stop early passes its limit exactly if the full scan does. -/
theorem scan_passes (limit : Number) (s : Stack) (hroot : rootKind s.frame s.below = .top) (line : ℕ)
    (prev prevPrev : Option Label) (tokens : List Token) :
    passes (scan limit s line prev prevPrev tokens).depth limit =
      passes (scan (.infinity false) s line prev prevPrev tokens).depth limit := by
  induction tokens generalizing s line prev prevPrev with
  | nil => rfl
  | cons token rest ih =>
    by_cases heof : token.label = .eof
    · rw [scan, scan, if_pos heof, if_pos heof]
    · have hroot' := (leads_advance s token prev prevPrev).kind.trans hroot
      have hfull := ih _ hroot' token.line (some token.label) prev
      rw [scan_full s line prev prevPrev token rest heof, scan_cons limit s line prev prevPrev token rest heof]
      split
      · next hstop =>
        have hpasses := (Bool.and_eq_true_iff.mp hstop).2
        have hdepth := (depthNow_le _ hroot').trans (finalDepth_le_scan _ token.line (some token.label) prev rest)
        exact hpasses.trans (passes_mono hdepth hpasses).symm
      · exact hfull

theorem findSyntaxDepth_iff (tokens : List Token) (limit : Option Number) :
    findSyntaxDepth tokens limit ≠ [] ↔ passes (measureSyntaxDepth tokens) (limitOr limit) = true := by
  have hagree := scan_passes (limitOr limit) ⟨newFrame .top, []⟩ rfl 1 none none tokens
  unfold findSyntaxDepth measureSyntaxDepth scanSyntaxDepth
  rw [← hagree]
  dsimp only
  split
  · next h => exact iff_of_true (List.cons_ne_nil _ _) h
  · next h => exact iff_of_false (fun hne => hne rfl) h

end XChainVM.Lint
