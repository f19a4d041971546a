import XChainVM.Executor.Causes
import XChainVM.Executor.Executed

/-! # Parent and workers in a closed loop

The parent hears from its workers only what their own code sends: a worker that has come up says so, it
acknowledges a snapshot as it receives it, and answers an execution with its result or with the host
fault that stopped it. Then a result that a request resolves with is the one its execution came to, on
the options it was accepted with.
-/

namespace XChainVM.Executor

open Js Machine

/-- What an execution comes to: a result, a host fault the worker reports, or the end of the worker. -/
inductive Outcome where
  | result (result : Value)
  | hostfault (reason : String)
  | died

structure Execution where
  child : ChildId
  task : Task
  /-- What the execution's cross-chain accessor reads; `none` for a stale reference. -/
  data : Option Value

def resultFrame (task : Task) (result : Value) : Value :=
  .object [("type", .string "result"), ("id", .number (.finite task.id)), ("token", .string task.token),
    ("result", result)]

def hostfaultFrame (task : Task) (reason : String) : Value :=
  .object [("type", .string "hostfault"), ("id", .number (.finite task.id)), ("token", .string task.token),
    ("reason", .string reason)]

def Frame.reply? : Frame → Option Value
  | .init => some readyFrame
  | .snapshot token _ => some (snapshotAckFrame token)
  | .beginBlock | .endBlock | .execute .. => none

def Outcome.reply? (task : Task) : Outcome → Option Value
  | result r => some (resultFrame task r)
  | hostfault reason => some (hostfaultFrame task reason)
  | died => none

/-- The virtual machine a worker holds: what it makes of options and of the data they stand for. -/
abbrev Executes := Value → Value → Outcome

def Execution.outcome (vm : Executes) (x : Execution) : Outcome :=
  match x.data with
  | none => .hostfault "worker cross-chain snapshot reference is unavailable"
  | some data => vm x.task.opts data

def Event.isMessage : Event → Bool
  | .message .. => true
  | _ => false

structure Loop where
  system : System
  /-- What a worker has sent and the parent has not handled. -/
  replies : ChildId → List Value
  exited : ChildId → Bool
  executions : List Execution

inductive LoopEvent where
  /-- Anything that happens to the parent but a message. -/
  | parent (event : Event)
  | deliver (child : ChildId)
  | run (child : ChildId)
  | reply (child : ChildId)

namespace Loop

variable (host : Host) (cfg : Config) (vm : Executes)

def say (c : ChildId) (msg : Option Value) (replies : ChildId → List Value) : ChildId → List Value :=
  Function.update replies c (replies c ++ msg.toList)

def step (y : Loop) : LoopEvent → Loop
  | .parent e => if e.isMessage then y else { y with system := System.step host cfg y.system (.parent e) }
  | .deliver c =>
    match (System.sentTo c y.system.parent)[(y.system.workers c).delivered]? with
    | none => y
    | some frame =>
      if y.exited c then y
      else { y with
        system := System.step host cfg y.system (.deliver c)
        replies := say c frame.reply? y.replies }
  | .run c =>
    match (y.system.workers c).chain with
    | [] => y
    | task :: _ =>
      if y.exited c then y
      else
        let x : Execution := ⟨c, task, (y.system.workers c).buildCrossChainAccessor (task.opts.get "crossChainData")⟩
        { system := System.step host cfg y.system (.run c)
          replies := say c ((x.outcome vm).reply? task) y.replies
          exited := Function.update y.exited c (match x.outcome vm with | .died => true | _ => false)
          executions := x :: y.executions }
  | .reply c =>
    match y.replies c with
    | [] => y
    | msg :: rest => { y with
        system := System.step host cfg y.system (.parent (.message c msg))
        replies := Function.update y.replies c rest }

def start : Loop := ⟨System.start host, fun _ => [], fun _ => false, []⟩

def run (events : List LoopEvent) : Loop := Machine.run (step host cfg vm) (start host) events

end Loop

variable {host : Host} {cfg : Config} {vm : Executes} {origin : State} {event : Event}

/-- The options an `execute` frame carries for a request: its own, or with a reference to a snapshot in
the place of its data. -/
def Carries (e : QueueEntry) (opts : Value) : Prop :=
  opts = e.opts ∨ ∃ token, opts = e.opts.assign "crossChainData" (snapshotReference token)

/-- Every `execute` frame carries out an accepted request. -/
def Carried (s : State) : Prop :=
  ∀ c id token opts, (c, Frame.execute id token opts) ∈ s.frames → ∃ e ∈ s.accepted, e.id = id ∧ Carries e opts

theorem carries_reference (e : QueueEntry) (s : State) :
    Carries e (WorkerSnapshotChannel.reference e.opts s) := by
  unfold WorkerSnapshotChannel.reference
  split
  · exact .inl rfl
  · exact .inr ⟨_, rfl⟩

theorem Carried.keep {s t : State} (h : Carried s) (ha : ∀ e ∈ s.accepted, e ∈ t.accepted)
    (hf : ∀ c id token opts, (c, Frame.execute id token opts) ∈ t.frames →
      (c, Frame.execute id token opts) ∈ s.frames) : Carried t := by
  intro c id token opts hmem
  obtain ⟨e, he, hid, hcarries⟩ := h c id token opts (hf c id token opts hmem)
  exact ⟨e, ha e he, hid, hcarries⟩

theorem Carried.launched {s : State} (h : Carried s) (hi : Inv s) {entry : QueueEntry}
    {rest : List QueueEntry} {c : ChildId} (hr : Released s entry rest c) :
    Carried (s.launched host entry rest c) := by
  intro d id token opts hmem
  obtain hmem | hmem := List.mem_append.mp hmem
  · exact h d id token opts hmem
  · cases List.mem_singleton.mp hmem
    exact ⟨entry, hi.queued entry (hr.queue ▸ List.mem_cons_self), rfl, carries_reference entry s⟩

theorem Move.carried {l : List (RequestId × Settlement)} {s t : State} (hi : Inv s) (h : Carried s)
    (hm : Move host cfg origin event l s t) : Carried t := by
  cases hm with
  | quiet hv =>
    have hframes : (visible t).frames = (visible s).frames := by rw [hv]
    have haccepted : (visible t).accepted = (visible s).accepted := by rw [hv]
    exact h.keep (fun e he => haccepted ▸ he) fun c id token opts hf => hframes ▸ hf
  | cut =>
    rw [closeChannel_eq]
    exact h
  | kill =>
    rw [kill_eq]
    exact h
  | @post _ c f hc hf =>
    refine h.keep (fun e he => he) fun d id token opts hmem => ?_
    obtain hmem | hmem := List.mem_append.mp hmem
    · exact hmem
    · cases List.mem_singleton.mp hmem
      cases hf
  | boundary inBlock =>
    rw [snapshotBeginBlock_eq]
    exact h
  | choose hq =>
    rw [choose_eq]
    exact h
  | ship =>
    refine h.keep (fun e he => he) fun d id token opts hmem => ?_
    obtain hmem | hmem := List.mem_append.mp hmem
    · exact hmem
    · cases List.mem_singleton.mp hmem
  | launch hr => exact h.launched hi hr
  | ack he =>
    rw [snapshotOnMessage_eq]
    exact h
  | ready =>
    rw [readied_eq]
    exact h
  | lose hc he =>
    rw [lost_eq]
    exact h
  | reset hc =>
    rw [spawnReset_eq]
    exact h
  | enroll he hsd hb => exact h.keep (fun e he => List.mem_cons_of_mem _ he) fun c id token opts hf => hf
  | shutdown he =>
    rw [shutdown_eq]
    exact h
  | _ => exact h

theorem run_carried (events : List Event) : Carried (run host cfg events) :=
  run_law (by simp [Carried, blank]) (fun _ _ _ _ _ hi h hm => hm.carried hi h) events

namespace Loop

def Sent (vm : Executes) (y : Loop) (c : ChildId) (msg : Value) : Prop :=
  msg = readyFrame ∨ (∃ token, msg = snapshotAckFrame token) ∨
    ∃ x ∈ y.executions, x.child = c ∧ (x.outcome vm).reply? x.task = some msg

/-- Workers run what they were sent, say what came of it, and the parent resolves requests with that. -/
structure Honest (host : Host) (cfg : Config) (vm : Executes) (y : Loop) : Prop where
  reached : ∃ events, y.system = System.run host cfg events
  chained : ∀ c, ∀ t ∈ (y.system.workers c).chain, (c, .execute t.id t.token t.opts) ∈ y.system.parent.frames
  executed : ∀ x ∈ y.executions,
    (x.child, .execute x.task.id x.task.token x.task.opts) ∈ y.system.parent.frames
  ran : y.executions.map (fun x => x.task.id) = y.system.ran.map Ran.id
  replied : ∀ c, ∀ msg ∈ y.replies c, Sent vm y c msg
  settled : ∀ id r, (id, .result r) ∈ y.system.parent.settled →
    ∃ x ∈ y.executions, x.task.id = id ∧ x.outcome vm = .result r

variable {y : Loop}

theorem Sent.mono {c : ChildId} {msg : Value} (h : Sent vm y c msg) {z : Loop}
    (hz : ∀ x ∈ y.executions, x ∈ z.executions) : Sent vm z c msg := by
  obtain h | h | ⟨x, hx, hsent⟩ := h
  · exact .inl h
  · exact .inr (.inl h)
  · exact .inr (.inr ⟨x, hz x hx, hsent⟩)

theorem reached_step {y : System} (h : ∃ events, y = System.run host cfg events) (e : SystemEvent) :
    ∃ events, System.step host cfg y e = System.run host cfg events := by
  obtain ⟨events, rfl⟩ := h
  exact ⟨events ++ [e], (run_concat ..).symm⟩

theorem Honest.inv (h : Honest host cfg vm y) : Inv y.system.parent := by
  obtain ⟨events, hy⟩ := h.reached
  rw [hy, System.run_parent]
  exact run_inv _

theorem Honest.carried (h : Honest host cfg vm y) : Carried y.system.parent := by
  obtain ⟨events, hy⟩ := h.reached
  rw [hy, System.run_parent]
  exact run_carried _

theorem Honest.dispatching (h : Honest host cfg vm y) : Dispatching y.system.parent := by
  obtain ⟨events, hy⟩ := h.reached
  rw [hy]
  exact System.run_dispatching host cfg events

/-- The parent handles an event; if it resolves a request with a result, an execution came to it. -/
theorem Honest.parent (h : Honest host cfg vm y) (e : Event) {replies : ChildId → List Value}
    (hreplies : ∀ c, ∀ msg ∈ replies c, msg ∈ y.replies c)
    (hresult : ∀ id r, NewlySettled host cfg y.system.parent e (id, .result r) →
      ∃ x ∈ y.executions, x.task.id = id ∧ x.outcome vm = .result r) :
    Honest host cfg vm { y with system := System.step host cfg y.system (.parent e), replies } := by
  have hstep := step_reaches host cfg y.system.parent e (fun ho => (h.inv.off ho).1) h.inv.born
  have hframes : y.system.parent.frames ⊆ (Executor.step host cfg y.system.parent e).frames :=
    hstep.frames_prefix.subset
  constructor
  case reached => exact reached_step h.reached (.parent e)
  case chained => exact fun c t ht => hframes (h.chained c t ht)
  case executed => exact fun x hx => hframes (h.executed x hx)
  case ran => exact h.ran
  case replied => exact fun c msg hmsg => (h.replied c msg (hreplies c msg hmsg)).mono fun x hx => hx
  case settled =>
    intro id r hsettled
    by_cases hold : (id, Settlement.result r) ∈ y.system.parent.settled
    · exact h.settled id r hold
    · exact hresult id r ⟨hsettled, hold⟩

theorem mem_say {c d : ChildId} {msg : Option Value} {replies : ChildId → List Value} {m : Value}
    (hm : m ∈ say d msg replies c) : m ∈ replies c ∨ c = d ∧ msg = some m := by
  unfold say at hm
  obtain rfl | hcd := eq_or_ne c d
  · rw [Function.update_self] at hm
    obtain hm | hm := List.mem_append.mp hm
    · exact .inl hm
    · exact .inr ⟨rfl, Option.mem_toList.mp hm⟩
  · rw [Function.update_of_ne hcd] at hm
    exact .inl hm

theorem Honest.deliver (h : Honest host cfg vm y) (c : ChildId) :
    Honest host cfg vm (step host cfg vm y (.deliver c)) := by
  unfold step
  dsimp only
  cases hframe : (System.sentTo c y.system.parent)[(y.system.workers c).delivered]? with
  | none => exact h
  | some frame =>
    dsimp only
    split
    · exact h
    have hsent : (c, frame) ∈ y.system.parent.frames := by
      obtain ⟨⟨d, f⟩, hmem, rfl⟩ := List.mem_map.mp (List.mem_of_getElem? hframe)
      obtain ⟨hf, hd⟩ := List.mem_filter.mp hmem
      obtain rfl : d = c := of_decide_eq_true hd
      exact hf
    have hstep : System.step host cfg y.system (.deliver c) = { y.system with
        workers := Function.update y.system.workers c
          { (y.system.workers c).onMessage frame with delivered := (y.system.workers c).delivered + 1 } } := by
      show System.deliver c y.system = _
      unfold System.deliver
      dsimp only
      rw [hframe]
    constructor
    case reached => exact reached_step h.reached (.deliver c)
    case chained =>
      rw [hstep]
      intro d t ht
      dsimp only at ht ⊢
      obtain rfl | hcd := eq_or_ne d c
      · rw [Function.update_self] at ht
        cases frame with
        | execute id token opts =>
          obtain ht | ht := List.mem_append.mp ht
          · exact h.chained d t ht
          · cases List.mem_singleton.mp ht
            exact hsent
        | _ => exact h.chained d t ht
      · rw [Function.update_of_ne hcd] at ht
        exact h.chained d t ht
    case executed =>
      rw [hstep]
      exact h.executed
    case ran =>
      rw [hstep]
      exact h.ran
    case replied =>
      intro d msg hmsg
      obtain hmsg | ⟨rfl, hreply⟩ := mem_say hmsg
      · exact (h.replied d msg hmsg).mono fun x hx => hx
      · cases frame with
        | init => exact .inl (Option.some.inj hreply).symm
        | snapshot token data => exact .inr (.inl ⟨token, (Option.some.inj hreply).symm⟩)
        | _ => cases hreply
    case settled =>
      rw [hstep]
      exact h.settled

theorem Honest.run (h : Honest host cfg vm y) (c : ChildId) :
    Honest host cfg vm (step host cfg vm y (.run c)) := by
  unfold step
  dsimp only
  cases hchain : (y.system.workers c).chain with
  | nil => exact h
  | cons task rest =>
    dsimp only
    split
    · exact h
    have hstep : System.step host cfg y.system (.run c) = { y.system with
        workers := Function.update y.system.workers c { y.system.workers c with chain := rest }
        ran := ⟨c, task.id, (y.system.workers c).buildCrossChainAccessor (task.opts.get "crossChainData")⟩ ::
          y.system.ran } := by
      show System.runNext c y.system = _
      unfold System.runNext
      dsimp only
      rw [hchain]
    have htask : (c, Frame.execute task.id task.token task.opts) ∈ y.system.parent.frames :=
      h.chained c task (hchain ▸ List.mem_cons_self)
    constructor
    case reached => exact reached_step h.reached (.run c)
    case chained =>
      rw [hstep]
      intro d t ht
      dsimp only at ht ⊢
      obtain rfl | hcd := eq_or_ne d c
      · rw [Function.update_self] at ht
        exact h.chained d t (hchain ▸ List.mem_cons_of_mem _ ht)
      · rw [Function.update_of_ne hcd] at ht
        exact h.chained d t ht
    case executed =>
      rw [hstep]
      intro x hx
      obtain rfl | hx := List.mem_cons.mp hx
      · exact htask
      · exact h.executed x hx
    case ran =>
      rw [hstep, List.map_cons, List.map_cons, h.ran]
    case replied =>
      intro d msg hmsg
      obtain hmsg | ⟨rfl, hreply⟩ := mem_say hmsg
      · exact (h.replied d msg hmsg).mono fun x hx => List.mem_cons_of_mem _ hx
      · exact .inr (.inr ⟨_, List.mem_cons_self, rfl, hreply⟩)
    case settled =>
      rw [hstep]
      intro id r hsettled
      obtain ⟨x, hx, hid⟩ := h.settled id r hsettled
      exact ⟨x, List.mem_cons_of_mem _ hx, hid⟩

theorem equalsNat_self (n : ℕ) : (Value.number (.finite n)).equalsNat n = true := decide_eq_true rfl

/-- A result the parent takes from a message is the one an execution of that request came to. -/
theorem Sent.result {c : ChildId} {msg : Value} {p : PendingEntry} (h : Sent vm y c msg)
    (htype : msg.get "type" = .string "result") (hid : (msg.get "id").equalsNat p.id = true) :
    ∃ x ∈ y.executions, x.task.id = p.id ∧ x.outcome vm = .result (msg.get "result") := by
  obtain rfl | ⟨token, rfl⟩ | ⟨x, hx, rfl, hreply⟩ := h
  · have hname : "ready" = "result" := Value.string.inj htype
    exact absurd hname (by decide)
  · have hname : "snapshotAck" = "result" := Value.string.inj htype
    exact absurd hname (by decide)
  · cases houtcome : x.outcome vm with
    | result r =>
      rw [houtcome] at hreply
      obtain rfl := Option.some.inj hreply
      have hsame : (resultFrame x.task r).get "id" = .number (.finite x.task.id) := rfl
      refine ⟨x, hx, Value.equalsNat_inj ?_ hid, houtcome⟩
      rw [hsame]
      exact equalsNat_self _
    | hostfault reason =>
      rw [houtcome] at hreply
      obtain rfl := Option.some.inj hreply
      have hname : "hostfault" = "result" := Value.string.inj htype
      exact absurd hname (by decide)
    | died =>
      rw [houtcome] at hreply
      cases hreply

theorem Honest.reply (h : Honest host cfg vm y) (c : ChildId) :
    Honest host cfg vm (step host cfg vm y (.reply c)) := by
  unfold step
  dsimp only
  cases hreplies : y.replies c with
  | nil => exact h
  | cons msg rest =>
    dsimp only
    refine h.parent _ ?_ ?_
    · intro d m hm
      obtain rfl | hcd := eq_or_ne d c
      · rw [Function.update_self] at hm
        exact hreplies ▸ List.mem_cons_of_mem _ hm
      · rwa [Function.update_of_ne hcd] at hm
    · intro id r hnew
      have hsent : Sent vm y c msg := h.replied c msg (hreplies ▸ List.mem_cons_self)
      cases hnew.cause h.inv with
      | @answer c' msg' p he ha ht =>
        cases he
        exact hsent.result ht ha.id

theorem step_honest (h : Honest host cfg vm y) (e : LoopEvent) : Honest host cfg vm (step host cfg vm y e) := by
  cases e with
  | parent e =>
    unfold step
    dsimp only
    split
    · exact h
    rename_i hmessage
    refine h.parent e (fun c msg hmsg => hmsg) ?_
    intro id r hnew
    cases hnew.cause h.inv with
    | answer he ha ht => exact absurd (by rw [he]; rfl) hmessage
  | deliver c => exact h.deliver c
  | run c => exact h.run c
  | reply c => exact h.reply c

theorem start_honest : Honest host cfg vm (start host) where
  reached := ⟨[], rfl⟩
  chained := nofun
  executed := nofun
  ran := rfl
  replied := nofun
  settled id r hsettled := by
    obtain ⟨l, hm⟩ := initial_reaches host cfg .shutdown
    have hnew : (id, Settlement.result r) ∈ l ++ blank.settled := hm.settled_eq ▸ hsettled
    rw [show blank.settled = [] from rfl, List.append_nil] at hnew
    cases hm.cause _ hnew with
    | answer he ha ht => cases he

theorem run_honest (events : List LoopEvent) : Honest host cfg vm (run host cfg vm events) :=
  run_invariant (I := Honest host cfg vm) (fun _ e h => step_honest h e) start_honest events

theorem mem_dispatched {s : State} (h : Dispatching s) {c : ChildId} {id : RequestId} {token : Token}
    {opts : Value} (hf : (c, Frame.execute id token opts) ∈ s.frames) :
    (⟨id, c, token⟩ : Dispatch) ∈ s.dispatched := by
  rw [← List.mem_reverse, ← h.frames]
  exact List.mem_filterMap.mpr ⟨_, hf, rfl⟩

/-- The execution a worker was sent for the request in flight carries the token of its dispatch. -/
theorem Honest.token_eq (h : Honest host cfg vm y) {x : Execution} (hx : x ∈ y.executions) {p : PendingEntry}
    (hp : p ∈ y.system.parent.pending) (hid : x.task.id = p.id) : x.task.token = p.token := by
  obtain ⟨-, -, c, -, hdispatched, -⟩ := h.inv.inFlight p hp
  have hsent := mem_dispatched h.dispatching (h.executed x hx)
  have hnodup := h.dispatching.ordered.imp Nat.ne_of_gt
  exact congrArg Dispatch.token (List.inj_on_of_nodup_map hnodup hsent hdispatched hid)

/-- A worker's own reply to the request in flight is never taken for a bad one. -/
theorem Honest.no_fault (h : Honest host cfg vm y)
    (hshape : ∀ opts data r, vm opts data = .result r → isResultShape r = true) {c : ChildId} {msg : Value}
    (hmsg : msg ∈ y.replies c) {p : PendingEntry} (hp : p ∈ y.system.parent.pending)
    (hid : (msg.get "id").equalsNat p.id = true) : replyFault msg p.token = none := by
  obtain rfl | ⟨token, rfl⟩ | ⟨x, hx, rfl, hreply⟩ := h.replied c msg hmsg
  · cases hid
  · cases hid
  · have hsame (n : Value) (hn : n = .number (.finite x.task.id)) (he : n.equalsNat p.id = true) :
        x.task.id = p.id := by
      subst hn
      exact Value.equalsNat_inj (equalsNat_self _) he
    cases houtcome : x.outcome vm with
    | result r =>
      rw [houtcome] at hreply
      obtain rfl := Option.some.inj hreply
      refine replyFault_eq_none_iff.mpr ⟨?_, fun _ => ?_⟩
      · exact congrArg Value.string (h.token_eq hx hp (hsame _ rfl hid))
      · unfold Execution.outcome at houtcome
        cases hdata : x.data with
        | none =>
          rw [hdata] at houtcome
          cases houtcome
        | some data =>
          rw [hdata] at houtcome
          exact hshape _ _ _ houtcome
    | hostfault reason =>
      rw [houtcome] at hreply
      obtain rfl := Option.some.inj hreply
      refine replyFault_eq_none_iff.mpr ⟨?_, fun htype => ?_⟩
      · exact congrArg Value.string (h.token_eq hx hp (hsame _ rfl hid))
      · have hname : "hostfault" = "result" := Value.string.inj htype
        exact absurd hname (by decide)
    | died =>
      rw [houtcome] at hreply
      cases hreply

end Loop

/-- In every interleaving of the parent with workers that run their own code, a result a request
resolves with is the one its only execution came to, on the options it was accepted with; and as long
as results are well formed, no reply to the request in flight is taken for a bad one. -/
theorem results_are_executions (host : Host) (cfg : Config) (vm : Executes) (events : List LoopEvent) :
    let y := Loop.run host cfg vm events
    let s := y.system.parent
    (∃ events, y.system = System.run host cfg events) ∧
      (y.executions.map fun x => x.task.id).Nodup ∧
      (∀ id r, (id, .result r) ∈ s.settled → ∃ x ∈ y.executions, x.task.id = id ∧ x.outcome vm = .result r ∧
        ∃ e ∈ s.accepted, e.id = id ∧ Carries e x.task.opts) ∧
      ((∀ opts data r, vm opts data = .result r → isResultShape r = true) → ∀ c, ∀ msg ∈ y.replies c,
        ∀ p ∈ s.pending, (msg.get "id").equalsNat p.id = true → replyFault msg p.token = none) := by
  intro y s
  have h : Loop.Honest host cfg vm y := Loop.run_honest events
  obtain ⟨systemEvents, hsystem⟩ := h.reached
  refine ⟨⟨systemEvents, hsystem⟩, ?_, ?_, fun hshape c msg hmsg p hp hid => h.no_fault hshape hmsg hp hid⟩
  · rw [h.ran, hsystem]
    exact System.ran_nodup systemEvents
  · intro id r hsettled
    obtain ⟨x, hx, hid, houtcome⟩ := h.settled id r hsettled
    obtain ⟨e, he, heid, hcarries⟩ := h.carried x.child _ _ _ (h.executed x hx)
    exact ⟨x, hx, hid, houtcome, e, he, heid.trans hid, hcarries⟩

end XChainVM.Executor
