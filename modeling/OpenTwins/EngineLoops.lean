import OpenTwins.EngineEffects
import Mathlib.Logic.Function.Basic

namespace OpenTwins

inductive Loop
  | receiver
  | processor
  | sender
  | apiServer
deriving DecidableEq

inductive LoopStage
  | testing
  | taking
  | handling
  | finished
deriving DecidableEq

inductive LoopTurn
  | receiver (message : Option (Frame × UInt64 × Pointer))
  | processor (clock : ℕ → UInt64)
  | sender (overflow now : UInt64)
  | apiServer (request : Option (ItemType × ItemAs × Pointer))

inductive LoopsAct
  | interrupt
  | turn (turn : LoopTurn)

namespace LoopTurn

def loop : LoopTurn → Loop
  | .receiver _ => .receiver
  | .processor _ => .processor
  | .sender .. => .sender
  | .apiServer _ => .apiServer

def takes : LoopTurn → Option Act
  | .receiver message => message.map fun m => .receive m.1 m.2.1 m.2.2
  | .processor _ => some .popIn
  | .sender .. => some .popNotify
  | .apiServer request => request.map fun r => .request r.1 r.2.1 r.2.2

def handles : LoopTurn → Option Act
  | .receiver _ => some .push
  | .processor clock => some (.dispatch clock)
  | .sender overflow now => some (.send overflow now)
  | .apiServer _ => none

end LoopTurn

def Act.loop : Act → Option Loop
  | .rule _ => none
  | .receive .. | .push => some .receiver
  | .popIn | .dispatch _ => some .processor
  | .popNotify | .send .. => some .sender
  | .request .. => some .apiServer

def Act.asked : Act → List Pointer
  | .request _ _ req => [req]
  | _ => []

def Act.counts (a : Act) : Loop → ℕ
  | .receiver => match a with | .receive .. => 1 | _ => 0
  | .processor => match a with | .dispatch _ => 1 | _ => 0
  | .sender => match a with | .send .. => 1 | _ => 0
  | .apiServer => a.asked.length

def Engine.busy {Socket : Type} (s : Engine Socket) : Loop → Bool
  | .receiver => s.receiving.isSome
  | .processor => s.processing.isSome
  | .sender => s.sending.isSome
  | .apiServer => false

namespace Engine

variable {Socket : Type} {connectors : Connectors Socket} {s t : Engine Socket}

theorem Effect.dispatch_idle {clock : ℕ → UInt64} (h : Effect connectors s (.dispatch clock) t) :
    t.busy .processor = false := by
  cases h with
  | none hi =>
    rw [busy, show s.processing = .none from hi]
    rfl
  | dispatched => rfl

theorem Effect.send_idle {overflow now : UInt64} (h : Effect connectors s (.send overflow now) t) :
    t.busy .sender = false := by
  cases h with
  | none hi =>
    rw [busy, show s.sending = .none from hi]
    rfl
  | sent => rfl

end Engine

structure EngineLoops (Socket : Type) where
  engine : Engine Socket
  keepRunning : Bool
  stage : Loop → LoopStage
  requests : List Pointer

namespace EngineLoops

variable {Socket : Type}

def goTo (loop : Loop) (stage : LoopStage) (s : EngineLoops Socket) : EngineLoops Socket :=
  { s with stage := Function.update s.stage loop stage }

def after (loop : Loop) (a : Act) (engine : Engine Socket) (s : EngineLoops Socket) : EngineLoops Socket :=
  goTo loop (if engine.busy loop then .handling else .testing)
    { s with engine, requests := s.requests ++ a.asked }

def act (connectors : Connectors Socket) (loop : Loop) : Option Act → EngineLoops Socket → Option (EngineLoops Socket)
  | none, s => some (s.goTo loop .testing)
  | some a, s => (Engine.step connectors a s.engine).map fun engine => s.after loop a engine

def step (connectors : Connectors Socket) : LoopsAct → EngineLoops Socket → Option (EngineLoops Socket)
  | .interrupt, s => some { s with keepRunning := false }
  | .turn turn, s =>
    match s.stage turn.loop with
    | .testing => some (s.goTo turn.loop (if s.keepRunning then .taking else .finished))
    | .taking => s.act connectors turn.loop turn.takes
    | .handling => s.act connectors turn.loop turn.handles
    | .finished => some s

def start (rules : Rules) (history sentHistory : History) (memory : TwinsMemory)
    (queueIn notifyQueue userActionsQueue : EventQueue) : EngineLoops Socket where
  engine := .start rules history sentHistory memory queueIn notifyQueue userActionsQueue
  keepRunning := true
  stage := fun _ => .testing
  requests := []

def count (s : EngineLoops Socket) : Loop → ℕ
  | .receiver => s.engine.received.length
  | .processor => s.engine.dispatched.length
  | .sender => s.engine.sent.length
  | .apiServer => s.requests.length

def mayComplete : LoopStage → Loop → ℕ
  | .taking, _ | .handling, .processor | .handling, .sender => 1
  | _, _ => 0

def left (s : EngineLoops Socket) (loop : Loop) : ℕ := mayComplete (s.stage loop) loop

variable {connectors : Connectors Socket} {s t : EngineLoops Socket} {engine : Engine Socket} {a : Act}

theorem effect_count (h : Engine.Effect connectors s.engine a engine) (loop loop' : Loop) :
    (s.after loop' a engine).count loop ≤ s.count loop + a.counts loop := by
  cases h <;> cases loop <;> simp [count, after, goTo, Act.counts, Act.asked, Engine.hear, Engine.offered]

theorem left_goTo {loop loop' : Loop} (h : loop ≠ loop') (stage : LoopStage) :
    (s.goTo loop' stage).left loop = s.left loop := by
  simp only [left, goTo, Function.update_of_ne h]

theorem left_self (loop : Loop) (stage : LoopStage) : (s.goTo loop stage).left loop = mayComplete stage loop := by
  simp only [left, goTo, Function.update_self]

theorem takes_loop {turn : LoopTurn} (h : turn.takes = some a) : a.loop = some turn.loop := by
  cases turn with
  | receiver message | apiServer request =>
    obtain ⟨m, -, rfl⟩ := Option.map_eq_some_iff.mp h
    rfl
  | _ =>
    cases h
    rfl

theorem handles_loop {turn : LoopTurn} (h : turn.handles = some a) : a.loop = some turn.loop := by
  cases turn <;> cases h <;> rfl

theorem counts_other {loop : Loop} (h : a.loop ≠ some loop) : a.counts loop = 0 := by
  cases a <;> cases loop <;> first | rfl | exact absurd rfl h

theorem left_idle {loop : Loop} (h : engine.busy loop = false) : (s.after loop a engine).left loop = 0 := by
  rw [after, left_self, h]
  rfl

theorem left_after (loop : Loop) : (s.after loop a engine).left loop ≤ mayComplete .handling loop := by
  cases hb : engine.busy loop with
  | false => exact (left_idle hb).trans_le (Nat.zero_le _)
  | true =>
    rw [after, left_self, hb]
    exact le_refl _

theorem takes_left {turn : LoopTurn} (ha : turn.takes = some a) (hs : s.stage turn.loop = .taking) :
    a.counts turn.loop + (s.after turn.loop a engine).left turn.loop ≤ s.left turn.loop := by
  have hle : a.counts turn.loop + mayComplete .handling turn.loop = 1 := by
    cases turn with
    | receiver message | apiServer request =>
      obtain ⟨m, -, rfl⟩ := Option.map_eq_some_iff.mp ha
      rfl
    | _ =>
      cases ha
      rfl
  have hleft : s.left turn.loop = 1 := by rw [left, hs, mayComplete]
  rw [hleft, ← hle]
  exact Nat.add_le_add_left (left_after _) _

theorem handles_left {turn : LoopTurn} (ha : turn.handles = some a) (h : Engine.Effect connectors s.engine a engine)
    (hs : s.stage turn.loop = .handling) :
    a.counts turn.loop + (s.after turn.loop a engine).left turn.loop ≤ s.left turn.loop := by
  have hleft : s.left turn.loop = mayComplete .handling turn.loop := by rw [left, hs]
  rw [hleft]
  cases turn with
  | receiver message =>
    cases ha
    exact (Nat.zero_add _).trans_le (left_after _)
  | processor clock =>
    cases ha
    rw [LoopTurn.loop, left_idle h.dispatch_idle]
    exact le_refl 1
  | sender overflow now =>
    cases ha
    rw [LoopTurn.loop, left_idle h.send_idle]
    exact le_refl 1
  | apiServer request => cases ha

theorem act_left {turn : LoopTurn} {o : Option Act} (ho : ∀ a, o = some a → a.loop = some turn.loop)
    (hself : ∀ a engine, o = some a → Engine.Effect connectors s.engine a engine →
      a.counts turn.loop + (s.after turn.loop a engine).left turn.loop ≤ s.left turn.loop)
    (h : s.act connectors turn.loop o = some t) :
    t.keepRunning = s.keepRunning ∧ ∀ loop, t.count loop + t.left loop ≤ s.count loop + s.left loop := by
  cases o with
  | none =>
    cases h
    refine ⟨rfl, ?_⟩
    intro loop
    apply Nat.add_le_add_left
    by_cases hl : loop = turn.loop
    · subst hl
      rw [left_self]
      exact Nat.zero_le _
    · exact (left_goTo hl _).le
  | some a =>
    obtain ⟨engine, he, rfl⟩ := Option.map_eq_some_iff.mp h
    have heffect := Engine.step_effect he
    refine ⟨rfl, ?_⟩
    intro loop
    have hcount := effect_count heffect loop turn.loop
    by_cases hl : loop = turn.loop
    · subst hl
      have := hself a engine rfl heffect
      omega
    · have hzero : a.counts loop = 0 := by
        apply counts_other
        rw [ho a rfl]
        intro heq
        exact hl (Option.some.inj heq).symm
      have hleft : (s.after turn.loop a engine).left loop = s.left loop := left_goTo hl _
      omega

theorem step_left {a : LoopsAct} (hk : s.keepRunning = false) (h : step connectors a s = some t) :
    t.keepRunning = false ∧ ∀ loop, t.count loop + t.left loop ≤ s.count loop + s.left loop := by
  cases a with
  | interrupt =>
    cases h
    exact ⟨rfl, fun _ => le_refl _⟩
  | turn turn =>
    rw [step] at h
    split at h
    case _ hs =>
      cases h
      refine ⟨hk, ?_⟩
      intro loop
      apply Nat.add_le_add_left
      by_cases hl : loop = turn.loop
      · subst hl
        rw [left_self, hk]
        exact Nat.zero_le _
      · exact (left_goTo hl _).le
    case _ hs =>
      rw [← hk]
      exact act_left (fun a ha => takes_loop ha) (fun a engine ha _ => takes_left ha hs) h
    case _ hs =>
      rw [← hk]
      exact act_left (fun a ha => handles_loop ha) (fun a engine ha he => handles_left ha he hs) h
    case _ =>
      cases h
      exact ⟨hk, fun _ => le_refl _⟩

theorem left_le (s : EngineLoops Socket) (loop : Loop) : s.left loop ≤ 1 := by
  unfold left
  cases s.stage loop <;> cases loop <;> decide

/-- After the interrupt a loop completes at most one thing more, however long the run goes on. -/
theorem after_interrupt {acts : List LoopsAct}
    (h : Runs.run (step connectors) (.interrupt :: acts) s = some t) :
    t.keepRunning = false ∧ t.engine.received.length ≤ s.engine.received.length + 1 ∧
      t.engine.dispatched.length ≤ s.engine.dispatched.length + 1 ∧
      t.engine.sent.length ≤ s.engine.sent.length + 1 ∧ t.requests.length ≤ s.requests.length + 1 := by
  have hstep : ∀ a u v, (u.keepRunning = false ∧ ∀ loop, u.count loop + u.left loop ≤ s.count loop + s.left loop) →
      step connectors a u = some v →
      v.keepRunning = false ∧ ∀ loop, v.count loop + v.left loop ≤ s.count loop + s.left loop := by
    rintro a u v ⟨hk, hle⟩ hv
    obtain ⟨hk', hle'⟩ := step_left hk hv
    exact ⟨hk', fun loop => (hle' loop).trans (hle loop)⟩
  have hfirst : ∀ loop, EngineLoops.count { s with keepRunning := false } loop +
      EngineLoops.left { s with keepRunning := false } loop ≤ s.count loop + s.left loop := fun _ => le_refl _
  obtain ⟨hk, hle⟩ := Runs.run_preserves hstep ⟨rfl, hfirst⟩ h
  have hcount (loop : Loop) : t.count loop ≤ s.count loop + 1 := by
    have := hle loop
    have := left_le s loop
    omega
  exact ⟨hk, hcount .receiver, hcount .processor, hcount .sender, hcount .apiServer⟩

def takenActs : List LoopsAct :=
  [.turn (.receiver none),
    .turn (.receiver (some (zeroedFrame, 0, ⟨0, [0x97, 0, 1, 0, 0, 1, 5, 0xca, 0x3f, 0x80, 0, 0]⟩))),
    .turn (.processor fun _ => 0), .turn (.receiver none), .turn (.processor fun _ => 0)]

def interruptedActs : List LoopsAct :=
  [.turn (.receiver none), .turn (.processor fun _ => 0), .turn (.sender 0 0), .turn (.processor fun _ => 0),
    .turn (.processor fun _ => 0), .turn (.apiServer none)]

theorem after_interrupt_taken : ∃ s t : EngineLoops Unit,
    Runs.run (step fun _ => some ()) takenActs (start ⟨fun _ => .ignore, fun _ _ => .notifyUpwards⟩ zeroedHistory
      zeroedHistory (fun _ => initialTwin) zeroedQueue zeroedQueue zeroedQueue) = some s ∧
    s.engine.processing.isSome ∧ s.engine.dispatched = [] ∧
    Runs.run (step fun _ => some ()) (.interrupt :: interruptedActs) s = some t ∧ t.stage .processor = .finished ∧
    t.engine.dispatched ≠ [] ∧ t.engine.dispatched.length ≤ 1 := by
  have hrun : (Runs.run (step fun _ => some ()) takenActs (start ⟨fun _ => .ignore, fun _ _ => .notifyUpwards⟩
      zeroedHistory zeroedHistory (fun _ => initialTwin) zeroedQueue zeroedQueue zeroedQueue)).bind
        (fun s : EngineLoops Unit => (Runs.run (step fun _ => some ()) (.interrupt :: interruptedActs) s).map fun t =>
          (s.engine.processing.isSome, s.engine.dispatched.length, decide (t.stage .processor = .finished),
            t.engine.dispatched.length)) = some (true, 0, true, 1) := by
    decide
  obtain ⟨s, hs, hrun⟩ := Option.bind_eq_some_iff.mp hrun
  obtain ⟨t, ht, hrun⟩ := Option.map_eq_some_iff.mp hrun
  simp only [Prod.mk.injEq, decide_eq_true_eq] at hrun
  obtain ⟨htaken, hnone, hfinished, hone⟩ := hrun
  have hle := (after_interrupt ht).2.2.1
  rw [hnone] at hle
  exact ⟨s, t, hs, htaken, List.length_eq_zero_iff.mp hnone, ht, hfinished,
    List.ne_nil_of_length_pos (by omega), hle⟩

end EngineLoops

end OpenTwins
