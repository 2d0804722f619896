import OpenTwins.PipelineSafety
import OpenTwins.VariableIds

namespace OpenTwins

open Snapshots

inductive Stage
  | testing
  | popping
  | dispatching
  | finished
deriving DecidableEq

inductive Record
  | dispatched (rules : Rules) (event : Event) (before after : TwinsMemory)
  | requested (req : Pointer)

structure ProcessorLoop (Socket : Type) where
  engine : Engine Socket
  keepRunning : Bool
  stage : Stage
  log : List Record

/-- `interrupt` is the signal handler, and `test` the condition of the loop. -/
inductive LoopAct
  | interrupt
  | test
  | engine (a : Act)

namespace ProcessorLoop

variable {Socket : Type}

abbrev memory (s : ProcessorLoop Socket) : TwinsMemory := s.engine.dispatcher.memory

def step (connectors : Connectors Socket) : LoopAct → ProcessorLoop Socket → Option (ProcessorLoop Socket)
  | .interrupt, s => some { s with keepRunning := false }
  | .test, s =>
    match s.stage with
    | .testing => some { s with stage := if s.keepRunning then .popping else .finished }
    | _ => some s
  | .engine .popIn, s =>
    match s.stage with
    | .popping => (Engine.step connectors .popIn s.engine).map fun engine =>
      { s with engine, stage := if engine.processing.isSome then .dispatching else .testing }
    | _ => some s
  | .engine (.dispatch clock), s =>
    match s.stage, s.engine.processing with
    | .dispatching, some event => (s.engine.dispatch clock event).map fun engine => { s with
        engine
        stage := .testing
        log := s.log ++ [.dispatched s.engine.rules event s.memory engine.dispatcher.memory] }
    | _, _ => some s
  | .engine (.request type item req), s =>
    (Engine.step connectors (.request type item req) s.engine).map fun engine =>
      { s with engine, log := s.log ++ [.requested req] }
  | .engine a, s => (Engine.step connectors a s.engine).map fun engine => { s with engine }

def start (rules : Rules) (history sentHistory : History) (memory : TwinsMemory)
    (queueIn notifyQueue userActionsQueue : EventQueue) : ProcessorLoop Socket where
  engine := Engine.start rules history sentHistory memory queueIn notifyQueue userActionsQueue
  keepRunning := true
  stage := .testing
  log := []

theorem round_alone {connectors : Connectors Socket} {clock : ℕ → UInt64} {garbage : Event} {rc : ℤ}
    {s : ProcessorLoop Socket} {queue : EventQueue} {d : Dispatcher} (hstage : s.stage = .testing)
    (hp : s.engine.processing = none) (hk : s.keepRunning = true)
    (h : eventProcessorProcessNext s.engine.rules clock garbage s.engine.queueIn s.engine.dispatcher =
      some (rc, queue, d)) :
    ∃ s', Runs.run (step connectors) [.test, .engine .popIn, .engine (.dispatch clock)] s = some s' ∧
      s'.stage = .testing ∧ s'.engine.processing = none ∧ s'.keepRunning = true ∧
      s'.engine.queueIn = queue ∧ s'.engine.dispatcher = d := by
  have halone : ∃ engine, Runs.run (Engine.step connectors) [.popIn, .dispatch clock] s.engine = some engine ∧
      engine.processing = none ∧ engine.queueIn = queue ∧ engine.dispatcher = d := Engine.process_alone hp h
  obtain ⟨engine, hrun, hp', hq, hd⟩ := halone
  obtain ⟨popped, hpop, hrun⟩ := Option.bind_eq_some_iff.mp hrun
  obtain ⟨_, hdisp, hrun⟩ := Option.bind_eq_some_iff.mp hrun
  cases hrun
  simp only [Runs.run, step, hstage, hk, if_true, hpop, Option.map_some, Option.bind_some]
  cases he : popped.processing with
  | none =>
    simp only [Engine.step, he] at hdisp
    cases hdisp
    exact ⟨_, rfl, rfl, he, rfl, hq, hd⟩
  | some event =>
    simp only [Engine.step, he] at hdisp
    simp only [Option.isSome_some, if_true, hdisp, Option.map_some, Option.bind_some]
    exact ⟨_, rfl, rfl, hp', rfl, hq, hd⟩

end ProcessorLoop

namespace Engine

variable {Socket : Type} {connectors : Connectors Socket}

theorem send_keeps {s t : Engine Socket} {overflow now : UInt64} {event : Event}
    (h : s.send connectors overflow now event = some t) :
    ∃ sentHistory sent, t = { s with sentHistory, sending := none, sent } := by
  obtain ⟨publisher, -, h⟩ := Option.bind_eq_some_iff.mp h
  obtain ⟨r, -, rfl⟩ := Option.map_eq_some_iff.mp h
  exact ⟨_, _, rfl⟩

theorem step_keeps_safe {a : Act} {s t : Engine Socket} (hs : s.Safe) (h : step connectors a s = some t) :
    t.Safe := by
  by_cases ha : ∃ overflow now, a = .send overflow now
  · obtain ⟨overflow, now, rfl⟩ := ha
    cases hsend : s.sending with
    | none =>
      simp only [step, hsend] at h
      cases h
      exact hs
    | some event =>
      simp only [step, hsend] at h
      obtain ⟨sentHistory, sent, rfl⟩ := send_keeps h
      refine { hs with sending := ?_ }
      rintro _ ⟨⟩
  · obtain ⟨t', ht', hsafe⟩ := step_safe connectors (fun overflow now he => ha ⟨overflow, now, he⟩) hs
    obtain rfl : t = t' := Option.some.inj (h.symm.trans ht')
    exact hsafe

section memory

variable {s t : Engine Socket}

theorem accept_keeps_memory {event : Event} (h : s.accept event = some t) :
    t.dispatcher.memory = s.dispatcher.memory := by
  rw [accept_eq] at h
  cases h
  rfl

theorem receive_keeps_memory {frame : Frame} {startTime : UInt64} {buffer : Pointer}
    (h : s.receive frame startTime buffer = some t) : t.dispatcher.memory = s.dispatcher.memory := by
  obtain ⟨d, -, h⟩ := Option.bind_eq_some_iff.mp h
  cases d with
  | rejected =>
    cases h
    rfl
  | updates p =>
    cases h
    rfl
  | error event =>
    have haccept := accept_keeps_memory h
    exact haccept

theorem push_keeps_memory (h : s.push = some t) : t.dispatcher.memory = s.dispatcher.memory := by
  unfold push at h
  split at h
  · cases h
    rfl
  · split_ifs at h
    · obtain ⟨b, -, h⟩ := Option.bind_eq_some_iff.mp h
      have haccept := accept_keeps_memory h
      exact haccept
    · cases h
      rfl

theorem popIn_keeps_memory (h : s.popIn = some t) : t.dispatcher.memory = s.dispatcher.memory := by
  rw [popIn_eq, Option.some.injEq] at h
  subst h
  split_ifs <;> rfl

theorem popNotify_keeps_memory (h : s.popNotify = some t) : t.dispatcher.memory = s.dispatcher.memory := by
  rw [popNotify_eq, Option.some.injEq] at h
  subst h
  split_ifs <;> rfl

theorem step_keeps_memory {a : Act} (hd : ∀ clock, a ≠ .dispatch clock)
    (hr : ∀ type item req, a ≠ .request type item req) (h : step connectors a s = some t) :
    t.dispatcher.memory = s.dispatcher.memory := by
  have same (h : some s = some t) : t.dispatcher.memory = s.dispatcher.memory := by
    cases h
    rfl
  cases a with
  | rule call =>
    obtain ⟨rules, -, rfl⟩ := Option.map_eq_some_iff.mp h
    rfl
  | receive frame startTime buffer =>
    rw [step] at h
    split at h
    · exact receive_keeps_memory h
    · exact same h
  | push => exact push_keeps_memory h
  | popIn =>
    rw [step] at h
    split at h
    · exact popIn_keeps_memory h
    · exact same h
  | dispatch clock => exact absurd rfl (hd clock)
  | popNotify =>
    rw [step] at h
    split at h
    · exact popNotify_keeps_memory h
    · exact same h
  | send overflow now =>
    rw [step] at h
    split at h
    · exact same h
    · obtain ⟨sentHistory, sent, rfl⟩ := send_keeps h
      rfl
  | request type item req => exact absurd rfl (hr type item req)

end memory

end Engine

end OpenTwins
