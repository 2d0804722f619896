import OpenTwins.ApiServer
import OpenTwins.EventDispatcher
import OpenTwins.EventSender
import OpenTwins.Runs

/-!
The threads of the engine together. Every push and every pop is one step, and a thread may be
overtaken by the others between any two of its steps.
-/

namespace OpenTwins

def eventProcessorProcessNext (rules : Rules) (clock : ℕ → UInt64) (garbage : Event) (queue : EventQueue)
    (d : Dispatcher) : Option (ℤ × EventQueue × Dispatcher) := do
  let (rc, event, queue) ← popEvent queue garbage
  if rc ≠ -1 then
    let d ← dispatchEvent rules clock event d
    return (0, queue, d)
  else return (0, queue, d)

inductive RuleCall
  | setErrorRule (errorCode : ErrorType) (action : RuleAction)
  | setUpdateRule (twinId : UInt32) (varId : UInt16) (action : RuleAction)

def RuleCall.apply : RuleCall → Rules → Option Rules
  | .setErrorRule errorCode action => OpenTwins.setErrorRule errorCode action
  | .setUpdateRule twinId varId action => OpenTwins.setUpdateRule twinId varId action

/-- `receiving` is the UPDATE message that the receiver has begun, `processing` and `sending`
are the events that the processor and the sender have popped. The last three fields only
record what has happened: which messages were received, which events were accepted into the
queue, and which were dispatched, and whether the notify queue had room then. -/
structure Engine (Socket : Type) where
  rules : Rules
  history : History
  receiving : Option (Frame × Parsing)
  queueIn : EventQueue
  processing : Option Event
  dispatcher : Dispatcher
  sending : Option Event
  sentHistory : History
  sent : List (Sent Socket)
  received : List (List UInt8)
  accepted : List Event
  dispatched : List (Event × Bool)

inductive Act
  | rule (call : RuleCall)
  | receive (frame : Frame) (startTime : UInt64) (buffer : Pointer)
  | push
  | popIn
  | dispatch (clock : ℕ → UInt64)
  | popNotify
  | send (overflow now : UInt64)
  | request (type : ItemType) (item : ItemAs) (req : Pointer)

namespace Engine

variable {Socket : Type}

def accept (event : Event) (s : Engine Socket) : Option (Engine Socket) :=
  (pushEvent s.queueIn event).map fun (r : ℤ × EventQueue) => { s with
    queueIn := r.2
    accepted := if r.1 = 0 then s.accepted ++ [event] else s.accepted }

def receive (frame : Frame) (startTime : UInt64) (buffer : Pointer) (s : Engine Socket) :
    Option (Engine Socket) :=
  let idx := s.history.logIndex
  let s := { s with
    history := { s.history with logIndex := idx + 1 }
    received := s.received ++ [buffer.bytes] }
  (decodeHead frame startTime idx buffer buffer.bytes.length).bind fun
    | .rejected => some s
    | .updates p => some { s with receiving := some (frame, p) }
    | .error event => s.accept event

def push (s : Engine Socket) : Option (Engine Socket) :=
  match s.receiving with
  | none => some s
  | some (frame, p) =>
    if p.varsProcessed < p.varCount then
      (nextBatch frame p s.history.log).bind fun (event, p, log) =>
        accept event { s with receiving := some (frame, p), history := { s.history with log } }
    else some { s with receiving := none }

def popIn (s : Engine Socket) : Option (Engine Socket) :=
  (popEvent s.queueIn zeroedEvent).map fun (rc, event, queueIn) =>
    if rc ≠ -1 then { s with queueIn, processing := some event } else { s with queueIn }

def dispatch (clock : ℕ → UInt64) (event : Event) (s : Engine Socket) : Option (Engine Socket) :=
  (dispatchEvent s.rules clock event s.dispatcher).map fun dispatcher => { s with
    dispatcher
    processing := none
    dispatched := s.dispatched ++ [(event, !decide s.dispatcher.notifyQueue.Full)] }

def popNotify (s : Engine Socket) : Option (Engine Socket) :=
  (popEvent s.dispatcher.notifyQueue zeroedEvent).map fun (rc, event, notifyQueue) =>
    let s := { s with dispatcher := { s.dispatcher with notifyQueue } }
    if rc ≠ -1 then { s with sending := some event } else s

def send (connectors : Connectors Socket) (overflow now : UInt64) (event : Event) (s : Engine Socket) :
    Option (Engine Socket) :=
  (connectors.read event.header.twinId.toNat).join.bind fun publisher =>
    (sendEvent overflow now publisher event s.sentHistory).map fun (message, sentHistory) =>
      { s with sentHistory, sending := none, sent := s.sent ++ [message] }

/-- A step that a thread is not ready for does nothing; `none` is a fault. -/
def step (connectors : Connectors Socket) : Act → Engine Socket → Option (Engine Socket)
  | .rule call, s => (call.apply s.rules).map fun rules => { s with rules }
  | .receive frame startTime buffer, s =>
    match s.receiving with
    | none => s.receive frame startTime buffer
    | some _ => some s
  | .push, s => s.push
  | .popIn, s =>
    match s.processing with
    | none => s.popIn
    | some _ => some s
  | .dispatch clock, s =>
    match s.processing with
    | none => some s
    | some event => s.dispatch clock event
  | .popNotify, s =>
    match s.sending with
    | none => s.popNotify
    | some _ => some s
  | .send overflow now, s =>
    match s.sending with
    | none => some s
    | some event => s.send connectors overflow now event
  | .request type item req, s =>
    (handleRequest type item req req.bytes.length s.dispatcher.memory).map fun r =>
      { s with dispatcher := { s.dispatcher with memory := r.2 } }

def start (rules : Rules) (history sentHistory : History) (memory : TwinsMemory)
    (queueIn notifyQueue userActionsQueue : EventQueue) : Engine Socket where
  rules := rules
  history := history
  receiving := none
  queueIn := initQueue queueIn
  processing := none
  dispatcher := ⟨memory, initQueue notifyQueue, initQueue userActionsQueue⟩
  sending := none
  sentHistory := sentHistory
  sent := []
  received := []
  accepted := []
  dispatched := []

theorem accept_eq (event : Event) (s : Engine Socket) : s.accept event = some { s with
    queueIn := offer s.queueIn event
    accepted := s.accepted ++ if s.queueIn.Full then [] else [event] } := by
  rw [accept, pushEvent_offer]
  split_ifs <;> simp

theorem popIn_eq (s : Engine Socket) : s.popIn = some (if s.queueIn.Empty then s else
    { s with queueIn := s.queueIn.advanceTail, processing := some s.queueIn.front }) := by
  rw [popIn, popEvent_eq]
  split_ifs <;> rfl

theorem popNotify_eq (s : Engine Socket) : s.popNotify = some (if s.dispatcher.notifyQueue.Empty then s else
    { s with
      dispatcher := { s.dispatcher with notifyQueue := s.dispatcher.notifyQueue.advanceTail }
      sending := some s.dispatcher.notifyQueue.front }) := by
  rw [popNotify, popEvent_eq]
  split_ifs <;> rfl

theorem push_eq {s : Engine Socket} {frame : Frame} {p p' : Parsing} {event : Event} {log : HistoryLog}
    (hr : s.receiving = some (frame, p)) (hp : p.varsProcessed < p.varCount)
    (h : nextBatch frame p s.history.log = some (event, p', log)) :
    s.push = some { s with
      receiving := some (frame, p')
      history := { s.history with log }
      queueIn := offer s.queueIn event
      accepted := s.accepted ++ if s.queueIn.Full then [] else [event] } := by
  simp only [push, hr, if_pos hp, h, Option.bind_some, accept_eq]

theorem push_done {s : Engine Socket} {frame : Frame} {p : Parsing} (hr : s.receiving = some (frame, p))
    (hp : ¬ p.varsProcessed < p.varCount) : s.push = some { s with receiving := none } := by
  simp only [push, hr, if_neg hp]

theorem pushes_alone {connectors : Connectors Socket} {rounds : ℕ} {frame : Frame} {p : Parsing}
    {log : HistoryLog} {q : EventQueue} {s : Engine Socket} (hr : s.receiving = some (frame, p))
    (h : pushBatches frame rounds p s.history.log s.queueIn = some (log, q)) :
    ∃ n s', Runs.run (step connectors) (List.replicate n .push) s = some s' ∧
      s'.receiving = none ∧ s'.queueIn = q ∧ s'.history = { s.history with log } := by
  induction rounds generalizing p s with
  | zero =>
    rw [pushBatches] at h
    split_ifs at h with hp
    cases h
    refine ⟨1, { s with receiving := none }, ?_, rfl, rfl, rfl⟩
    rw [List.replicate_one, Runs.run, step, push_done hr hp]
    rfl
  | succ rounds ih =>
    by_cases hp : p.varsProcessed < p.varCount
    · cases hb : nextBatch frame p s.history.log with
      | none => simp [pushBatches, hp, hb] at h
      | some b =>
        obtain ⟨event, p', log'⟩ := b
        rw [pushBatches_succ rounds _ hp hb] at h
        obtain ⟨n, s', hrun, h1, h2, h3⟩ := ih (s := { s with
          receiving := some (frame, p')
          history := { s.history with log := log' }
          queueIn := offer s.queueIn event
          accepted := s.accepted ++ if s.queueIn.Full then [] else [event] }) rfl h
        exact ⟨n + 1, s', by rw [List.replicate_succ, Runs.run, step, push_eq hr hp hb]; exact hrun, h1, h2, h3⟩
    · rw [pushBatches, if_neg hp] at h
      cases h
      refine ⟨1, { s with receiving := none }, ?_, rfl, rfl, rfl⟩
      rw [List.replicate_one, Runs.run, step, push_done hr hp]
      rfl

theorem receive_alone {connectors : Connectors Socket} {frame : Frame} {startTime : UInt64} {buffer : Pointer}
    {s : Engine Socket} {rc : ℤ} {history : History} {q : EventQueue} (hr : s.receiving = none)
    (h : deserializeEvent frame startTime s.history s.queueIn buffer buffer.bytes.length =
      some (rc, history, q)) :
    ∃ n s', Runs.run (step connectors) (.receive frame startTime buffer :: List.replicate n .push) s = some s' ∧
      s'.receiving = none ∧ s'.queueIn = q ∧ s'.history = history := by
  simp only [Runs.run, step, hr, receive]
  cases hd : decodeHead frame startTime s.history.logIndex buffer buffer.bytes.length with
  | none => simp [deserializeEvent, hd] at h
  | some d =>
    simp only [deserializeEvent, hd, Option.bind_eq_bind, Option.bind_some] at h ⊢
    cases d with
    | rejected =>
      cases h
      exact ⟨0, _, rfl, rfl, rfl, rfl⟩
    | updates p =>
      cases hp : pushBatches frame p.varCount p s.history.log s.queueIn with
      | none => simp [hp] at h
      | some r =>
        simp only [hp, Option.bind_some] at h
        cases h
        exact pushes_alone (p := p) rfl hp
    | error event =>
      simp only [pushEvent_offer, Option.bind_some] at h
      cases h
      exact ⟨0, _, by simp only [accept_eq]; rfl, rfl, rfl, rfl⟩

theorem process_alone {connectors : Connectors Socket} {clock : ℕ → UInt64} {garbage : Event} {rc : ℤ}
    {s : Engine Socket} {queue : EventQueue} {d : Dispatcher} (hs : s.processing = none)
    (h : eventProcessorProcessNext s.rules clock garbage s.queueIn s.dispatcher = some (rc, queue, d)) :
    ∃ s', Runs.run (step connectors) [.popIn, .dispatch clock] s = some s' ∧ s'.processing = none ∧
      s'.queueIn = queue ∧ s'.dispatcher = d := by
  simp only [Runs.run, step, hs, popIn_eq, Option.bind_some]
  simp only [eventProcessorProcessNext, popEvent_eq, Option.bind_eq_bind, Option.bind_some] at h
  by_cases he : s.queueIn.Empty
  · simp only [if_pos he, hs] at h ⊢
    cases h
    exact ⟨_, rfl, hs, rfl, rfl⟩
  · simp only [if_neg he] at h ⊢
    rw [if_pos (by decide)] at h
    cases hd : dispatchEvent s.rules clock s.queueIn.front s.dispatcher with
    | none => simp [hd] at h
    | some d' =>
      rw [hd] at h
      cases h
      simp only [dispatch, hd, Option.map_some, Option.bind_some]
      exact ⟨_, rfl, rfl, rfl, rfl⟩

theorem send_alone {connectors : Connectors Socket} {overflow now : UInt64} {garbage : Event}
    {s : Engine Socket} {queue : EventQueue} {sent : List (Sent Socket)} {history : History}
    (hs : s.sending = none)
    (h : sendNext overflow now connectors garbage s.dispatcher.notifyQueue s.sentHistory =
      some (sent, queue, history)) :
    ∃ s', Runs.run (step connectors) [.popNotify, .send overflow now] s = some s' ∧ s'.sending = none ∧
      s'.dispatcher.notifyQueue = queue ∧ s'.sent = s.sent ++ sent ∧ s'.sentHistory = history := by
  simp only [Runs.run, step, hs, popNotify_eq, Option.bind_some]
  simp only [sendNext, popEvent_eq, Option.bind_eq_bind, Option.bind_some] at h
  by_cases he : s.dispatcher.notifyQueue.Empty
  · simp only [if_pos he, hs] at h ⊢
    cases h
    exact ⟨_, rfl, hs, rfl, by simp, rfl⟩
  · simp only [if_neg he] at h ⊢
    rw [if_pos (by decide)] at h
    cases hp : (connectors.read s.dispatcher.notifyQueue.front.header.twinId.toNat).join with
    | none => simp [hp] at h
    | some publisher =>
      cases hm : sendEvent overflow now publisher s.dispatcher.notifyQueue.front s.sentHistory with
      | none => simp [hp, hm] at h
      | some m =>
        simp only [hp, hm, Option.bind_some] at h
        cases h
        simp only [send, hp, hm, Option.map_some, Option.bind_some]
        exact ⟨_, rfl, rfl, rfl, rfl, rfl⟩

end Engine

end OpenTwins
