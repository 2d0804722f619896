import OpenTwins.EngineEffects
import OpenTwins.PipelineAccounting
import OpenTwins.RingThreads

/-!
The threads of the engine with every push and pop of a shared queue split at its accesses to
the indices and to the slot, and an event stored update by update.
-/

namespace OpenTwins

open RingThreads FixedArray

/-- Where the processor stands: in `pop_event`, in the loop that stores the updates, or in the
push of the batch to notify, with the batch for the user still to be pushed. -/
inductive ProcessorAt
  | popping (c : Consumer Event)
  | storing (i : ℕ)
  | pushing (p : Producer Event queueSize) (userAction : UpdateEvent)

namespace ProcessorAt

def consumer : ProcessorAt → Consumer Event
  | .popping c => c
  | _ => .idle

def producer : ProcessorAt → Producer Event queueSize
  | .pushing p _ => p
  | _ => .idle

end ProcessorAt

structure EngineThreads (Socket : Type) where
  engine : Engine Socket
  receiver : Producer Event queueSize
  processor : ProcessorAt
  sender : Consumer Event

inductive ThreadAct
  | receive (frame : Frame) (startTime : UInt64) (buffer : Pointer)
  | batch
  | fillIn
  | publishIn
  | lookIn
  | copyIn
  | releaseIn
  | store (now : UInt64)
  | route
  | fillNotify
  | publishNotify
  | lookNotify
  | copyNotify
  | releaseNotify
  | send (overflow now : UInt64)
  | request (type : ItemType) (item : ItemAs) (req : Pointer)

def beginPush (q : EventQueue) (event : Event) : Producer Event queueSize :=
  if q.Full then .idle else .filling event ⟨(q.head + 1) % queueSize, q.next_lt⟩

def beginPop (q : EventQueue) : Consumer Event := if q.Empty then .idle else .copying

namespace EngineThreads

variable {Socket : Type}

def receive (frame : Frame) (startTime : UInt64) (buffer : Pointer) (t : EngineThreads Socket) :
    Option (EngineThreads Socket) :=
  (decodeHead frame startTime t.engine.history.logIndex buffer buffer.bytes.length).map fun
    | .rejected => { t with engine := t.engine.hear buffer }
    | .updates p => { t with engine := { t.engine.hear buffer with receiving := some (frame, p) } }
    | .error event => { t with
        engine := t.engine.hear buffer
        receiver := beginPush t.engine.queueIn event }

def batch (frame : Frame) (p : Parsing) (t : EngineThreads Socket) : Option (EngineThreads Socket) :=
  if p.varsProcessed < p.varCount then
    (nextBatch frame p t.engine.history.log).map fun r => { t with
      engine := { t.engine with
        receiving := some (frame, r.2.1)
        history := { t.engine.history with log := r.2.2 } }
      receiver := beginPush t.engine.queueIn r.1 }
  else some { t with engine := { t.engine with receiving := none } }

def storeNext (now : UInt64) (i : ℕ) (event : Event) (t : EngineThreads Socket) :
    Option (EngineThreads Socket) :=
  if event.header.type = eventUpdate then do
    let u ← event.payload.asUpdate
    if i < u.count.toNat then
      let p ← u.updates.read i
      let memory ← twinsMemoryUpdateVar now event.header.twinId p.varId.toUInt8 p.value t.engine.dispatcher.memory
      return { t with
        engine := { t.engine with dispatcher := { t.engine.dispatcher with memory } }
        processor := .storing (i + 1) }
    else return t
  else some t

/-- The processor is done with the event. Nobody takes from the queue of user actions, so that its
push is one step. -/
def finish (event : Event) (room : Bool) (t : EngineThreads Socket) : EngineThreads Socket := { t with
  engine := { t.engine with processing := none, dispatched := t.engine.dispatched ++ [(event, room)] }
  processor := .popping .idle }

def pushUser (header : EventHeader) (userAction : UpdateEvent) (t : EngineThreads Socket) :
    Option (EngineThreads Socket) :=
  (pushBatch header userAction t.engine.dispatcher.userActionsQueue).map fun userActionsQueue => { t with
    engine := { t.engine with dispatcher := { t.engine.dispatcher with userActionsQueue } } }

def pushNotify (header : EventHeader) (b : RuleBatches) (event : Event) (t : EngineThreads Socket) :
    Option (EngineThreads Socket) :=
  if b.notify.count ≠ 0 ∧ ¬ t.engine.dispatcher.notifyQueue.Full then
    some { t with
      processor := .pushing (beginPush t.engine.dispatcher.notifyQueue ⟨header, .update b.notify⟩) b.userAction }
  else (t.pushUser header b.userAction).map (finish event (!decide t.engine.dispatcher.notifyQueue.Full))

def route (i : ℕ) (event : Event) (t : EngineThreads Socket) : Option (EngineThreads Socket) :=
  if event.header.type = eventUpdate then do
    let u ← event.payload.asUpdate
    if i < u.count.toNat then return t
    else
      let b ← forLoop (fun i b => (u.updates.read i).bind fun p => applyRule t.engine.rules event.header.twinId p b)
        u.count.toNat ⟨{ u with count := 0 }, { u with count := 0 }⟩
      t.pushNotify event.header b event
  else (dispatchEvent t.engine.rules (fun _ => 0) event t.engine.dispatcher).map fun _ =>
    t.finish event (!decide t.engine.dispatcher.notifyQueue.Full)

def publishNotify (next : Fin queueSize) (userAction : UpdateEvent) (event : Event) (t : EngineThreads Socket) :
    Option (EngineThreads Socket) :=
  (pushUser event.header userAction { t with engine := { t.engine with dispatcher := { t.engine.dispatcher with
    notifyQueue := publishIndex t.engine.dispatcher.notifyQueue next } } }).map (finish event true)

def step (connectors : Connectors Socket) (a : ThreadAct) (t : EngineThreads Socket) :
    Option (EngineThreads Socket) :=
  match a with
  | .receive frame startTime buffer =>
    match t.receiver, t.engine.receiving with
    | .idle, none => t.receive frame startTime buffer
    | _, _ => some t
  | .batch =>
    match t.receiver, t.engine.receiving with
    | .idle, some (frame, p) => t.batch frame p
    | _, _ => some t
  | .fillIn =>
    match t.receiver with
    | .filling x next => some { t with
        engine := { t.engine with queueIn := t.engine.queueIn.fill x }
        receiver := .publishing x next }
    | _ => some t
  | .publishIn =>
    match t.receiver with
    | .publishing x next => some { t with
        engine := { t.engine with
          queueIn := publishIndex t.engine.queueIn next
          accepted := t.engine.accepted ++ [x] }
        receiver := .idle }
    | _ => some t
  | .lookIn =>
    match t.processor with
    | .popping .idle => some { t with processor := .popping (beginPop t.engine.queueIn) }
    | _ => some t
  | .copyIn =>
    match t.processor with
    | .popping .copying => some { t with processor := .popping (.releasing t.engine.queueIn.front) }
    | _ => some t
  | .releaseIn =>
    match t.processor with
    | .popping (.releasing x) => some { t with
        engine := { t.engine with queueIn := t.engine.queueIn.advanceTail, processing := some x }
        processor := .storing 0 }
    | _ => some t
  | .store now =>
    match t.processor, t.engine.processing with
    | .storing i, some event => t.storeNext now i event
    | _, _ => some t
  | .route =>
    match t.processor, t.engine.processing with
    | .storing i, some event => t.route i event
    | _, _ => some t
  | .fillNotify =>
    match t.processor with
    | .pushing (.filling x next) userAction => some { t with
        engine := { t.engine with dispatcher := { t.engine.dispatcher with
          notifyQueue := t.engine.dispatcher.notifyQueue.fill x } }
        processor := .pushing (.publishing x next) userAction }
    | _ => some t
  | .publishNotify =>
    match t.processor, t.engine.processing with
    | .pushing (.publishing _ next) userAction, some event => t.publishNotify next userAction event
    | _, _ => some t
  | .lookNotify =>
    match t.sender, t.engine.sending with
    | .idle, none => some { t with sender := beginPop t.engine.dispatcher.notifyQueue }
    | _, _ => some t
  | .copyNotify =>
    match t.sender with
    | .copying => some { t with sender := .releasing t.engine.dispatcher.notifyQueue.front }
    | _ => some t
  | .releaseNotify =>
    match t.sender with
    | .releasing x => some { t with
        engine := { t.engine with
          dispatcher := { t.engine.dispatcher with notifyQueue := t.engine.dispatcher.notifyQueue.advanceTail }
          sending := some x }
        sender := .idle }
    | _ => some t
  | .send overflow now =>
    match t.engine.sending with
    | some event => (t.engine.send connectors overflow now event).map fun engine => { t with engine }
    | none => some t
  | .request type item req =>
    (handleRequest type item req req.bytes.length t.engine.dispatcher.memory).map fun r =>
      { t with engine := { t.engine with dispatcher := { t.engine.dispatcher with memory := r.2 } } }

def start (rules : Rules) (history sentHistory : History) (memory : TwinsMemory)
    (queueIn notifyQueue userActionsQueue : EventQueue) : EngineThreads Socket where
  engine := Engine.start rules history sentHistory memory queueIn notifyQueue userActionsQueue
  receiver := .idle
  processor := .popping .idle
  sender := .idle

end EngineThreads

end OpenTwins
