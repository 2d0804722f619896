import OpenTwins.ProcessorLoop
import OpenTwins.ThreadSteps

/-!
The split steps of the threads against the engine in which a push or a pop is one step. A push
takes effect when the new index is published or the queue is found full, a pop when the slot is
released. The store is left out, since a reader may find an event half stored.
-/

namespace OpenTwins.EngineThreads

open RingThreads FixedArray

variable {Socket : Type}

def filled (p : Producer Event queueSize) (q : EventQueue) : EventQueue :=
  match p with
  | .publishing x _ => q.fill x
  | _ => q

def StandsFor (acts : List ThreadAct) : Act → Prop
  | .receive frame startTime buffer => .receive frame startTime buffer ∈ acts
  | .rule _ | .request .. => False
  | _ => True

/-- The fields of `s` that belong to the receiver alone are taken from `t`. -/
def hearing (t s : Engine Socket) : Engine Socket :=
  { s with receiving := t.receiving, history := t.history, received := t.received }

structure SameHearing (t s : Engine Socket) : Prop where
  receiving : s.receiving = t.receiving
  history : s.history = t.history
  received : s.received = t.received

def Due (connectors : Connectors Socket) (acts : List ThreadAct) (t s : Engine Socket) (x : Event) : Prop :=
  ∃ a, StandsFor acts a ∧ ∀ s' : Engine Socket, SameHearing s s' →
    Engine.step connectors a s' = Engine.accept x (hearing t s')

def ReceiverAt (connectors : Connectors Socket) (acts : List ThreadAct) (t s : Engine Socket) :
    Producer Event queueSize → Prop
  | .idle => SameHearing t s
  | .filling x _ | .publishing x _ => Due connectors acts t s x

structure Pushing (rules : Rules) (e x : Event) (userAction : UpdateEvent) : Prop where
  type : e.header.type = eventUpdate
  batches : ∃ u b, e.payload = .update u ∧ batchesOfUpdate rules e.header u = some b ∧
    b.notify.count ≠ 0 ∧ x = ⟨e.header, .update b.notify⟩ ∧ userAction = b.userAction

def ProcessingAt (s : Engine Socket) : ProcessorAt → Prop
  | .popping _ => s.processing = none
  | .storing _ => True
  | .pushing .idle _ => False
  | .pushing (.filling x _) userAction | .pushing (.publishing x _) userAction =>
    ∃ e, s.processing = some e ∧ Pushing s.rules e x userAction

structure SameOutside (t s : Engine Socket) : Prop where
  rules : s.rules = t.rules
  processing : s.processing = t.processing
  userActions : s.dispatcher.userActionsQueue = t.dispatcher.userActionsQueue
  sending : s.sending = t.sending
  sentHistory : s.sentHistory = t.sentHistory
  sent : s.sent = t.sent
  accepted : s.accepted = t.accepted
  dispatched : s.dispatched = t.dispatched

structure Refines (connectors : Connectors Socket) (acts : List ThreadAct) (t : EngineThreads Socket)
    (s : Engine Socket) : Prop where
  outside : SameOutside t.engine s
  receiver : ReceiverAt connectors acts t.engine s t.receiver
  received : s.received <+: t.engine.received
  queueIn : t.engine.queueIn = filled t.receiver s.queueIn
  pushIn : ProducerOk t.engine.queueIn t.receiver
  popIn : ConsumerOk t.engine.queueIn t.processor.consumer
  processor : ProcessingAt s t.processor
  notify : t.engine.dispatcher.notifyQueue = filled t.processor.producer s.dispatcher.notifyQueue
  pushNotify : ProducerOk t.engine.dispatcher.notifyQueue t.processor.producer
  popNotify : ConsumerOk t.engine.dispatcher.notifyQueue t.sender
  sender : t.sender ≠ .idle → s.sending = none

def Matched (connectors : Connectors Socket) (acts : List ThreadAct) (t : EngineThreads Socket)
    (s : Engine Socket) : Prop :=
  ∃ as s', Runs.run (Engine.step connectors) as s = some s' ∧ (∀ a ∈ as, StandsFor acts a) ∧
    Refines connectors acts t s'

theorem filled_full (p : Producer Event queueSize) (q : EventQueue) : (filled p q).Full ↔ q.Full := by
  cases p <;> rfl

theorem filled_empty (p : Producer Event queueSize) (q : EventQueue) : (filled p q).Empty ↔ q.Empty := by
  cases p <;> rfl

theorem filled_contents (p : Producer Event queueSize) (q : EventQueue) : (filled p q).contents = q.contents := by
  cases p with
  | publishing x next => exact q.contents_fill x
  | _ => rfl

theorem filled_front (p : Producer Event queueSize) {q : EventQueue} (h : ¬ q.Empty) :
    (filled p q).front = q.front := by
  cases p with
  | publishing x next => exact front_fill h x
  | _ => rfl

theorem filled_advanceTail (p : Producer Event queueSize) (q : EventQueue) :
    (filled p q).advanceTail = filled p q.advanceTail := by
  cases p <;> rfl

theorem consumerOk_beginPop (q : EventQueue) : ConsumerOk q (beginPop q) := by
  unfold beginPop
  split_ifs with h
  · trivial
  · exact h

section matched

variable {connectors : Connectors Socket} {acts : List ThreadAct} {t t' : EngineThreads Socket} {s s' : Engine Socket}

theorem Matched.stutter (h : Refines connectors acts t s) : Matched connectors acts t s :=
  ⟨[], s, rfl, by simp, h⟩

theorem Matched.one {a : Act} (ha : StandsFor acts a) (hs : Engine.step connectors a s = some s')
    (h : Refines connectors acts t s') : Matched connectors acts t s := by
  refine ⟨[a], s', ?_, ?_, h⟩
  · rw [Runs.run, hs]
    rfl
  · intro b hb
    rwa [List.mem_singleton.mp hb]

theorem accept_full {x : Event} (h : s.queueIn.Full) : s.accept x = some s := by
  rw [Engine.accept, pushEvent_eq, if_pos h]
  rfl

theorem accept_free {x : Event} (h : ¬ s.queueIn.Full) :
    s.accept x = some { s with queueIn := s.queueIn.push x, accepted := s.accepted ++ [x] } := by
  rw [Engine.accept, pushEvent_eq, if_neg h]
  rfl

theorem Refines.beginPush_matched {x : Event} {engine : Engine Socket} (h : Refines connectors acts t s)
    (hr : t.receiver = .idle) (hdue : Due connectors acts engine s x) (hout : SameOutside engine s)
    (hq : engine.queueIn = t.engine.queueIn) (hd : engine.dispatcher = t.engine.dispatcher)
    (hrec : s.received <+: engine.received) :
    Matched connectors acts { t with engine, receiver := beginPush t.engine.queueIn x } s := by
  rw [← hq]
  have hpop : ConsumerOk engine.queueIn t.processor.consumer := hq ▸ h.popIn
  have hin : engine.queueIn = s.queueIn := by
    rw [hq, h.queueIn, hr]
    rfl
  have hn := h.notify
  have hpn := h.pushNotify
  have hcn := h.popNotify
  rw [← hd] at hn hpn hcn
  by_cases hfull : engine.queueIn.Full
  · have hb : beginPush engine.queueIn x = .idle := if_pos hfull
    rw [hb]
    obtain ⟨a, ha, hstep⟩ := hdue
    have hs := hstep s ⟨rfl, rfl, rfl⟩
    rw [accept_full (show (hearing engine s).queueIn.Full from hin ▸ hfull)] at hs
    apply Matched.one ha hs
    exact {
      outside := { hout with }
      receiver := ⟨rfl, rfl, rfl⟩
      received := List.prefix_refl _
      queueIn := hin
      pushIn := trivial
      popIn := hpop
      processor := h.processor
      notify := hn
      pushNotify := hpn
      popNotify := hcn
      sender := h.sender }
  · have hb : beginPush engine.queueIn x = .filling x ⟨(engine.queueIn.head + 1) % queueSize,
      Nat.mod_lt _ (by decide)⟩ := if_neg hfull
    rw [hb]
    apply Matched.stutter
    exact {
      outside := hout
      receiver := hdue
      received := hrec
      queueIn := hin
      pushIn := ⟨hfull, rfl⟩
      popIn := hpop
      processor := h.processor
      notify := hn
      pushNotify := hpn
      popNotify := hcn
      sender := h.sender }

theorem heard_hearing (buffer : Pointer) (h : SameHearing t.engine s) :
    s.hear buffer = hearing (t.engine.hear buffer) s := by
  simp only [Engine.hear, hearing, ← h.receiving, ← h.history, ← h.received]

def heardTo (frame : Frame) (buffer : Pointer) (d : Decoded) (s : Engine Socket) : Option (Engine Socket) :=
  match d with
  | .rejected => some (s.hear buffer)
  | .updates p => some { s.hear buffer with receiving := some (frame, p) }
  | .error event => Engine.accept event (s.hear buffer)

theorem receive_eq {frame : Frame} {startTime : UInt64} {buffer : Pointer} {d : Decoded}
    (hd : decodeHead frame startTime s.history.logIndex buffer buffer.bytes.length = some d) :
    s.receive frame startTime buffer = heardTo frame buffer d s := by
  rw [Engine.receive]
  simp only [hd, Option.bind_some]
  cases d <;> rfl

theorem receive_matched {frame : Frame} {startTime : UInt64} {buffer : Pointer}
    (ha : .receive frame startTime buffer ∈ acts) (h : Refines connectors acts t s) (hr : t.receiver = .idle)
    (hn : t.engine.receiving = none) (hs : t.receive frame startTime buffer = some t') :
    Matched connectors acts t' s := by
  obtain ⟨d, hd, rfl⟩ := Option.map_eq_some_iff.mp hs
  have hsame := h.receiver
  rw [hr] at hsame
  have hstep {s' : Engine Socket} (hs' : SameHearing t.engine s') :
      Engine.step connectors (.receive frame startTime buffer) s' = heardTo frame buffer d s' := by
    rw [← hs'.history] at hd
    simp only [Engine.step, hs'.receiving, hn]
    exact receive_eq hd
  have hstand : StandsFor acts (.receive frame startTime buffer) := ha
  cases d with
  | rejected =>
    apply Matched.one hstand (hstep hsame)
    exact { h with
      outside := { h.outside with }
      receiver := by
        rw [hr]
        exact ⟨hsame.receiving, by rw [heard_hearing buffer hsame]; rfl, by rw [heard_hearing buffer hsame]; rfl⟩
      received := by
        rw [heard_hearing buffer hsame]
        exact List.prefix_refl _ }
  | updates p =>
    apply Matched.one hstand (hstep hsame)
    exact { h with
      outside := { h.outside with }
      receiver := by
        rw [hr]
        exact ⟨rfl, by rw [heard_hearing buffer hsame]; rfl, by rw [heard_hearing buffer hsame]; rfl⟩
      received := by
        rw [heard_hearing buffer hsame]
        exact List.prefix_refl _ }
  | error event =>
    refine h.beginPush_matched hr ⟨_, hstand, ?_⟩ { h.outside with } rfl rfl ?_
    · intro s' hs'
      have hs'' : SameHearing t.engine s' :=
        ⟨hs'.receiving.trans hsame.receiving, hs'.history.trans hsame.history, hs'.received.trans hsame.received⟩
      rw [hstep hs'', heardTo, heard_hearing buffer hs'']
    · rw [hsame.received]
      exact List.prefix_append _ _

theorem batch_matched {frame : Frame} {p : Parsing} (h : Refines connectors acts t s) (hr : t.receiver = .idle)
    (hn : t.engine.receiving = some (frame, p)) (hs : t.batch frame p = some t') : Matched connectors acts t' s := by
  have hsame := h.receiver
  rw [hr] at hsame
  unfold batch at hs
  split_ifs at hs with hp
  · obtain ⟨r, hb, rfl⟩ := Option.map_eq_some_iff.mp hs
    refine h.beginPush_matched hr ⟨.push, trivial, ?_⟩ { h.outside with } rfl rfl h.received
    intro s' hs'
    have hrec := hs'.receiving.trans (hsame.receiving.trans hn)
    have hhist := hs'.history.trans hsame.history
    have hgot := hs'.received.trans hsame.received
    simp only [Engine.step, Engine.push, hrec, if_pos hp, hhist, hb, Option.bind_some, hearing, ← hgot]
  · cases hs
    have hrec := hsame.receiving.trans hn
    apply Matched.one (a := .push) trivial (Engine.push_done hrec hp)
    exact { h with
      outside := { h.outside with }
      receiver := by
        rw [hr]
        exact ⟨rfl, hsame.history, hsame.received⟩
      received := h.received }

theorem fillIn_matched {x : Event} {next : Fin queueSize} (h : Refines connectors acts t s)
    (hr : t.receiver = .filling x next) : Matched connectors acts { t with
      engine := { t.engine with queueIn := t.engine.queueIn.fill x }
      receiver := .publishing x next } s := by
  have hpush := h.pushIn
  have hq := h.queueIn
  have hdue := h.receiver
  rw [hr] at hpush hq hdue
  apply Matched.stutter
  exact { h with
    outside := { h.outside with }
    receiver := hdue
    received := h.received
    queueIn := congrArg (RingBuffer.fill · x) hq
    pushIn := ⟨hpush.1, hpush.2, by simp [RingBuffer.fill]⟩
    popIn := consumerOk_fill h.popIn x }

theorem publishIn_matched {x : Event} {next : Fin queueSize} (h : Refines connectors acts t s)
    (hr : t.receiver = .publishing x next) : Matched connectors acts { t with
      engine := { t.engine with
        queueIn := publishIndex t.engine.queueIn next
        accepted := t.engine.accepted ++ [x] }
      receiver := .idle } s := by
  have hpush := h.pushIn
  have hq := h.queueIn
  have hdue := h.receiver
  rw [hr] at hpush hq hdue
  obtain ⟨a, ha, hstep⟩ := hdue
  obtain ⟨hfull, hnext, -⟩ := hpush
  have hfree : ¬ (hearing t.engine s).queueIn.Full := by
    rwa [hq, filled_full] at hfull
  have hs := (hstep s ⟨rfl, rfl, rfl⟩).trans (accept_free hfree)
  apply Matched.one ha hs
  have hpublished : publishIndex t.engine.queueIn next = t.engine.queueIn.advanceHead := publishIndex_eq hnext
  exact { h with
    outside := { h.outside with accepted := congrArg (· ++ [x]) h.outside.accepted }
    receiver := ⟨rfl, rfl, rfl⟩
    received := List.prefix_refl _
    queueIn := by
      rw [hpublished, hq]
      rfl
    pushIn := trivial
    popIn := by
      rw [hpublished]
      exact consumerOk_advanceHead hfull h.popIn }

theorem ReceiverAt.congr {e e' : Engine Socket} {p : Producer Event queueSize}
    (h : ReceiverAt connectors acts e s p) (he : SameHearing e e') (hs : SameHearing s s') :
    ReceiverAt connectors acts e' s' p := by
  cases p with
  | idle =>
    exact ⟨hs.receiving.trans (h.receiving.trans he.receiving.symm),
      hs.history.trans (h.history.trans he.history.symm), hs.received.trans (h.received.trans he.received.symm)⟩
  | filling x next | publishing x next =>
    obtain ⟨a, ha, hstep⟩ := h
    refine ⟨a, ha, ?_⟩
    intro s'' hs''
    rw [hstep s'' ⟨hs''.receiving.trans hs.receiving, hs''.history.trans hs.history,
      hs''.received.trans hs.received⟩, hearing, hearing, he.receiving, he.history, he.received]

theorem lookIn_matched (h : Refines connectors acts t s) (hp : t.processor = .popping .idle) :
    Matched connectors acts { t with processor := .popping (beginPop t.engine.queueIn) } s := by
  have hproc := h.processor
  have hn := h.notify
  rw [hp] at hproc hn
  apply Matched.stutter
  exact { h with
    popIn := consumerOk_beginPop _
    processor := hproc
    notify := hn
    pushNotify := trivial }

theorem copyIn_matched (h : Refines connectors acts t s) (hp : t.processor = .popping .copying) :
    Matched connectors acts { t with processor := .popping (.releasing t.engine.queueIn.front) } s := by
  have hproc := h.processor
  have hn := h.notify
  have hpop := h.popIn
  rw [hp] at hproc hn hpop
  apply Matched.stutter
  exact { h with
    popIn := ⟨hpop, rfl⟩
    processor := hproc
    notify := hn
    pushNotify := trivial }

theorem releaseIn_matched {x : Event} (h : Refines connectors acts t s) (hp : t.processor = .popping (.releasing x)) :
    Matched connectors acts { t with
      engine := { t.engine with queueIn := t.engine.queueIn.advanceTail, processing := some x }
      processor := .storing 0 } s := by
  have hproc : s.processing = none := by
    have hproc := h.processor
    rwa [hp] at hproc
  have hn := h.notify
  have hpop := h.popIn
  rw [hp] at hn hpop
  obtain ⟨hne, rfl⟩ := hpop
  have he : ¬ s.queueIn.Empty := by
    rwa [h.queueIn, filled_empty] at hne
  have hstep : Engine.step connectors .popIn s = some { s with
      queueIn := s.queueIn.advanceTail, processing := some s.queueIn.front } := by
    simp only [Engine.step, hproc]
    rw [Engine.popIn_eq, if_neg he]
  apply Matched.one (a := .popIn) trivial hstep
  have hfront : s.queueIn.front = t.engine.queueIn.front := by
    rw [h.queueIn, filled_front _ he]
  exact { h with
    outside := { h.outside with processing := congrArg some hfront }
    receiver := h.receiver.congr ⟨rfl, rfl, rfl⟩ ⟨rfl, rfl, rfl⟩
    queueIn := by
      change t.engine.queueIn.advanceTail = _
      rw [h.queueIn, filled_advanceTail]
    pushIn := producerOk_advanceTail hne h.pushIn
    popIn := trivial
    processor := trivial
    notify := hn
    pushNotify := trivial }

theorem storeNext_matched {now : UInt64} {i : ℕ} {e : Event} (h : Refines connectors acts t s)
    (hp : t.processor = .storing i) (hs : Stores now i e t t') : Matched connectors acts t' s := by
  have hn := h.notify
  have hpop := h.popIn
  rw [hp] at hn hpop
  cases hs with
  | waits => exact .stutter h
  | stores =>
    apply Matched.stutter
    exact { h with
      outside := { h.outside with }
      receiver := h.receiver.congr ⟨rfl, rfl, rfl⟩ ⟨rfl, rfl, rfl⟩
      popIn := hpop
      processor := trivial
      notify := hn
      pushNotify := trivial }

theorem dispatch_batches {rules : Rules} {e : Event} {u : UpdateEvent} {b : RuleBatches}
    (ht : e.header.type = eventUpdate) (hu : e.payload = .update u) (hle : u.count.toNat ≤ maxVarsPerEvent)
    (hb : batchesOfUpdate rules e.header u = some b) (clock : ℕ → UInt64) {d : Dispatcher} {q q' : EventQueue}
    (hq : pushBatch e.header b.notify d.notifyQueue = some q)
    (hq' : pushBatch e.header b.userAction d.userActionsQueue = some q') :
    ∃ memory, dispatchEvent rules clock e d = some ⟨memory, q, q'⟩ := by
  obtain ⟨header, payload⟩ := e
  subst hu
  obtain ⟨memory, hm, -⟩ := storeUpdates_stored clock header.twinId hle d.memory
  refine ⟨memory, ?_⟩
  rw [dispatchEvent_update rules clock ht]
  simp only [handleEventUpdate, Payload.asUpdate, Option.bind_eq_bind, Option.bind_some, hm]
  rw [batchesOfUpdate] at hb
  simp only [hb, hq, hq', Option.bind_some]
  rfl

theorem pushBatch_idle {header : EventHeader} {u : UpdateEvent} {q : EventQueue} (h : ¬ (u.count ≠ 0 ∧ ¬ q.Full)) :
    pushBatch header u q = some q := by
  unfold pushBatch
  split_ifs with hc
  · rw [pushEvent_eq, if_pos (by_contra fun hf => h ⟨hc, hf⟩)]
    rfl
  · rfl

theorem pushBatch_free {header : EventHeader} {u : UpdateEvent} {q : EventQueue} (hc : u.count ≠ 0) (hf : ¬ q.Full) :
    pushBatch header u q = some (q.push ⟨header, .update u⟩) := by
  rw [pushBatch, if_pos hc, pushEvent_eq, if_neg hf]
  rfl

theorem WellFormed.count_le {e : Event} (h : WellFormed e) {u : UpdateEvent} (hu : e.payload = .update u) :
    u.count.toNat ≤ maxVarsPerEvent := by
  cases h with
  | update ht hpos hle =>
    cases hu
    exact hle
  | error ht => cases hu

theorem finish_matched {e : Event} {memory : TwinsMemory} {q q' : EventQueue} {engine : Engine Socket}
    (h : Refines connectors acts t s) (he : t.engine.processing = some e)
    (hd : dispatchEvent s.rules (fun _ => 0) e s.dispatcher = some ⟨memory, q, q'⟩)
    (hengine : engine = { t.engine with dispatcher := ⟨t.engine.dispatcher.memory, q, q'⟩ })
    (hsender : ConsumerOk q t.sender) {room : Bool}
    (hroom : room = !decide s.dispatcher.notifyQueue.Full) :
    Matched connectors acts (finish e room { t with engine }) s := by
  subst hengine hroom
  have hp : s.processing = some e := h.outside.processing.trans he
  have hstep : Engine.step connectors (.dispatch fun _ => 0) s = some { s with
      dispatcher := ⟨memory, q, q'⟩
      processing := none
      dispatched := s.dispatched ++ [(e, !decide s.dispatcher.notifyQueue.Full)] } := by
    simp only [Engine.step, hp, Engine.dispatch, hd, Option.map_some]
  apply Matched.one (a := .dispatch fun _ => 0) trivial hstep
  exact { h with
    outside := { h.outside with
      processing := rfl
      userActions := rfl
      dispatched := congrArg (· ++ [(e, !decide s.dispatcher.notifyQueue.Full)]) h.outside.dispatched }
    receiver := h.receiver.congr ⟨rfl, rfl, rfl⟩ ⟨rfl, rfl, rfl⟩
    popIn := trivial
    processor := rfl
    notify := rfl
    pushNotify := trivial
    popNotify := hsender }

theorem route_matched {i : ℕ} {e : Event} (h : Refines connectors acts t s) (hsafe : s.Safe)
    (hp : t.processor = .storing i) (he : t.engine.processing = some e) (hs : Routes i e t t') :
    Matched connectors acts t' s := by
  have hproc : s.processing = some e := h.outside.processing.trans he
  have hwe := hsafe.processing e hproc
  have hn : t.engine.dispatcher.notifyQueue = s.dispatcher.notifyQueue := by
    rw [h.notify, hp]
    rfl
  have hrules := h.outside.rules
  cases hs with
  | waits => exact .stutter h
  | pushes hb hcount hfree =>
    apply Matched.stutter
    exact { h with
      popIn := trivial
      processor := ⟨e, hproc, hb.type, _, _, hb.payload, hrules ▸ hb.batches, hcount, rfl, rfl⟩
      notify := hn
      pushNotify := ⟨hfree, rfl⟩ }
  | finishes hb hidle huser =>
    rw [← h.outside.userActions] at huser
    obtain ⟨memory, hd⟩ := dispatch_batches hb.type hb.payload (WellFormed.count_le hwe hb.payload)
      (hrules ▸ hb.batches) (fun _ => 0) (pushBatch_idle (hn ▸ hidle)) huser
    refine finish_matched h he hd ?_ (hn ▸ h.popNotify) (by rw [hn])
    rw [← hn]
  | passes ht =>
    cases hwe with
    | update ht' => exact absurd ht' ht
    | @error header ev ht' =>
      refine finish_matched h he (dispatchEvent_error s.rules (fun _ => 0) ht' ev s.dispatcher) ?_
        (hn ▸ h.popNotify) (by rw [hn])
      rw [← hn, h.outside.userActions]

theorem fillNotify_matched {x : Event} {next : Fin queueSize} {userAction : UpdateEvent}
    (h : Refines connectors acts t s) (hp : t.processor = .pushing (.filling x next) userAction) :
    Matched connectors acts { t with
      engine := { t.engine with dispatcher := { t.engine.dispatcher with
        notifyQueue := t.engine.dispatcher.notifyQueue.fill x } }
      processor := .pushing (.publishing x next) userAction } s := by
  have hproc := h.processor
  have hn := h.notify
  have hpush := h.pushNotify
  rw [hp] at hproc hn hpush
  apply Matched.stutter
  exact { h with
    outside := { h.outside with }
    receiver := h.receiver.congr ⟨rfl, rfl, rfl⟩ ⟨rfl, rfl, rfl⟩
    popIn := trivial
    processor := hproc
    notify := congrArg (RingBuffer.fill · x) hn
    pushNotify := ⟨hpush.1, hpush.2, by simp [RingBuffer.fill]⟩
    popNotify := consumerOk_fill h.popNotify x }

theorem publishNotify_matched {x e : Event} {next : Fin queueSize} {userAction : UpdateEvent}
    (h : Refines connectors acts t s) (hsafe : s.Safe)
    (hp : t.processor = .pushing (.publishing x next) userAction) (he : t.engine.processing = some e)
    {q : EventQueue} (hq : pushBatch e.header userAction t.engine.dispatcher.userActionsQueue = some q) :
    Matched connectors acts
      (((t.setNotify (publishIndex t.engine.dispatcher.notifyQueue next)).setUserActions q).finish e true) s := by
  have hproc := h.processor
  have hn := h.notify
  have hpush := h.pushNotify
  rw [hp] at hproc hn hpush
  have hsome : s.processing = some e := h.outside.processing.trans he
  obtain ⟨e', he', ht, u, b, hpayload, hbatches, hcount, rfl, rfl⟩ := hproc
  obtain rfl : e = e' := Option.some.inj (hsome.symm.trans he')
  obtain ⟨hfull, hnext, -⟩ := hpush
  have hfree : ¬ s.dispatcher.notifyQueue.Full := by
    rwa [hn, filled_full] at hfull
  have huser : pushBatch e.header b.userAction s.dispatcher.userActionsQueue = some q := by
    rw [h.outside.userActions]
    exact hq
  have hpublished : publishIndex t.engine.dispatcher.notifyQueue next =
      s.dispatcher.notifyQueue.push ⟨e.header, .update b.notify⟩ := by
    rw [publishIndex_eq hnext, hn]
    rfl
  obtain ⟨memory, hd⟩ := dispatch_batches ht hpayload (WellFormed.count_le (hsafe.processing e hsome) hpayload)
    hbatches (fun _ => 0) (pushBatch_free hcount hfree) huser
  refine finish_matched h he hd (by rw [← hpublished]; rfl) ?_ (by simp [hfree])
  rw [← hpublished, publishIndex_eq hnext]
  exact consumerOk_advanceHead hfull h.popNotify

theorem lookNotify_matched (h : Refines connectors acts t s) (hs : t.engine.sending = none) :
    Matched connectors acts { t with sender := beginPop t.engine.dispatcher.notifyQueue } s := by
  apply Matched.stutter
  exact { h with
    popNotify := consumerOk_beginPop _
    sender := fun _ => h.outside.sending.trans hs }

theorem copyNotify_matched (h : Refines connectors acts t s) (hs : t.sender = .copying) :
    Matched connectors acts { t with sender := .releasing t.engine.dispatcher.notifyQueue.front } s := by
  have hpop := h.popNotify
  rw [hs] at hpop
  apply Matched.stutter
  exact { h with
    popNotify := ⟨hpop, rfl⟩
    sender := fun _ => h.sender (by simp [hs]) }

theorem releaseNotify_matched {x : Event} (h : Refines connectors acts t s) (hs : t.sender = .releasing x) :
    Matched connectors acts { t with
      engine := { t.engine with
        dispatcher := { t.engine.dispatcher with notifyQueue := t.engine.dispatcher.notifyQueue.advanceTail }
        sending := some x }
      sender := .idle } s := by
  have hnone : s.sending = none := h.sender (by simp [hs])
  have hpop := h.popNotify
  rw [hs] at hpop
  obtain ⟨hne, rfl⟩ := hpop
  have he : ¬ s.dispatcher.notifyQueue.Empty := by
    rwa [h.notify, filled_empty] at hne
  have hstep : Engine.step connectors .popNotify s = some { s with
      dispatcher := { s.dispatcher with notifyQueue := s.dispatcher.notifyQueue.advanceTail }
      sending := some s.dispatcher.notifyQueue.front } := by
    simp only [Engine.step, hnone]
    rw [Engine.popNotify_eq, if_neg he]
  apply Matched.one (a := .popNotify) trivial hstep
  have hfront : s.dispatcher.notifyQueue.front = t.engine.dispatcher.notifyQueue.front := by
    rw [h.notify, filled_front _ he]
  have hproc : ProcessingAt s t.processor := h.processor
  exact { h with
    outside := { h.outside with sending := congrArg some hfront }
    receiver := h.receiver.congr ⟨rfl, rfl, rfl⟩ ⟨rfl, rfl, rfl⟩
    processor := hproc
    notify := by
      change t.engine.dispatcher.notifyQueue.advanceTail = _
      rw [h.notify, filled_advanceTail]
    pushNotify := producerOk_advanceTail hne h.pushNotify
    popNotify := trivial
    sender := fun hi => absurd rfl hi }

theorem send_matched {overflow now : UInt64} {e : Event} {engine : Engine Socket} (h : Refines connectors acts t s)
    (he : t.engine.sending = some e) (hs : t.engine.send connectors overflow now e = some engine) :
    Matched connectors acts { t with engine } s := by
  have hsome : s.sending = some e := h.outside.sending.trans he
  obtain ⟨publisher, hp, hs⟩ := Option.bind_eq_some_iff.mp hs
  obtain ⟨r, hr, rfl⟩ := Option.map_eq_some_iff.mp hs
  have hstep : Engine.step connectors (.send overflow now) s = some { s with
      sentHistory := r.2, sending := none, sent := s.sent ++ [r.1] } := by
    rw [← h.outside.sentHistory] at hr
    simp only [Engine.step, hsome, Engine.send, hp, Option.bind_some, hr, Option.map_some]
  apply Matched.one (a := .send overflow now) trivial hstep
  have hidle : t.sender = .idle := by
    by_contra hi
    rw [h.sender hi] at hsome
    cases hsome
  have hproc : ProcessingAt s t.processor := h.processor
  exact { h with
    outside := { h.outside with
      sending := rfl
      sentHistory := rfl
      sent := congrArg (· ++ [r.1]) h.outside.sent }
    receiver := h.receiver.congr ⟨rfl, rfl, rfl⟩ ⟨rfl, rfl, rfl⟩
    processor := hproc
    sender := fun hi => absurd hidle hi }

theorem request_matched (memory : TwinsMemory) (h : Refines connectors acts t s) : Matched connectors acts { t with
    engine := { t.engine with dispatcher := { t.engine.dispatcher with memory } } } s := by
  apply Matched.stutter
  exact { h with
    outside := { h.outside with }
    receiver := h.receiver.congr ⟨rfl, rfl, rfl⟩ ⟨rfl, rfl, rfl⟩ }

theorem step_matched {a : ThreadAct} (ha : a ∈ acts) (h : Refines connectors acts t s) (hsafe : s.Safe)
    (hs : step connectors a t = some t') : Matched connectors acts t' s := by
  cases step_steps hs with
  | waits => exact .stutter h
  | receive hr hn hdone => exact receive_matched ha h hr hn hdone
  | batch hr hn hdone => exact batch_matched h hr hn hdone
  | fillIn hr => exact fillIn_matched h hr
  | publishIn hr => exact publishIn_matched h hr
  | lookIn hp => exact lookIn_matched h hp
  | copyIn hp => exact copyIn_matched h hp
  | releaseIn hp => exact releaseIn_matched h hp
  | store hp he hstores => exact storeNext_matched h hp hstores
  | route hp he hroutes => exact route_matched h hsafe hp he hroutes
  | fillNotify hp => exact fillNotify_matched h hp
  | publishNotify hp he hq => exact publishNotify_matched h hsafe hp he hq
  | lookNotify hi hn => exact lookNotify_matched h hn
  | copyNotify hi => exact copyNotify_matched h hi
  | releaseNotify hi => exact releaseNotify_matched h hi
  | send he hsent => exact send_matched h he hsent
  | @request type item req r hr => exact request_matched r.2 h

end matched

end OpenTwins.EngineThreads
