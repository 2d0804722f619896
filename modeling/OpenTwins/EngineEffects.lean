import OpenTwins.Pipeline

namespace OpenTwins

variable {Socket : Type} {connectors : Connectors Socket}

theorem routed_connected (h : ∀ i < maxTwins, ∃ publisher, connectors.read i = some (some publisher))
    {rules : Rules} {t : UInt32} {v : UInt16} (hv : rules.action t v = .notifyUpwards) :
    ∃ publisher, connectors.read t.toNat = some (some publisher) := by
  have hrule : rules.action t v ≠ .ignore := by
    rw [hv]
    decide
  exact h _ (Rules.action_bounds hrule).1

theorem unit_connected : ∀ i < maxTwins, ∃ publisher : Unit,
    FixedArray.read (fun _ : Fin maxTwins => some ()) i = some (some publisher) :=
  fun _ hi => ⟨(), FixedArray.read_of_lt _ hi⟩

namespace Engine

variable {s t : Engine Socket}

def hear (buffer : Pointer) (s : Engine Socket) : Engine Socket := { s with
  history := { s.history with logIndex := s.history.logIndex + 1 }
  received := s.received ++ [buffer.bytes] }

def offered (event : Event) (s : Engine Socket) : Engine Socket := { s with
  queueIn := offer s.queueIn event
  accepted := s.accepted ++ if s.queueIn.Full then [] else [event] }

def Idle : Act → Engine Socket → Prop
  | .receive _ _ _, s => s.receiving ≠ none
  | .push, s => s.receiving = none
  | .popIn, s => s.processing ≠ none ∨ s.queueIn.Empty
  | .dispatch _, s => s.processing = none
  | .popNotify, s => s.sending ≠ none ∨ s.dispatcher.notifyQueue.Empty
  | .send _ _, s => s.sending = none
  | .rule _, _ | .request _ _ _, _ => False

inductive Effect (connectors : Connectors Socket) (s : Engine Socket) : Act → Engine Socket → Prop
  | none {a : Act} (h : Idle a s) : Effect connectors s a s
  | rule (call : RuleCall) {rules : Rules} (h : call.apply s.rules = some rules) :
    Effect connectors s (.rule call) { s with rules }
  | rejected {frame : Frame} {startTime : UInt64} {buffer : Pointer} (hr : s.receiving = .none)
    (h : decodeHead frame startTime s.history.logIndex buffer buffer.bytes.length = some .rejected) :
    Effect connectors s (.receive frame startTime buffer) (hear buffer s)
  | began {frame : Frame} {startTime : UInt64} {buffer : Pointer} {p : Parsing} (hr : s.receiving = .none)
    (h : decodeHead frame startTime s.history.logIndex buffer buffer.bytes.length = some (.updates p)) :
    Effect connectors s (.receive frame startTime buffer) { hear buffer s with receiving := some (frame, p) }
  | errored {frame : Frame} {startTime : UInt64} {buffer : Pointer} {event : Event} (hr : s.receiving = .none)
    (h : decodeHead frame startTime s.history.logIndex buffer buffer.bytes.length = some (.error event)) :
    Effect connectors s (.receive frame startTime buffer) (offered event (hear buffer s))
  | pushed {frame : Frame} {p p' : Parsing} {event : Event} {log : HistoryLog} (hr : s.receiving = some (frame, p))
    (hp : p.varsProcessed < p.varCount) (h : nextBatch frame p s.history.log = some (event, p', log)) :
    Effect connectors s .push
      (offered event { s with receiving := some (frame, p'), history := { s.history with log } })
  | pushedAll {frame : Frame} {p : Parsing} (hr : s.receiving = some (frame, p))
    (hp : ¬ p.varsProcessed < p.varCount) : Effect connectors s .push { s with receiving := .none }
  | poppedIn (hp : s.processing = .none) (he : ¬ s.queueIn.Empty) :
    Effect connectors s .popIn { s with queueIn := s.queueIn.advanceTail, processing := some s.queueIn.front }
  | dispatched {clock : ℕ → UInt64} {event : Event} {dispatcher : Dispatcher} (hp : s.processing = some event)
    (h : dispatchEvent s.rules clock event s.dispatcher = some dispatcher) :
    Effect connectors s (.dispatch clock) { s with
      dispatcher
      processing := .none
      dispatched := s.dispatched ++ [(event, !decide s.dispatcher.notifyQueue.Full)] }
  | poppedNotify (hs : s.sending = .none) (he : ¬ s.dispatcher.notifyQueue.Empty) :
    Effect connectors s .popNotify { s with
      dispatcher := { s.dispatcher with notifyQueue := s.dispatcher.notifyQueue.advanceTail }
      sending := some s.dispatcher.notifyQueue.front }
  | sent {overflow now : UInt64} {event : Event} {publisher : Socket} {r : Sent Socket × History}
    (hs : s.sending = some event) (hc : connectors.read event.header.twinId.toNat = some (some publisher))
    (h : sendEvent overflow now publisher event s.sentHistory = some r) :
    Effect connectors s (.send overflow now) { s with
      sentHistory := r.2, sending := .none, sent := s.sent ++ [r.1] }
  | requested {type : ItemType} {item : ItemAs} {req : Pointer} {r : List UInt8 × TwinsMemory}
    (h : handleRequest type item req req.bytes.length s.dispatcher.memory = some r) :
    Effect connectors s (.request type item req) { s with dispatcher := { s.dispatcher with memory := r.2 } }

theorem accept_offered (event : Event) (s : Engine Socket) : s.accept event = some (offered event s) := accept_eq event s

theorem receive_effect {frame : Frame} {startTime : UInt64} {buffer : Pointer} (hr : s.receiving = none)
    (h : s.receive frame startTime buffer = some t) : Effect connectors s (.receive frame startTime buffer) t := by
  obtain ⟨d, hd, h⟩ := Option.bind_eq_some_iff.mp h
  cases d with
  | rejected =>
    cases h
    exact .rejected hr hd
  | updates p =>
    cases h
    exact .began hr hd
  | error event =>
    simp only [accept_offered] at h
    cases h
    exact .errored hr hd

theorem push_effect (h : s.push = some t) : Effect connectors s .push t := by
  unfold push at h
  split at h
  case _ hr =>
    cases h
    exact .none hr
  case _ frame p hr =>
    split_ifs at h with hp
    · obtain ⟨⟨event, p', log⟩, hb, h⟩ := Option.bind_eq_some_iff.mp h
      simp only [accept_offered] at h
      cases h
      exact .pushed hr hp hb
    · cases h
      exact .pushedAll hr hp

theorem step_effect {a : Act} (h : step connectors a s = some t) : Effect connectors s a t := by
  cases a with
  | rule call =>
    obtain ⟨rules, hr, rfl⟩ := Option.map_eq_some_iff.mp h
    exact .rule call hr
  | receive frame startTime buffer =>
    rw [step] at h
    split at h
    case _ hr => exact receive_effect hr h
    case _ r hr =>
      cases h
      exact .none (Option.ne_none_iff_exists'.mpr ⟨r, hr⟩)
  | push => exact push_effect h
  | popIn =>
    rw [step] at h
    split at h
    case _ hp =>
      rw [popIn_eq, Option.some.injEq] at h
      subst h
      split_ifs with he
      · exact .none (.inr he)
      · exact .poppedIn hp he
    case _ e hp =>
      cases h
      exact .none (.inl (Option.ne_none_iff_exists'.mpr ⟨e, hp⟩))
  | dispatch clock =>
    rw [step] at h
    split at h
    case _ hp =>
      cases h
      exact .none hp
    case _ event hp =>
      obtain ⟨d, hd, rfl⟩ := Option.map_eq_some_iff.mp h
      exact .dispatched hp hd
  | popNotify =>
    rw [step] at h
    split at h
    case _ hs =>
      rw [popNotify_eq, Option.some.injEq] at h
      subst h
      split_ifs with he
      · exact .none (.inr he)
      · exact .poppedNotify hs he
    case _ e hs =>
      cases h
      exact .none (.inl (Option.ne_none_iff_exists'.mpr ⟨e, hs⟩))
  | send overflow now =>
    rw [step] at h
    split at h
    case _ hs =>
      cases h
      exact .none hs
    case _ event hs =>
      obtain ⟨publisher, hp, h⟩ := Option.bind_eq_some_iff.mp h
      obtain ⟨r, hr, rfl⟩ := Option.map_eq_some_iff.mp h
      exact .sent hs (Option.join_eq_some_iff.mp hp) hr
  | request type item req =>
    obtain ⟨r, hr, rfl⟩ := Option.map_eq_some_iff.mp h
    exact .requested hr

theorem run_effect {P : Engine Socket → Prop} (hP : ∀ a s t, P s → Effect connectors s a t → P t)
    {acts : List Act} (hs : P s) (h : Runs.run (step connectors) acts s = some t) : P t :=
  Runs.run_preserves (fun a s t hs h => hP a s t hs (step_effect h)) hs h

theorem effect_order {a : Act} (h : Effect connectors s a t)
    (hs : s.accepted = s.dispatched.map (·.1) ++ (s.processing.toList ++ s.queueIn.contents)) :
    t.accepted = t.dispatched.map (·.1) ++ (t.processing.toList ++ t.queueIn.contents) := by
  have hoffer (event : Event) : (offer s.queueIn event).contents = s.queueIn.contents ++
      if s.queueIn.Full then [] else [event] := by
    rw [contents_offer]
    split_ifs <;> simp
  cases h with
  | errored hr h | pushed hr hp h =>
    simp only [offered, hear, hs, hoffer, List.append_assoc]
  | poppedIn hp he => simp only [hs, hp, s.queueIn.contents_advanceTail he, Option.toList, List.nil_append,
      List.cons_append]
  | dispatched hp h => simp [hs, hp]
  | _ => exact hs

end Engine

end OpenTwins
