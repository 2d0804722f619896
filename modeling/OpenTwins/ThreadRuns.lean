import OpenTwins.ThreadRefinement

namespace OpenTwins.EngineThreads

open RingThreads FixedArray MessagePack

variable {Socket : Type} {connectors : Connectors Socket} {acts : List ThreadAct} {rules : Rules}
  {t t' : EngineThreads Socket} {s : Engine Socket}

theorem start_refines (rules : Rules) (history sentHistory : History) (memory : TwinsMemory)
    (queueIn notifyQueue userActionsQueue : EventQueue) :
    Refines connectors acts (start rules history sentHistory memory queueIn notifyQueue userActionsQueue)
      (Engine.start rules history sentHistory memory queueIn notifyQueue userActionsQueue) where
  outside := ⟨rfl, rfl, rfl, rfl, rfl, rfl, rfl, rfl⟩
  receiver := ⟨rfl, rfl, rfl⟩
  received := List.prefix_refl _
  queueIn := rfl
  pushIn := trivial
  popIn := trivial
  processor := rfl
  notify := rfl
  pushNotify := trivial
  popNotify := trivial
  sender := fun h => absurd rfl h

theorem run_keeps_safe {as : List Act} {s s' : Engine Socket} (hs : s.Safe)
    (h : Runs.run (Engine.step connectors) as s = some s') : s'.Safe :=
  Runs.run_preserves (P := Engine.Safe) (fun _ _ _ hs h => Engine.step_keeps_safe hs h) hs h

theorem run_matched {as : List ThreadAct} (has : ∀ a ∈ as, a ∈ acts) (hr : Refines connectors acts t s)
    (hs : s.Safe) (h : Runs.run (step connectors) as t = some t') : Matched connectors acts t' s := by
  have hstep : ∀ a t t' s, a ∈ acts → (Refines connectors acts t s ∧ s.Safe) → step connectors a t = some t' →
      ∃ bs s', Runs.run (Engine.step connectors) bs s = some s' ∧ (∀ b ∈ bs, StandsFor acts b) ∧
        (Refines connectors acts t' s' ∧ s'.Safe) := by
    intro a t t' s ha hr hs
    obtain ⟨bs, s', hrun, hbs, hr'⟩ := step_matched ha hr.1 hr.2 hs
    exact ⟨bs, s', hrun, hbs, hr', run_keeps_safe hr.2 hrun⟩
  obtain ⟨bs, s', hrun, hbs, hr', -⟩ := Runs.run_simulates hstep has ⟨hr, hs⟩ h
  exact ⟨bs, s', hrun, hbs, hr'⟩

theorem Refines.queueIn_contents (h : Refines connectors acts t s) :
    t.engine.queueIn.contents = s.queueIn.contents := by
  rw [h.queueIn, filled_contents]

theorem Refines.notify_contents (h : Refines connectors acts t s) :
    t.engine.dispatcher.notifyQueue.contents = s.dispatcher.notifyQueue.contents := by
  rw [h.notify, filled_contents]

/-- What the threads do with their accesses in any order, the engine in which a push or a pop is
one step does in some order of its steps. -/
theorem threads_refine (rules : Rules) (history sentHistory : History) (memory : TwinsMemory)
    (queueIn notifyQueue userActionsQueue : EventQueue)
    (h : Runs.run (step connectors) acts
      (start rules history sentHistory memory queueIn notifyQueue userActionsQueue) = some t) :
    ∃ as s, Runs.run (Engine.step connectors) as
        (Engine.start rules history sentHistory memory queueIn notifyQueue userActionsQueue) = some s ∧
      (∀ a ∈ as, StandsFor acts a) ∧ s.accepted = t.engine.accepted ∧ s.dispatched = t.engine.dispatched ∧
      s.sent = t.engine.sent ∧ s.sentHistory = t.engine.sentHistory ∧ s.received <+: t.engine.received ∧
      s.queueIn.contents = t.engine.queueIn.contents ∧
      s.dispatcher.notifyQueue.contents = t.engine.dispatcher.notifyQueue.contents ∧
      s.dispatcher.userActionsQueue = t.engine.dispatcher.userActionsQueue := by
  obtain ⟨as, s, hs, has, hr⟩ := run_matched (fun _ ha => ha)
    (start_refines rules history sentHistory memory queueIn notifyQueue userActionsQueue)
    (Engine.start_safe ..) h
  exact ⟨as, s, hs, has, hr.outside.accepted, hr.outside.dispatched, hr.outside.sent, hr.outside.sentHistory,
    hr.received, hr.queueIn_contents.symm, hr.notify_contents.symm, hr.outside.userActions⟩

theorem storeNext_some (now : UInt64) (i : ℕ) {e : Event} (h : WellFormed e) (t : EngineThreads Socket) :
    ∃ t', t.storeNext now i e = some t' := by
  unfold storeNext
  cases h with
  | @update header u ht hpos hle =>
    rw [if_pos ht]
    simp only [Payload.asUpdate, Option.bind_eq_bind, Option.bind_some]
    split_ifs with hi
    · rw [read_of_lt u.updates (lt_of_lt_of_le hi hle)]
      simp only [Option.bind_some, twinsMemoryUpdateVar_eq]
      exact ⟨_, rfl⟩
    · exact ⟨t, rfl⟩
  | error ht =>
    rw [if_neg (by rw [ht]; decide)]
    exact ⟨t, rfl⟩

theorem pushUser_total (header : EventHeader) (userAction : UpdateEvent) (t : EngineThreads Socket) :
    ∃ t', t.pushUser header userAction = some t' := by
  unfold pushUser pushBatch
  split_ifs with hc
  · rw [pushEvent_eq]
    exact ⟨_, rfl⟩
  · exact ⟨_, rfl⟩

theorem route_some (i : ℕ) {e : Event} (h : WellFormed e) (t : EngineThreads Socket) :
    ∃ t', t.route i e = some t' := by
  unfold route
  cases h with
  | @update header u ht hpos hle =>
    rw [if_pos ht]
    simp only [Payload.asUpdate, Option.bind_eq_bind, Option.bind_some]
    split_ifs with hi
    · exact ⟨t, rfl⟩
    · obtain ⟨b, hb, -⟩ := applyRules_sorted t.engine.rules header.twinId hle
      simp only [hb, Option.bind_some]
      unfold pushNotify
      split_ifs with hfree
      · exact ⟨_, rfl⟩
      · obtain ⟨t1, h1⟩ := t.pushUser_total header b.userAction
        rw [h1]
        exact ⟨_, rfl⟩
  | @error header ev ht =>
    rw [if_neg (by rw [ht]; decide), dispatchEvent_error t.engine.rules (fun _ => 0) ht ev]
    exact ⟨_, rfl⟩

theorem publishNotify_some (next : Fin queueSize) (userAction : UpdateEvent) (e : Event)
    (t : EngineThreads Socket) : ∃ t', t.publishNotify next userAction e = some t' := by
  obtain ⟨t1, h1⟩ := pushUser_total e.header userAction { t with engine := { t.engine with
    dispatcher := { t.engine.dispatcher with
      notifyQueue := publishIndex t.engine.dispatcher.notifyQueue next } } }
  rw [publishNotify, h1]
  exact ⟨_, rfl⟩

theorem batch_some {frame : Frame} {p : Parsing} (h : p.Sound) (t : EngineThreads Socket) :
    ∃ t', t.batch frame p = some t' := by
  unfold batch
  split_ifs with hp
  · obtain ⟨e, p', log, hb, -⟩ := nextBatch_sound frame t.engine.history.log h hp
    rw [hb]
    exact ⟨_, rfl⟩
  · exact ⟨_, rfl⟩

theorem step_some (a : ThreadAct) (hr : Refines connectors acts t s) (hs : s.Safe)
    (hsend : ∀ overflow now e, a = .send overflow now → s.sending = some e →
      ∃ engine, t.engine.send connectors overflow now e = some engine) :
    ∃ t', step connectors a t = some t' := by
  have hwell : ∀ {e}, t.engine.processing = some e → WellFormed e :=
    fun he => hs.processing _ (hr.outside.processing.trans he)
  cases a <;> simp only [step]
  case receive frame startTime buffer =>
    split
    · obtain ⟨d, hd, -⟩ := decodeHead_sound frame startTime t.engine.history.logIndex buffer
      rw [receive, hd]
      exact ⟨_, rfl⟩
    · exact ⟨t, rfl⟩
  case batch =>
    split
    case _ frame p hi hn =>
      have hsame := hr.receiver
      rw [hi] at hsame
      exact batch_some (hs.receiving frame p (hsame.receiving.trans hn)) t
    case _ => exact ⟨t, rfl⟩
  case store now =>
    split
    case _ i e hp he => exact storeNext_some now i (hwell he) t
    case _ => exact ⟨t, rfl⟩
  case route =>
    split
    case _ i e hp he => exact route_some i (hwell he) t
    case _ => exact ⟨t, rfl⟩
  case publishNotify =>
    split
    case _ x next userAction e hp he => exact publishNotify_some next userAction e t
    case _ => exact ⟨t, rfl⟩
  case send overflow now =>
    split
    case _ e he =>
      obtain ⟨engine, h⟩ := hsend overflow now e rfl (hr.outside.sending.trans he)
      rw [h]
      exact ⟨_, rfl⟩
    case _ => exact ⟨t, rfl⟩
  case request type item req =>
    obtain ⟨reply, m, hm, -⟩ := handleRequest_memory type item req t.engine.dispatcher.memory
    rw [hm]
    exact ⟨_, rfl⟩
  all_goals
    split
    · exact ⟨_, rfl⟩
    · exact ⟨t, rfl⟩

theorem send_some {e : Event} (h : Outgoing e) {publisher : Socket}
    (hc : connectors.read e.header.twinId.toNat = some (some publisher)) (overflow now : UInt64)
    (s : Engine Socket) : ∃ s', s.send connectors overflow now e = some s' := by
  cases h with
  | @mk header u htype hpos hle htwin hvars =>
    obtain ⟨bytes, history, hm, -⟩ := sendEvent_message overflow now publisher
      (show (⟨header, .update u⟩ : Event).payload = .update u from rfl) hle s.sentHistory
    rw [Engine.send, hc]
    simp only [Option.join_some, Option.bind_some, hm, Option.map_some]
    exact ⟨_, rfl⟩

theorem run_keeps {I : Engine Socket → Prop} {t₀ : EngineThreads Socket} {s₀ : Engine Socket}
    (hsafe : ∀ s, I s → s.Safe)
    (hconn : ∀ s e, I s → s.sending = some e →
      ∃ publisher, connectors.read e.header.twinId.toNat = some (some publisher))
    (hstep : ∀ a s s', StandsFor acts a → I s → Engine.step connectors a s = some s' → I s')
    (hr₀ : Refines connectors acts t₀ s₀) (h₀ : I s₀) :
    ∃ t, Runs.run (step connectors) acts t₀ = some t ∧
      ∃ s, Runs.Reaches (Engine.step connectors) s₀ s ∧ Refines connectors acts t s ∧ I s := by
  refine Runs.run_total (Q := fun a => a ∈ acts) ?_ (fun a ha => ha) ⟨s₀, .refl _ _, hr₀, h₀⟩
  rintro a t ha ⟨s, hs, hr, h⟩
  obtain ⟨t', ht'⟩ := step_some a hr (hsafe s h) fun overflow now e _ he => by
    obtain ⟨publisher, hc⟩ := hconn s e h he
    exact send_some ((hsafe s h).sending e he) hc overflow now t.engine
  obtain ⟨bs, s', hrun, hbs, hr'⟩ := step_matched ha hr (hsafe s h) ht'
  refine ⟨t', ht', s', hs.run hrun, hr', ?_⟩
  exact Runs.run_keeps hstep hbs h hrun

theorem run_safe (hconn : ∀ i < maxTwins, ∃ publisher, connectors.read i = some (some publisher))
    (rules : Rules) (history sentHistory : History) (memory : TwinsMemory)
    (queueIn notifyQueue userActionsQueue : EventQueue) (acts : List ThreadAct) :
    ∃ t, Runs.run (step connectors) acts
        (start rules history sentHistory memory queueIn notifyQueue userActionsQueue) = some t ∧
      ∃ s, Runs.Reaches (Engine.step connectors)
        (Engine.start rules history sentHistory memory queueIn notifyQueue userActionsQueue) s ∧
        Refines connectors acts t s ∧ s.Safe := by
  refine run_keeps (fun s h => h) ?_ (fun a s s' _ h hstep => Engine.step_keeps_safe h hstep)
    (start_refines rules history sentHistory memory queueIn notifyQueue userActionsQueue) (Engine.start_safe ..)
  intro s e h he
  apply hconn
  cases h.sending e he
  assumption

def overlappingActs : List ThreadAct :=
  [.receive zeroedFrame 0 ⟨0, [0x97, 0, 1, 0, 0, 1, 5, 0xca, 0x3f, 0x80, 0, 0]⟩, .lookIn, .batch, .fillIn, .lookIn,
    .publishIn, .lookIn, .batch, .copyIn, .releaseIn, .store 0, .lookNotify, .route, .fillNotify, .publishNotify]

theorem threads_refine_overlapping : ∃ t : EngineThreads Unit, ∃ as s,
    Runs.run (Engine.step fun _ => some ()) as (Engine.start ⟨fun _ => .ignore, fun _ _ => .notifyUpwards⟩
      zeroedHistory zeroedHistory (fun _ => initialTwin) zeroedQueue zeroedQueue zeroedQueue) = some s ∧
    s.sent = t.engine.sent := by
  obtain ⟨t, ht, -⟩ := run_safe unit_connected ⟨fun _ => .ignore, fun _ _ => .notifyUpwards⟩ zeroedHistory
    zeroedHistory (fun _ => initialTwin) zeroedQueue zeroedQueue zeroedQueue overlappingActs
  obtain ⟨as, s, hs, -, -, -, hsent, -⟩ := threads_refine _ _ _ _ _ _ _ ht
  exact ⟨t, as, s, hs, hsent⟩

def Orderly : ThreadAct → Prop
  | .receive _ _ buffer => ∃ m : UpdateMessage, EncodesAll m.items buffer.bytes ∧ ∀ x ∈ m.updates, FloatPair x
  | _ => True

theorem StandsFor.orderly (hacts : ∀ a ∈ acts, Orderly a) {a : Act} (h : StandsFor acts a) : Engine.Orderly a := by
  cases a with
  | receive frame startTime buffer => exact hacts _ h
  | rule call | request type item req => exact h.elim
  | _ => trivial

theorem run_accounted (hconn : ∀ t v, rules.action t v = .notifyUpwards →
    ∃ publisher, connectors.read t.toNat = some (some publisher)) (history sentHistory : History)
    (memory : TwinsMemory) (queueIn notifyQueue userActionsQueue : EventQueue) (hacts : ∀ a ∈ acts, Orderly a) :
    ∃ t, Runs.run (step connectors) acts
        (start rules history sentHistory memory queueIn notifyQueue userActionsQueue) = some t ∧
      ∃ s, Runs.Reaches (Engine.step connectors)
        (Engine.start rules history sentHistory memory queueIn notifyQueue userActionsQueue) s ∧
        Refines connectors acts t s ∧ s.Accounts connectors rules := by
  refine run_keeps (fun s h => h.safe) ?_ ?_
    (start_refines rules history sentHistory memory queueIn notifyQueue userActionsQueue) (Engine.start_accounts ..)
  · intro s e h he
    obtain ⟨v, hv⟩ := h.sending e he
    exact hconn _ _ hv
  · intro a s s' ha h hstep
    obtain ⟨s1, h1, hs1⟩ := Engine.step_accounts hconn (ha.orderly hacts) h
    rwa [Option.some.inj (hstep.symm.trans h1)]

theorem Routes.received {i : ℕ} {e : Event} (h : Routes i e t t') : t'.engine.received = t.engine.received := by
  cases h <;> rfl

theorem batch_received {frame : Frame} {p : Parsing} (h : t.batch frame p = some t') :
    t'.engine.received = t.engine.received := by
  unfold batch at h
  split_ifs at h
  · obtain ⟨r, -, rfl⟩ := Option.map_eq_some_iff.mp h
    rfl
  · cases h
    rfl

theorem step_received {a : ThreadAct} (h : step connectors a t = some t') :
    t'.engine.received = t.engine.received ∨ ∃ frame startTime buffer, a = .receive frame startTime buffer ∧
      t'.engine.received = t.engine.received ++ [buffer.bytes] := by
  cases step_steps h with
  | @receive _ frame startTime buffer hr hn hdone =>
    obtain ⟨d, -, rfl⟩ := Option.map_eq_some_iff.mp hdone
    refine .inr ⟨frame, startTime, buffer, rfl, ?_⟩
    cases d <;> rfl
  | batch hr hn hdone => exact .inl (batch_received hdone)
  | store hp he hstores => cases hstores <;> exact .inl rfl
  | route hp he hroutes => exact .inl hroutes.received
  | send he hsent =>
    obtain ⟨sentHistory, sent, rfl⟩ := Engine.send_keeps hsent
    exact .inl rfl
  | _ => exact .inl rfl

theorem Refines.waiting (h : Refines connectors acts t s) : t.engine.waiting = s.waiting := by
  rw [Engine.waiting, Engine.waiting, h.outside.processing, h.queueIn_contents]

theorem Refines.passed (h : Refines connectors acts t s) : t.engine.passed = s.passed := by
  rw [Engine.passed, Engine.passed, h.outside.sent, h.outside.sending, queueEntries, queueEntries,
    h.notify_contents]

theorem Refines.admitted (h : Refines connectors acts t s) : t.engine.admitted = s.admitted := by
  rw [Engine.admitted, Engine.admitted, h.outside.dispatched]

theorem Refines.forwardable (h : Refines connectors acts t s) :
    t.engine.forwardable rules = s.forwardable rules := by
  rw [Engine.forwardable, Engine.forwardable, h.outside.accepted]

theorem threads_account (hconn : ∀ t v, rules.action t v = .notifyUpwards →
    ∃ publisher, connectors.read t.toNat = some (some publisher)) (history sentHistory : History)
    (memory : TwinsMemory) (queueIn notifyQueue userActionsQueue : EventQueue)
    (hacts : ∀ a ∈ acts, Orderly a) :
    ∃ t, Runs.run (step connectors) acts
        (start rules history sentHistory memory queueIn notifyQueue userActionsQueue) = some t ∧
      (t.engine.accepted.flatMap Event.entries).Sublist (t.engine.received.flatMap wireEntries) ∧
      t.engine.accepted = t.engine.dispatched.map (·.1) ++ t.engine.waiting ∧
      t.engine.passed = t.engine.admitted.flatMap (notified rules) ∧
      (t.engine.passed ++ t.engine.waiting.flatMap (notified rules)).Sublist (t.engine.forwardable rules) ∧
      ((∀ x ∈ t.engine.dispatched, x.2 = false → notified rules x.1 = []) →
        t.engine.passed ++ t.engine.waiting.flatMap (notified rules) = t.engine.forwardable rules) ∧
      ∀ x ∈ t.engine.sent, ∃ i, connectors.read i = some (some x.publisher) ∧
        ∀ y ∈ wireEntries x.bytes, y.twinId.toNat = i := by
  obtain ⟨t, ht, s, -, hr, h⟩ := run_accounted hconn history sentHistory memory queueIn notifyQueue
    userActionsQueue hacts
  obtain ⟨us, -, hsub⟩ := h.incoming
  refine ⟨t, ht, ?_, ?_, ?_, ?_, ?_, ?_⟩
  · rw [← hr.outside.accepted]
    apply ((List.sublist_append_left _ _).trans hsub).trans
    obtain ⟨rest, hrest⟩ := hr.received
    rw [← hrest, List.flatMap_append]
    exact List.sublist_append_left _ _
  · rw [← hr.outside.accepted, ← hr.outside.dispatched, hr.waiting]
    exact h.order
  · rw [hr.passed, hr.admitted]
    exact h.passed_eq
  · rw [hr.passed, hr.waiting, hr.forwardable, h.passed_eq, h.forwardable_eq]
    exact ((List.filter_sublist.map _).flatMap _).append (.refl _)
  · intro hroom
    rw [← hr.outside.dispatched] at hroom
    rw [hr.passed, hr.waiting, hr.forwardable, h.passed_eq, h.forwardable_eq, Engine.admitted_eq hroom]
  · rw [← hr.outside.sent]
    exact h.delivered

theorem threads_account_overlapping :
    ∃ t : EngineThreads Unit, Runs.run (step fun _ => some ()) overlappingActs
        (start ⟨fun _ => .ignore, fun _ _ => .notifyUpwards⟩ zeroedHistory zeroedHistory (fun _ => initialTwin)
          zeroedQueue zeroedQueue zeroedQueue) = some t ∧
      (t.engine.accepted.flatMap Event.entries).Sublist (t.engine.received.flatMap wireEntries) := by
  have ha : ∀ a ∈ overlappingActs, Orderly a := by
    simp only [overlappingActs, List.forall_mem_cons, Orderly, true_and]
    exact ⟨⟨oneUpdate, oneUpdate_encoded, by simp [oneUpdate, FloatPair]⟩, by simp⟩
  obtain ⟨t, ht, hsub, -⟩ := threads_account (fun _ _ => routed_connected unit_connected) zeroedHistory zeroedHistory
    (fun _ => initialTwin) zeroedQueue zeroedQueue zeroedQueue ha
  exact ⟨t, ht, hsub⟩

end OpenTwins.EngineThreads
