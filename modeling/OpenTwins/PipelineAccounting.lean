import OpenTwins.Entries
import OpenTwins.PipelineSafety

namespace OpenTwins.Engine

open MessagePack

variable {Socket : Type}

def Pending (s : Engine Socket) (us : List (UInt16 × Value)) : Prop :=
  match s.receiving with
  | none => us = []
  | some (_, p) => Feeds p.ctx (us.flatMap pairItems) ∧ p.varCount = p.varsProcessed + us.length

def pendingEntries (s : Engine Socket) (us : List (UInt16 × Value)) : List Entry :=
  match s.receiving with
  | none => []
  | some (_, p) => us.map fun x => ⟨p.header.timestamp, p.header.twinId, PropertyUpdate.of x⟩

def waiting (s : Engine Socket) : List Event := s.processing.toList ++ s.queueIn.contents

def passed (s : Engine Socket) : List Entry :=
  s.sent.flatMap (fun x => wireEntries x.bytes) ++
    (s.sending.toList.flatMap Event.entries ++ queueEntries s.dispatcher.notifyQueue)

def admitted (s : Engine Socket) : List Event := (s.dispatched.filter (·.2)).map (·.1)

structure Accounts (connectors : Connectors Socket) (rules : Rules) (s : Engine Socket) : Prop where
  safe : s.Safe
  rules_eq : s.rules = rules
  order : s.accepted = s.dispatched.map (·.1) ++ s.waiting
  passed_eq : s.passed = s.admitted.flatMap (notified rules)
  incoming : ∃ us, s.Pending us ∧
    (s.accepted.flatMap Event.entries ++ s.pendingEntries us).Sublist (s.received.flatMap wireEntries)
  routed : ∀ e ∈ s.dispatcher.notifyQueue.contents, Routed rules e
  sending : ∀ e, s.sending = some e → Routed rules e
  delivered : ∀ x ∈ s.sent, ∃ t, connectors.read t = some (some x.publisher) ∧
    ∀ y ∈ wireEntries x.bytes, y.twinId.toNat = t

def Orderly : Act → Prop
  | .rule _ => False
  | .receive _ _ buffer => ∃ m : UpdateMessage, EncodesAll m.items buffer.bytes ∧ ∀ x ∈ m.updates, FloatPair x
  | _ => True

theorem start_accounts (connectors : Connectors Socket) (rules : Rules) (history sentHistory : History)
    (memory : TwinsMemory) (queueIn notifyQueue userActionsQueue : EventQueue) :
    Accounts connectors rules
      (start rules history sentHistory memory queueIn notifyQueue userActionsQueue) where
  safe := start_safe ..
  rules_eq := rfl
  order := by simp [start, waiting]
  passed_eq := by simp [start, passed, admitted, queueEntries]
  incoming := ⟨[], rfl, by simp [start, pendingEntries]⟩
  routed := by simp [start]
  sending := by rintro _ ⟨⟩
  delivered := by simp [start]

variable {connectors : Connectors Socket} {rules : Rules} {s : Engine Socket}

theorem receive_accounts (h : Accounts connectors rules s) (frame : Frame) (startTime : UInt64)
    {m : UpdateMessage} {buffer : Pointer} (hm : EncodesAll m.items buffer.bytes)
    (hfloat : ∀ x ∈ m.updates, FloatPair x) (hr : s.receiving = none) :
    ∃ t, s.receive frame startTime buffer = some t ∧ Accounts connectors rules t := by
  obtain ⟨t, ht, safe⟩ := receive_safe h.safe frame startTime buffer
  refine ⟨t, ht, ?_⟩
  obtain ⟨ctx, hd, hf⟩ := decodeHead_update frame startTime s.history.logIndex (itemsOf_complete hm)
  simp only [receive, hd, Option.bind_some, Option.some.injEq] at ht
  subst ht
  obtain ⟨us, hus, hsub⟩ := h.incoming
  refine { h with safe := safe, incoming := ⟨m.updates, ⟨hf, by simp⟩, ?_⟩ }
  simp only [pendingEntries, hr, List.append_nil, List.flatMap_append, List.flatMap_singleton] at hsub ⊢
  apply hsub.append
  rw [wireEntries_message hm hfloat]
  exact .refl _

theorem entries_batch (header : EventHeader) {u : UpdateEvent} {us : List (UInt16 × Value)} {n : ℕ}
    (h : u.entries = (us.take n).map PropertyUpdate.of) :
    (us.map fun x => (⟨header.timestamp, header.twinId, PropertyUpdate.of x⟩ : Entry)) =
      Event.entries ⟨header, .update u⟩ ++ (us.drop n).map fun x =>
        ⟨header.timestamp, header.twinId, PropertyUpdate.of x⟩ := by
  rw [entries_update, h, List.map_map]
  conv_lhs => rw [← List.take_append_drop n us, List.map_append]
  rfl

theorem push_accounts (h : Accounts connectors rules s) :
    ∃ t, s.push = some t ∧ Accounts connectors rules t := by
  obtain ⟨t, ht, safe⟩ := push_safe h.safe
  refine ⟨t, ht, ?_⟩
  obtain ⟨us, hus, hsub⟩ := h.incoming
  cases hr : s.receiving with
  | none =>
    rw [push, hr] at ht
    cases ht
    exact h
  | some r =>
    obtain ⟨frame, p⟩ := r
    simp only [Pending, pendingEntries, hr] at hus hsub
    obtain ⟨hf, hn⟩ := hus
    by_cases hp : p.varsProcessed < p.varCount
    · obtain ⟨u, ctx, log, hb, he, -, hf'⟩ := nextBatch_pairs frame s.history.log hf hn
      rw [push_eq hr hp hb, Option.some.injEq] at ht
      subst ht
      refine { h with safe := safe, order := ?_, incoming := ⟨us.drop maxVarsPerEvent, ⟨hf', ?_⟩, ?_⟩ }
      · simp only [waiting, contents_offer, h.order]
        split_ifs <;> simp
      · simp only [List.length_drop]
        omega
      · simp only [pendingEntries, List.flatMap_append, List.append_assoc]
        refine .trans (.append_left ?_ _) hsub
        rw [entries_batch p.header he]
        split_ifs
        · simp
        · simp
    · rw [push_done hr hp, Option.some.injEq] at ht
      subst ht
      refine { h with safe := safe, incoming := ⟨[], rfl, ?_⟩ }
      exact .trans (by simp [pendingEntries]) hsub

theorem popIn_accounts (h : Accounts connectors rules s) (hp : s.processing = none) :
    ∃ t, s.popIn = some t ∧ Accounts connectors rules t := by
  obtain ⟨t, ht, safe⟩ := popIn_safe h.safe
  refine ⟨t, ht, ?_⟩
  rw [popIn_eq, Option.some.injEq] at ht
  subst ht
  split_ifs at safe ⊢ with he
  · exact h
  · refine { h with safe := safe, order := ?_ }
    simp only [h.order, waiting, hp, s.queueIn.contents_advanceTail he]
    rfl

theorem popNotify_accounts (h : Accounts connectors rules s) (hs : s.sending = none) :
    ∃ t, s.popNotify = some t ∧ Accounts connectors rules t := by
  obtain ⟨t, ht, safe⟩ := popNotify_safe h.safe
  refine ⟨t, ht, ?_⟩
  rw [popNotify_eq, Option.some.injEq] at ht
  subst ht
  split_ifs at safe ⊢ with he
  · exact h
  · obtain ⟨hf, hr⟩ := forall_mem_pop he h.routed
    refine { h with safe := safe, passed_eq := ?_, routed := hr, sending := ?_ }
    · have hp := h.passed_eq
      simp only [passed, admitted, hs, queueEntries_pop he, Option.toList, List.flatMap_nil,
        List.flatMap_singleton, List.nil_append] at hp ⊢
      exact hp
    · rintro _ ⟨⟩
      exact hf

theorem dispatch_accounts (h : Accounts connectors rules s) (clock : ℕ → UInt64) {e : Event}
    (hp : s.processing = some e) : ∃ t, s.dispatch clock e = some t ∧ Accounts connectors rules t := by
  obtain ⟨t, ht, safe⟩ := dispatch_safe h.safe clock (h.safe.processing e hp)
  refine ⟨t, ht, ?_⟩
  have horder : s.accepted = (s.dispatched ++ [(e, !decide s.dispatcher.notifyQueue.Full)]).map (·.1) ++
      s.queueIn.contents := by
    rw [h.order, waiting, hp]
    simp
  have hwe := h.safe.processing e hp
  cases hwe with
  | @update header u htype hpos hle =>
    obtain ⟨d, hd, -, hn, -⟩ := handleEventUpdate_spec s.rules clock header hle s.dispatcher
    rw [dispatch, dispatchEvent_update _ _ htype, hd, Option.map_some, Option.some.injEq] at ht
    subst ht
    refine { h with safe := safe, order := by simpa [waiting] using horder, passed_eq := ?_, routed := ?_ }
    · have hp := h.passed_eq
      simp only [passed, admitted] at hp ⊢
      rw [queueEntries_forwards hn, h.rules_eq, ← List.append_assoc, ← List.append_assoc,
        List.append_assoc _ _ (queueEntries _), hp]
      simp only [List.filter_append, List.map_append, List.flatMap_append]
      by_cases hfull : s.dispatcher.notifyQueue.Full
      · simp [hfull]
      · simp [hfull]
    · rw [h.rules_eq] at hn
      exact forwards_routed hn h.routed
  | error htype =>
    rw [dispatch, dispatchEvent_error _ _ htype, Option.map_some, Option.some.injEq] at ht
    subst ht
    refine { h with safe := safe, order := by simpa [waiting] using horder, passed_eq := ?_ }
    have hp := h.passed_eq
    simp only [passed, admitted, List.filter_append, List.map_append, List.flatMap_append] at hp ⊢
    rw [hp]
    by_cases hfull : s.dispatcher.notifyQueue.Full
    · simp [hfull]
    · simp [hfull, notified, Event.entries]

theorem wireEntries_relay (overflow : UInt64) {header : EventHeader} {u : UpdateEvent} {bytes : List UInt8}
    (hle : u.count.toNat ≤ maxVarsPerEvent)
    (h : EncodesAll (relayMessage overflow ⟨header, .update u⟩ u hle).items bytes) :
    wireEntries bytes = Event.entries ⟨header, .update u⟩ := by
  rw [wireEntries_message h, entries_update, relayMessage, List.map_map]
  · rfl
  · rintro x hx
    obtain ⟨p, -, rfl⟩ := List.mem_map.mp hx
    exact ⟨p.value, rfl⟩

theorem send_accounts (hconn : ∀ t v, rules.action t v = .notifyUpwards →
    ∃ publisher, connectors.read t.toNat = some (some publisher)) (h : Accounts connectors rules s)
    (overflow now : UInt64) {e : Event} (hs : s.sending = some e) :
    ∃ t, s.send connectors overflow now e = some t ∧ Accounts connectors rules t := by
  obtain ⟨v, hv⟩ := h.sending e hs
  obtain ⟨publisher, hc⟩ := hconn _ _ hv
  have ho := h.safe.sending e hs
  cases ho with
  | @mk header u htype hpos hle htwin hvars =>
    obtain ⟨bytes, history, hm, he⟩ := sendEvent_message overflow now publisher
      (show (⟨header, .update u⟩ : Event).payload = .update u from rfl) hle s.sentHistory
    have hw : wireEntries bytes = Event.entries ⟨header, .update u⟩ := wireEntries_relay overflow hle he
    rw [send, hc]
    simp only [Option.join_some, Option.bind_some, hm, Option.map_some]
    refine ⟨_, rfl, { h with safe := { h.safe with sending := ?_ }, passed_eq := ?_, sending := ?_, delivered := ?_ }⟩
    · rintro _ ⟨⟩
    · have hp := h.passed_eq
      simp only [passed, admitted, hs, Option.toList, List.flatMap_nil, List.flatMap_append,
        List.flatMap_singleton, List.nil_append, List.append_assoc, hw] at hp ⊢
      exact hp
    · rintro _ ⟨⟩
    · intro x hx
      rcases List.mem_append.mp hx with hx | hx
      · exact h.delivered x hx
      · cases List.mem_singleton.mp hx
        refine ⟨header.twinId.toNat, ?_, ?_⟩
        · exact hc
        · intro y hy
          rw [hw, entries_update] at hy
          obtain ⟨p, -, rfl⟩ := List.mem_map.mp hy
          rfl

theorem step_accounts (hconn : ∀ t v, rules.action t v = .notifyUpwards →
    ∃ publisher, connectors.read t.toNat = some (some publisher)) {a : Act} (ha : Orderly a)
    (h : Accounts connectors rules s) : ∃ t, step connectors a s = some t ∧ Accounts connectors rules t := by
  cases a with
  | rule call => exact ha.elim
  | receive frame startTime buffer =>
    cases hr : s.receiving with
    | none =>
      obtain ⟨m, hm, hfloat⟩ := ha
      simp only [step, hr]
      exact receive_accounts h frame startTime hm hfloat hr
    | some r => exact ⟨s, by simp only [step, hr], h⟩
  | push => exact push_accounts h
  | popIn =>
    cases hp : s.processing with
    | none =>
      simp only [step, hp]
      exact popIn_accounts h hp
    | some e => exact ⟨s, by simp only [step, hp], h⟩
  | dispatch clock =>
    cases hp : s.processing with
    | none => exact ⟨s, by simp only [step, hp], h⟩
    | some e =>
      simp only [step, hp]
      exact dispatch_accounts h clock hp
  | popNotify =>
    cases hs : s.sending with
    | none =>
      simp only [step, hs]
      exact popNotify_accounts h hs
    | some e => exact ⟨s, by simp only [step, hs], h⟩
  | send overflow now =>
    cases hs : s.sending with
    | none => exact ⟨s, by simp only [step, hs], h⟩
    | some e =>
      simp only [step, hs]
      exact send_accounts hconn h overflow now hs
  | request type item req =>
    obtain ⟨reply, m, hm, -⟩ := handleRequest_memory type item req s.dispatcher.memory
    rw [step, hm, Option.map_some]
    exact ⟨_, rfl, { h with safe := { h.safe with } }⟩

def forwardable (rules : Rules) (s : Engine Socket) : List Entry :=
  (s.accepted.flatMap Event.entries).filter fun x => rules.action x.twinId x.update.varId = .notifyUpwards

theorem Accounts.forwardable_eq (h : Accounts connectors rules s) : s.forwardable rules =
    (s.dispatched.map (·.1)).flatMap (notified rules) ++ s.waiting.flatMap (notified rules) := by
  rw [forwardable, List.filter_flatMap, ← List.flatMap_append, ← h.order]
  rfl

theorem admitted_eq (hroom : ∀ x ∈ s.dispatched, x.2 = false → notified rules x.1 = []) :
    s.admitted.flatMap (notified rules) = (s.dispatched.map (·.1)).flatMap (notified rules) := by
  rw [admitted]
  generalize s.dispatched = ds at hroom
  induction ds with
  | nil => rfl
  | cons x ds ih =>
    have ih := ih fun y hy => hroom y (by simp [hy])
    cases hx : x.2 with
    | true => simp [hx, ih]
    | false => simp [hx, ih, hroom x (by simp) hx]

/-- In every run of the receiver, the processor and the sender: what was sent, what the sender
holds and what waits in the notify queue are the entries to be passed on of the dispatched events
that found room there, each once and in order; with the events not yet dispatched they are
among the entries to be passed on, and are all of them if no batch was refused. -/
theorem run_accounts (hconn : ∀ t v, rules.action t v = .notifyUpwards →
    ∃ publisher, connectors.read t.toNat = some (some publisher)) (history sentHistory : History)
    (memory : TwinsMemory) (queueIn notifyQueue userActionsQueue : EventQueue) {acts : List Act}
    (ha : ∀ a ∈ acts, Orderly a) :
    ∃ s, Runs.run (step connectors) acts
        (start rules history sentHistory memory queueIn notifyQueue userActionsQueue) = some s ∧
      (s.accepted.flatMap Event.entries).Sublist (s.received.flatMap wireEntries) ∧
      s.accepted = s.dispatched.map (·.1) ++ s.waiting ∧
      s.passed = s.admitted.flatMap (notified rules) ∧
      (s.passed ++ s.waiting.flatMap (notified rules)).Sublist (s.forwardable rules) ∧
      ((∀ x ∈ s.dispatched, x.2 = false → notified rules x.1 = []) →
        s.passed ++ s.waiting.flatMap (notified rules) = s.forwardable rules) ∧
      ∀ x ∈ s.sent, ∃ t, connectors.read t = some (some x.publisher) ∧
        ∀ y ∈ wireEntries x.bytes, y.twinId.toNat = t := by
  obtain ⟨s, hs, h⟩ := Runs.run_total (P := Accounts connectors rules) (Q := Orderly)
    (fun a s ha h => step_accounts hconn ha h) ha
    (start_accounts connectors rules history sentHistory memory queueIn notifyQueue userActionsQueue)
  obtain ⟨us, -, hsub⟩ := h.incoming
  refine ⟨s, hs, (List.sublist_append_left _ _).trans hsub, h.order, h.passed_eq, ?_, fun hroom => ?_,
    h.delivered⟩
  · rw [h.passed_eq, h.forwardable_eq]
    exact ((List.filter_sublist.map _).flatMap _).append (.refl _)
  · rw [h.passed_eq, h.forwardable_eq, admitted_eq hroom]

def oneUpdateActs : List Act :=
  [.receive zeroedFrame 0 ⟨0, [0x97, 0, 1, 0, 0, 1, 5, 0xca, 0x3f, 0x80, 0, 0]⟩, .push, .popIn,
    .dispatch fun _ => 0, .popNotify, .send 0 0]

theorem run_accounts_oneUpdate :
    ∃ s : Engine Unit, Runs.run (step fun _ => some ()) oneUpdateActs
        (start ⟨fun _ => .ignore, fun _ _ => .notifyUpwards⟩ zeroedHistory zeroedHistory (fun _ => initialTwin)
          zeroedQueue zeroedQueue zeroedQueue) = some s ∧
      (s.accepted.flatMap Event.entries).Sublist (s.received.flatMap wireEntries) := by
  have hconn : ∀ t v, Rules.action ⟨fun _ => .ignore, fun _ _ => .notifyUpwards⟩ t v = .notifyUpwards →
      ∃ publisher, FixedArray.read (fun _ => some () : Connectors Unit) t.toNat = some (some publisher) :=
    fun t v h => ⟨(), FixedArray.read_of_lt _ (Rules.action_bounds (by rw [h]; decide)).1⟩
  have ha : ∀ a ∈ oneUpdateActs, Orderly a := by
    simp only [oneUpdateActs, List.forall_mem_cons, Orderly, true_and]
    exact ⟨⟨oneUpdate, oneUpdate_encoded, by simp [oneUpdate, FloatPair]⟩, by simp⟩
  obtain ⟨s, hs, hsub, -⟩ := run_accounts hconn zeroedHistory zeroedHistory (fun _ => initialTwin)
    zeroedQueue zeroedQueue zeroedQueue ha
  exact ⟨s, hs, hsub⟩

end OpenTwins.Engine
