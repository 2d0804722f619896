import OpenTwins.ParserBounds
import OpenTwins.Pipeline
import OpenTwins.Requests

namespace OpenTwins

inductive Outgoing : Event → Prop
  | mk {h : EventHeader} {u : UpdateEvent} (type : h.type = eventUpdate) (pos : 1 ≤ u.count.toNat)
      (le : u.count.toNat ≤ maxVarsPerEvent) (twin : h.twinId.toNat < maxTwins)
      (vars : ∀ p ∈ u.entries, p.varId.toNat < maxVarsPerTwins) : Outgoing ⟨h, .update u⟩

namespace Engine

variable {Socket : Type}

structure Safe (s : Engine Socket) : Prop where
  receiving : ∀ frame p, s.receiving = some (frame, p) → p.Sound
  queueIn : ∀ e ∈ s.queueIn.contents, WellFormed e
  processing : ∀ e, s.processing = some e → WellFormed e
  notify : ∀ e ∈ s.dispatcher.notifyQueue.contents, Outgoing e
  userActions : ∀ e ∈ s.dispatcher.userActionsQueue.contents, Outgoing e
  sending : ∀ e, s.sending = some e → Outgoing e

theorem start_safe (rules : Rules) (history sentHistory : History) (memory : TwinsMemory)
    (queueIn notifyQueue userActionsQueue : EventQueue) :
    Safe (start rules history sentHistory memory queueIn notifyQueue userActionsQueue : Engine Socket) where
  receiving := by rintro _ _ ⟨⟩
  queueIn := by simp [start]
  processing := by rintro _ ⟨⟩
  notify := by simp [start]
  userActions := by simp [start]
  sending := by rintro _ ⟨⟩

theorem receive_safe {s : Engine Socket} (h : s.Safe) (frame : Frame) (startTime : UInt64)
    (buffer : Pointer) : ∃ t, s.receive frame startTime buffer = some t ∧ t.Safe := by
  obtain ⟨d, hd, hu, he⟩ := decodeHead_sound frame startTime s.history.logIndex buffer
  rw [receive]
  simp only [hd, Option.bind_some]
  cases d with
  | rejected => exact ⟨_, rfl, { h with }⟩
  | updates p =>
    refine ⟨_, rfl, { h with receiving := ?_ }⟩
    rintro _ _ ⟨⟩
    exact (hu p rfl).1
  | error e => exact ⟨_, accept_eq e _, { h with queueIn := forall_mem_offer h.queueIn (he e rfl) }⟩

theorem push_safe {s : Engine Socket} (h : s.Safe) : ∃ t, s.push = some t ∧ t.Safe := by
  cases hr : s.receiving with
  | none => exact ⟨s, by rw [push, hr], h⟩
  | some r =>
    obtain ⟨frame, p⟩ := r
    by_cases hp : p.varsProcessed < p.varCount
    · obtain ⟨e, p', log, hb, we, sp, -, -⟩ := nextBatch_sound frame s.history.log (h.receiving frame p hr) hp
      refine ⟨_, push_eq hr hp hb, { h with
        receiving := ?_, queueIn := forall_mem_offer h.queueIn we }⟩
      rintro _ _ ⟨⟩
      exact sp
    · refine ⟨_, push_done hr hp, { h with receiving := ?_ }⟩
      rintro _ _ ⟨⟩

theorem popIn_safe {s : Engine Socket} (h : s.Safe) : ∃ t, s.popIn = some t ∧ t.Safe := by
  refine ⟨_, popIn_eq s, ?_⟩
  split_ifs with he
  · exact h
  · obtain ⟨hf, hr⟩ := forall_mem_pop he h.queueIn
    refine { h with queueIn := hr, processing := ?_ }
    rintro _ ⟨⟩
    exact hf

theorem popNotify_safe {s : Engine Socket} (h : s.Safe) : ∃ t, s.popNotify = some t ∧ t.Safe := by
  refine ⟨_, popNotify_eq s, ?_⟩
  split_ifs with he
  · exact h
  · obtain ⟨hf, hr⟩ := forall_mem_pop he h.notify
    refine { h with notify := hr, sending := ?_ }
    rintro _ ⟨⟩
    exact hf

theorem forwards_outgoing {rules : Rules} {header : EventHeader} {u : UpdateEvent} {action : RuleAction}
    {q q' : EventQueue} (ht : header.type = eventUpdate) (hle : u.count.toNat ≤ maxVarsPerEvent)
    (ha : action ≠ .ignore)
    (hf : Forwards header (u.entries.filter fun p => rules.action header.twinId p.varId = action) q q')
    (hq : ∀ e ∈ q.contents, Outgoing e) : ∀ e ∈ q'.contents, Outgoing e := by
  rcases hf with ⟨-, rfl⟩ | ⟨hne, b, hb, hc, rfl⟩
  · exact hq
  · have hbounds : ∀ p ∈ b.entries, header.twinId.toNat < maxTwins ∧ p.varId.toNat < maxVarsPerTwins := by
      intro p hp
      rw [hb, List.mem_filter, decide_eq_true_eq] at hp
      exact Rules.action_bounds (hp.2 ▸ ha)
    have hpos := List.length_pos_iff.mpr hne
    obtain ⟨p, hp⟩ := List.exists_mem_of_ne_nil _ hne
    refine forall_mem_offer hq (.mk ht (by omega) ?_ (hbounds p (hb ▸ hp)).1 fun p hp => (hbounds p hp).2)
    rw [hc]
    exact (List.length_filter_le _ _).trans ((UpdateEvent.entries_length hle).trans_le hle)

theorem dispatch_safe {s : Engine Socket} (h : s.Safe) (clock : ℕ → UInt64) {e : Event} (he : WellFormed e) :
    ∃ t, s.dispatch clock e = some t ∧ t.Safe := by
  cases he with
  | @update header u ht hpos hle =>
    obtain ⟨d, hd, -, hn, hu⟩ := handleEventUpdate_spec s.rules clock header hle s.dispatcher
    rw [dispatch, dispatchEvent_update _ _ ht, hd, Option.map_some]
    refine ⟨_, rfl, { h with processing := ?_, notify := ?_, userActions := ?_ }⟩
    · rintro _ ⟨⟩
    · exact forwards_outgoing ht hle (by simp) hn h.notify
    · exact forwards_outgoing ht hle (by simp) hu h.userActions
  | error ht =>
    rw [dispatch, dispatchEvent_error _ _ ht, Option.map_some]
    refine ⟨_, rfl, { h with processing := ?_ }⟩
    rintro _ ⟨⟩

theorem rule_some (call : RuleCall) (r : Rules) : ∃ r', call.apply r = some r' := by
  cases call with
  | setErrorRule errorCode action =>
    obtain ⟨r', hr, -⟩ := setErrorRule_some r errorCode action
    exact ⟨r', hr⟩
  | setUpdateRule twinId varId action =>
    obtain ⟨r', hr, -⟩ := setUpdateRule_action r twinId varId action
    exact ⟨r', hr⟩

theorem step_safe (connectors : Connectors Socket) {a : Act} (ha : ∀ overflow now, a ≠ .send overflow now)
    {s : Engine Socket} (h : s.Safe) : ∃ t, step connectors a s = some t ∧ t.Safe := by
  cases a with
  | rule call =>
    obtain ⟨r, hr⟩ := rule_some call s.rules
    rw [step, hr, Option.map_some]
    exact ⟨_, rfl, { h with }⟩
  | receive frame startTime buffer =>
    cases hr : s.receiving with
    | none =>
      simp only [step, hr]
      exact receive_safe h frame startTime buffer
    | some r => exact ⟨s, by simp only [step, hr], h⟩
  | push => exact push_safe h
  | popIn =>
    cases hp : s.processing with
    | none =>
      simp only [step, hp]
      exact popIn_safe h
    | some e => exact ⟨s, by simp only [step, hp], h⟩
  | dispatch clock =>
    cases hp : s.processing with
    | none => exact ⟨s, by simp only [step, hp], h⟩
    | some e =>
      simp only [step, hp]
      exact dispatch_safe h clock (h.processing e hp)
  | popNotify =>
    cases hs : s.sending with
    | none =>
      simp only [step, hs]
      exact popNotify_safe h
    | some e => exact ⟨s, by simp only [step, hs], h⟩
  | send overflow now => exact absurd rfl (ha overflow now)
  | request type item req =>
    obtain ⟨reply, m, hm, -⟩ := handleRequest_memory type item req s.dispatcher.memory
    rw [step, hm, Option.map_some]
    exact ⟨_, rfl, { h with }⟩

theorem run_in_bounds (connectors : Connectors Socket) (rules : Rules) (history sentHistory : History)
    (memory : TwinsMemory) (queueIn notifyQueue userActionsQueue : EventQueue) {acts : List Act}
    (ha : ∀ a ∈ acts, ∀ overflow now, a ≠ .send overflow now) :
    ∃ s, Runs.run (step connectors) acts
        (start rules history sentHistory memory queueIn notifyQueue userActionsQueue) = some s ∧
      (∀ e ∈ s.queueIn.contents, WellFormed e) ∧
      (∀ e ∈ s.dispatcher.notifyQueue.contents ++ s.dispatcher.userActionsQueue.contents, Outgoing e) := by
  obtain ⟨s, hs, h⟩ := Runs.run_total (P := Safe) (fun a s ha h => step_safe connectors ha h) ha
    (start_safe rules history sentHistory memory queueIn notifyQueue userActionsQueue)
  refine ⟨s, hs, h.queueIn, ?_⟩
  intro e he
  rcases List.mem_append.mp he with he | he
  · exact h.notify e he
  · exact h.userActions e he

def truncatedActs : List Act :=
  [.receive zeroedFrame 0 ⟨0, [0x97, 0, 1]⟩, .push, .popIn, .dispatch fun _ => 0]

theorem run_in_bounds_truncated :
    ∃ s : Engine Unit, Runs.run (step fun _ => none) truncatedActs
        (start ⟨fun _ => .ignore, fun _ _ => .notifyUpwards⟩ zeroedHistory zeroedHistory (fun _ => initialTwin)
          zeroedQueue zeroedQueue zeroedQueue) = some s ∧
      ∀ e ∈ s.queueIn.contents, WellFormed e := by
  obtain ⟨s, hs, hq, -⟩ := run_in_bounds (fun _ => none) ⟨fun _ => .ignore, fun _ _ => .notifyUpwards⟩
    zeroedHistory zeroedHistory (fun _ => initialTwin) zeroedQueue zeroedQueue zeroedQueue
    (show ∀ a ∈ truncatedActs, ∀ overflow now, a ≠ .send overflow now by simp [truncatedActs])
  exact ⟨s, hs, hq⟩

end Engine

end OpenTwins
