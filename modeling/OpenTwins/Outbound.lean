import OpenTwins.Connectors
import OpenTwins.SentMessages
import OpenTwins.ThreadRuns

namespace OpenTwins

open MessagePack FixedArray

variable {Socket : Type}

def Permitted (rules : Rules) (action : RuleAction) (e : Event) : Prop :=
  ∀ y ∈ e.entries, rules.action y.twinId y.update.varId = action

theorem forwards_permitted {rules : Rules} {action : RuleAction} {header : EventHeader}
    {ps : List PropertyUpdate} {q q' : EventQueue}
    (hf : Forwards header (ps.filter fun p => rules.action header.twinId p.varId = action) q q')
    (h : ∀ e ∈ q.contents, Permitted rules action e) : ∀ e ∈ q'.contents, Permitted rules action e := by
  rcases hf with ⟨-, rfl⟩ | ⟨-, u, hu, -, rfl⟩
  · exact h
  · refine forall_mem_offer h ?_
    intro y hy
    rw [entries_update, hu] at hy
    obtain ⟨p, hp, rfl⟩ := List.mem_map.mp hy
    rw [List.mem_filter, decide_eq_true_eq] at hp
    exact hp.2

theorem dispatchEvent_permitted {rules : Rules} {clock : ℕ → UInt64} {e : Event} {d d' : Dispatcher}
    (he : WellFormed e) (h : dispatchEvent rules clock e d = some d')
    (hn : ∀ e ∈ d.notifyQueue.contents, Permitted rules .notifyUpwards e)
    (hu : ∀ e ∈ d.userActionsQueue.contents, Permitted rules .callUserService e) :
    (∀ e ∈ d'.notifyQueue.contents, Permitted rules .notifyUpwards e) ∧
      ∀ e ∈ d'.userActionsQueue.contents, Permitted rules .callUserService e := by
  cases he with
  | @update header u ht hpos hle =>
    obtain ⟨d1, hd, -, fn, fu⟩ := handleEventUpdate_spec rules clock header hle d
    rw [dispatchEvent_update _ _ ht, hd] at h
    cases h
    exact ⟨forwards_permitted fn hn, forwards_permitted fu hu⟩
  | error ht =>
    rw [dispatchEvent_error _ _ ht] at h
    cases h
    exact ⟨hn, hu⟩

theorem Outgoing.publisher {connectors : Connectors Socket} {rules : Rules} (hconn : ∀ t v,
    rules.action t v = .notifyUpwards → ∃ publisher, connectors.read t.toNat = some (some publisher)) {e : Event}
    (he : Outgoing e) (hp : Permitted rules .notifyUpwards e) :
    ∃ publisher, connectors.read e.header.twinId.toNat = some (some publisher) := by
  cases he with
  | @mk header u htype hpos hle htwin hvars =>
    obtain ⟨p, ps, hentries, -⟩ := entries_head hpos
    exact hconn header.twinId p.varId (hp ⟨header.timestamp, header.twinId, p⟩ (by simp [entries_update, hentries]))

structure Allowed (connectors : Connectors Socket) (rules : Rules) (x : Sent Socket) : Prop where
  relayed : ∃ m, Relayed x.bytes m
  routed : ∃ i, connectors.read i = some (some x.publisher) ∧ ∀ y ∈ wireEntries x.bytes, y.twinId.toNat = i
  permitted : ∀ y ∈ wireEntries x.bytes, rules.action y.twinId y.update.varId = .notifyUpwards

namespace Engine

variable {connectors : Connectors Socket} {rules : Rules} {s t : Engine Socket}

structure Vetted (connectors : Connectors Socket) (rules : Rules) (s : Engine Socket) : Prop where
  safe : s.Safe
  rules_eq : s.rules = rules
  notify : ∀ e ∈ s.dispatcher.notifyQueue.contents, Permitted rules .notifyUpwards e
  userActions : ∀ e ∈ s.dispatcher.userActionsQueue.contents, Permitted rules .callUserService e
  sending : ∀ e, s.sending = some e → Permitted rules .notifyUpwards e
  sent : ∀ x ∈ s.sent, Allowed connectors rules x

theorem start_vetted (connectors : Connectors Socket) (rules : Rules) (history sentHistory : History)
    (memory : TwinsMemory) (queueIn notifyQueue userActionsQueue : EventQueue) :
    Vetted connectors rules
      (start rules history sentHistory memory queueIn notifyQueue userActionsQueue) where
  safe := start_safe ..
  rules_eq := rfl
  notify := by simp [start]
  userActions := by simp [start]
  sending := by rintro _ ⟨⟩
  sent := by simp [start]

theorem effect_vetted {a : Act} (ha : ∀ call, a ≠ .rule call) (h : Vetted connectors rules s) (hsafe : t.Safe)
    (he : Effect connectors s a t) : Vetted connectors rules t := by
  cases he with
  | rule call => exact absurd rfl (ha call)
  | dispatched hp hd =>
    rw [h.rules_eq] at hd
    obtain ⟨hn, hu⟩ := dispatchEvent_permitted (h.safe.processing _ hp) hd h.notify h.userActions
    exact { h with safe := hsafe, notify := hn, userActions := hu }
  | poppedNotify hs hne =>
    obtain ⟨hf, hr⟩ := forall_mem_pop hne h.notify
    refine { h with safe := hsafe, notify := hr, sending := ?_ }
    rintro _ ⟨⟩
    exact hf
  | @sent overflow now event publisher r hs hc hsend =>
    have ho := h.safe.sending event hs
    obtain ⟨m, hm, hw, hpub, -⟩ := sendEvent_relayed ho hsend
    have hallowed : Allowed connectors rules r.1 := by
      refine ⟨⟨m, hm⟩, ⟨event.header.twinId.toNat, ?_, ?_⟩, ?_⟩
      · rw [hpub]
        exact hc
      · intro y hy
        rw [hw] at hy
        cases ho with
        | @mk header u =>
          obtain ⟨p, -, rfl⟩ := List.mem_map.mp hy
          rfl
      · intro y hy
        rw [hw] at hy
        exact h.sending event hs y hy
    refine { h with safe := hsafe, sending := ?_, sent := ?_ }
    · rintro _ ⟨⟩
    · intro x hx
      rcases List.mem_append.mp hx with hx | hx
      · exact h.sent x hx
      · rw [List.mem_singleton.mp hx]
        exact hallowed
  | _ => exact { h with safe := hsafe }

end Engine

namespace EngineThreads

variable {connectors : Connectors Socket} {rules : Rules}

theorem run_vetted (hconn : ∀ t v, rules.action t v = .notifyUpwards →
    ∃ publisher, connectors.read t.toNat = some (some publisher)) (history sentHistory : History)
    (memory : TwinsMemory) (queueIn notifyQueue userActionsQueue : EventQueue) (acts : List ThreadAct) :
    ∃ t, Runs.run (step connectors) acts
        (start rules history sentHistory memory queueIn notifyQueue userActionsQueue) = some t ∧
      ∃ s, Runs.Reaches (Engine.step connectors)
        (Engine.start rules history sentHistory memory queueIn notifyQueue userActionsQueue) s ∧
        Refines connectors acts t s ∧ s.Vetted connectors rules := by
  refine run_keeps (fun s h => h.safe) ?_ ?_
    (start_refines rules history sentHistory memory queueIn notifyQueue userActionsQueue) (Engine.start_vetted ..)
  · intro s e h he
    exact (h.safe.sending e he).publisher hconn (h.sending e he)
  · intro a s s' ha h hstep
    refine Engine.effect_vetted ?_ h (Engine.step_keeps_safe h.safe hstep) (Engine.step_effect hstep)
    rintro call rfl
    exact ha

theorem threads_in_bounds (hconn : ∀ t v, rules.action t v = .notifyUpwards →
    ∃ publisher, connectors.read t.toNat = some (some publisher)) (history sentHistory : History)
    (memory : TwinsMemory) (queueIn notifyQueue userActionsQueue : EventQueue) (acts : List ThreadAct) :
    ∃ t, Runs.run (step connectors) acts
        (start rules history sentHistory memory queueIn notifyQueue userActionsQueue) = some t ∧
      (∀ e ∈ t.engine.queueIn.contents, WellFormed e) ∧
      ∀ e ∈ t.engine.dispatcher.notifyQueue.contents ++ t.engine.dispatcher.userActionsQueue.contents,
        Outgoing e := by
  obtain ⟨t, ht, s, -, hr, hs⟩ := run_vetted hconn history sentHistory memory queueIn notifyQueue userActionsQueue acts
  refine ⟨t, ht, ?_, ?_⟩
  · rw [hr.queueIn_contents]
    exact hs.safe.queueIn
  · intro e he
    rw [hr.notify_contents, ← hr.outside.userActions] at he
    rcases List.mem_append.mp he with he | he
    · exact hs.safe.notify e he
    · exact hs.safe.userActions e he

def fiveConnectors : Connectors Unit := fun i => if i.val < connectorCount then some () else none

def fiveRules : Rules where
  errorRules := fun _ => .ignore
  updateRules := fun t _ => if t.val < connectorCount then .notifyUpwards else .ignore

theorem fiveRules_connected (t : UInt32) (v : UInt16) (h : fiveRules.action t v = .notifyUpwards) :
    ∃ publisher, fiveConnectors.read t.toNat = some (some publisher) := by
  unfold Rules.action at h
  split_ifs at h with hin
  have hlt : t.toNat < connectorCount := by
    by_contra hge
    simp [fiveRules, hge] at h
  exact ⟨(), (read_of_lt _ hin.1).trans (congrArg some (if_pos hlt))⟩

theorem threads_in_bounds_overlapping :
    ∃ t : EngineThreads Unit, Runs.run (step fiveConnectors) overlappingActs
        (start fiveRules zeroedHistory zeroedHistory (fun _ => initialTwin) zeroedQueue zeroedQueue
          zeroedQueue) = some t ∧
      ∀ e ∈ t.engine.dispatcher.notifyQueue.contents ++ t.engine.dispatcher.userActionsQueue.contents,
        Outgoing e := by
  obtain ⟨t, ht, -, hout⟩ := threads_in_bounds fiveRules_connected zeroedHistory zeroedHistory
    (fun _ => initialTwin) zeroedQueue zeroedQueue zeroedQueue overlappingActs
  exact ⟨t, ht, hout⟩

/-- Whatever arrives and however the threads interleave, there is no fault, and only readings that the rules
pass on go out, each to the connector of its twin; the queues between hold only such readings. -/
theorem threads_vetted (hconn : ∀ t v, rules.action t v = .notifyUpwards →
    ∃ publisher, connectors.read t.toNat = some (some publisher)) (history sentHistory : History)
    (memory : TwinsMemory) (queueIn notifyQueue userActionsQueue : EventQueue) (acts : List ThreadAct) :
    ∃ t, Runs.run (step connectors) acts
        (start rules history sentHistory memory queueIn notifyQueue userActionsQueue) = some t ∧
      (∀ x ∈ t.engine.sent, Allowed connectors rules x) ∧
      (∀ e ∈ t.engine.dispatcher.notifyQueue.contents, Permitted rules .notifyUpwards e) ∧
      ∀ e ∈ t.engine.dispatcher.userActionsQueue.contents, Permitted rules .callUserService e := by
  obtain ⟨t, ht, s, -, hr, hs⟩ := run_vetted hconn history sentHistory memory queueIn notifyQueue userActionsQueue acts
  refine ⟨t, ht, ?_, ?_, ?_⟩
  · rw [← hr.outside.sent]
    exact hs.sent
  · rw [hr.notify_contents]
    exact hs.notify
  · rw [← hr.outside.userActions]
    exact hs.userActions

theorem threads_vetted_overlapping :
    ∃ t : EngineThreads Unit, Runs.run (step fun _ => some ()) overlappingActs
        (start ⟨fun _ => .ignore, fun _ _ => .notifyUpwards⟩ zeroedHistory zeroedHistory (fun _ => initialTwin)
          zeroedQueue zeroedQueue zeroedQueue) = some t ∧
      ∀ x ∈ t.engine.sent, Allowed (fun _ => some ()) ⟨fun _ => .ignore, fun _ _ => .notifyUpwards⟩ x := by
  obtain ⟨t, ht, hsent, -⟩ := threads_vetted (fun _ _ => routed_connected unit_connected) zeroedHistory zeroedHistory
    (fun _ => initialTwin) zeroedQueue zeroedQueue zeroedQueue overlappingActs
  exact ⟨t, ht, hsent⟩

theorem setUpdateRules_passes {r rules : Rules} {calls : List (UInt32 × UInt16 × RuleAction)}
    (h : (ruleEngineInit r).bind (setUpdateRules calls) = some rules) {t : UInt32} {v : UInt16}
    (hv : rules.action t v = .notifyUpwards) : (t, v, RuleAction.notifyUpwards) ∈ calls := by
  obtain ⟨r', hr, hignore⟩ := ruleEngineInit_ignores r
  rw [hr, Option.bind_some] at h
  rcases setUpdateRules_action h t v with he | hm
  · rw [hignore, hv] at he
    cases he
  · rwa [hv] at hm

theorem configured_sends {zmq : Zmq Socket} (hopen : openConnectors zmq = some connectors) (r : Rules)
    {calls : List (UInt32 × UInt16 × RuleAction)}
    (hcalls : ∀ t v, (t, v, RuleAction.notifyUpwards) ∈ calls → t.toNat < connectorCount)
    (history sentHistory : History) (memory : TwinsMemory) (queueIn notifyQueue userActionsQueue : EventQueue)
    (acts : List ThreadAct) :
    ∃ rules t, (ruleEngineInit r).bind (setUpdateRules calls) = some rules ∧
      Runs.run (step connectors) acts
        (start rules history sentHistory memory queueIn notifyQueue userActionsQueue) = some t ∧
      ∀ x ∈ t.engine.sent, (∃ m, Relayed x.bytes m) ∧ ∀ y ∈ wireEntries x.bytes,
        (y.twinId, y.update.varId, RuleAction.notifyUpwards) ∈ calls ∧
          connectors.read y.twinId.toNat = some (some x.publisher) ∧ Connected zmq connectors y.twinId := by
  obtain ⟨r', hr, -⟩ := ruleEngineInit_ignores r
  obtain ⟨rules, hrules⟩ := setUpdateRules_some calls r'
  have hconfigured : (ruleEngineInit r).bind (setUpdateRules calls) = some rules := by
    rw [hr, Option.bind_some, hrules]
  have hconnected : ∀ t v, rules.action t v = .notifyUpwards → Connected zmq connectors t :=
    fun t v hv => (connected_iff hopen t).mpr (hcalls t v (setUpdateRules_passes hconfigured hv))
  have hconn : ∀ t v, rules.action t v = .notifyUpwards →
      ∃ publisher, connectors.read t.toNat = some (some publisher) := by
    intro t v hv
    obtain ⟨publisher, -, hp, -⟩ := hconnected t v hv
    exact ⟨publisher, hp⟩
  obtain ⟨t, ht, s, -, hrefines, hs⟩ := run_vetted hconn history sentHistory memory queueIn notifyQueue
    userActionsQueue acts
  refine ⟨rules, t, hconfigured, ht, ?_⟩
  rw [← hrefines.outside.sent]
  intro x hx
  obtain ⟨hrelayed, ⟨i, hi, htwin⟩, hpermitted⟩ := hs.sent x hx
  refine ⟨hrelayed, ?_⟩
  intro y hy
  have hv := hpermitted y hy
  refine ⟨setUpdateRules_passes hconfigured hv, ?_, hconnected _ _ hv⟩
  rw [htwin y hy, hi]

theorem configured_sends_testCalls : ∃ connectors rules t, openConnectors workingZmq = some connectors ∧
    (ruleEngineInit ignoringRules).bind (setUpdateRules testCalls) = some rules ∧
    Runs.run (step connectors) overlappingActs (start rules zeroedHistory zeroedHistory (fun _ => initialTwin)
      zeroedQueue zeroedQueue zeroedQueue) = some t ∧
    ∀ x ∈ t.engine.sent, ∀ y ∈ wireEntries x.bytes, y.update.varId = 0 := by
  obtain ⟨connectors, hopen⟩ := workingZmq_opens
  have hcalls : ∀ t v, (t, v, RuleAction.notifyUpwards) ∈ testCalls → t.toNat < connectorCount ∧ v = 0 := by
    intro t v h
    simp only [testCalls, List.mem_cons, Prod.mk.injEq, List.not_mem_nil, or_false] at h
    rcases h with ⟨rfl, rfl, -⟩ | ⟨rfl, rfl, -⟩ | ⟨rfl, rfl, -⟩ | ⟨rfl, rfl, -⟩ | ⟨rfl, rfl, -⟩ <;> decide
  obtain ⟨rules, t, hrules, ht, hsent⟩ := configured_sends hopen ignoringRules (fun t v h => (hcalls t v h).1)
    zeroedHistory zeroedHistory (fun _ => initialTwin) zeroedQueue zeroedQueue zeroedQueue overlappingActs
  exact ⟨connectors, rules, t, hopen, hrules, ht, fun x hx y hy => (hcalls _ _ ((hsent x hx).2 y hy).1).2⟩

end EngineThreads

end OpenTwins
