import OpenTwins.EventDispatcher
import OpenTwins.EventSender
import OpenTwins.Runs

namespace OpenTwins

variable {Socket : Type}

def connectorCount : ℕ := 5

def Connected (zmq : Zmq Socket) (connectors : Connectors Socket) (twinId : UInt32) : Prop :=
  ∃ publisher url, connectors.read twinId.toNat = some (some publisher) ∧ zmq.connect publisher url = 0

def Opened (zmq : Zmq Socket) (k : ℕ) (connectors : Connectors Socket) : Prop :=
  ∀ i : Fin maxTwins, (i.val < k → ∃ publisher url, connectors i = some publisher ∧
    zmq.connect publisher url = 0) ∧ (k ≤ i.val → connectors i = none)

theorem openConnector_opened {zmq : Zmq Socket} {i : Fin maxTwins} {url : String}
    {connectors connectors' : Connectors Socket} (h : Opened zmq i.val connectors)
    (ho : openConnector zmq i url connectors = some connectors') : Opened zmq (i.val + 1) connectors' := by
  obtain ⟨publisher, -, hs⟩ := Option.bind_eq_some_iff.mp ho
  split_ifs at hs with hc
  cases hs
  intro j
  by_cases hj : j = i
  · subst hj
    rw [Function.update_self]
    exact ⟨fun _ => ⟨publisher, url, rfl, not_not.mp hc⟩, fun h => by omega⟩
  · have hne : j.val ≠ i.val := fun he => hj (Fin.ext he)
    rw [Function.update_of_ne hj]
    exact ⟨fun hlt => (h j).1 (by omega), fun hle => (h j).2 (by omega)⟩

theorem openConnectors_opened {zmq : Zmq Socket} {connectors : Connectors Socket}
    (h : openConnectors zmq = some connectors) : Opened zmq connectorCount connectors := by
  obtain ⟨c0, h0, h⟩ := Option.bind_eq_some_iff.mp h
  obtain ⟨c1, h1, h⟩ := Option.bind_eq_some_iff.mp h
  obtain ⟨c2, h2, h⟩ := Option.bind_eq_some_iff.mp h
  obtain ⟨c3, h3, h4⟩ := Option.bind_eq_some_iff.mp h
  have o0 : Opened zmq 1 c0 := openConnector_opened (i := 0) (fun _ => ⟨by simp, fun _ => rfl⟩) h0
  have o1 : Opened zmq 2 c1 := openConnector_opened (i := 1) o0 h1
  have o2 : Opened zmq 3 c2 := openConnector_opened (i := 2) o1 h2
  have o3 : Opened zmq 4 c3 := openConnector_opened (i := 3) o2 h3
  exact openConnector_opened (i := 4) o3 h4

theorem connected_iff {zmq : Zmq Socket} {connectors : Connectors Socket}
    (h : openConnectors zmq = some connectors) (twinId : UInt32) :
    Connected zmq connectors twinId ↔ twinId.toNat < connectorCount := by
  have ho := openConnectors_opened h
  constructor
  · rintro ⟨publisher, url, hr, -⟩
    by_contra hn
    by_cases ht : twinId.toNat < maxTwins
    · rw [FixedArray.read_of_lt _ ht, (ho ⟨_, ht⟩).2 (not_lt.mp hn)] at hr
      cases hr
    · rw [FixedArray.read, dif_neg ht] at hr
      cases hr
  · intro hlt
    have ht : twinId.toNat < maxTwins := hlt.trans (by decide)
    obtain ⟨publisher, url, hp, hc⟩ := (ho ⟨_, ht⟩).1 hlt
    exact ⟨publisher, url, by rw [FixedArray.read_of_lt _ ht, hp], hc⟩

def setUpdateRules (calls : List (UInt32 × UInt16 × RuleAction)) (r : Rules) : Option Rules :=
  Runs.run (fun c => setUpdateRule c.1 c.2.1 c.2.2) calls r

theorem setUpdateRules_some (calls : List (UInt32 × UInt16 × RuleAction)) (r : Rules) :
    ∃ r', setUpdateRules calls r = some r' := by
  induction calls generalizing r with
  | nil => exact ⟨r, rfl⟩
  | cons c calls ih =>
    obtain ⟨r1, h1, -⟩ := setUpdateRule_action r c.1 c.2.1 c.2.2
    obtain ⟨r', h⟩ := ih r1
    exact ⟨r', by rw [setUpdateRules, Runs.run, h1]; exact h⟩

theorem setUpdateRules_action {calls : List (UInt32 × UInt16 × RuleAction)} {r r' : Rules}
    (h : setUpdateRules calls r = some r') (t : UInt32) (v : UInt16) :
    r'.action t v = r.action t v ∨ (t, v, r'.action t v) ∈ calls := by
  induction calls generalizing r with
  | nil =>
    cases h
    exact .inl rfl
  | cons c calls ih =>
    obtain ⟨r1, h1, h⟩ := Option.bind_eq_some_iff.mp h
    obtain ⟨r2, h2, ha⟩ := setUpdateRule_action r c.1 c.2.1 c.2.2
    obtain rfl : r1 = r2 := Option.some.inj (h1.symm.trans h2)
    rcases ih h with he | hm
    · rw [ha] at he
      split_ifs at he with hc
      · obtain ⟨rfl, rfl, -⟩ := hc
        exact .inr (by simp [he])
      · exact .inl he
    · exact .inr (List.mem_cons_of_mem _ hm)

inductive Move
  | dispatch (clock : ℕ → UInt64) (header : EventHeader) (u : UpdateEvent)
  | pop

def Move.Valid : Move → Prop
  | .dispatch _ header u => header.type = eventUpdate ∧ u.count.toNat ≤ maxVarsPerEvent
  | .pop => True

structure Popping where
  dispatcher : Dispatcher
  popped : List Event

namespace Popping

def step (rules : Rules) : Move → Popping → Option Popping
  | .dispatch clock header u, s =>
    (dispatchEvent rules clock ⟨header, .update u⟩ s.dispatcher).map fun dispatcher => { s with dispatcher }
  | .pop, s => (popEvent s.dispatcher.notifyQueue zeroedEvent).map fun (rc, event, notifyQueue) =>
    { dispatcher := { s.dispatcher with notifyQueue }
      popped := if rc ≠ -1 then s.popped ++ [event] else s.popped }

def start (memory : TwinsMemory) (notifyQueue userActionsQueue : EventQueue) : Popping :=
  ⟨⟨memory, initQueue notifyQueue, initQueue userActionsQueue⟩, []⟩

structure AllRouted (rules : Rules) (s : Popping) : Prop where
  queue : ∀ e ∈ s.dispatcher.notifyQueue.contents, Routed rules e
  popped : ∀ e ∈ s.popped, Routed rules e

theorem pop_eq (rules : Rules) (s : Popping) :
    step rules .pop s = some (if s.dispatcher.notifyQueue.Empty then s else
      { dispatcher := { s.dispatcher with notifyQueue := s.dispatcher.notifyQueue.advanceTail }
        popped := s.popped ++ [s.dispatcher.notifyQueue.front] }) := by
  rw [step, popEvent_eq]
  split_ifs <;> rfl

theorem step_routed {rules : Rules} {a : Move} (ha : a.Valid) {s : Popping} (h : AllRouted rules s) :
    ∃ t, step rules a s = some t ∧ AllRouted rules t := by
  cases a with
  | dispatch clock header u =>
    obtain ⟨d, hd, -, hn, -⟩ := handleEventUpdate_spec rules clock header ha.2 s.dispatcher
    rw [step, dispatchEvent_update _ _ ha.1, hd, Option.map_some]
    exact ⟨_, rfl, { h with queue := forwards_routed hn h.queue }⟩
  | pop =>
    rw [pop_eq]
    refine ⟨_, rfl, ?_⟩
    split_ifs with he
    · exact h
    · obtain ⟨hf, hr⟩ := forall_mem_pop he h.queue
      refine ⟨hr, ?_⟩
      intro e hm
      rcases List.mem_append.mp hm with hm | hm
      · exact h.popped e hm
      · rw [List.mem_singleton.mp hm]
        exact hf

theorem run_routed {rules : Rules} {moves : List Move} (h : ∀ a ∈ moves, a.Valid) (memory : TwinsMemory)
    (notifyQueue userActionsQueue : EventQueue) :
    ∃ s, Runs.run (step rules) moves (start memory notifyQueue userActionsQueue) = some s ∧
      AllRouted rules s :=
  Runs.run_total (fun _ _ ha hs => step_routed ha hs) h ⟨by simp [start], by simp [start]⟩

def oneVariableBatch (varId : UInt16) : UpdateEvent := ⟨1, fun _ => ⟨varId, 0⟩⟩

def oneVariable (twinId : UInt32) (varId : UInt16) : List Move :=
  [.dispatch (fun _ => 0) ⟨eventUpdate, 0, 0, twinId⟩ (oneVariableBatch varId), .pop]

theorem oneVariable_valid (twinId : UInt32) (varId : UInt16) : ∀ a ∈ oneVariable twinId varId, a.Valid := by
  simp [oneVariable, oneVariableBatch, Move.Valid, maxVarsPerEvent]

theorem oneVariableBatch_entries (varId : UInt16) : (oneVariableBatch varId).entries = [⟨varId, 0⟩] := rfl

theorem oneVariable_popped {rules : Rules} {twinId : UInt32} {varId : UInt16}
    (h : rules.action twinId varId = .notifyUpwards) (memory : TwinsMemory)
    (notifyQueue userActionsQueue : EventQueue) :
    ∃ s, Runs.run (step rules) (oneVariable twinId varId) (start memory notifyQueue userActionsQueue) = some s ∧
      ∃ e ∈ s.popped, e.header.twinId = twinId := by
  obtain ⟨d, hd, -, hn, -⟩ := handleEventUpdate_spec rules (fun _ => 0) ⟨eventUpdate, 0, 0, twinId⟩
    (u := oneVariableBatch varId) (show 1 ≤ maxVarsPerEvent by decide)
    (start memory notifyQueue userActionsQueue).dispatcher
  simp only [oneVariableBatch_entries, List.filter_singleton, h, decide_true, cond_true] at hn
  rcases hn with ⟨hnil, -⟩ | ⟨-, u, -, -, hq⟩
  · cases hnil
  · have hcontents : d.notifyQueue.contents = [⟨⟨eventUpdate, 0, 0, twinId⟩, .update u⟩] := by
      rw [show d.notifyQueue = offer (initQueue notifyQueue) _ from hq, contents_offer,
        if_neg (initQueue_not_full notifyQueue), contents_initQueue, List.nil_append]
    have he : ¬ d.notifyQueue.Empty := by
      rw [← RingBuffer.contents_eq_nil, hcontents]
      simp
    rw [d.notifyQueue.contents_advanceTail he] at hcontents
    obtain ⟨hfront, -⟩ := List.cons.inj hcontents
    have hrun : Runs.run (step rules) (oneVariable twinId varId)
        (start memory notifyQueue userActionsQueue) = some {
          dispatcher := { d with notifyQueue := d.notifyQueue.advanceTail }
          popped := [d.notifyQueue.front] } := by
      rw [oneVariable, Runs.run, step, dispatchEvent_update _ _ rfl, hd, Option.map_some, Option.bind_some,
        Runs.run, pop_eq, if_neg he]
      rfl
    refine ⟨_, hrun, _, List.mem_singleton_self _, ?_⟩
    rw [hfront]

end Popping

theorem popped_connected_iff {zmq : Zmq Socket} {connectors : Connectors Socket}
    (hopen : openConnectors zmq = some connectors) (r : Rules) (calls : List (UInt32 × UInt16 × RuleAction))
    (memory : TwinsMemory) (notifyQueue userActionsQueue : EventQueue) :
    ∃ rules, (ruleEngineInit r).bind (setUpdateRules calls) = some rules ∧
      ((∀ moves : List Move, (∀ a ∈ moves, a.Valid) →
        ∃ s, Runs.run (Popping.step rules) moves (Popping.start memory notifyQueue userActionsQueue) = some s ∧
          ∀ e ∈ s.popped, Connected zmq connectors e.header.twinId) ↔
        ∀ t v, rules.action t v = .notifyUpwards → t.toNat < connectorCount) := by
  obtain ⟨r', hr, -⟩ := ruleEngineInit_ignores r
  obtain ⟨rules, hrules⟩ := setUpdateRules_some calls r'
  refine ⟨rules, by rw [hr, Option.bind_some, hrules], ?_, ?_⟩
  · intro h t v hv
    obtain ⟨s, hs, e, he, rfl⟩ := Popping.oneVariable_popped hv memory notifyQueue userActionsQueue
    obtain ⟨s', hs', hc⟩ := h _ (Popping.oneVariable_valid _ v)
    obtain rfl : s = s' := Option.some.inj (hs.symm.trans hs')
    exact (connected_iff hopen _).mp (hc e he)
  · intro h moves hm
    obtain ⟨s, hs, ha⟩ := Popping.run_routed hm memory notifyQueue userActionsQueue
    refine ⟨s, hs, fun e he => (connected_iff hopen _).mpr ?_⟩
    obtain ⟨v, hv⟩ := ha.popped e he
    exact h _ v hv

def workingZmq : Zmq ℕ := ⟨some, fun _ _ => 0⟩

theorem workingZmq_opens : ∃ connectors, openConnectors workingZmq = some connectors :=
  Option.isSome_iff_exists.mp (by decide)

def testCalls : List (UInt32 × UInt16 × RuleAction) :=
  [(0, 0, .notifyUpwards), (1, 0, .notifyUpwards), (2, 0, .notifyUpwards), (3, 0, .notifyUpwards),
    (4, 0, .notifyUpwards)]

theorem popped_connected_iff_testCalls :
    ∃ connectors rules, openConnectors workingZmq = some connectors ∧
      (ruleEngineInit ignoringRules).bind (setUpdateRules testCalls) = some rules ∧
      ∀ moves : List Move, (∀ a ∈ moves, a.Valid) →
        ∃ s, Runs.run (Popping.step rules) moves
            (Popping.start (fun _ => initialTwin) zeroedQueue zeroedQueue) = some s ∧
          ∀ e ∈ s.popped, Connected workingZmq connectors e.header.twinId := by
  obtain ⟨connectors, hopen⟩ := workingZmq_opens
  obtain ⟨rules, hrules, hiff⟩ := popped_connected_iff hopen ignoringRules testCalls (fun _ => initialTwin)
    zeroedQueue zeroedQueue
  refine ⟨connectors, rules, hopen, hrules, hiff.mpr ?_⟩
  intro t v hv
  obtain ⟨r, hr, hignore⟩ := ruleEngineInit_ignores ignoringRules
  rw [hr, Option.bind_some] at hrules
  rcases setUpdateRules_action hrules t v with h | h
  · rw [hignore, hv] at h
    cases h
  · simp only [testCalls, List.mem_cons, Prod.mk.injEq, List.not_mem_nil, or_false] at h
    rcases h with ⟨rfl, -⟩ | ⟨rfl, -⟩ | ⟨rfl, -⟩ | ⟨rfl, -⟩ | ⟨rfl, -⟩ <;> decide

theorem popped_not_connected :
    ∃ connectors rules s, openConnectors workingZmq = some connectors ∧
      (ruleEngineInit ignoringRules).bind (setUpdateRules [(7, 0, .notifyUpwards)]) = some rules ∧
      Runs.run (Popping.step rules) (Popping.oneVariable 7 0)
        (Popping.start (fun _ => initialTwin) zeroedQueue zeroedQueue) = some s ∧
      ∃ e ∈ s.popped, ¬ Connected workingZmq connectors e.header.twinId := by
  obtain ⟨connectors, hopen⟩ := workingZmq_opens
  obtain ⟨r, hr, -⟩ := ruleEngineInit_ignores ignoringRules
  obtain ⟨rules, hrules, ha⟩ := setUpdateRule_action r 7 0 .notifyUpwards
  have h7 : rules.action 7 0 = .notifyUpwards := by
    rw [ha, if_pos (by decide)]
  obtain ⟨s, hs, e, he, ht⟩ := Popping.oneVariable_popped h7 (fun _ => initialTwin) zeroedQueue zeroedQueue
  refine ⟨connectors, rules, s, hopen, ?_, hs, e, he, ?_⟩
  · simp only [hr, Option.bind_some, setUpdateRules, Runs.run, hrules]
  · rw [connected_iff hopen, ht]
    decide

end OpenTwins
