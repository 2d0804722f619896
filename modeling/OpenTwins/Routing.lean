import OpenTwins.Batching
import OpenTwins.EventDispatcher

/-!
Where `dispatch_event` sends the entries of an UPDATE. The handler gets a pointer to the event
and builds its two batches in copies of it; here what lies behind the pointer is passed along.
-/

namespace OpenTwins

open FixedArray

structure Handling where
  event : Event
  batchNotify : Event
  batchUserAction : Event

def clearCount (batch : Event) : Option Event :=
  batch.payload.asUpdate.map fun u => { batch with payload := .update { u with count := 0 } }

def addUpdate (p : PropertyUpdate) (batch : Event) : Option Event := do
  let u ← batch.payload.asUpdate
  let u ← u.append p
  return { batch with payload := .update u }

def routeUpdate (rules : Rules) (twinId : UInt32) (i : ℕ) (h : Handling) : Option Handling := do
  let u ← h.event.payload.asUpdate
  let p ← u.updates.read i
  match ← getUpdateRule rules twinId p.varId with
  | .notifyUpwards => return { h with batchNotify := ← addUpdate p h.batchNotify }
  | .callUserService => return { h with batchUserAction := ← addUpdate p h.batchUserAction }
  | .ignore | .haltEngine | .setTwinAlarm | .other _ => return h

def offerBatch (batch : Event) (q : EventQueue) : Option EventQueue := do
  let u ← batch.payload.asUpdate
  if u.count ≠ 0 then (pushEvent q batch).map Prod.snd else some q

def handleEventUpdateInPlace (rules : Rules) (clock : ℕ → UInt64) (event : Event) (d : Dispatcher) :
    Option (Event × Dispatcher) := do
  let u ← event.payload.asUpdate
  let twinId := event.header.twinId
  let memory ← forLoop (fun i m => (u.updates.read i).bind fun p =>
    twinsMemoryUpdateVar (clock i) twinId p.varId.toUInt8 p.value m) u.count.toNat d.memory
  let h ← forLoop (routeUpdate rules twinId) u.count.toNat ⟨event, ← clearCount event, ← clearCount event⟩
  let notifyQueue ← offerBatch h.batchNotify d.notifyQueue
  let userActionsQueue ← offerBatch h.batchUserAction d.userActionsQueue
  return (h.event, { memory, notifyQueue, userActionsQueue })

def dispatchEventInPlace (rules : Rules) (clock : ℕ → UInt64) (event : Event) (d : Dispatcher) :
    Option (Event × Dispatcher) :=
  if eventMax ≤ event.header.type then some (event, d)
  else (handlers.read event.header.type.toNat).bind fun handler =>
    match handler with
    | .update => handleEventUpdateInPlace rules clock event d
    | .error => (handleEventError rules event d).map fun d => (event, d)

def RuleBatches.handling (event : Event) (b : RuleBatches) : Handling where
  event := event
  batchNotify := ⟨event.header, .update b.notify⟩
  batchUserAction := ⟨event.header, .update b.userAction⟩

theorem addUpdate_eq (p : PropertyUpdate) (header : EventHeader) (u : UpdateEvent) :
    addUpdate p ⟨header, .update u⟩ = (u.append p).map fun u => ⟨header, .update u⟩ := by
  simp only [addUpdate, Payload.asUpdate, Option.bind_eq_bind, Option.bind_some]
  cases u.append p <;> rfl

theorem routeUpdate_eq (rules : Rules) (header : EventHeader) (u : UpdateEvent) (i : ℕ) (b : RuleBatches) :
    routeUpdate rules header.twinId i (b.handling ⟨header, .update u⟩) =
      ((u.updates.read i).bind fun p => applyRule rules header.twinId p b).map
        (RuleBatches.handling ⟨header, .update u⟩) := by
  rw [routeUpdate]
  simp only [RuleBatches.handling, Payload.asUpdate, Option.bind_eq_bind, Option.bind_some]
  cases u.updates.read i with
  | none => rfl
  | some p =>
    simp only [Option.bind_some, applyRule, getUpdateRule_eq, addUpdate_eq, Option.bind_eq_bind]
    cases rules.action header.twinId p.varId
    case notifyUpwards => cases b.notify.append p <;> rfl
    case callUserService => cases b.userAction.append p <;> rfl
    all_goals rfl

theorem offerBatch_eq (header : EventHeader) (u : UpdateEvent) (q : EventQueue) :
    offerBatch ⟨header, .update u⟩ q = pushBatch header u q := rfl

theorem dispatchEventInPlace_eq (rules : Rules) (clock : ℕ → UInt64) (event : Event) (d : Dispatcher) :
    dispatchEventInPlace rules clock event d = (dispatchEvent rules clock event d).map fun d' => (event, d') := by
  unfold dispatchEventInPlace dispatchEvent
  split_ifs
  · rfl
  cases handlers.read event.header.type.toNat with
  | none => rfl
  | some handler =>
    cases handler with
    | error => rfl
    | update =>
      obtain ⟨header, payload⟩ := event
      cases payload with
      | error e => rfl
      | update u =>
        have hloop := forLoop_map (fun i b => routeUpdate_eq rules header u i b) u.count.toNat
          ⟨{ u with count := 0 }, { u with count := 0 }⟩
        simp only [Option.bind_some, handleEventUpdateInPlace, handleEventUpdate, Payload.asUpdate, clearCount,
          Option.bind_eq_bind, Option.map_some, Option.map_bind]
        congr 1
        funext memory
        simp only [RuleBatches.handling] at hloop
        rw [hloop, Option.bind_map, Function.comp_apply, Option.map_bind]
        congr 1
        funext b
        simp only [Function.comp_apply, RuleBatches.handling, offerBatch_eq, Option.map_bind]
        rfl

def selection (rules : Rules) (header : EventHeader) (u : UpdateEvent) (action : RuleAction) :
    List PropertyUpdate :=
  u.entries.filter fun p => getUpdateRule rules header.twinId p.varId = some action

def Gathered (header : EventHeader) (ps : List PropertyUpdate) (es : List Event) : Prop :=
  if ps = [] then es = []
  else ∃ b : UpdateEvent, es = [⟨header, .update b⟩] ∧ b.count.toNat = ps.length ∧ b.entries = ps

theorem Forwards.gathered {header : EventHeader} {ps : List PropertyUpdate} {q q' : EventQueue}
    (h : Forwards header ps q q') : ∃ es, Gathered header ps es ∧ q' = offers q es := by
  unfold Gathered
  rcases h with ⟨hnil, rfl⟩ | ⟨hne, b, he, hc, rfl⟩
  · exact ⟨[], by rw [if_pos hnil], rfl⟩
  · exact ⟨[⟨header, .update b⟩], by rw [if_neg hne]; exact ⟨b, rfl, hc, he⟩, rfl⟩

theorem Gathered.updates {header : EventHeader} {ps : List PropertyUpdate} {es : List Event}
    (h : Gathered header ps es) : es.flatMap Event.updates = ps := by
  unfold Gathered at h
  split_ifs at h with hnil
  · rw [h, hnil]
    rfl
  · obtain ⟨b, rfl, -, he⟩ := h
    simpa [Event.updates] using he

theorem Gathered.contents {header : EventHeader} {ps : List PropertyUpdate} {es : List Event}
    (h : Gathered header ps es) (q : EventQueue) :
    (offers q es).contents = q.contents ++ if q.Full then [] else es := by
  have hlen : es.length ≤ 1 := by
    unfold Gathered at h
    split_ifs at h with hnil
    · simp [h]
    · obtain ⟨b, rfl, -, -⟩ := h
      simp
  rw [contents_offers]
  split_ifs with hfull
  · rw [q.full_iff_free.mp hfull, List.take_zero]
  · have hpos : q.free ≠ 0 := mt q.full_iff_free.mpr hfull
    rw [List.take_of_length_le (by omega)]

theorem selection_action (rules : Rules) (header : EventHeader) (u : UpdateEvent) (action : RuleAction) :
    selection rules header u action = u.entries.filter fun p => rules.action header.twinId p.varId = action := by
  simp only [selection, getUpdateRule_eq, Option.some.injEq]

theorem selection_in_range {rules : Rules} {header : EventHeader} {u : UpdateEvent} {action : RuleAction}
    (ha : action ≠ .ignore) {p : PropertyUpdate} (hp : p ∈ selection rules header u action) :
    header.twinId.toNat < maxTwins ∧ p.varId.toNat < maxVarsPerTwins := by
  rw [selection_action, List.mem_filter, decide_eq_true_eq] at hp
  apply Rules.action_bounds (r := rules)
  rw [hp.2]
  exact ha

/-- Each output queue is offered one event with the entries that its rule selects, or none, and
neither depends on whether the other has room. -/
theorem dispatchEvent_partition (rules : Rules) (clock : ℕ → UInt64) {header : EventHeader}
    (ht : header.type = eventUpdate) {u : UpdateEvent} (h : u.count.toNat ≤ maxVarsPerEvent) (d : Dispatcher) :
    ∃ d' notified called,
      dispatchEventInPlace rules clock ⟨header, .update u⟩ d = some (⟨header, .update u⟩, d') ∧
      Gathered header (selection rules header u .notifyUpwards) notified ∧
      Gathered header (selection rules header u .callUserService) called ∧
      (∀ p ∈ (notified ++ called).flatMap Event.updates,
        header.twinId.toNat < maxTwins ∧ p.varId.toNat < maxVarsPerTwins) ∧
      d'.notifyQueue = offers d.notifyQueue notified ∧
      d'.userActionsQueue = offers d.userActionsQueue called ∧
      d'.notifyQueue.contents = d.notifyQueue.contents ++ (if d.notifyQueue.Full then [] else notified) ∧
      d'.userActionsQueue.contents =
        d.userActionsQueue.contents ++ if d.userActionsQueue.Full then [] else called := by
  obtain ⟨d', hd, -, hn, hc⟩ := handleEventUpdate_spec rules clock header h d
  rw [← selection_action] at hn hc
  obtain ⟨notified, gn, qn⟩ := hn.gathered
  obtain ⟨called, gc, qc⟩ := hc.gathered
  refine ⟨d', notified, called, ?_, gn, gc, ?_, qn, qc, qn ▸ gn.contents _, qc ▸ gc.contents _⟩
  · rw [dispatchEventInPlace_eq, dispatchEvent_update rules clock ht, hd, Option.map_some]
  · intro p hp
    rw [List.flatMap_append, gn.updates, gc.updates, List.mem_append] at hp
    rcases hp with hp | hp
    · exact selection_in_range (by decide) hp
    · exact selection_in_range (by decide) hp

def allNotify : Rules := ⟨fun _ => .ignore, fun _ _ => .notifyUpwards⟩

def idleDispatcher : Dispatcher := ⟨fun _ => initialTwin, zeroedQueue, zeroedQueue⟩

theorem dispatchEvent_partition_allNotify :
    ∃ d', dispatchEventInPlace allNotify (fun _ => 0)
        ⟨⟨eventUpdate, 1, 0, 7⟩, .update ⟨2, fun i => ⟨UInt16.ofNat (15 * i), 0⟩⟩⟩ idleDispatcher =
          some (⟨⟨eventUpdate, 1, 0, 7⟩, .update ⟨2, fun i => ⟨UInt16.ofNat (15 * i), 0⟩⟩⟩, d') ∧
      d'.notifyQueue.contents.flatMap Event.updates = [⟨0, 0⟩, ⟨15, 0⟩] := by
  have ht : (EventHeader.mk eventUpdate 1 0 7).type = eventUpdate := rfl
  obtain ⟨d', notified, called, hd, gn, -, -, -, -, hn, -⟩ := dispatchEvent_partition allNotify (fun _ => 0)
    ht (u := ⟨2, fun i => ⟨UInt16.ofNat (15 * i), 0⟩⟩) (by decide) idleDispatcher
  refine ⟨d', hd, ?_⟩
  rw [hn, show idleDispatcher.notifyQueue.contents = [] from rfl, List.nil_append, if_neg (by decide), gn.updates]
  decide

end OpenTwins
