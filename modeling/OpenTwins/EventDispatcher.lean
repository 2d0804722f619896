import OpenTwins.EventQueue
import OpenTwins.RuleEngine
import OpenTwins.TwinsMemory

namespace OpenTwins

open FixedArray

inductive Handler
  | update
  | error

def handlers : FixedArray Handler eventMax.toNat := fun i => if i.val = eventUpdate.toNat then .update else .error

structure Dispatcher where
  memory : TwinsMemory
  notifyQueue : EventQueue
  userActionsQueue : EventQueue

structure RuleBatches where
  notify : UpdateEvent
  userAction : UpdateEvent

def applyRule (rules : Rules) (twinId : UInt32) (p : PropertyUpdate) (b : RuleBatches) : Option RuleBatches := do
  match ← getUpdateRule rules twinId p.varId with
  | .notifyUpwards => return { b with notify := ← b.notify.append p }
  | .callUserService => return { b with userAction := ← b.userAction.append p }
  | .ignore | .haltEngine | .setTwinAlarm | .other _ => return b

def pushBatch (header : EventHeader) (u : UpdateEvent) (q : EventQueue) : Option EventQueue :=
  if u.count ≠ 0 then (pushEvent q ⟨header, .update u⟩).map Prod.snd else some q

/-- `clock i` is the time when the `i`-th update is stored, under the low byte of its id. -/
def handleEventUpdate (rules : Rules) (clock : ℕ → UInt64) (event : Event) (d : Dispatcher) :
    Option Dispatcher := do
  let u ← event.payload.asUpdate
  let twinId := event.header.twinId
  let memory ← forLoop (fun i m => (u.updates.read i).bind fun p =>
    twinsMemoryUpdateVar (clock i) twinId p.varId.toUInt8 p.value m) u.count.toNat d.memory
  let batches ← forLoop (fun i b => (u.updates.read i).bind fun p => applyRule rules twinId p b)
    u.count.toNat ⟨{ u with count := 0 }, { u with count := 0 }⟩
  let notifyQueue ← pushBatch event.header batches.notify d.notifyQueue
  let userActionsQueue ← pushBatch event.header batches.userAction d.userActionsQueue
  return { memory, notifyQueue, userActionsQueue }

def handleEventError (rules : Rules) (event : Event) (d : Dispatcher) : Option Dispatcher := do
  let e ← event.payload.asError
  let _ ← ruleEngineGetActionForError rules e.errorCode
  return d

def dispatchEvent (rules : Rules) (clock : ℕ → UInt64) (event : Event) (d : Dispatcher) : Option Dispatcher :=
  if eventMax ≤ event.header.type then some d
  else (handlers.read event.header.type.toNat).bind fun handler =>
    match handler with
    | .update => handleEventUpdate rules clock event d
    | .error => handleEventError rules event d

def Stored (clock : ℕ → UInt64) (twinId : UInt32) (ps : List PropertyUpdate) (m m' : TwinsMemory) : Prop :=
  ∀ t, (∀ v, (m' t).vars v = ps.foldl (fun x p =>
      if t.val = twinId.toNat ∧ v.val = p.varId.toUInt8.toNat then p.value else x) ((m t).vars v)) ∧
    ((m' t).status = if t.val = twinId.toNat ∧ ∃ p ∈ ps, p.varId.toUInt8.toNat < maxVarsPerTwins then
      statusOk else (m t).status) ∧
    (m' t).lastUpdateMs = ps.zipIdx.foldl (fun x p =>
      if t.val = twinId.toNat ∧ p.1.varId.toUInt8.toNat < maxVarsPerTwins then clock p.2 * 1000 else x)
      (m t).lastUpdateMs

def Forwards (header : EventHeader) (ps : List PropertyUpdate) (q q' : EventQueue) : Prop :=
  (ps = [] ∧ q' = q) ∨ (ps ≠ [] ∧ ∃ u : UpdateEvent, u.entries = ps ∧ u.count.toNat = ps.length ∧
    q' = offer q ⟨header, .update u⟩)

def Routed (rules : Rules) (e : Event) : Prop := ∃ v, rules.action e.header.twinId v = .notifyUpwards

theorem forwards_routed {rules : Rules} {header : EventHeader} {ps : List PropertyUpdate} {q q' : EventQueue}
    (hf : Forwards header (ps.filter fun p => rules.action header.twinId p.varId = .notifyUpwards) q q')
    (h : ∀ e ∈ q.contents, Routed rules e) : ∀ e ∈ q'.contents, Routed rules e := by
  rcases hf with ⟨-, rfl⟩ | ⟨hne, u, -, -, rfl⟩
  · exact h
  · obtain ⟨p, hp⟩ := List.exists_mem_of_ne_nil _ hne
    rw [List.mem_filter, decide_eq_true_eq] at hp
    exact forall_mem_offer h ⟨p.varId, hp.2⟩

theorem stored_append {clock : ℕ → UInt64} {twinId : UInt32} {ps : List PropertyUpdate} {m m' : TwinsMemory}
    (p : PropertyUpdate) (h : Stored clock twinId ps m m') :
    Stored clock twinId (ps ++ [p]) m (updateVar (clock ps.length) twinId p.varId.toUInt8 p.value m') := by
  intro t
  obtain ⟨hv, hs, hl⟩ := h t
  unfold updateVar
  rw [List.zipIdx_append, List.foldl_append, ← hl, Nat.zero_add, List.zipIdx_singleton, List.foldl_cons,
    List.foldl_nil]
  by_cases h1 : t.val = twinId.toNat ∧ p.varId.toUInt8.toNat < maxVarsPerTwins
  · rw [if_pos h1, if_pos h1, if_pos ⟨h1.1, p, by simp, h1.2⟩]
    refine ⟨?_, rfl, rfl⟩
    intro v
    rw [List.foldl_append, ← hv, List.foldl_cons, List.foldl_nil]
    simp only [h1.1, true_and]
  · rw [if_neg h1, if_neg h1, hs]
    refine ⟨?_, if_congr ?_ rfl rfl, rfl⟩
    · intro v
      rw [List.foldl_append, ← hv, List.foldl_cons, List.foldl_nil, if_neg]
      rintro ⟨ht, hp⟩
      exact h1 ⟨ht, hp ▸ v.isLt⟩
    · simp only [List.mem_append, List.mem_singleton, or_and_right, exists_or, exists_eq_left]
      rw [and_or_left]
      exact (or_iff_left h1).symm

theorem storeUpdates_stored (clock : ℕ → UInt64) (twinId : UInt32) {u : UpdateEvent}
    (h : u.count.toNat ≤ maxVarsPerEvent) (m : TwinsMemory) :
    ∃ m', forLoop (fun i m => (u.updates.read i).bind fun p =>
        twinsMemoryUpdateVar (clock i) twinId p.varId.toUInt8 p.value m) u.count.toNat m = some m' ∧
      Stored clock twinId u.entries m m' := by
  refine forLoop_invariant (P := fun k m' => Stored clock twinId (u.updates.prefixList k) m m')
    (fun i hi m' hp => ?_) (fun t => by simp)
  have hi8 : i < maxVarsPerEvent := by omega
  have hstored := stored_append (u.updates ⟨i, hi8⟩) hp
  rw [prefixList_length _ hi8.le] at hstored
  rw [read_of_lt _ hi8, Option.bind_some, twinsMemoryUpdateVar_eq, prefixList_succ _ hi8]
  exact ⟨_, rfl, hstored⟩

structure Sorted (rules : Rules) (twinId : UInt32) (ps : List PropertyUpdate) (b : RuleBatches) : Prop where
  notify : b.notify.entries = ps.filter fun p => rules.action twinId p.varId = .notifyUpwards
  notify_count : b.notify.count.toNat = b.notify.entries.length
  userAction : b.userAction.entries = ps.filter fun p => rules.action twinId p.varId = .callUserService
  userAction_count : b.userAction.count.toNat = b.userAction.entries.length

theorem applyRule_sorted {rules : Rules} {twinId : UInt32} {ps : List PropertyUpdate} {b : RuleBatches}
    (p : PropertyUpdate) (h : Sorted rules twinId ps b) (hlen : ps.length < maxVarsPerEvent) :
    ∃ b', applyRule rules twinId p b = some b' ∧ Sorted rules twinId (ps ++ [p]) b' := by
  have hn : b.notify.count.toNat < maxVarsPerEvent := by
    rw [h.notify_count, h.notify]
    exact lt_of_le_of_lt (List.length_filter_le _ _) hlen
  have hu : b.userAction.count.toNat < maxVarsPerEvent := by
    rw [h.userAction_count, h.userAction]
    exact lt_of_le_of_lt (List.length_filter_le _ _) hlen
  obtain ⟨n, hn', he, hc⟩ := UpdateEvent.append_entries hn p
  obtain ⟨v, hv', he', hc'⟩ := UpdateEvent.append_entries hu p
  obtain ⟨h1, h2, h3, h4⟩ := h
  rw [applyRule, getUpdateRule_eq, Option.bind_eq_bind, Option.bind_some]
  cases ha : rules.action twinId p.varId
  case notifyUpwards =>
    simp only [hn']
    exact ⟨_, rfl, by simp [he, h1, ha], by simp [he, hc, h2], by simp [h3, ha], h4⟩
  case callUserService =>
    simp only [hv']
    exact ⟨_, rfl, by simp [h1, ha], h2, by simp [he', h3, ha], by simp [he', hc', h4]⟩
  all_goals exact ⟨b, rfl, by simp [h1, ha], h2, by simp [h3, ha], h4⟩

theorem applyRules_sorted (rules : Rules) (twinId : UInt32) {u : UpdateEvent}
    (h : u.count.toNat ≤ maxVarsPerEvent) :
    ∃ b, forLoop (fun i b => (u.updates.read i).bind fun p => applyRule rules twinId p b) u.count.toNat
        ⟨{ u with count := 0 }, { u with count := 0 }⟩ = some b ∧ Sorted rules twinId u.entries b := by
  refine forLoop_invariant (P := fun k b => Sorted rules twinId (u.updates.prefixList k) b)
    (fun i hi b hp => ?_) ⟨by simp [UpdateEvent.entries], by simp [UpdateEvent.entries],
      by simp [UpdateEvent.entries], by simp [UpdateEvent.entries]⟩
  have hi8 : i < maxVarsPerEvent := by omega
  rw [read_of_lt _ hi8, Option.bind_some, prefixList_succ _ hi8]
  exact applyRule_sorted _ hp (by rwa [prefixList_length _ hi8.le])

theorem pushBatch_forwards (header : EventHeader) {u : UpdateEvent} (h : u.count.toNat = u.entries.length)
    (q : EventQueue) : ∃ q', pushBatch header u q = some q' ∧ Forwards header u.entries q q' := by
  by_cases hc : u.count = 0
  · rw [hc] at h
    exact ⟨q, if_neg (not_not.mpr hc), .inl ⟨List.length_eq_zero_iff.mp h.symm, rfl⟩⟩
  · refine ⟨offer q ⟨header, .update u⟩, ?_, .inr ⟨fun he => hc ?_, u, rfl, h, rfl⟩⟩
    · rw [pushBatch, if_pos hc, pushEvent_offer, Option.map_some]
    · rw [he] at h
      exact UInt8.toNat_inj.mp h

theorem handleEventUpdate_spec (rules : Rules) (clock : ℕ → UInt64) (header : EventHeader) {u : UpdateEvent}
    (h : u.count.toNat ≤ maxVarsPerEvent) (d : Dispatcher) :
    ∃ d', handleEventUpdate rules clock ⟨header, .update u⟩ d = some d' ∧
      Stored clock header.twinId u.entries d.memory d'.memory ∧
      Forwards header (u.entries.filter fun p => rules.action header.twinId p.varId = .notifyUpwards)
        d.notifyQueue d'.notifyQueue ∧
      Forwards header (u.entries.filter fun p => rules.action header.twinId p.varId = .callUserService)
        d.userActionsQueue d'.userActionsQueue := by
  obtain ⟨m, hm, hs⟩ := storeUpdates_stored clock header.twinId h d.memory
  obtain ⟨b, hb, s1, s2, s3, s4⟩ := applyRules_sorted rules header.twinId h
  obtain ⟨q, hq, f⟩ := pushBatch_forwards header s2 d.notifyQueue
  obtain ⟨q', hq', f'⟩ := pushBatch_forwards header s4 d.userActionsQueue
  rw [s1] at f
  rw [s3] at f'
  refine ⟨⟨m, q, q'⟩, ?_, hs, f, f'⟩
  simp only [handleEventUpdate, Payload.asUpdate, Option.bind_eq_bind, Option.bind_some, hm, hb, hq, hq']
  rfl

theorem dispatchEvent_update (rules : Rules) (clock : ℕ → UInt64) {header : EventHeader}
    (ht : header.type = eventUpdate) (u : UpdateEvent) (d : Dispatcher) :
    dispatchEvent rules clock ⟨header, .update u⟩ d = handleEventUpdate rules clock ⟨header, .update u⟩ d := by
  simp only [dispatchEvent, ht]
  rfl

theorem dispatchEvent_error (rules : Rules) (clock : ℕ → UInt64) {header : EventHeader}
    (ht : header.type = eventError) (e : ErrorEvent) (d : Dispatcher) :
    dispatchEvent rules clock ⟨header, .error e⟩ d = some d := by
  obtain ⟨action, ha⟩ := ruleEngineGetActionForError_some rules e.errorCode
  have hd : dispatchEvent rules clock ⟨header, .error e⟩ d = handleEventError rules ⟨header, .error e⟩ d := by
    simp only [dispatchEvent, ht]
    rfl
  rw [hd, handleEventError, Payload.asError, Option.bind_eq_bind, Option.bind_some, ha]
  rfl

end OpenTwins
