import OpenTwins.Outbound

namespace OpenTwins

open MessagePack FixedArray

variable {Socket : Type}

def called (rules : Rules) (e : Event) : List Entry :=
  e.entries.filter fun x => rules.action x.twinId x.update.varId = .callUserService

def userBatches (rules : Rules) (es : List Event) : List (List Entry) :=
  (es.map (called rules)).filter (· ≠ [])

theorem userBatches_append (rules : Rules) (es : List Event) (e : Event) :
    userBatches rules (es ++ [e]) = userBatches rules es ++ if called rules e = [] then [] else [called rules e] := by
  rw [userBatches, List.map_append, List.filter_append, List.map_singleton, List.filter_singleton]
  split_ifs with h <;> simp [userBatches, h]

theorem called_update (rules : Rules) (header : EventHeader) (u : UpdateEvent) :
    called rules ⟨header, .update u⟩ =
      (u.entries.filter fun p => rules.action header.twinId p.varId = .callUserService).map
        (Entry.mk header.timestamp header.twinId) := by
  rw [called, entries_update, List.filter_map]
  rfl

theorem offers_append (q : EventQueue) (es : List Event) (e : Event) :
    offers q (es ++ [e]) = offer (offers q es) e := by
  rw [offers, List.foldl_append]
  rfl

def Offered (rules : Rules) (q₀ q : EventQueue) (dispatched : List Event) : Prop :=
  ∃ es, q = offers (initQueue q₀) es ∧ es.map Event.entries = userBatches rules dispatched

theorem Offered.forwards {rules : Rules} {q₀ q q' : EventQueue} {dispatched : List Event} {header : EventHeader}
    {u : UpdateEvent} (h : Offered rules q₀ q dispatched)
    (hf : Forwards header (u.entries.filter fun p => rules.action header.twinId p.varId = .callUserService) q q') :
    Offered rules q₀ q' (dispatched ++ [⟨header, .update u⟩]) := by
  obtain ⟨es, rfl, hes⟩ := h
  rcases hf with ⟨hnil, rfl⟩ | ⟨hne, b, hb, -, rfl⟩
  · refine ⟨es, rfl, ?_⟩
    rw [userBatches_append, called_update, hnil, List.map_nil, if_pos rfl, List.append_nil, hes]
  · refine ⟨es ++ [⟨header, .update b⟩], (offers_append _ _ _).symm, ?_⟩
    have hcalled : called rules ⟨header, .update u⟩ ≠ [] := by
      rw [called_update]
      exact fun he => hne (List.map_eq_nil_iff.mp he)
    rw [userBatches_append, if_neg hcalled, List.map_append, hes, List.map_singleton, entries_update, hb,
      called_update]

theorem dispatchEvent_offered {rules : Rules} {q₀ : EventQueue} {clock : ℕ → UInt64} {e : Event}
    {d d' : Dispatcher} {dispatched : List Event} (he : WellFormed e)
    (hd : dispatchEvent rules clock e d = some d') (h : Offered rules q₀ d.userActionsQueue dispatched) :
    Offered rules q₀ d'.userActionsQueue (dispatched ++ [e]) := by
  cases he with
  | @update header u ht hpos hle =>
    obtain ⟨d1, hd1, -, -, hu⟩ := handleEventUpdate_spec rules clock header hle d
    rw [dispatchEvent_update _ _ ht, hd1] at hd
    cases hd
    exact h.forwards hu
  | @error header ev ht =>
    rw [dispatchEvent_error _ _ ht] at hd
    cases hd
    obtain ⟨es, hq, hes⟩ := h
    refine ⟨es, hq, ?_⟩
    rw [userBatches_append, if_pos (show called rules ⟨header, .error ev⟩ = [] from rfl), List.append_nil, hes]

theorem free_initQueue (q : EventQueue) : (initQueue q).free = queueSize - 1 := by
  have hlen := (initQueue q).length_contents
  rw [contents_initQueue] at hlen
  rw [RingBuffer.free, ← hlen]
  rfl

theorem Offered.contents {rules : Rules} {q₀ q : EventQueue} {dispatched : List Event}
    (h : Offered rules q₀ q dispatched) :
    q.contents.map Event.entries = (userBatches rules dispatched).take (queueSize - 1) := by
  obtain ⟨es, rfl, hes⟩ := h
  rw [contents_offers, contents_initQueue, List.nil_append, free_initQueue, List.map_take, hes]

namespace Engine

variable {connectors : Connectors Socket} {rules : Rules} {s t : Engine Socket}

structure Calls (rules : Rules) (q₀ : EventQueue) (s : Engine Socket) : Prop where
  safe : s.Safe
  rules_eq : s.rules = rules
  offered : Offered rules q₀ s.dispatcher.userActionsQueue (s.dispatched.map (·.1))

theorem effect_calls {q₀ : EventQueue} {a : Act} (ha : ∀ call, a ≠ .rule call) (h : Calls rules q₀ s)
    (hsafe : t.Safe) (he : Effect connectors s a t) : Calls rules q₀ t := by
  cases he with
  | rule call => exact absurd rfl (ha call)
  | dispatched hp hd =>
    rw [h.rules_eq] at hd
    refine ⟨hsafe, h.rules_eq, ?_⟩
    rw [List.map_append]
    exact dispatchEvent_offered (h.safe.processing _ hp) hd h.offered
  | _ => exact { h with safe := hsafe }

end Engine

namespace EngineThreads

variable {connectors : Connectors Socket} {acts : List ThreadAct} {rules : Rules}

theorem threads_user_actions (rules : Rules) (history sentHistory : History) (memory : TwinsMemory)
    (queueIn notifyQueue userActionsQueue : EventQueue) {t : EngineThreads Socket}
    (h : Runs.run (step connectors) acts
      (start rules history sentHistory memory queueIn notifyQueue userActionsQueue) = some t) :
    t.engine.dispatcher.userActionsQueue.contents.map Event.entries =
      (userBatches rules (t.engine.dispatched.map (·.1))).take (queueSize - 1) := by
  have hstep : ∀ a (s s' : Engine Socket), StandsFor acts a → s.Calls rules userActionsQueue →
      Engine.step connectors a s = some s' → s'.Calls rules userActionsQueue := by
    intro a s s' ha h hstep
    refine Engine.effect_calls ?_ h (Engine.step_keeps_safe h.safe hstep) (Engine.step_effect hstep)
    rintro call rfl
    exact ha
  obtain ⟨as, s, hs, has, hr⟩ := run_matched (fun _ ha => ha)
    (start_refines rules history sentHistory memory queueIn notifyQueue userActionsQueue)
    (Engine.start_safe ..) h
  have hcalls : s.Calls rules userActionsQueue :=
    Runs.run_keeps hstep has ⟨Engine.start_safe .., rfl, [], rfl, rfl⟩ hs
  rw [← hr.outside.userActions, ← hr.outside.dispatched]
  exact hcalls.offered.contents

def callingRules : Rules := ⟨fun _ => .ignore, fun _ _ => .callUserService⟩

theorem threads_user_actions_overlapping :
    ∃ t : EngineThreads Unit, Runs.run (step fiveConnectors) overlappingActs
        (start callingRules zeroedHistory zeroedHistory (fun _ => initialTwin) zeroedQueue zeroedQueue
          zeroedQueue) = some t ∧
      t.engine.dispatcher.userActionsQueue.contents.map Event.entries = [[⟨1, 0, ⟨5, 0x3f800000⟩⟩]] := by
  have hbatches : (Runs.run (step fiveConnectors) overlappingActs (start callingRules zeroedHistory zeroedHistory
      (fun _ => initialTwin) zeroedQueue zeroedQueue zeroedQueue)).map
        (fun t => userBatches callingRules (t.engine.dispatched.map (·.1))) =
      some [[⟨1, 0, ⟨5, 0x3f800000⟩⟩]] := by
    decide
  obtain ⟨t, ht, hbatches⟩ := Option.map_eq_some_iff.mp hbatches
  refine ⟨t, ht, ?_⟩
  rw [threads_user_actions callingRules zeroedHistory zeroedHistory (fun _ => initialTwin) zeroedQueue zeroedQueue
    zeroedQueue ht, hbatches]
  rfl

end EngineThreads

end OpenTwins
