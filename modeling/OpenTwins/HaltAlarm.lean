import OpenTwins.ProcessorLoop
import OpenTwins.Temporal

namespace OpenTwins

open Snapshots Runs

inductive HasRule (rules : Rules) (action : RuleAction) : Event → Prop
  | error {header : EventHeader} {e : ErrorEvent}
      (rule : ruleEngineGetActionForError rules e.errorCode = some action) :
      HasRule rules action ⟨header, .error e⟩
  | update {header : EventHeader} {u : UpdateEvent} {p : PropertyUpdate} (mem : p ∈ u.entries)
      (rule : getUpdateRule rules header.twinId p.varId = some action) : HasRule rules action ⟨header, .update u⟩

def Event.InRange (e : Event) : Prop :=
  ∃ u, e.payload = .update u ∧ ∃ p ∈ u.entries, p.varId.toNat < maxVarsPerTwins

def Event.Stores (e : Event) : Prop :=
  ∃ u, e.payload = .update u ∧ ∃ p ∈ u.entries, p.varId.toUInt8.toNat < maxVarsPerTwins

namespace Record

def Dispatch : Record → Prop
  | .dispatched .. => True
  | .requested _ => False

def Applies (action : RuleAction) : Record → Prop
  | .dispatched rules event _ _ => HasRule rules action event
  | .requested _ => False

def Raises (t : UInt32) : Record → Prop
  | .dispatched rules event _ _ => event.header.twinId = t ∧ HasRule rules .setTwinAlarm event
  | .requested _ => False

def Touches (t : UInt32) : Record → Prop
  | .dispatched _ event _ _ => event.header.twinId = t ∧ event.InRange
  | .requested req => GenuineDelete req.bytes t.toNat

def Contained : Record → Prop
  | .dispatched _ event before after =>
    ∀ i : Fin maxTwins, i.val ≠ event.header.twinId.toNat → after i = before i
  | .requested _ => True

end Record

namespace ProcessorLoop

variable {Socket : Type}

def Alarmed (s : ProcessorLoop Socket) (t : UInt32) : Prop :=
  Since (Record.Raises t) (fun x => ¬ x.Touches t) s.log

structure InEffect (s : ProcessorLoop Socket) : Prop where
  halted : ∀ x ∈ s.log, x.Applies .haltEngine → s.keepRunning = false
  last : s.log.Pairwise fun x y => x.Applies .haltEngine → ¬ y.Dispatch
  alarmed : ∀ t, t.toNat < maxTwins → s.Alarmed t → twinsMemoryGetStatus t s.memory = some 1
  contained : ∀ x ∈ s.log, x.Contained

/-- The event finds in place what its rule asks for, and an update does not write to a twin that is
in alarm under an identifier out of range. -/
structure InPlace (s : ProcessorLoop Socket) (e : Event) : Prop where
  halt : HasRule s.engine.rules .haltEngine e → s.keepRunning = false
  alarm : e.header.twinId.toNat < maxTwins → HasRule s.engine.rules .setTwinAlarm e →
    e.header.type = eventError ∧ twinsMemoryGetStatus e.header.twinId s.memory = some 1
  update : e.header.twinId.toNat < maxTwins → s.Alarmed e.header.twinId → e.Stores → e.InRange

def Meets : LoopAct → ProcessorLoop Socket → Prop
  | .engine (.dispatch _), s => ∀ e, s.stage = .dispatching → s.engine.processing = some e → s.InPlace e
  | .engine (.request _ _ req), s => ∀ t : UInt32, t.toNat < maxTwins → s.Alarmed t →
    TakenForDelete req t.toNat → GenuineDelete req.bytes t.toNat
  | _, _ => True

end ProcessorLoop

section status

variable {m m' : TwinsMemory} {t : UInt32}

theorem getStatus_congr (h : ∀ i : Fin maxTwins, i.val = t.toNat → (m' i).status = (m i).status) :
    twinsMemoryGetStatus t m' = twinsMemoryGetStatus t m := by
  by_cases ht : t.toNat < maxTwins
  · rw [twinsMemoryGetStatus_eq m' ht, twinsMemoryGetStatus_eq m ht, h ⟨t.toNat, ht⟩ rfl]
  · rw [twinsMemoryGetStatus, twinsMemoryGetStatus, if_pos (not_lt.mp ht), if_pos (not_lt.mp ht)]

theorem getStatus_disconnect (ht : t.toNat < maxTwins) :
    twinsMemoryGetStatus t (disconnect t.toNat m) = some 2 := by
  rw [twinsMemoryGetStatus_eq _ ht, disconnect, if_pos rfl]
  rfl

theorem getStatus_disconnect_of_ne {k : ℕ} (h : k ≠ t.toNat) :
    twinsMemoryGetStatus t (disconnect k m) = twinsMemoryGetStatus t m := by
  apply getStatus_congr
  intro i hi
  rw [disconnect, if_neg]
  intro hk
  exact h (hk.symm.trans hi)

end status

theorem updateStores_contained {now : UInt64} {twinId : UInt32} {varId : UInt8} {value : UInt32} {x : Store}
    (hx : x ∈ updateStores now twinId varId value) {i : Fin maxTwins} (hi : i.val ≠ twinId.toNat)
    (m : TwinsMemory) : x.apply m i = m i := by
  unfold updateStores at hx
  split_ifs at hx with h
  · have hne : i ≠ ⟨twinId.toNat, h.1⟩ := fun he => hi (congrArg Fin.val he)
    simp only [List.mem_cons, List.not_mem_nil, or_false] at hx
    rcases hx with rfl | rfl | rfl <;> exact Function.update_of_ne hne _ _
  · simp at hx

theorem stores_contained {e : Dispatch} {i : Fin maxTwins} (hi : i.val ≠ e.twinId.toNat) (m : TwinsMemory) :
    (e.stores.foldl Store.apply m) i = m i := by
  have hall : ∀ x ∈ e.stores, ∀ m : TwinsMemory, x.apply m i = m i := by
    intro x hx m
    obtain ⟨p, -, hx⟩ := List.mem_flatMap.mp hx
    exact updateStores_contained hx hi m
  generalize e.stores = xs at hall
  induction xs generalizing m with
  | nil => rfl
  | cons x xs ih =>
    rw [List.foldl_cons, ih _ fun y hy => hall y (by simp [hy])]
    exact hall x (by simp) m

structure StatusEffect (e : Event) (m m' : TwinsMemory) : Prop where
  contained : ∀ i : Fin maxTwins, i.val ≠ e.header.twinId.toNat → m' i = m i
  stored : e.header.twinId.toNat < maxTwins → e.Stores → twinsMemoryGetStatus e.header.twinId m' = some 0
  kept : ¬ e.Stores → ∀ t, twinsMemoryGetStatus t m' = twinsMemoryGetStatus t m

theorem dispatchEvent_status (rules : Rules) (clock : ℕ → UInt64) {e : Event} (he : WellFormed e)
    (d : Dispatcher) : ∃ d', dispatchEvent rules clock e d = some d' ∧ StatusEffect e d.memory d'.memory := by
  cases he with
  | @update header u ht hpos hle =>
    obtain ⟨d', hd, hs, -⟩ := handleEventUpdate_spec rules clock header hle d
    obtain ⟨d'', hd', hm⟩ := handleEventUpdate_stores rules clock header hle d
    obtain rfl : d' = d'' := Option.some.inj (hd.symm.trans hd')
    refine ⟨d', (dispatchEvent_update rules clock ht u d).trans hd, ?_, ?_, ?_⟩
    · intro i hi
      rw [hm]
      exact stores_contained hi _
    · rintro hlt ⟨u', hu, hp⟩
      cases hu
      rw [twinsMemoryGetStatus_eq _ hlt, (hs ⟨_, hlt⟩).2.1, if_pos ⟨rfl, hp⟩]
      rfl
    · intro hn t
      apply getStatus_congr
      intro i _
      rw [(hs i).2.1, if_neg]
      rintro ⟨-, hp⟩
      exact hn ⟨u, rfl, hp⟩
  | @error header e ht hnul =>
    refine ⟨d, dispatchEvent_error rules clock ht e d, ?_, ?_, ?_⟩
    · exact fun i _ => rfl
    · rintro - ⟨u, hu, -⟩
      cases hu
    · exact fun _ t => rfl

theorem HasRule.stores {rules : Rules} {header : EventHeader} {u : UpdateEvent}
    (h : HasRule rules .setTwinAlarm ⟨header, .update u⟩) : Event.Stores ⟨header, .update u⟩ := by
  cases h with
  | @update _ _ p hp hrule =>
    rw [getUpdateRule_eq, Option.some.injEq] at hrule
    have hlt := (Rules.action_bounds (r := rules) (by rw [hrule]; simp)).2
    refine ⟨u, rfl, p, hp, ?_⟩
    rw [UInt16.toNat_toUInt8]
    exact (Nat.mod_le _ _).trans_lt hlt

theorem WellFormed.not_stores {e : Event} (he : WellFormed e) (ht : e.header.type = eventError) : ¬ e.Stores := by
  rintro ⟨u, hu, -⟩
  cases he with
  | update ht' =>
    rw [ht'] at ht
    exact absurd ht (by decide)
  | error => cases hu

namespace ProcessorLoop

variable {Socket : Type} {connectors : Connectors Socket} {s t : ProcessorLoop Socket}

structure Invariant (s : ProcessorLoop Socket) : Prop where
  safe : s.engine.Safe
  inEffect : s.InEffect
  idle : ∀ x ∈ s.log, x.Applies .haltEngine → s.stage = .testing ∨ s.stage = .finished

theorem start_invariant (rules : Rules) (history sentHistory : History) (memory : TwinsMemory)
    (queueIn notifyQueue userActionsQueue : EventQueue) :
    Invariant (start rules history sentHistory memory queueIn notifyQueue userActionsQueue :
      ProcessorLoop Socket) where
  safe := Engine.start_safe ..
  inEffect := by
    constructor
    · simp [start]
    · simp [start]
    · intro t _ h
      exact absurd h since_nil
    · simp [start]
  idle := by simp [start]

theorem Invariant.quiet (h : s.Invariant) (safe : t.engine.Safe) (log : t.log = s.log)
    (memory : t.memory = s.memory) (stopped : s.keepRunning = false → t.keepRunning = false)
    (idle : s.keepRunning = false → s.stage = .testing ∨ s.stage = .finished →
      t.stage = .testing ∨ t.stage = .finished) : t.Invariant := by
  obtain ⟨halted, last, alarmed, contained⟩ := h.inEffect
  refine ⟨safe, ⟨?_, ?_, ?_, ?_⟩, ?_⟩
  · rw [log]
    exact fun x hx hap => stopped (halted x hx hap)
  · rwa [log]
  · unfold Alarmed
    rw [log, memory]
    exact alarmed
  · rwa [log]
  · rw [log]
    exact fun x hx hap => idle (halted x hx hap) (h.idle x hx hap)

theorem step_dispatch (connectors : Connectors Socket) (h : s.engine.Safe) (clock : ℕ → UInt64) {e : Event} (hstage : s.stage = .dispatching)
    (he : s.engine.processing = some e) :
    ∃ engine, step connectors (.engine (.dispatch clock)) s = some { s with
        engine
        stage := .testing
        log := s.log ++ [.dispatched s.engine.rules e s.memory engine.dispatcher.memory] } ∧
      engine.Safe ∧ StatusEffect e s.memory engine.dispatcher.memory := by
  obtain ⟨engine, hd, hsafe⟩ := Engine.dispatch_safe h clock (h.processing e he)
  obtain ⟨d', hd', heff⟩ := dispatchEvent_status s.engine.rules clock (h.processing e he) s.engine.dispatcher
  refine ⟨engine, ?_, hsafe, ?_⟩
  · simp only [step, hstage, he, hd, Option.map_some]
  · rw [Engine.dispatch, hd', Option.map_some, Option.some.injEq] at hd
    subst hd
    exact heff

theorem step_request (connectors : Connectors Socket) (h : s.engine.Safe) (type : ItemType) (item : ItemAs) (req : Pointer) :
    ∃ engine, step connectors (.engine (.request type item req)) s =
        some { s with engine, log := s.log ++ [.requested req] } ∧ engine.Safe ∧
      (∀ k, TakenForDelete req k → engine.dispatcher.memory = disconnect k s.memory) ∧
      ((∀ k, ¬ TakenForDelete req k) → engine.dispatcher.memory = s.memory) := by
  obtain ⟨reply, m, hm, htaken, hnot⟩ := handleRequest_memory type item req s.memory
  have hstep : Engine.step connectors (.request type item req) s.engine =
      some { s.engine with dispatcher := { s.engine.dispatcher with memory := m } } := by
    rw [Engine.step, hm, Option.map_some]
  exact ⟨_, by rw [step, hstep, Option.map_some], Engine.step_keeps_safe h hstep, htaken, hnot⟩

theorem InEffect.record {x : Record} (h : s.InEffect) (log : t.log = s.log ++ [x])
    (same : t.keepRunning = s.keepRunning) (halt : x.Applies .haltEngine → s.keepRunning = false)
    (last : x.Dispatch → ∀ y ∈ s.log, ¬ y.Applies .haltEngine) (contained : x.Contained)
    (raised : ∀ k, k.toNat < maxTwins → x.Raises k → twinsMemoryGetStatus k t.memory = some 1)
    (kept : ∀ k, k.toNat < maxTwins → s.Alarmed k → ¬ x.Touches k →
      twinsMemoryGetStatus k t.memory = twinsMemoryGetStatus k s.memory) : t.InEffect := by
  constructor
  · rw [log, same]
    intro y hy hap
    rcases List.mem_append.mp hy with hy | hy
    · exact h.halted y hy hap
    · exact halt (List.mem_singleton.mp hy ▸ hap)
  · rw [log]
    apply List.pairwise_append.mpr
    refine ⟨h.last, List.pairwise_singleton _ _, ?_⟩
    intro y hy z hz hap hdisp
    exact last (List.mem_singleton.mp hz ▸ hdisp) y hy hap
  · intro k hk hal
    rw [Alarmed, log] at hal
    rcases since_concat.mp hal with hraised | ⟨hal, htouch⟩
    · exact raised k hk hraised
    · exact (kept k hk hal htouch).trans (h.alarmed k hk hal)
  · rw [log]
    intro y hy
    rcases List.mem_append.mp hy with hy | hy
    · exact h.contained y hy
    · exact List.mem_singleton.mp hy ▸ contained

theorem Invariant.dispatch {e : Event} {engine : Engine Socket} (h : s.Invariant)
    (hstage : s.stage = .dispatching) (he : WellFormed e) (hq : s.InPlace e) (safe : engine.Safe)
    (heff : StatusEffect e s.memory engine.dispatcher.memory) : Invariant { s with
      engine
      stage := .testing
      log := s.log ++ [.dispatched s.engine.rules e s.memory engine.dispatcher.memory] } := by
  refine ⟨safe, h.inEffect.record rfl rfl hq.halt ?_ heff.contained ?_ ?_, fun _ _ _ => .inl rfl⟩
  · -- after a halt the loop does not come to dispatch
    intro _ x hx hap
    have hidle := h.idle x hx hap
    rw [hstage] at hidle
    simp at hidle
  · rintro k hk ⟨rfl, hrule⟩
    obtain ⟨htype, hstatus⟩ := hq.alarm hk hrule
    exact (heff.kept (he.not_stores htype) _).trans hstatus
  · intro k hk hal htouch
    by_cases htwin : e.header.twinId = k
    · subst htwin
      apply heff.kept
      intro hstores
      exact htouch ⟨rfl, hq.update hk hal hstores⟩
    · apply getStatus_congr
      intro i hi
      have hne : i.val ≠ e.header.twinId.toNat := fun he =>
        htwin (UInt32.toNat_inj.mp (he.symm.trans hi))
      exact congrArg TwinState.status (heff.contained i hne)

theorem Invariant.request {req : Pointer} {engine : Engine Socket} (h : s.Invariant) (safe : engine.Safe)
    (hq : ∀ k : UInt32, k.toNat < maxTwins → s.Alarmed k → TakenForDelete req k.toNat →
      GenuineDelete req.bytes k.toNat)
    (htaken : ∀ k, TakenForDelete req k → engine.dispatcher.memory = disconnect k s.memory)
    (hnot : (∀ k, ¬ TakenForDelete req k) → engine.dispatcher.memory = s.memory) :
    Invariant { s with engine, log := s.log ++ [.requested req] } := by
  refine ⟨safe, h.inEffect.record rfl rfl ?_ ?_ trivial ?_ ?_, ?_⟩
  · rintro ⟨⟩
  · rintro ⟨⟩
  · rintro k - ⟨⟩
  · intro k hk hal htouch
    by_cases hd : ∃ j, TakenForDelete req j
    · obtain ⟨j, hj⟩ := hd
      have hne : j ≠ k.toNat := by
        rintro rfl
        exact htouch (hq k hk hal hj)
      exact (congrArg _ (htaken j hj)).trans (getStatus_disconnect_of_ne hne)
    · exact congrArg _ (hnot (not_exists.mp hd))
  · intro x hx hap
    rcases List.mem_append.mp hx with hx | hx
    · exact h.idle x hx hap
    · rw [List.mem_singleton.mp hx] at hap
      cases hap

theorem popIn_invariant (h : s.Invariant) (hstep : step connectors (.engine .popIn) s = some t) :
    t.Invariant := by
  rw [step] at hstep
  split at hstep
  · rename_i hstage
    obtain ⟨engine, he, rfl⟩ := Option.map_eq_some_iff.mp hstep
    refine h.quiet (Engine.step_keeps_safe h.safe he) rfl (Engine.step_keeps_memory (by simp) (by simp) he) id ?_
    intro _ hidle
    rw [hstage] at hidle
    simp at hidle
  · cases hstep
    exact h

theorem dispatch_invariant {clock : ℕ → UInt64} (h : s.Invariant) (hq : Meets (.engine (.dispatch clock)) s)
    (hstep : step connectors (.engine (.dispatch clock)) s = some t) : t.Invariant := by
  by_cases hready : s.stage = .dispatching ∧ ∃ e, s.engine.processing = some e
  · obtain ⟨hstage, e, he⟩ := hready
    obtain ⟨engine, hstep', hsafe, heff⟩ := step_dispatch connectors h.safe clock hstage he
    rw [hstep', Option.some.injEq] at hstep
    subst hstep
    exact h.dispatch hstage (h.safe.processing e he) (hq e hstage he) hsafe heff
  · rw [step] at hstep
    split at hstep
    · rename_i hstage he
      exact absurd ⟨hstage, _, he⟩ hready
    · cases hstep
      exact h

theorem step_invariant {a : LoopAct} (h : s.Invariant) (hq : Meets a s) (hstep : step connectors a s = some t) :
    t.Invariant := by
  cases a with
  | interrupt =>
    cases hstep
    exact h.quiet h.safe rfl rfl (fun _ => rfl) fun _ => id
  | test =>
    rw [step] at hstep
    split at hstep
    · cases hstep
      refine h.quiet h.safe rfl rfl id ?_
      intro hk _
      simp [hk]
    · cases hstep
      exact h
  | engine a =>
    cases a with
    | popIn => exact popIn_invariant h hstep
    | dispatch clock => exact dispatch_invariant h hq hstep
    | request type item req =>
      obtain ⟨engine, hstep', hsafe, htaken, hnot⟩ := step_request connectors h.safe type item req
      rw [hstep', Option.some.injEq] at hstep
      subst hstep
      exact h.request hsafe hq htaken hnot
    | _ =>
      obtain ⟨engine, he, rfl⟩ := Option.map_eq_some_iff.mp hstep
      have hmemory := Engine.step_keeps_memory (by simp) (by simp) he
      exact h.quiet (Engine.step_keeps_safe h.safe he) rfl hmemory id fun _ => id

theorem dispatch_inPlace {e : Event} {engine : Engine Socket} (he : WellFormed e)
    (heff : StatusEffect e s.memory engine.dispatcher.memory) (h : InEffect { s with
      engine
      stage := .testing
      log := s.log ++ [.dispatched s.engine.rules e s.memory engine.dispatcher.memory] }) : s.InPlace e := by
  constructor
  · intro hrule
    exact h.halted (.dispatched s.engine.rules e s.memory engine.dispatcher.memory) (by simp) hrule
  · intro ht hrule
    have halarm := h.alarmed e.header.twinId ht (since_concat.mpr (.inl ⟨rfl, hrule⟩))
    -- an update that sets the alarm has written the status itself
    have hstores : ¬ e.Stores := by
      intro hstores
      have hok := (heff.stored ht hstores).symm.trans halarm
      simp at hok
    constructor
    · cases he with
      | update => exact absurd hrule.stores hstores
      | error htype => exact htype
    · exact (heff.kept hstores _).symm.trans halarm
  · intro ht hal hstores
    by_contra hrange
    have halarm := h.alarmed e.header.twinId ht (since_concat.mpr (.inr ⟨hal, fun htouch => hrange htouch.2⟩))
    have hok := (heff.stored ht hstores).symm.trans halarm
    simp at hok

theorem inEffect_meets {a : LoopAct} (h : s.Invariant)
    (hnext : ∀ t, step connectors a s = some t → t.InEffect) : Meets a s := by
  cases a with
  | interrupt => trivial
  | test => trivial
  | engine a =>
    cases a with
    | dispatch clock =>
      intro e hstage he
      obtain ⟨engine, hstep, -, heff⟩ := step_dispatch connectors h.safe clock hstage he
      exact dispatch_inPlace (h.safe.processing e he) heff (hnext _ hstep)
    | request type item req =>
      intro k hk hal htaken
      by_contra hgenuine
      obtain ⟨engine, hstep, -, hm, -⟩ := step_request connectors h.safe type item req
      have halarm := (hnext _ hstep).alarmed k hk (since_concat.mpr (.inr ⟨hal, hgenuine⟩))
      have hdisc := (congrArg (twinsMemoryGetStatus k) (hm k.toNat htaken)).trans (getStatus_disconnect hk)
      have hok := hdisc.symm.trans halarm
      simp at hok
    | _ => trivial

/-- Whatever the rules and the store are, and however the threads interleave: halts and alarms are in
effect all along a run if and only if at every step what is asked for is in place already. -/
theorem rules_inEffect_iff (connectors : Connectors Socket) (rules : Rules) (history sentHistory : History)
    (memory : TwinsMemory) (queueIn notifyQueue userActionsQueue : EventQueue) (acts : List LoopAct) :
    Always (step connectors) InEffect acts
        (start rules history sentHistory memory queueIn notifyQueue userActionsQueue) ↔
      Throughout (step connectors) Meets acts
        (start rules history sentHistory memory queueIn notifyQueue userActionsQueue) :=
  always_iff_throughout (fun _ h => h.inEffect) (fun _ _ _ h hq hstep => step_invariant h hq hstep)
    (fun _ _ h hnext => inEffect_meets h hnext)
    (start_invariant rules history sentHistory memory queueIn notifyQueue userActionsQueue)

def errorActs (code : UInt8) (action : RuleAction) : List LoopAct :=
  [.engine (.rule (.setErrorRule code.toUInt32 action)),
    .engine (.receive zeroedFrame 0 ⟨0, [0x96, 1, 7, 0, 3, code, 0xa1, 0x66]⟩),
    .test, .engine .popIn, .engine (.dispatch fun _ => 0)]

def idleLoop : ProcessorLoop Unit :=
  start ⟨fun _ => .ignore, fun _ _ => .ignore⟩ zeroedHistory zeroedHistory (fun _ => initialTwin)
    zeroedQueue zeroedQueue zeroedQueue

def lastError (s : ProcessorLoop Socket) : Option (UInt32 × RuleAction) :=
  match s.log.getLast? with
  | some (.dispatched rules ⟨header, .error e⟩ _ _) =>
    (ruleEngineGetActionForError rules e.errorCode).map fun action => (header.twinId, action)
  | _ => none

theorem errorActs_ignored (code : UInt8) (action : RuleAction)
    (h : (Runs.run (step fun _ => none) (errorActs code action) idleLoop).map
      (fun s => (s.keepRunning, s.lastError, twinsMemoryGetStatus 3 s.memory)) =
        some (true, some (3, action), some 2)) (ha : action = .haltEngine ∨ action = .setTwinAlarm) :
    ¬ Always (step fun _ => none) InEffect (errorActs code action) idleLoop := by
  obtain ⟨s, hrun, hs⟩ := Option.map_eq_some_iff.mp h
  simp only [Prod.mk.injEq] at hs
  obtain ⟨hkeep, hlast, hstatus⟩ := hs
  intro hall
  have hin := hall.last hrun
  unfold lastError at hlast
  split at hlast
  · rename_i rules header e before after hlog
    obtain ⟨action', hrule, hpair⟩ := Option.map_eq_some_iff.mp hlast
    obtain ⟨htwin, rfl⟩ := Prod.mk.inj hpair
    obtain ⟨log, hlog⟩ := List.getLast?_eq_some_iff.mp hlog
    rcases ha with rfl | rfl
    · have hstop := hin.halted (.dispatched rules ⟨header, .error e⟩ before after) (by rw [hlog]; simp)
        (HasRule.error hrule)
      rw [hkeep] at hstop
      cases hstop
    · have hraised : s.Alarmed 3 := by
        rw [Alarmed, hlog]
        exact since_concat.mpr (.inl ⟨htwin, .error hrule⟩)
      have halarm := hin.alarmed 3 (by decide) hraised
      rw [hstatus] at halarm
      simp at halarm
  · cases hlast

theorem error_rules_ignored :
    ¬ Always (step fun _ => none) InEffect (errorActs 1 .haltEngine) idleLoop ∧
    ¬ Always (step fun _ => none) InEffect (errorActs 0 .setTwinAlarm) idleLoop :=
  ⟨errorActs_ignored 1 .haltEngine (by decide) (.inl rfl),
    errorActs_ignored 0 .setTwinAlarm (by decide) (.inr rfl)⟩

end ProcessorLoop

end OpenTwins
