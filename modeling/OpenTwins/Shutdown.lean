import OpenTwins.EngineDrains
import OpenTwins.EngineLoops
import OpenTwins.Outbound

namespace OpenTwins

section

variable {frame : Frame} {startTime : UInt64} {idx n : UInt32} {header : EventHeader} {ctx : UnpackContext}
  {buffer : Pointer} {size : ℕ} {p : Parsing}

theorem decodePayload_varCount (h : decodePayload frame startTime idx n header ctx = some (.updates p)) :
    p.varCount < 2 ^ 32 := by
  unfold decodePayload at h
  split_ifs at h
  · obtain ⟨v, -, h⟩ := Option.bind_eq_some_iff.mp h
    dsimp only at h
    split_ifs at h <;> cases h
    exact v.as.word.toUInt32.toNat_lt
  · obtain ⟨e, -, h⟩ := Option.bind_eq_some_iff.mp h
    cases h
  · cases h

theorem decodeHead_varCount (h : decodeHead frame startTime idx buffer size = some (.updates p)) :
    p.varCount < 2 ^ 32 := by
  obtain ⟨u, -, h⟩ := Option.bind_eq_some_iff.mp h
  dsimp only at h
  split_ifs at h
  · cases h
  · cases h
  · obtain ⟨⟨header, v⟩, -, h⟩ := Option.bind_eq_some_iff.mp h
    exact decodePayload_varCount h

end

namespace Engine

variable {Socket : Type} {connectors : Connectors Socket} {rules : Rules} {s t : Engine Socket}

theorem effect_keeps {a : Act} (h : Effect connectors s a t) :
    (a.loop ≠ some .receiver → t.receiving = s.receiving) ∧
      (a.loop ≠ some .processor → t.processing = s.processing) ∧
      (a.loop ≠ some .sender → t.sending = s.sending) := by
  cases h <;> simp [Act.loop, hear, offered]

theorem effect_busy {a : Act} {loop : Loop} (ha : a.loop ≠ some loop) (h : Effect connectors s a t) :
    t.busy loop = s.busy loop := by
  obtain ⟨hr, hp, hs⟩ := effect_keeps h
  cases loop with
  | receiver => rw [busy, busy, hr ha]
  | processor => rw [busy, busy, hp ha]
  | sender => rw [busy, busy, hs ha]
  | apiServer => rfl

theorem step_vetted (hconn : ∀ t v, rules.action t v = .notifyUpwards →
    ∃ publisher, connectors.read t.toNat = some (some publisher)) {a : Act} (ha : ∀ call, a ≠ .rule call)
    (h : Vetted connectors rules s) : ∃ t, step connectors a s = some t ∧ Vetted connectors rules t := by
  have hsome : ∃ t, step connectors a s = some t := by
    by_cases hsend : ∃ overflow now, a = .send overflow now
    · obtain ⟨overflow, now, rfl⟩ := hsend
      cases he : s.sending with
      | none => exact ⟨s, by simp only [step, he]⟩
      | some e =>
        obtain ⟨publisher, hc⟩ := (h.safe.sending e he).publisher hconn (h.sending e he)
        obtain ⟨t, ht⟩ := EngineThreads.send_some (h.safe.sending e he) hc overflow now s
        exact ⟨t, by simp only [step, he, ht]⟩
    · obtain ⟨t, ht, -⟩ := step_safe connectors (fun overflow now he => hsend ⟨overflow, now, he⟩) h.safe
      exact ⟨t, ht⟩
  obtain ⟨t, ht⟩ := hsome
  exact ⟨t, ht, effect_vetted ha h (step_keeps_safe h.safe ht) (step_effect ht)⟩

end Engine

namespace EngineLoops

open Engine

variable {Socket : Type} {connectors : Connectors Socket} {rules : Rules} {s t : EngineLoops Socket}
  {engine : Engine Socket} {a : Act}

def turnsToFinish (pushes : ℕ) : LoopStage → Loop → ℕ
  | .testing, _ => 1
  | .taking, .receiver => 6 * 2 ^ 32 + 4
  | .taking, _ => 3
  | .handling, .receiver => 2 + pushes
  | .handling, _ => 2
  | .finished, _ => 0

def toFinish (s : EngineLoops Socket) (loop : Loop) : ℕ := turnsToFinish s.engine.pushesLeft (s.stage loop) loop

def work (s : EngineLoops Socket) : ℕ := s.toFinish .receiver + s.toFinish .processor + s.toFinish .sender

structure Staged (connectors : Connectors Socket) (rules : Rules) (s : EngineLoops Socket) : Prop where
  vetted : s.engine.Vetted connectors rules
  order : s.engine.accepted = s.engine.dispatched.map (·.1) ++ s.engine.waiting
  idle : ∀ loop, s.stage loop ≠ .handling → s.engine.busy loop = false

theorem start_staged (connectors : Connectors Socket) (rules : Rules) (history sentHistory : History)
    (memory : TwinsMemory) (queueIn notifyQueue userActionsQueue : EventQueue) :
    Staged connectors rules (start rules history sentHistory memory queueIn notifyQueue userActionsQueue) where
  vetted := start_vetted ..
  order := by simp [start, Engine.start, waiting]
  idle := by
    intro loop _
    cases loop <;> rfl

theorem goTo_staged (h : Staged connectors rules s) {loop : Loop} (hidle : s.engine.busy loop = false)
    (stage : LoopStage) : Staged connectors rules (s.goTo loop stage) := by
  refine { h with idle := ?_ }
  intro loop' hl
  by_cases heq : loop' = loop
  · subst heq
    exact hidle
  · apply h.idle
    simpa only [goTo, Function.update_of_ne heq] using hl

theorem after_staged (h : Staged connectors rules s) {loop : Loop} (ha : a.loop = some loop)
    (he : Effect connectors s.engine a engine) (hv : engine.Vetted connectors rules) :
    Staged connectors rules (s.after loop a engine) where
  vetted := hv
  order := effect_order he h.order
  idle := by
    intro loop' hl
    by_cases heq : loop' = loop
    · subst heq
      have hstage : (s.after loop' a engine).stage loop' = if engine.busy loop' then .handling else .testing :=
        Function.update_self ..
      rw [hstage] at hl
      cases hb : engine.busy loop' with
      | false => exact hb
      | true =>
        rw [hb] at hl
        exact absurd rfl hl
    · have hstage : (s.after loop a engine).stage loop' = s.stage loop' := Function.update_of_ne heq ..
      have hbusy : engine.busy loop' = s.engine.busy loop' := by
        apply effect_busy _ he
        rw [ha]
        intro h
        exact heq (Option.some.inj h).symm
      rw [hstage] at hl
      exact hbusy.trans (h.idle loop' hl)

theorem toFinish_goTo {loop loop' : Loop} (h : loop ≠ loop') (stage : LoopStage) :
    (s.goTo loop' stage).toFinish loop = s.toFinish loop := by
  simp only [toFinish, goTo, Function.update_of_ne h]

theorem toFinish_other {loop loop' : Loop} (h : loop ≠ loop') (ha : a.loop = some loop')
    (he : Effect connectors s.engine a engine) : (s.after loop' a engine).toFinish loop = s.toFinish loop := by
  rw [after, toFinish_goTo h, toFinish, toFinish]
  cases loop with
  | receiver =>
    have hr : engine.receiving = s.engine.receiving := by
      apply (effect_keeps he).1
      rw [ha]
      intro heq
      exact h (Option.some.inj heq).symm
    simp only [pushesLeft, hr]
  | _ =>
    dsimp only
    cases s.stage _ <;> rfl

theorem toFinish_idle {loop : Loop} (h : engine.busy loop = false) : (s.after loop a engine).toFinish loop = 1 := by
  simp [toFinish, after, goTo, h, turnsToFinish]

theorem toFinish_eq_zero {loop : Loop} : s.toFinish loop = 0 ↔ s.stage loop = .finished := by
  unfold toFinish
  cases s.stage loop <;> cases loop <;> simp [turnsToFinish]

theorem toFinish_after (loop : Loop) : (s.after loop a engine).toFinish loop ≤
    turnsToFinish engine.pushesLeft .handling loop := by
  cases hb : engine.busy loop with
  | false =>
    rw [toFinish_idle hb]
    cases loop <;> simp only [turnsToFinish] <;> omega
  | true => simp [toFinish, after, goTo, hb]

theorem receive_pushesLeft {frame : Frame} {startTime : UInt64} {buffer : Pointer} (hs : s.engine.receiving = none)
    (he : Effect connectors s.engine (.receive frame startTime buffer) engine) : engine.pushesLeft ≤ 6 * 2 ^ 32 := by
  cases he with
  | none hi => exact absurd hs hi
  | rejected hr h =>
    rw [pushesLeft, hear, hs]
    exact Nat.zero_le _
  | @began _ _ _ p hr h =>
    have hlt := decodeHead_varCount h
    simp only [pushesLeft]
    omega
  | errored hr h =>
    rw [pushesLeft, offered, hear, hs]
    exact Nat.zero_le _

theorem push_toFinish (h : s.engine.Safe) (he : Effect connectors s.engine .push engine)
    (hs : s.stage .receiver = .handling) : (s.after .receiver .push engine).toFinish .receiver < s.toFinish .receiver := by
  have hstart : s.toFinish .receiver = 2 + s.engine.pushesLeft := by rw [toFinish, hs, turnsToFinish]
  rw [hstart]
  cases he with
  | none hi =>
    have hidle : s.engine.busy .receiver = false := by
      rw [busy, show s.engine.receiving = .none from hi]
      rfl
    rw [toFinish_idle hidle]
    omega
  | @pushed frame p p' event log hr hp hb =>
    obtain ⟨e, p1, log1, hb', -, -, hn, hv⟩ := nextBatch_sound frame s.engine.history.log (h.receiving frame p hr) hp
    rw [hb] at hb'
    cases hb'
    refine (toFinish_after .receiver).trans_lt ?_
    simp only [turnsToFinish, pushesLeft, offered, hr]
    omega
  | pushedAll hr hp =>
    rw [toFinish_idle (show busy _ .receiver = false from rfl)]
    omega

theorem takes_toFinish (h : Staged connectors rules s) {turn : LoopTurn} (ha : turn.takes = some a)
    (he : Effect connectors s.engine a engine) (hs : s.stage turn.loop = .taking) :
    (s.after turn.loop a engine).toFinish turn.loop < s.toFinish turn.loop := by
  refine (toFinish_after _).trans_lt ?_
  rw [toFinish, hs]
  cases turn with
  | receiver message =>
    obtain ⟨m, -, rfl⟩ := Option.map_eq_some_iff.mp ha
    have hidle : s.engine.busy .receiver = false := h.idle .receiver (by rw [show s.stage .receiver = _ from hs]; decide)
    have hreceiving : s.engine.receiving = none :=
      Option.isNone_iff_eq_none.mp (Option.isSome_eq_false_iff.mp hidle)
    have hle := receive_pushesLeft hreceiving he
    simp only [LoopTurn.loop, turnsToFinish]
    omega
  | _ => exact Nat.lt_succ_self 2

theorem handles_toFinish (h : Staged connectors rules s) {turn : LoopTurn} (ha : turn.handles = some a)
    (he : Effect connectors s.engine a engine) (hs : s.stage turn.loop = .handling) :
    (s.after turn.loop a engine).toFinish turn.loop < s.toFinish turn.loop := by
  cases turn with
  | receiver message =>
    cases ha
    exact push_toFinish h.vetted.safe he hs
  | processor clock =>
    cases ha
    have hstart : s.toFinish .processor = 2 := by rw [toFinish, show s.stage .processor = _ from hs]; rfl
    rw [LoopTurn.loop, toFinish_idle he.dispatch_idle, hstart]
    exact Nat.lt_succ_self 1
  | sender overflow now =>
    cases ha
    have hstart : s.toFinish .sender = 2 := by rw [toFinish, show s.stage .sender = _ from hs]; rfl
    rw [LoopTurn.loop, toFinish_idle he.send_idle, hstart]
    exact Nat.lt_succ_self 1
  | apiServer request => cases ha

structure Moved (connectors : Connectors Socket) (rules : Rules) (loop : Loop) (s t : EngineLoops Socket) : Prop where
  staged : Staged connectors rules t
  keepRunning : t.keepRunning = s.keepRunning
  others : ∀ l ≠ loop, t.toFinish l = s.toFinish l
  less : s.keepRunning = false → t.toFinish loop < s.toFinish loop ∨ t.toFinish loop = 0 ∧ s.toFinish loop = 0

theorem act_moves (hconn : ∀ t v, rules.action t v = .notifyUpwards →
    ∃ publisher, connectors.read t.toNat = some (some publisher)) (h : Staged connectors rules s) {loop : Loop}
    {o : Option Act} (ho : ∀ a, o = some a → a.loop = some loop)
    (hnone : o = none → s.engine.busy loop = false ∧ 1 < s.toFinish loop)
    (hsome : ∀ a engine, o = some a → Effect connectors s.engine a engine →
      (s.after loop a engine).toFinish loop < s.toFinish loop) :
    ∃ t, s.act connectors loop o = some t ∧ Moved connectors rules loop s t := by
  cases o with
  | none =>
    obtain ⟨hidle, hlt⟩ := hnone rfl
    refine ⟨_, rfl, goTo_staged h hidle _, rfl, fun l hl => toFinish_goTo hl _, fun _ => .inl ?_⟩
    simpa only [toFinish, goTo, Function.update_self, turnsToFinish] using hlt
  | some a =>
    have ha := ho a rfl
    have hrule : ∀ call, a ≠ .rule call := by
      rintro call rfl
      cases ha
    obtain ⟨engine, hstep, hv⟩ := step_vetted hconn hrule h.vetted
    have he := step_effect hstep
    refine ⟨s.after loop a engine, by rw [act, hstep, Option.map_some], after_staged h ha he hv, rfl, ?_, ?_⟩
    · intro l hl
      exact toFinish_other hl ha he
    · intro _
      exact .inl (hsome a engine rfl he)

theorem turn_moves (hconn : ∀ t v, rules.action t v = .notifyUpwards →
    ∃ publisher, connectors.read t.toNat = some (some publisher)) (h : Staged connectors rules s) (turn : LoopTurn) :
    ∃ t, step connectors (.turn turn) s = some t ∧ Moved connectors rules turn.loop s t := by
  rw [step]
  cases hs : s.stage turn.loop with
  | testing =>
    have hidle : s.engine.busy turn.loop = false := h.idle _ (by rw [hs]; decide)
    refine ⟨_, rfl, goTo_staged h hidle _, rfl, fun l hl => toFinish_goTo hl _, fun hk => .inl ?_⟩
    simp only [toFinish, goTo, Function.update_self, hk, hs]
    exact Nat.zero_lt_one
  | taking =>
    refine act_moves hconn h (fun a ha => takes_loop ha) ?_ fun a engine ha he => takes_toFinish h ha he hs
    intro _
    refine ⟨h.idle _ (by rw [hs]; decide), ?_⟩
    rw [toFinish, hs]
    cases turn.loop <;> simp [turnsToFinish]
  | handling =>
    refine act_moves hconn h (fun a ha => handles_loop ha) ?_ fun a engine ha he => handles_toFinish h ha he hs
    intro hnone
    cases turn with
    | apiServer request =>
      refine ⟨rfl, ?_⟩
      rw [toFinish, hs]
      exact Nat.lt_succ_self 1
    | _ => cases hnone
  | finished =>
    refine ⟨s, rfl, h, rfl, fun _ _ => rfl, fun _ => .inr ?_⟩
    exact ⟨toFinish_eq_zero.mpr hs, toFinish_eq_zero.mpr hs⟩

theorem Moved.work_lt {loop : Loop} (h : Moved connectors rules loop s t) (hl : loop ≠ .apiServer)
    (hlt : t.toFinish loop < s.toFinish loop) : t.work < s.work := by
  have hr := h.others .receiver
  have hp := h.others .processor
  have hs := h.others .sender
  unfold work
  cases loop with
  | receiver =>
    rw [hp (by decide), hs (by decide)]
    omega
  | processor =>
    rw [hr (by decide), hs (by decide)]
    omega
  | sender =>
    rw [hr (by decide), hp (by decide)]
    omega
  | apiServer => exact absurd rfl hl

theorem work_congr (h : ∀ loop ≠ .apiServer, t.toFinish loop = s.toFinish loop) : t.work = s.work := by
  rw [work, work, h .receiver (by decide), h .processor (by decide), h .sender (by decide)]

/-- The API server is left out, since it waits for its next request without a timeout. -/
theorem loops_drain (hconn : ∀ t v, rules.action t v = .notifyUpwards →
    ∃ publisher, connectors.read t.toNat = some (some publisher)) :
    Runs.Drains (step connectors) (fun s => s.keepRunning = false ∧ Staged connectors rules s) (fun _ => True)
      (fun (loop : {loop : Loop // loop ≠ .apiServer}) a => ∃ turn, a = .turn turn ∧ turn.loop = loop)
      (fun loop s => s.toFinish loop ≠ 0) work where
  moves := by
    rintro a s - ⟨hk, h⟩
    cases a with
    | interrupt => exact ⟨_, rfl, ⟨rfl, { h with }⟩, .inr ⟨rfl, fun _ hready => hready⟩⟩
    | turn turn =>
      obtain ⟨t, ht, hm⟩ := turn_moves hconn h turn
      refine ⟨t, ht, ⟨hm.keepRunning.trans hk, hm.staged⟩, ?_⟩
      have hother (hsame : t.toFinish turn.loop = s.toFinish turn.loop ∨ turn.loop = .apiServer) :
          ∀ loop ≠ .apiServer, t.toFinish loop = s.toFinish loop := by
        intro loop hl
        by_cases heq : loop = turn.loop
        · subst heq
          exact hsame.resolve_right hl
        · exact hm.others loop heq
      have hstays (hsame : t.toFinish turn.loop = s.toFinish turn.loop ∨ turn.loop = .apiServer) : t.work = s.work ∧
          ∀ loop : {loop : Loop // loop ≠ .apiServer}, s.toFinish loop ≠ 0 → t.toFinish loop ≠ 0 := by
        refine ⟨work_congr (hother hsame), ?_⟩
        intro loop hready
        rw [hother hsame loop loop.2]
        exact hready
      by_cases hl : turn.loop = .apiServer
      · exact .inr (hstays (.inr hl))
      · rcases hm.less hk with hlt | ⟨ht0, hs0⟩
        · exact .inl (hm.work_lt hl hlt)
        · exact .inr (hstays (.inl (ht0.trans hs0.symm)))
  helps := by
    rintro ⟨loop, hl⟩ a s t ⟨turn, rfl, rfl⟩ ⟨hk, h⟩ hready ht
    obtain ⟨u, hu, hm⟩ := turn_moves hconn h turn
    rw [ht] at hu
    cases hu
    rcases hm.less hk with hlt | ⟨-, hs0⟩
    · exact hm.work_lt hl hlt
    · exact absurd hs0 hready
  some_ready := by
    rintro s - hwork
    by_contra hnone
    have hzero (loop : Loop) (hl : loop ≠ .apiServer) : s.toFinish loop = 0 :=
      not_not.mp fun h => hnone ⟨⟨loop, hl⟩, h⟩
    apply hwork
    rw [work, hzero .receiver (by decide), hzero .processor (by decide), hzero .sender (by decide)]

theorem finished_of_work (h : s.work = 0) : ∀ loop ≠ .apiServer, s.stage loop = .finished := by
  simp only [work, Nat.add_eq_zero_iff] at h
  intro loop hl
  apply toFinish_eq_zero.mp
  cases loop with
  | receiver => exact h.1.1
  | processor => exact h.1.2
  | sender => exact h.2
  | apiServer => exact absurd rfl hl

def Leaves (left : Engine Socket) (s : EngineLoops Socket) : Prop :=
  (∀ loop ≠ .apiServer, s.stage loop = .finished) ∧
    ∃ memory, s.engine = { left with dispatcher := { left.dispatcher with memory } }

theorem goTo_leaves {left : Engine Socket} (h : Leaves left s) (stage : LoopStage) :
    Leaves left (s.goTo .apiServer stage) := by
  refine ⟨?_, h.2⟩
  intro loop hl
  rw [goTo]
  exact (Function.update_of_ne hl ..).trans (h.1 loop hl)

theorem request_leaves {left : Engine Socket} {request : Option (ItemType × ItemAs × Pointer)} (h : Leaves left s)
    (ht : s.act connectors .apiServer (LoopTurn.apiServer request).takes = some t) : Leaves left t := by
  cases request with
  | none =>
    cases ht
    exact goTo_leaves h _
  | some r =>
    obtain ⟨engine, hstep, rfl⟩ := Option.map_eq_some_iff.mp ht
    apply goTo_leaves
    refine ⟨h.1, ?_⟩
    obtain ⟨-, memory, he⟩ := h
    cases step_effect hstep with
    | none hi => exact hi.elim
    | requested hr =>
      rw [he]
      exact ⟨_, rfl⟩

theorem step_leaves {left : Engine Socket} {act : LoopsAct} (h : Leaves left s)
    (ht : step connectors act s = some t) : Leaves left t := by
  cases act with
  | interrupt =>
    cases ht
    exact h
  | turn turn =>
    rw [step] at ht
    cases turn with
    | apiServer request =>
      split at ht
      case _ =>
        cases ht
        exact goTo_leaves h _
      case _ => exact request_leaves h ht
      case _ =>
        cases ht
        exact goTo_leaves h _
      case _ =>
        cases ht
        exact h
    | receiver message =>
      rw [LoopTurn.loop, h.1 .receiver (by decide)] at ht
      cases ht
      exact h
    | processor clock =>
      rw [LoopTurn.loop, h.1 .processor (by decide)] at ht
      cases ht
      exact h
    | sender overflow now =>
      rw [LoopTurn.loop, h.1 .sender (by decide)] at ht
      cases ht
      exact h

theorem act_staged (hconn : ∀ t v, rules.action t v = .notifyUpwards →
    ∃ publisher, connectors.read t.toNat = some (some publisher)) (act : LoopsAct) (h : Staged connectors rules s) :
    ∃ t, step connectors act s = some t ∧ Staged connectors rules t := by
  cases act with
  | interrupt => exact ⟨_, rfl, { h with }⟩
  | turn turn =>
    obtain ⟨t, ht, hm⟩ := turn_moves hconn h turn
    exact ⟨t, ht, hm.staged⟩

theorem run_staged (hconn : ∀ t v, rules.action t v = .notifyUpwards →
    ∃ publisher, connectors.read t.toNat = some (some publisher)) (acts : List LoopsAct)
    (h : Staged connectors rules s) :
    ∃ t, Runs.run (step connectors) acts s = some t ∧ Staged connectors rules t :=
  Runs.run_total (fun act _ _ h => act_staged hconn act h) (show ∀ a ∈ acts, True from fun _ _ => trivial) h

/-- After the interrupt the receiver, the processor and the sender leave their loops, whatever has come and still
comes and in any order in which each has its turns. They leave nothing half done: every event accepted has been
dispatched or waits in its queue, and from then on only requests are answered. -/
theorem shuts_down (hconn : ∀ t v, rules.action t v = .notifyUpwards →
    ∃ publisher, connectors.read t.toNat = some (some publisher)) (history sentHistory : History)
    (memory : TwinsMemory) (queueIn notifyQueue userActionsQueue : EventQueue) (acts : List LoopsAct) :
    ∃ s, Runs.run (step connectors) (acts ++ [.interrupt])
        (start rules history sentHistory memory queueIn notifyQueue userActionsQueue) = some s ∧
      ∀ rounds : List (List LoopsAct),
        (∀ r ∈ rounds, ∀ loop ≠ .apiServer, ∃ turn, .turn turn ∈ r ∧ turn.loop = loop) →
        s.work ≤ rounds.length →
        ∃ t, Runs.run (step connectors) rounds.flatten s = some t ∧
          (∀ loop ≠ .apiServer, t.stage loop = .finished) ∧
          t.engine.receiving = none ∧ t.engine.sending = none ∧
          t.engine.accepted = t.engine.dispatched.map (·.1) ++ t.engine.queueIn.contents ∧
          ∀ more, ∃ u memory, Runs.run (step connectors) more t = some u ∧
            u.engine = { t.engine with dispatcher := { t.engine.dispatcher with memory } } := by
  obtain ⟨u, hu, h⟩ := run_staged hconn acts
    (start_staged connectors rules history sentHistory memory queueIn notifyQueue userActionsQueue)
  have hstop : Staged connectors rules { u with keepRunning := false } := { h with }
  refine ⟨{ u with keepRunning := false }, by rw [Runs.run_append, hu]; rfl, ?_⟩
  intro rounds hturn hle
  have hturns : ∀ r ∈ rounds, ∀ loop : {loop : Loop // loop ≠ .apiServer},
      ∃ a ∈ r, ∃ turn, a = .turn turn ∧ turn.loop = loop := by
    intro r hr loop
    obtain ⟨turn, hmem, hl⟩ := hturn r hr loop loop.2
    exact ⟨.turn turn, hmem, turn, rfl, hl⟩
  obtain ⟨t, ht, ⟨-, h'⟩, hwork⟩ := (loops_drain hconn).rounds (fun _ _ _ _ => trivial) hturns ⟨rfl, hstop⟩
  have hfinished := finished_of_work (s := t) (by omega)
  have hidle (loop : Loop) (hl : loop ≠ .apiServer) : t.engine.busy loop = false := by
    apply h'.idle
    rw [hfinished loop hl]
    decide
  have hnone {α : Type} {o : Option α} (ho : o.isSome = false) : o = none :=
    Option.isNone_iff_eq_none.mp (Option.isSome_eq_false_iff.mp ho)
  refine ⟨t, ht, hfinished, hnone (hidle .receiver (by decide)), hnone (hidle .sender (by decide)), ?_, ?_⟩
  · rw [h'.order, waiting, hnone (hidle .processor (by decide))]
    rfl
  · intro more
    obtain ⟨v, hv, -⟩ := run_staged hconn more h'
    have hleaves : Leaves t.engine t := ⟨hfinished, t.engine.dispatcher.memory, rfl⟩
    obtain ⟨-, memory, he⟩ := Runs.run_preserves (fun _ _ _ h hstep => step_leaves h hstep) hleaves hv
    exact ⟨v, memory, hv, he⟩

def oneTaken : List LoopsAct :=
  [.turn (.receiver none), .turn (.processor fun _ => 0),
    .turn (.receiver (some (zeroedFrame, 0, ⟨0, [0x97, 0, 1, 0, 0, 1, 5, 0xca, 0x3f, 0x80, 0, 0]⟩)))]

def everyLoop : List LoopsAct := [.turn (.receiver none), .turn (.processor fun _ => 0), .turn (.sender 0 0)]

theorem shuts_down_oneTaken : ∃ s t : EngineLoops Unit,
    Runs.run (step fun _ => some ()) (oneTaken ++ [.interrupt])
      (start ⟨fun _ => .ignore, fun _ _ => .notifyUpwards⟩ zeroedHistory zeroedHistory (fun _ => initialTwin)
        zeroedQueue zeroedQueue zeroedQueue) = some s ∧
    Runs.run (step fun _ => some ()) (List.replicate s.work everyLoop).flatten s = some t ∧
    ∀ loop ≠ .apiServer, t.stage loop = .finished := by
  obtain ⟨s, hs, hrounds⟩ := shuts_down (fun _ _ => routed_connected unit_connected) zeroedHistory zeroedHistory
    (fun _ => initialTwin) zeroedQueue zeroedQueue zeroedQueue oneTaken
  have hturn : ∀ r ∈ List.replicate s.work everyLoop, ∀ loop ≠ .apiServer,
      ∃ turn : LoopTurn, .turn turn ∈ r ∧ turn.loop = loop := by
    intro r hr loop hl
    rw [List.eq_of_mem_replicate hr]
    cases loop with
    | receiver => exact ⟨.receiver none, by simp [everyLoop], rfl⟩
    | processor => exact ⟨.processor fun _ => 0, by simp [everyLoop], rfl⟩
    | sender => exact ⟨.sender 0 0, by simp [everyLoop], rfl⟩
    | apiServer => exact absurd rfl hl
  obtain ⟨t, ht, hfinished, -⟩ := hrounds _ hturn (List.length_replicate ..).ge
  exact ⟨s, t, hs, ht, hfinished⟩

end EngineLoops

end OpenTwins
