import OpenTwins.Draining
import OpenTwins.EngineEffects
import OpenTwins.PipelineAccounting

namespace OpenTwins.Engine

open MessagePack

variable {Socket : Type} {connectors : Connectors Socket} {rules : Rules} {s t : Engine Socket}

def pushesLeft (s : Engine Socket) : ℕ :=
  match s.receiving with
  | none => 0
  | some (_, p) => 6 * (p.varCount - p.varsProcessed) + 1

/-- An event costs less from place to place, so that every step that moves one does work. -/
def work (s : Engine Socket) : ℕ :=
  s.pushesLeft + 5 * s.queueIn.contents.length + 4 * s.processing.toList.length +
    2 * s.dispatcher.notifyQueue.contents.length + s.sending.toList.length

inductive Task
  | push
  | popIn
  | dispatch
  | popNotify
  | send

inductive Turn : Task → Act → Prop
  | push : Turn .push .push
  | popIn : Turn .popIn .popIn
  | dispatch (clock : ℕ → UInt64) : Turn .dispatch (.dispatch clock)
  | popNotify : Turn .popNotify .popNotify
  | send (overflow now : UInt64) : Turn .send (.send overflow now)

def Ready : Task → Engine Socket → Prop
  | .push, s => s.receiving ≠ none
  | .popIn, s => s.processing = none ∧ ¬ s.queueIn.Empty
  | .dispatch, s => s.processing ≠ none
  | .popNotify, s => s.sending = none ∧ ¬ s.dispatcher.notifyQueue.Empty
  | .send, s => s.sending ≠ none

def Quiet : Act → Prop
  | .rule _ | .receive _ _ _ => False
  | _ => True

theorem Quiet.orderly {a : Act} (h : Quiet a) : Orderly a := by
  cases a with
  | rule call | receive frame startTime buffer => exact h.elim
  | _ => trivial

theorem contents_offer_length (q : EventQueue) (e : Event) : (offer q e).contents.length ≤ q.contents.length + 1 := by
  rw [contents_offer]
  split_ifs <;> simp

theorem contents_pop_length {q : EventQueue} (h : ¬ q.Empty) :
    q.advanceTail.contents.length + 1 = q.contents.length := by
  rw [q.contents_advanceTail h, List.length_cons]

theorem forwards_length {header : EventHeader} {ps : List PropertyUpdate} {q q' : EventQueue}
    (h : Forwards header ps q q') : q'.contents.length ≤ q.contents.length + 1 := by
  rcases h with ⟨-, rfl⟩ | ⟨-, b, -, -, rfl⟩
  · exact Nat.le_succ _
  · exact contents_offer_length _ _

theorem dispatchEvent_length {clock : ℕ → UInt64} {e : Event} {d d' : Dispatcher} (he : WellFormed e)
    (h : dispatchEvent rules clock e d = some d') :
    d'.notifyQueue.contents.length ≤ d.notifyQueue.contents.length + 1 := by
  cases he with
  | @update header u ht hpos hle =>
    obtain ⟨d1, hd, -, hn, -⟩ := handleEventUpdate_spec rules clock header hle d
    rw [dispatchEvent_update _ _ ht, hd] at h
    cases h
    exact forwards_length hn
  | error ht =>
    rw [dispatchEvent_error _ _ ht] at h
    cases h
    exact Nat.le_succ _

theorem Idle.not_ready {a : Act} (h : Idle a s) {k : Task} (hk : Turn k a) : ¬ Ready k s := by
  intro hr
  cases hk with
  | push | dispatch | send => exact hr h
  | popIn | popNotify => exact h.elim (fun hp => hp hr.1) hr.2

theorem Turn.quiet {k : Task} {a : Act} (h : Turn k a) : Quiet a := by
  cases h <;> trivial

theorem effect_work {a : Act} (ha : Quiet a) (hs : s.Safe) (h : Effect connectors s a t) :
    work t < work s ∨ work t = work s ∧ (∀ k, Ready k s → Ready k t) ∧ ∀ k, Turn k a → ¬ Ready k s := by
  cases h with
  | none hi => exact .inr ⟨rfl, fun _ h => h, fun _ hk => hi.not_ready hk⟩
  | requested =>
    refine .inr ⟨rfl, fun k h => ?_, fun k hk => ?_⟩
    · cases k <;> exact h
    · cases hk
  | rule | rejected | began | errored => exact ha.elim
  | @pushed frame p p' event log hr hp h =>
    obtain ⟨e, p1, log1, hb, -, -, hn, hv⟩ := nextBatch_sound frame s.history.log (hs.receiving frame p hr) hp
    rw [h] at hb
    cases hb
    have hle := contents_offer_length s.queueIn event
    left
    simp only [work, pushesLeft, offered, hr]
    omega
  | pushedAll hr hp =>
    left
    simp only [work, pushesLeft, hr]
    omega
  | poppedIn hp he =>
    have hlen := contents_pop_length he
    left
    simp only [work, pushesLeft, hp, Option.toList, List.length_nil, List.length_singleton]
    omega
  | dispatched hp h =>
    have hle := dispatchEvent_length (hs.processing _ hp) h
    left
    simp only [work, pushesLeft, hp, Option.toList, List.length_nil, List.length_singleton]
    omega
  | poppedNotify hn he =>
    have hlen := contents_pop_length he
    left
    simp only [work, pushesLeft, hn, Option.toList, List.length_nil, List.length_singleton]
    omega
  | sent hn hc h =>
    left
    simp only [work, pushesLeft, hn, Option.toList, List.length_nil, List.length_singleton]
    omega

theorem effect_received {a : Act} (ha : Quiet a) (h : Effect connectors s a t) : t.received = s.received := by
  cases h with
  | rejected | began | errored => exact ha.elim
  | _ => rfl

structure Done (s : Engine Socket) : Prop where
  receiving : s.receiving = none
  queueIn : s.queueIn.contents = []
  processing : s.processing = none
  notify : s.dispatcher.notifyQueue.contents = []
  sending : s.sending = none

theorem done_of_work (h : work s = 0) : Done s := by
  simp only [work, Nat.add_eq_zero_iff] at h
  obtain ⟨⟨⟨⟨hr, hq⟩, hp⟩, hn⟩, hs⟩ := h
  refine ⟨?_, ?_, ?_, ?_, ?_⟩
  · unfold pushesLeft at hr
    split at hr
    case _ hr' => exact hr'
    case _ => omega
  · exact List.length_eq_zero_iff.mp (by omega)
  · exact Option.toList_eq_nil_iff.mp (List.length_eq_zero_iff.mp (by omega))
  · exact List.length_eq_zero_iff.mp (by omega)
  · exact Option.toList_eq_nil_iff.mp (List.length_eq_zero_iff.mp hs)

theorem some_ready (h : work s ≠ 0) : ∃ k, Ready k s := by
  by_contra hnone
  have hnot (k : Task) : ¬ Ready k s := fun hk => hnone ⟨k, hk⟩
  have hr : s.receiving = none := not_not.mp (hnot .push)
  have hp : s.processing = none := not_not.mp (hnot .dispatch)
  have hs : s.sending = none := not_not.mp (hnot .send)
  have hq : s.queueIn.Empty := not_not.mp fun he => hnot .popIn ⟨hp, he⟩
  have hn : s.dispatcher.notifyQueue.Empty := not_not.mp fun he => hnot .popNotify ⟨hs, he⟩
  refine h ?_
  rw [work, pushesLeft, hr, hp, hs, (RingBuffer.contents_eq_nil _).mpr hq, (RingBuffer.contents_eq_nil _).mpr hn]
  rfl

theorem engine_drains (hconn : ∀ t v, rules.action t v = .notifyUpwards →
    ∃ publisher, connectors.read t.toNat = some (some publisher)) (bss : List (List UInt8)) :
    Runs.Drains (step connectors) (fun s => s.Accounts connectors rules ∧ s.received = bss) Quiet Turn Ready
      work where
  moves := by
    rintro a s ha ⟨h, hb⟩
    obtain ⟨t, ht, h'⟩ := step_accounts hconn ha.orderly h
    have he := step_effect ht
    refine ⟨t, ht, ⟨h', (effect_received ha he).trans hb⟩, ?_⟩
    exact (effect_work ha h.safe he).imp_right fun hsame => ⟨hsame.1, hsame.2.1⟩
  helps := by
    rintro k a s t hk ⟨h, -⟩ hready ht
    rcases effect_work hk.quiet h.safe (step_effect ht) with hlt | ⟨-, -, hnot⟩
    · exact hlt
    · exact absurd hready (hnot k hk)
  some_ready := fun s _ => some_ready

/-- When nothing more arrives the threads come to an end of their work, in any order in which each of them
takes a turn in every round, and requests in between change nothing: every event accepted has been
dispatched, and all that was admitted to the notify queue has been sent, once and in order. -/
theorem drains (hconn : ∀ t v, rules.action t v = .notifyUpwards →
    ∃ publisher, connectors.read t.toNat = some (some publisher)) (history sentHistory : History)
    (memory : TwinsMemory) (queueIn notifyQueue userActionsQueue : EventQueue) {acts : List Act}
    (ha : ∀ a ∈ acts, Orderly a) :
    ∃ s, Runs.run (step connectors) acts
        (start rules history sentHistory memory queueIn notifyQueue userActionsQueue) = some s ∧
      ∀ rounds : List (List Act), (∀ r ∈ rounds, ∀ a ∈ r, Quiet a) → (∀ r ∈ rounds, ∀ k, ∃ a ∈ r, Turn k a) →
        s.work ≤ rounds.length →
        ∃ t, Runs.run (step connectors) rounds.flatten s = some t ∧ t.received = s.received ∧ t.Done ∧
          t.accepted = t.dispatched.map (·.1) ∧
          t.sent.flatMap (fun x => wireEntries x.bytes) = t.admitted.flatMap (notified rules) := by
  obtain ⟨s, hs, h⟩ := Runs.run_total (P := Accounts connectors rules) (Q := Orderly)
    (fun a s ha h => step_accounts hconn ha h) ha
    (start_accounts connectors rules history sentHistory memory queueIn notifyQueue userActionsQueue)
  refine ⟨s, hs, ?_⟩
  intro rounds hquiet hturn hle
  obtain ⟨t, ht, ⟨h', hb⟩, hwork⟩ := (engine_drains hconn s.received).rounds hquiet hturn ⟨h, rfl⟩
  have hdone : t.Done := done_of_work (by omega)
  refine ⟨t, ht, hb, hdone, ?_, ?_⟩
  · rw [h'.order, waiting, hdone.processing, hdone.queueIn]
    simp
  · rw [← h'.passed_eq, passed, hdone.sending, queueEntries, hdone.notify]
    simp

def inTurn : List Act := [.push, .popIn, .dispatch fun _ => 0, .popNotify, .send 0 0]

theorem drains_oneUpdate : ∃ s t : Engine Unit, Runs.run (step fun _ => some ()) oneUpdateActs
      (start ⟨fun _ => .ignore, fun _ _ => .notifyUpwards⟩ zeroedHistory zeroedHistory (fun _ => initialTwin)
        zeroedQueue zeroedQueue zeroedQueue) = some s ∧
    Runs.run (step fun _ => some ()) (List.replicate s.work inTurn).flatten s = some t ∧ t.Done := by
  have ha : ∀ a ∈ oneUpdateActs, Orderly a := by
    simp only [oneUpdateActs, List.forall_mem_cons, Orderly, true_and]
    exact ⟨⟨oneUpdate, oneUpdate_encoded, by simp [oneUpdate, FloatPair]⟩, by simp⟩
  obtain ⟨s, hs, hdrain⟩ := drains (fun _ _ => routed_connected unit_connected) zeroedHistory zeroedHistory
    (fun _ => initialTwin) zeroedQueue zeroedQueue zeroedQueue ha
  have hquiet : ∀ r ∈ List.replicate s.work inTurn, ∀ a ∈ r, Quiet a := by
    intro r hr
    rw [List.eq_of_mem_replicate hr]
    simp [inTurn, Quiet]
  have hturn : ∀ r ∈ List.replicate s.work inTurn, ∀ k, ∃ a ∈ r, Turn k a := by
    intro r hr k
    rw [List.eq_of_mem_replicate hr]
    cases k with
    | push => exact ⟨_, by simp [inTurn], .push⟩
    | popIn => exact ⟨_, by simp [inTurn], .popIn⟩
    | dispatch => exact ⟨_, by simp [inTurn], .dispatch fun _ => 0⟩
    | popNotify => exact ⟨_, by simp [inTurn], .popNotify⟩
    | send => exact ⟨_, by simp [inTurn], .send 0 0⟩
  obtain ⟨t, ht, -, hdone, -⟩ := hdrain _ hquiet hturn (List.length_replicate ..).ge
  exact ⟨s, t, hs, ht, hdone⟩

end OpenTwins.Engine
