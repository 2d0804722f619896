import OpenTwins.CappedLog
import OpenTwins.EngineEffects
import OpenTwins.PackItems
import OpenTwins.PipelineAccounting
import OpenTwins.ProcessorLoop

namespace OpenTwins

open MessagePack FixedArray CappedLog

variable {Socket : Type}

structure Relayed (bytes : List UInt8) (m : UpdateMessage) : Prop where
  items : EncodesAll m.items bytes
  nonempty : m.updates ≠ []
  floats : ∀ x ∈ m.updates, FloatPair x
  fits : bytes.length ≤ zmqBufferSize

theorem packUpdates_length (ps : List PropertyUpdate) (pc : PackContext) :
    (ps.foldl (fun pc p => packUpdate p pc) pc).length = pc.length := by
  induction ps generalizing pc with
  | nil => rfl
  | cons p ps ih =>
    obtain ⟨e, he, -⟩ := cwPackUnsigned_packs p.varId.toUInt64
    obtain ⟨e', he', -⟩ := cwPackFloat_packs p.value
    rw [List.foldl_cons, ih, packUpdate, he'.length, he.length]

theorem serializeEvent_length {overflow : UInt64} {event : Event} {u : UpdateEvent} {pc : PackContext}
    (hu : event.payload = .update u) (h : u.count.toNat ≤ maxVarsPerEvent)
    (hpc : serializeEvent overflow event = some pc) : pc.length = zmqBufferSize := by
  have hunsigned (i : UInt64) (pc : PackContext) : (cwPackUnsigned i pc).length = pc.length := by
    obtain ⟨e, he, -⟩ := cwPackUnsigned_packs i
    exact he.length pc
  have harray (n : UInt32) (pc : PackContext) : (cwPackArraySize n pc).length = pc.length := by
    obtain ⟨e, he, -⟩ := cwPackArraySize_packs n
    exact he.length pc
  simp only [serializeEvent, hu, Payload.asUpdate, Option.bind_eq_bind, Option.bind_some, packUpdates_eq h,
    Option.some.injEq] at hpc
  rw [← hpc, packUpdates_length]
  simp only [hunsigned, harray]
  rfl

theorem entries_head {u : UpdateEvent} (h : 1 ≤ u.count.toNat) :
    ∃ p ps, u.entries = p :: ps ∧ u.updates.read 0 = some p := by
  have h0 : 0 < maxVarsPerEvent := by decide
  have hone : u.entries.take 1 = [u.updates ⟨0, h0⟩] := by
    rw [UpdateEvent.entries, prefixList, List.take_take, min_eq_left h]
    rfl
  refine ⟨u.updates ⟨0, h0⟩, u.entries.drop 1, ?_, read_of_lt _ h0⟩
  rw [← List.singleton_append, ← hone, List.take_append_drop]

theorem sendEvent_relayed {overflow now : UInt64} {publisher : Socket} {e : Event} {history : History}
    {r : Sent Socket × History} (he : Outgoing e) (h : sendEvent overflow now publisher e history = some r) :
    ∃ m, Relayed r.1.bytes m ∧ wireEntries r.1.bytes = e.entries ∧ r.1.publisher = publisher ∧
      r.2.logIndex = history.logIndex + 1 ∧ ∃ y ys, e.entries = y :: ys ∧
        r.2.log = record history.logIndex.toNat ⟨now, y.update.value, y.twinId⟩ history.log := by
  cases he with
  | @mk header u htype hpos hle htwin hvars =>
    obtain ⟨pc, hpc, h⟩ := Option.bind_eq_some_iff.mp h
    obtain ⟨history', hh, h⟩ := Option.bind_eq_some_iff.mp h
    cases h
    obtain ⟨pc', hpc', -, henc⟩ := serializeEvent_message overflow
      (show (⟨header, .update u⟩ : Event).payload = .update u from rfl) hle
    obtain rfl : pc = pc' := Option.some.inj (hpc.symm.trans hpc')
    obtain ⟨p, ps, hentries, hread⟩ := entries_head hpos
    refine ⟨_, ⟨henc, ?_, ?_, ?_⟩, Engine.wireEntries_relay overflow hle henc, rfl, ?_⟩
    · simp [relayMessage, hentries]
    · intro x hx
      obtain ⟨p, -, rfl⟩ := List.mem_map.mp hx
      exact ⟨p.value, rfl⟩
    · rw [← serializeEvent_length rfl hle hpc]
      exact pc.fits
    · have hrecord : history' = ⟨history.logIndex + 1, record history.logIndex.toNat
          ⟨now, p.value, header.twinId⟩ history.log⟩ := by
        simp only [recordSent, Payload.asUpdate, hread, Option.bind_eq_bind, Option.bind_some] at hh
        rw [record]
        split_ifs at hh ⊢ with hi
        · rw [write_of_lt _ hi] at hh
          exact (Option.some.inj hh).symm
        · exact (Option.some.inj hh).symm
      subst hrecord
      refine ⟨rfl, ⟨header.timestamp, header.twinId, p⟩, ps.map (Entry.mk header.timestamp header.twinId), ?_, rfl⟩
      rw [entries_update, hentries, List.map_cons]

namespace Engine

variable {connectors : Connectors Socket} {s t : Engine Socket}

def sentRow (now : UInt64) (bytes : List UInt8) : TimeSeriesRecord :=
  match wireEntries bytes with
  | [] => ⟨now, 0, 0⟩
  | y :: _ => ⟨now, y.update.value, y.twinId⟩

def dumpRows (h : History) : Option (List TimeSeriesRecord) :=
  let finalCount := if maxHistoryRecords < h.logIndex.toNat then maxHistoryRecords else h.logIndex.toNat
  (List.range finalCount).mapM h.log.read

theorem dumpRows_rows {h : History} {a₀ : HistoryLog} {xs : List TimeSeriesRecord}
    (hidx : h.logIndex.toNat = xs.length) (hrows : Rows a₀ h.log xs) :
    dumpRows h = some (xs.take maxHistoryRecords) := by
  have hcount : (if maxHistoryRecords < h.logIndex.toNat then maxHistoryRecords else h.logIndex.toNat) =
      min xs.length maxHistoryRecords := by
    rw [hidx]
    split_ifs <;> omega
  simp only [dumpRows, hcount, mapM_read _ (min_le_right _ _), hrows.prefixList]

structure LogsSent (a₀ : HistoryLog) (s : Engine Socket) (times : List UInt64) : Prop where
  times_length : times.length = s.sent.length
  index : s.sentHistory.logIndex = UInt32.ofNat s.sent.length
  rows : Rows a₀ s.sentHistory.log (List.zipWith (fun now (x : Sent Socket) => sentRow now x.bytes) times s.sent)

def sendTimes : Act → List UInt64
  | .send _ now => [now]
  | _ => []

structure SendsWell (a₀ : HistoryLog) (nows : List UInt64) (s : Engine Socket) : Prop where
  safe : s.Safe
  relayed : ∀ x ∈ s.sent, ∃ m, Relayed x.bytes m
  bound : s.sent.length ≤ nows.length
  logs : s.sent.length < 2 ^ 32 → ∃ times, times.Sublist nows ∧ LogsSent a₀ s times

theorem effect_sendsWell {a₀ : HistoryLog} {nows : List UInt64} {a : Act} (h : SendsWell a₀ nows s)
    (hsafe : t.Safe) (he : Effect connectors s a t) : SendsWell a₀ (nows ++ sendTimes a) t := by
  cases he with
  | @sent overflow now event publisher r hs hc hsend =>
    obtain ⟨m, hm, hw, -, hindex, y, ys, hy, hlog⟩ := sendEvent_relayed (h.safe.sending event hs) hsend
    refine ⟨hsafe, ?_, ?_, ?_⟩
    · intro x hx
      rcases List.mem_append.mp hx with hx | hx
      · exact h.relayed x hx
      · rw [List.mem_singleton.mp hx]
        exact ⟨m, hm⟩
    · simpa [sendTimes] using h.bound
    · intro hlt
      simp only [List.length_append, List.length_singleton] at hlt
      obtain ⟨times, hsub, ht⟩ := h.logs (by omega)
      have hidx : s.sentHistory.logIndex.toNat = s.sent.length := by
        rw [ht.index]
        exact UInt32.toNat_ofNat_of_lt' (by simp only [UInt32.size]; omega)
      have hlength : (List.zipWith (fun now (x : Sent Socket) => sentRow now x.bytes) times s.sent).length =
          s.sent.length := by
        rw [List.length_zipWith, ht.times_length, min_self]
      refine ⟨times ++ [now], hsub.append (.refl _), ?_, ?_, ?_⟩
      · simp [ht.times_length]
      · simp only [hindex, ht.index, List.length_append, List.length_singleton]
        rw [← UInt32.toNat_inj]
        simp
      · simp only [hlog, hidx]
        rw [List.zipWith_append ht.times_length]
        have hrow : sentRow now r.1.bytes = ⟨now, y.update.value, y.twinId⟩ := by
          rw [sentRow, hw, hy]
        have hrows := ht.rows.record (sentRow now r.1.bytes)
        rw [hlength, hrow] at hrows
        simpa [hrow] using hrows
  | _ =>
    refine ⟨hsafe, h.relayed, ?_, fun hlt => ?_⟩
    · rw [List.length_append]
      exact h.bound.trans (Nat.le_add_right _ _)
    obtain ⟨times, hsub, ht⟩ := h.logs hlt
    exact ⟨times, hsub.trans (List.sublist_append_left _ _), { ht with }⟩

theorem run_sendsWell {a₀ : HistoryLog} {nows : List UInt64} {acts : List Act} (h : SendsWell a₀ nows s)
    (hrun : Runs.run (step connectors) acts s = some t) : SendsWell a₀ (nows ++ acts.flatMap sendTimes) t := by
  induction acts generalizing s nows with
  | nil =>
    cases hrun
    rwa [List.flatMap_nil, List.append_nil]
  | cons a acts ih =>
    obtain ⟨s1, h1, hrun⟩ := Option.bind_eq_some_iff.mp hrun
    have hnext := ih (effect_sendsWell h (step_keeps_safe h.safe h1) (step_effect h1)) hrun
    rwa [List.append_assoc, ← List.flatMap_cons] at hnext

theorem start_sendsWell (rules : Rules) (history : History) {sentHistory : History} (h0 : sentHistory.logIndex = 0)
    (memory : TwinsMemory) (queueIn notifyQueue userActionsQueue : EventQueue) :
    SendsWell sentHistory.log []
      (start rules history sentHistory memory queueIn notifyQueue userActionsQueue : Engine Socket) where
  safe := start_safe ..
  relayed := by simp [start]
  bound := le_refl 0
  logs := fun _ => ⟨[], .slnil, rfl, h0, rows_nil _⟩

theorem LogsSent.dumpRows {a₀ : HistoryLog} {times : List UInt64} (h : LogsSent a₀ s times)
    (hlt : s.sent.length < 2 ^ 32) : dumpRows s.sentHistory =
      some ((List.zipWith (fun now (x : Sent Socket) => sentRow now x.bytes) times s.sent).take maxHistoryRecords) := by
  refine dumpRows_rows ?_ h.rows
  rw [h.index, List.length_zipWith, h.times_length, min_self]
  exact UInt32.toNat_ofNat_of_lt' hlt

theorem sender_log (rules : Rules) (history : History) {sentHistory : History} (h0 : sentHistory.logIndex = 0)
    (memory : TwinsMemory) (queueIn notifyQueue userActionsQueue : EventQueue) {acts : List Act}
    (hrun : Runs.run (step connectors) acts
      (start rules history sentHistory memory queueIn notifyQueue userActionsQueue) = some s)
    (hlt : s.sent.length < 2 ^ 32) :
    ∃ times, times.Sublist (acts.flatMap sendTimes) ∧ times.length = s.sent.length ∧
      dumpRows s.sentHistory = some ((List.zipWith (fun now (x : Sent Socket) => sentRow now x.bytes) times
        s.sent).take maxHistoryRecords) := by
  have hwell := run_sendsWell (start_sendsWell rules history h0 memory queueIn notifyQueue userActionsQueue) hrun
  obtain ⟨times, hsub, ht⟩ := hwell.logs hlt
  exact ⟨times, hsub, ht.times_length, ht.dumpRows hlt⟩

theorem sender_log_oneUpdate : ∃ s : Engine Unit, ∃ times : List UInt64, times.Sublist [0] ∧
    times.length = s.sent.length ∧ dumpRows s.sentHistory =
      some ((List.zipWith (fun now (x : Sent Unit) => sentRow now x.bytes) times s.sent).take maxHistoryRecords) := by
  have ha : ∀ a ∈ oneUpdateActs, Orderly a := by
    simp only [oneUpdateActs, List.forall_mem_cons, Orderly, true_and]
    exact ⟨⟨oneUpdate, oneUpdate_encoded, by simp [oneUpdate, FloatPair]⟩, by simp⟩
  obtain ⟨s, hs, -⟩ := Runs.run_total (Q := Orderly)
    (fun a s ha h => step_accounts (fun _ _ => routed_connected unit_connected) ha h) ha
    (start_accounts _ ⟨fun _ => .ignore, fun _ _ => .notifyUpwards⟩ zeroedHistory zeroedHistory (fun _ => initialTwin)
      zeroedQueue zeroedQueue zeroedQueue)
  have hwell := run_sendsWell (start_sendsWell _ _ (show zeroedHistory.logIndex = 0 from rfl) _ _ _ _) hs
  exact ⟨s, sender_log _ _ rfl _ _ _ _ hs (lt_of_le_of_lt hwell.bound (by decide))⟩

end Engine

end OpenTwins
