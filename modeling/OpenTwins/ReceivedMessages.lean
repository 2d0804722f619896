import OpenTwins.CappedLog
import OpenTwins.SentMessages

namespace OpenTwins

open MessagePack FixedArray CappedLog

variable {Socket : Type}

def zeroedRecord : TimeSeriesRecord := ⟨0, 0, 0⟩

def updateRecord (p : Parsing) (x : UInt16 × Value) : TimeSeriesRecord :=
  ⟨p.startTime, x.2.stored, p.header.twinId⟩

theorem recordUpdate_float (p : Parsing) (value : UInt32) (log : HistoryLog) :
    recordUpdate p .float value log = some (record p.idx.toNat ⟨p.startTime, value, p.header.twinId⟩ log) := by
  unfold recordUpdate record
  by_cases h : p.idx.toNat < maxHistoryRecords
  · rw [if_pos ⟨.inl rfl, h⟩, dif_pos h, write_of_lt _ h]
  · rw [if_neg fun hn => h hn.2, dif_neg h]

theorem readUpdate_log {b b' : Batch} {x : UInt16 × Value} {its : List Item}
    (hf : Feeds b.parsing.ctx (pairItems x ++ its)) (hx : FloatPair x) (h : readUpdate b = some b') :
    b'.log = record b.parsing.idx.toNat (updateRecord b.parsing x) b.log := by
  obtain ⟨v, hv⟩ := hx
  obtain ⟨u1, h1, f1, -⟩ := Feeds.next_int hf
  obtain ⟨u2, h2, -, -, htype, hw⟩ := f1.next
  have hvalue : u2.as.word.toUInt32 = x.2.stored := by
    rw [hw, wordAfter_item, Value.word_low]
  have hfloat : u2.type = .float := by
    rw [htype, hv]
    rfl
  simp only [readUpdate, h1, h2, Option.bind_eq_bind, Option.bind_some, hfloat, recordUpdate_float, hvalue] at h
  obtain ⟨updates, -, h⟩ := Option.bind_eq_some_iff.mp h
  cases h
  rfl

theorem fillBatch_log (room : ℕ) {b b' : Batch} {us : List (UInt16 × Value)}
    (hf : Feeds b.parsing.ctx (us.flatMap pairItems)) (hx : ∀ x ∈ us, FloatPair x)
    (hn : b.parsing.varCount = b.parsing.varsProcessed + us.length) (hb : b.batchCount + room = maxVarsPerEvent)
    (h : fillBatch room b = some b') :
    b'.log = ((us.take room).map (updateRecord b.parsing)).foldl
      (fun log x => record b.parsing.idx.toNat x log) b.log := by
  induction room generalizing b us with
  | zero =>
    cases h
    rfl
  | succ room ih =>
    cases us with
    | nil =>
      rw [fillBatch, if_neg (by simp [hn])] at h
      cases h
      rfl
    | cons x us =>
      rw [List.length_cons] at hn
      rw [fillBatch, if_pos (by omega)] at h
      obtain ⟨b1, h1, h⟩ := Option.bind_eq_some_iff.mp h
      have hlog := readUpdate_log hf (hx x (by simp)) h1
      have hwire : Feeds b.parsing.ctx (wireItems (widen x) ++ us.flatMap pairItems) := hf
      obtain ⟨b1', h1', f1, -, c1, p1⟩ := readUpdate_wire hwire (by omega)
      obtain rfl : b1 = b1' := Option.some.inj (h1.symm.trans h1')
      have hrest := ih f1 (fun y hy => hx y (by simp [hy])) (by rw [p1]; simp only; omega) (by omega) h
      have hsame : updateRecord b1.parsing = updateRecord b.parsing := by rw [p1]; rfl
      have hidx : b1.parsing.idx = b.parsing.idx := by rw [p1]
      rw [hrest, hlog, hsame, hidx, List.take_succ_cons, List.map_cons, List.foldl_cons]

theorem nextBatch_log {frame : Frame} {p p' : Parsing} {log log' : HistoryLog} {event : Event}
    {us : List (UInt16 × Value)} (hf : Feeds p.ctx (us.flatMap pairItems)) (hx : ∀ x ∈ us, FloatPair x)
    (hn : p.varCount = p.varsProcessed + us.length) (h : nextBatch frame p log = some (event, p', log')) :
    log' = ((us.take maxVarsPerEvent).map (updateRecord p)).foldl (fun log x => record p.idx.toNat x log) log := by
  obtain ⟨b, hb, h⟩ := Option.bind_eq_some_iff.mp h
  cases h
  exact fillBatch_log maxVarsPerEvent hf hx hn (Nat.zero_add _) hb

def receivedRow (startTime : UInt64) (ys : List Entry) : TimeSeriesRecord :=
  match ys.getLast? with
  | none => zeroedRecord
  | some y => ⟨startTime, y.update.value, y.twinId⟩

theorem rewrite_all {a₀ a : HistoryLog} {xs ys : List TimeSeriesRecord} {y : TimeSeriesRecord}
    (h : Rows a₀ a (xs ++ [y])) : Rows a₀ (ys.foldl (fun log x => record xs.length x log) a)
      (xs ++ [ys.getLast?.getD y]) := by
  induction ys generalizing a y with
  | nil => exact h
  | cons z ys ih =>
    have hrest := ih (h.rewrite z)
    rwa [List.getLast?_cons, Option.getD_some]

namespace Engine

variable {connectors : Connectors Socket} {s t : Engine Socket}

def startTimes : Act → List UInt64
  | .receive _ startTime _ => [startTime]
  | _ => []

def receivedRows (starts : List UInt64) (bss : List (List UInt8)) : List TimeSeriesRecord :=
  List.zipWith (fun startTime bs => receivedRow startTime (wireEntries bs)) starts bss

inductive LogsReceived (s : Engine Socket) (starts : List UInt64) : Prop
  | between (receiving : s.receiving = none) (length : starts.length = s.received.length)
      (rows : Rows (fun _ => zeroedRecord) s.history.log (receivedRows starts s.received))
  | within {frame : Frame} {p : Parsing} {starts' : List UInt64} {bss : List (List UInt8)} {bs : List UInt8}
      {ys : List Entry} {us : List (UInt16 × Value)} (receiving : s.receiving = some (frame, p))
      (received : s.received = bss ++ [bs]) (times : starts = starts' ++ [p.startTime])
      (length : starts'.length = bss.length) (idx : p.idx = UInt32.ofNat bss.length)
      (feeds : Feeds p.ctx (us.flatMap pairItems)) (count : p.varCount = p.varsProcessed + us.length)
      (floats : ∀ x ∈ us, FloatPair x)
      (entries : wireEntries bs = ys ++ us.map fun x => ⟨p.header.timestamp, p.header.twinId, PropertyUpdate.of x⟩)
      (rows : Rows (fun _ => zeroedRecord) s.history.log
        (receivedRows starts' bss ++ [receivedRow p.startTime ys]))

theorem LogsReceived.congr {starts : List UInt64} (h : LogsReceived s starts) (hr : t.receiving = s.receiving)
    (hb : t.received = s.received) (hl : t.history = s.history) : LogsReceived t starts := by
  cases h with
  | between receiving length rows =>
    exact .between (hr.trans receiving) (by rwa [hb]) (by rwa [hb, hl])
  | within receiving received times length idx feeds count floats entries rows =>
    exact .within (hr.trans receiving) (hb.trans received) times length idx feeds count floats entries (by rwa [hl])

theorem receivedRow_append (p : Parsing) (ys : List Entry) (us : List (UInt16 × Value)) :
    receivedRow p.startTime (ys ++ us.map fun x => ⟨p.header.timestamp, p.header.twinId, PropertyUpdate.of x⟩) =
      (us.map (updateRecord p)).getLast?.getD (receivedRow p.startTime ys) := by
  rw [receivedRow, List.getLast?_append, List.getLast?_map, List.getLast?_map]
  cases us.getLast? with
  | none => rfl
  | some x => rfl

theorem receivedRows_length {starts : List UInt64} {bss : List (List UInt8)} (h : starts.length = bss.length) :
    (receivedRows starts bss).length = bss.length := by
  rw [receivedRows, List.length_zipWith, h, min_self]

theorem receivedRows_append {starts : List UInt64} {bss : List (List UInt8)} (h : starts.length = bss.length)
    (startTime : UInt64) (bs : List UInt8) : receivedRows (starts ++ [startTime]) (bss ++ [bs]) =
      receivedRows starts bss ++ [receivedRow startTime (wireEntries bs)] := by
  rw [receivedRows, List.zipWith_append h]
  rfl

theorem began_logs {starts : List UInt64} {frame : Frame} {startTime : UInt64} {buffer : Pointer}
    {m : UpdateMessage} {p : Parsing} (hm : EncodesAll m.items buffer.bytes) (hfloat : ∀ x ∈ m.updates, FloatPair x)
    (hr : s.receiving = none) (hidx : s.history.logIndex = UInt32.ofNat s.received.length)
    (h : decodeHead frame startTime s.history.logIndex buffer buffer.bytes.length = some (.updates p))
    (hlogs : LogsReceived s starts) :
    LogsReceived { hear buffer s with receiving := some (frame, p) } (starts ++ [startTime]) := by
  obtain ⟨ctx, hd, hf⟩ := decodeHead_update frame startTime s.history.logIndex (itemsOf_complete hm)
  rw [h] at hd
  cases hd
  cases hlogs with
  | within receiving =>
    rw [hr] at receiving
    cases receiving
  | between receiving length rows =>
    have hentries : wireEntries buffer.bytes =
        [] ++ m.updates.map fun x => ⟨m.header.timestamp, m.header.twinId, PropertyUpdate.of x⟩ := by
      rw [wireEntries_message hm hfloat]
      rfl
    refine .within rfl rfl rfl length hidx hf (Nat.zero_add _).symm hfloat hentries ?_
    exact rows.skip fun _ _ => rfl

theorem pushed_logs {starts : List UInt64} {frame : Frame} {p p' : Parsing} {event : Event} {log : HistoryLog}
    (hr : s.receiving = some (frame, p)) (h : nextBatch frame p s.history.log = some (event, p', log))
    (hlt : s.received.length < 2 ^ 32) (hlogs : LogsReceived s starts) :
    LogsReceived (offered event { s with receiving := some (frame, p'), history := { s.history with log } })
      starts := by
  cases hlogs with
  | between receiving =>
    rw [hr] at receiving
    cases receiving
  | @within _ _ starts' bss bs ys us receiving received times length idx feeds count floats entries rows =>
    rw [hr] at receiving
    cases receiving
    have hlog := nextBatch_log feeds floats count h
    obtain ⟨u, ctx, log', hb, -, -, hf'⟩ := nextBatch_pairs frame s.history.log feeds count
    rw [h] at hb
    cases hb
    have hxs : p.idx.toNat = (receivedRows starts' bss).length := by
      rw [receivedRows_length length, idx]
      rw [received, List.length_append] at hlt
      exact UInt32.toNat_ofNat_of_lt' (by simp only [UInt32.size]; omega)
    have hentries : wireEntries bs = (ys ++ (us.take maxVarsPerEvent).map fun x =>
          ⟨p.header.timestamp, p.header.twinId, PropertyUpdate.of x⟩) ++
        (us.drop maxVarsPerEvent).map fun x => ⟨p.header.timestamp, p.header.twinId, PropertyUpdate.of x⟩ := by
      rw [entries, List.append_assoc, ← List.map_append, List.take_append_drop]
    refine .within rfl received times length idx hf' ?_ ?_ hentries ?_
    · simp only [List.length_drop]
      omega
    · exact fun x hx => floats x (List.mem_of_mem_drop hx)
    · simp only [offered]
      rw [receivedRow_append, hlog, hxs]
      exact rewrite_all rows

theorem pushedAll_logs {starts : List UInt64} {frame : Frame} {p : Parsing} (hr : s.receiving = some (frame, p))
    (hp : ¬ p.varsProcessed < p.varCount) (hlogs : LogsReceived s starts) :
    LogsReceived { s with receiving := none } starts := by
  cases hlogs with
  | between receiving =>
    rw [hr] at receiving
    cases receiving
  | @within _ _ starts' bss bs ys us receiving received times length idx feeds count floats entries rows =>
    rw [hr] at receiving
    cases receiving
    obtain rfl : us = [] := List.length_eq_zero_iff.mp (by omega)
    rw [List.map_nil, List.append_nil] at entries
    refine .between rfl ?_ ?_
    · simp [times, received, length]
    · simp only [times, received, receivedRows_append length, entries]
      exact rows

structure HearsWell (nows : List UInt64) (s : Engine Socket) : Prop where
  index : s.history.logIndex = UInt32.ofNat s.received.length
  bound : s.received.length ≤ nows.length
  logs : s.received.length < 2 ^ 32 → ∃ starts, starts.Sublist nows ∧ LogsReceived s starts

theorem HearsWell.keeps {nows : List UInt64} (h : HearsWell nows s) (hb : t.received = s.received)
    (hi : t.history.logIndex = s.history.logIndex) (hlogs : s.received.length < 2 ^ 32 →
      ∀ starts, LogsReceived s starts → LogsReceived t starts) (a : Act) :
    HearsWell (nows ++ startTimes a) t := by
  refine ⟨?_, ?_, ?_⟩
  · rw [hi, hb, h.index]
  · rw [hb, List.length_append]
    exact h.bound.trans (Nat.le_add_right _ _)
  · intro hlt
    rw [hb] at hlt
    obtain ⟨starts, hsub, hs⟩ := h.logs hlt
    exact ⟨starts, hsub.trans (List.sublist_append_left _ _), hlogs hlt starts hs⟩

theorem effect_hearsWell {nows : List UInt64} {a : Act} (ha : Orderly a) (h : HearsWell nows s)
    (he : Effect connectors s a t) : HearsWell (nows ++ startTimes a) t := by
  cases he with
  | @rejected frame startTime buffer hr hd =>
    obtain ⟨m, hm, -⟩ := ha
    obtain ⟨ctx, hd', -⟩ := decodeHead_update frame startTime s.history.logIndex (itemsOf_complete hm)
    rw [hd] at hd'
    cases hd'
  | @errored frame startTime buffer event hr hd =>
    obtain ⟨m, hm, -⟩ := ha
    obtain ⟨ctx, hd', -⟩ := decodeHead_update frame startTime s.history.logIndex (itemsOf_complete hm)
    rw [hd] at hd'
    cases hd'
  | @began frame startTime buffer p hr hd =>
    obtain ⟨m, hm, hfloat⟩ := ha
    refine ⟨?_, ?_, ?_⟩
    · simp only [hear, h.index, List.length_append, List.length_singleton]
      rw [← UInt32.toNat_inj]
      simp
    · simpa [hear, startTimes] using h.bound
    · intro hlt
      simp only [hear, List.length_append, List.length_singleton] at hlt
      obtain ⟨starts, hsub, hlogs⟩ := h.logs (by omega)
      exact ⟨starts ++ [startTime], hsub.append (.refl _), began_logs hm hfloat hr h.index hd hlogs⟩
  | pushed hr hp hb =>
    apply h.keeps
    · rfl
    · rfl
    · exact fun hlt starts hs => pushed_logs hr hb hlt hs
  | pushedAll hr hp =>
    apply h.keeps
    · rfl
    · rfl
    · exact fun _ starts hs => pushedAll_logs hr hp hs
  | _ =>
    apply h.keeps
    · rfl
    · rfl
    · exact fun _ starts hs => hs.congr rfl rfl rfl

theorem start_hearsWell (rules : Rules) (sentHistory : History) (memory : TwinsMemory)
    (queueIn notifyQueue userActionsQueue : EventQueue) :
    HearsWell [] (start rules zeroedHistory sentHistory memory queueIn notifyQueue userActionsQueue :
      Engine Socket) where
  index := rfl
  bound := le_refl 0
  logs := fun _ => ⟨[], .slnil, .between rfl rfl (rows_nil _)⟩

theorem run_hearsWell {nows : List UInt64} {acts : List Act} (ha : ∀ a ∈ acts, Orderly a) (h : HearsWell nows s)
    (hrun : Runs.run (step connectors) acts s = some t) : HearsWell (nows ++ acts.flatMap startTimes) t := by
  induction acts generalizing s nows with
  | nil =>
    cases hrun
    rwa [List.flatMap_nil, List.append_nil]
  | cons a acts ih =>
    obtain ⟨s1, h1, hrun⟩ := Option.bind_eq_some_iff.mp hrun
    have hnext := ih (fun b hb => ha b (by simp [hb])) (effect_hearsWell (ha a (by simp)) h (step_effect h1)) hrun
    rwa [List.append_assoc, ← List.flatMap_cons] at hnext

/-- Between two messages the file that `main` would write has one row for each of the first messages
received, in order, with the time at which it was begun, its twin and its last value. -/
theorem receiver_log (rules : Rules) (sentHistory : History) (memory : TwinsMemory)
    (queueIn notifyQueue userActionsQueue : EventQueue) {acts : List Act} (ha : ∀ a ∈ acts, Orderly a)
    (hrun : Runs.run (step connectors) acts
      (start rules zeroedHistory sentHistory memory queueIn notifyQueue userActionsQueue) = some s)
    (hlt : s.received.length < 2 ^ 32) (hr : s.receiving = none) :
    ∃ starts, starts.Sublist (acts.flatMap startTimes) ∧ starts.length = s.received.length ∧
      dumpRows s.history = some ((receivedRows starts s.received).take maxHistoryRecords) := by
  have hwell := run_hearsWell ha (start_hearsWell rules sentHistory memory queueIn notifyQueue userActionsQueue) hrun
  obtain ⟨starts, hsub, hlogs⟩ := hwell.logs hlt
  cases hlogs with
  | within receiving =>
    rw [hr] at receiving
    cases receiving
  | between receiving length rows =>
    refine ⟨starts, hsub, length, dumpRows_rows ?_ rows⟩
    rw [receivedRows_length length, hwell.index]
    exact UInt32.toNat_ofNat_of_lt' hlt

def oneUpdateBuffer : Pointer := ⟨0, [0x97, 0, 1, 0, 0, 1, 5, 0xca, 0x3f, 0x80, 0, 0]⟩

def ignoringEngine : Engine Unit :=
  start ignoringRules zeroedHistory zeroedHistory (fun _ => initialTwin) zeroedQueue zeroedQueue zeroedQueue

theorem receiver_log_oneUpdate : ∃ (n : ℕ) (s : Engine Unit) (starts : List UInt64),
    Runs.run (step fun _ => some ()) (.receive zeroedFrame 0 oneUpdateBuffer :: List.replicate n .push)
      ignoringEngine = some s ∧ s.receiving = none ∧ starts.length = s.received.length ∧
    dumpRows s.history = some ((receivedRows starts s.received).take maxHistoryRecords) := by
  obtain ⟨rc, history, es, hd, -⟩ :=
    deserializeEvent_sound zeroedFrame 0 ignoringEngine.history ignoringEngine.queueIn oneUpdateBuffer
  obtain ⟨n, s, hrun, hr, -⟩ :=
    @receive_alone Unit (fun _ => some ()) zeroedFrame 0 oneUpdateBuffer ignoringEngine rc history _ rfl hd
  have ha : ∀ a ∈ (.receive zeroedFrame 0 oneUpdateBuffer :: List.replicate n .push), Orderly a := by
    rw [List.forall_mem_cons]
    refine ⟨⟨oneUpdate, oneUpdate_encoded, by simp [oneUpdate, FloatPair]⟩, ?_⟩
    intro a ha
    rw [List.eq_of_mem_replicate ha]
    trivial
  have hbound := (run_hearsWell ha (start_hearsWell ignoringRules zeroedHistory (fun _ => initialTwin) zeroedQueue
    zeroedQueue zeroedQueue) hrun).bound
  have hlt : s.received.length < 2 ^ 32 := by
    refine lt_of_le_of_lt hbound ?_
    simp [startTimes, List.flatMap_replicate]
  obtain ⟨starts, -, hlen, hdump⟩ := receiver_log ignoringRules zeroedHistory (fun _ => initialTwin) zeroedQueue
    zeroedQueue zeroedQueue ha hrun hlt hr
  exact ⟨n, s, starts, hrun, hr, hlen, hdump⟩

end Engine

end OpenTwins
