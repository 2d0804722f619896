import OpenTwins.Positions

/-!
How many items `deserialize_event` takes off. Here every function also returns the context that it
leaves behind.
-/

namespace OpenTwins

open MessagePack

def readErrorTo (frame : Frame) (header : EventHeader) (ctx : UnpackContext) : Option (Event × UnpackContext) := do
  let ctx ← cwUnpackNext ctx
  let errorCode : ErrorType := ctx.as.word.toUInt32
  let ctx ← cwUnpackNext ctx
  let message ← storeMessage ctx frame.message
  return ({ header, payload := .error { errorCode, message } }, ctx)

def decodePayloadTo (frame : Frame) (startTime : UInt64) (idx arraySize : UInt32) (header : EventHeader)
    (ctx : UnpackContext) : Option (Decoded × UnpackContext) :=
  if header.type = eventUpdate then do
    let ctx ← cwUnpackNext ctx
    let varCount := ctx.as.word.toUInt32
    let p : Parsing := { ctx, header, varCount := varCount.toNat, varsProcessed := 0, idx, startTime }
    if arraySize ≠ 5 + varCount * 2 then return (.rejected, ctx)
    else return (.updates p, ctx)
  else if header.type = eventError then do
    let (event, ctx) ← readErrorTo frame header ctx
    return (.error event, ctx)
  else some (.rejected, ctx)

def decodeHeadTo (frame : Frame) (startTime : UInt64) (idx : UInt32) (buffer : Pointer) (size : ℕ) :
    Option (Decoded × UnpackContext) := do
  let ctx ← cwUnpackNext (cwUnpackContextInit frame.itemType frame.item buffer size)
  let arraySize := ctx.as.word.toUInt32
  if ctx.returnCode ≠ .ok then return (.rejected, ctx)
  else if arraySize < 4 then return (.rejected, ctx)
  else
    let (header, ctx) ← readHeader ctx
    decodePayloadTo frame startTime idx arraySize header ctx

def pushBatchesTo (frame : Frame) :
    ℕ → Parsing → HistoryLog → EventQueue → Option (HistoryLog × EventQueue × UnpackContext)
  | 0, p, log, q => if p.varsProcessed < p.varCount then none else some (log, q, p.ctx)
  | rounds + 1, p, log, q =>
    if p.varsProcessed < p.varCount then do
      let (event, p, log) ← nextBatch frame p log
      let (_, q) ← pushEvent q event
      pushBatchesTo frame rounds p log q
    else some (log, q, p.ctx)

def deserializeEventTo (frame : Frame) (startTime : UInt64) (history : History) (q : EventQueue)
    (buffer : Pointer) (size : ℕ) : Option ((ℤ × History × EventQueue) × UnpackContext) := do
  let idx := history.logIndex
  let history := { history with logIndex := idx + 1 }
  let (decoded, ctx) ← decodeHeadTo frame startTime idx buffer size
  match decoded with
  | .rejected => return ((-1, history, q), ctx)
  | .updates p =>
    let (log, q, ctx) ← pushBatchesTo frame p.varCount p history.log q
    return ((0, { history with log }, q), ctx)
  | .error event =>
    let (_, q) ← pushEvent q event
    return ((0, history, q), ctx)

theorem readErrorTo_eq (frame : Frame) (header : EventHeader) (ctx : UnpackContext) :
    (readErrorTo frame header ctx).map Prod.fst = readError frame header ctx := by
  simp only [readErrorTo, readError, Option.bind_eq_bind, Option.map_bind, Function.comp_def]
  rfl

theorem decodePayloadTo_eq (frame : Frame) (startTime : UInt64) (idx arraySize : UInt32) (header : EventHeader)
    (ctx : UnpackContext) : (decodePayloadTo frame startTime idx arraySize header ctx).map Prod.fst =
      decodePayload frame startTime idx arraySize header ctx := by
  unfold decodePayloadTo decodePayload
  split_ifs
  · cases cwUnpackNext ctx with
    | none => rfl
    | some u =>
      simp only [Option.bind_eq_bind, Option.bind_some]
      split_ifs <;> rfl
  · rw [← readErrorTo_eq]
    cases readErrorTo frame header ctx <;> rfl
  · rfl

theorem decodeHeadTo_eq (frame : Frame) (startTime : UInt64) (idx : UInt32) (buffer : Pointer) (size : ℕ) :
    (decodeHeadTo frame startTime idx buffer size).map Prod.fst = decodeHead frame startTime idx buffer size := by
  unfold decodeHeadTo decodeHead
  cases cwUnpackNext (cwUnpackContextInit frame.itemType frame.item buffer size) with
  | none => rfl
  | some u =>
    simp only [Option.bind_eq_bind, Option.bind_some]
    split_ifs
    · rfl
    · rfl
    · cases readHeader u with
      | none => rfl
      | some r => exact decodePayloadTo_eq frame startTime idx u.as.word.toUInt32 r.1 r.2

theorem pushBatchesTo_eq (frame : Frame) (rounds : ℕ) (p : Parsing) (log : HistoryLog) (q : EventQueue) :
    (pushBatchesTo frame rounds p log q).map (fun r => (r.1, r.2.1)) = pushBatches frame rounds p log q := by
  induction rounds generalizing p log q with
  | zero =>
    unfold pushBatchesTo pushBatches
    split_ifs <;> rfl
  | succ rounds ih =>
    unfold pushBatchesTo pushBatches
    split_ifs
    · cases nextBatch frame p log with
      | none => rfl
      | some r =>
        simp only [Option.bind_eq_bind, Option.bind_some, pushEvent_offer]
        exact ih r.2.1 r.2.2 _
    · rfl

theorem deserializeEventTo_eq (frame : Frame) (startTime : UInt64) (history : History) (q : EventQueue)
    (buffer : Pointer) (size : ℕ) :
    (deserializeEventTo frame startTime history q buffer size).map Prod.fst =
      deserializeEvent frame startTime history q buffer size := by
  simp only [deserializeEventTo, deserializeEvent, ← decodeHeadTo_eq]
  cases decodeHeadTo frame startTime history.logIndex buffer size with
  | none => rfl
  | some r =>
    obtain ⟨d, ctx⟩ := r
    simp only [Option.bind_eq_bind, Option.bind_some, Option.map_some]
    cases d with
    | rejected => rfl
    | updates p =>
      simp only [← pushBatchesTo_eq]
      cases pushBatchesTo frame p.varCount p history.log q <;> rfl
    | error event =>
      simp only [pushEvent_offer]
      rfl

def Frame.start (frame : Frame) (buffer : Pointer) : Position := (frame.item.word.toUInt32, buffer)

variable {s : Position} {u v : UnpackContext}

theorem readErrorTo_calls {frame : Frame} {header : EventHeader} {event : Event}
    (h : readErrorTo frame header u = some (event, v)) : calls 2 u = some v := by
  obtain ⟨u1, h1, h⟩ := Option.bind_eq_some_iff.mp h
  obtain ⟨u2, h2, h⟩ := Option.bind_eq_some_iff.mp h
  obtain ⟨message, -, h⟩ := Option.bind_eq_some_iff.mp h
  cases h
  rw [calls, h1, Option.bind_some, calls, h2]
  rfl

def Decoded.At (arraySize : UInt32) (type : EventType) (s : Position) (ctx : UnpackContext) : Decoded → Prop
  | .rejected => (type = eventUpdate ∧ arraySize ≠ 5 + s.next.1 * 2) ∨ (type ≠ eventUpdate ∧ type ≠ eventError)
  | .updates p => type = eventUpdate ∧ arraySize = 5 + s.next.1 * 2 ∧ Stands p.ctx s.next.1 s.next.2 ∧
      p.varCount = s.next.1.toNat ∧ p.varsProcessed = 0
  | .error _ => type = eventError ∧ Stands ctx (s.after 2).1 (s.after 2).2

theorem decodePayloadTo_at (h : Stands u s.1 s.2) {frame : Frame} {startTime : UInt64} {idx arraySize : UInt32}
    {header : EventHeader} {d : Decoded} {ctx : UnpackContext}
    (hd : decodePayloadTo frame startTime idx arraySize header u = some (d, ctx)) :
    d.At arraySize header.type s ctx := by
  unfold decodePayloadTo at hd
  split_ifs at hd with hup herr
  · obtain ⟨w, hw, sw⟩ := h.next
    simp only [hw, Option.bind_eq_bind, Option.bind_some, sw.word] at hd
    split_ifs at hd with hsize
    · cases hd
      exact .inl ⟨hup, hsize⟩
    · cases hd
      exact ⟨hup, not_not.mp hsize, sw, rfl, rfl⟩
  · obtain ⟨⟨event, v⟩, hr, hd⟩ := Option.bind_eq_some_iff.mp hd
    cases hd
    obtain ⟨w, hw, sw⟩ := h.calls 2
    obtain rfl : ctx = w := Option.some.inj ((readErrorTo_calls hr).symm.trans hw)
    exact ⟨herr, sw⟩
  · cases hd
    exact .inr ⟨hup, herr⟩

theorem decodeHeadTo_at (frame : Frame) (startTime : UInt64) (idx : UInt32) (buffer : Pointer) :
    let s := frame.start buffer
    ∃ d ctx, decodeHeadTo frame startTime idx buffer buffer.bytes.length = some (d, ctx) ∧
      ((d = .rejected ∧ (decode s.2.bytes = none ∨ s.next.1 < 4)) ∨
        (decode s.2.bytes ≠ none ∧ ¬ s.next.1 < 4 ∧ d.At s.next.1 (s.after 2).1 (s.after 5) ctx)) := by
  intro s
  obtain ⟨d, hd, -, -⟩ := decodeHead_sound frame startTime idx buffer
  rw [← decodeHeadTo_eq] at hd
  obtain ⟨⟨d', ctx⟩, hto, rfl⟩ := Option.map_eq_some_iff.mp hd
  refine ⟨d', ctx, hto, ?_⟩
  have h : Stands (cwUnpackContextInit frame.itemType frame.item buffer buffer.bytes.length) s.1 s.2 :=
    stands_init frame.itemType frame.item buffer
  obtain ⟨u, hu, su⟩ := h.next
  obtain ⟨header, v, hh, ht, sv⟩ := Stands.header (s := s.next) su
  simp only [decodeHeadTo, hu, hh, Option.bind_eq_bind, Option.bind_some, su.word] at hto
  split_ifs at hto with h1 h2
  · cases hto
    exact .inl ⟨rfl, .inl ((h.code rfl hu).mp h1)⟩
  · cases hto
    exact .inl ⟨rfl, .inr h2⟩
  · refine .inr ⟨mt (h.code rfl hu).mpr h1, h2, ?_⟩
    rw [show (s.after 2).1 = header.type from ht.symm]
    exact decodePayloadTo_at (s := s.after 5) sv hto

theorem pushBatchesTo_calls (frame : Frame) {rounds : ℕ} {p : Parsing} (log : HistoryLog) (q : EventQueue)
    (hr : p.varCount ≤ p.varsProcessed + rounds)
    (hc : calls (2 * (p.varCount - p.varsProcessed)) p.ctx = some v) :
    ∃ log' es, pushBatchesTo frame rounds p log q = some (log', offers q es, v) ∧
      es.length ≤ p.varCount - p.varsProcessed := by
  induction rounds generalizing p log q with
  | zero =>
    rw [Nat.sub_eq_zero_of_le (by omega)] at hc
    cases hc
    exact ⟨log, [], if_neg (by omega), Nat.zero_le _⟩
  | succ rounds ih =>
    by_cases hp : p.varsProcessed < p.varCount
    · have hsplit : 2 * (p.varCount - p.varsProcessed) =
          2 * min maxVarsPerEvent (p.varCount - p.varsProcessed) +
            2 * (p.varCount - (p.varsProcessed + min maxVarsPerEvent (p.varCount - p.varsProcessed))) := by
        omega
      have hpos : 0 < min maxVarsPerEvent (p.varCount - p.varsProcessed) := lt_min (by decide) (by omega)
      rw [hsplit, calls_add] at hc
      obtain ⟨w, hw, hc⟩ := Option.bind_eq_some_iff.mp hc
      rcases fillBatch_calls maxVarsPerEvent
        (b := { parsing := p, log, updates := frame.updates p.varsProcessed, batchCount := 0 }) (by simp)
        with ⟨hn, -⟩ | ⟨b, hf, hb, hproc, hvars⟩
      · rw [hw] at hn
        cases hn
      · simp only at hproc hvars
        obtain rfl : w = b.parsing.ctx := Option.some.inj (hw.symm.trans hb)
        rw [← hproc, ← hvars] at hc
        obtain ⟨log', es, hpush, hlen⟩ := ih b.log (offer q ⟨p.header, .update ⟨UInt8.ofNat b.batchCount, b.updates⟩⟩)
          (by omega) hc
        refine ⟨log', ⟨p.header, .update ⟨UInt8.ofNat b.batchCount, b.updates⟩⟩ :: es, ?_, ?_⟩
        · simp only [pushBatchesTo, if_pos hp, nextBatch_eq hf, pushEvent_offer, Option.bind_eq_bind, Option.bind_some]
          exact hpush
        · rw [List.length_cons]
          omega
    · rw [Nat.sub_eq_zero_of_le (by omega)] at hc
      cases hc
      exact ⟨log, [], if_neg hp, Nat.zero_le _⟩

def itemsAsked (s : Position) : ℕ := if (s.after 2).1 = eventUpdate then 5 + 2 * (s.after 6).1.toNat else 6

def itemsTaken (buffer : Pointer) (ctx : UnpackContext) : ℕ := (itemsOf buffer.bytes).length - (itemsLeft ctx).length

theorem refused_of_at {d : Decoded} {ctx : UnpackContext} (hd : decode s.2.bytes ≠ none) (h4 : ¬ s.next.1 < 4)
    (h : d.At s.next.1 (s.after 2).1 (s.after 5) ctx) : d = .rejected ↔ Refused s := by
  unfold Refused
  simp only [hd, h4, false_or]
  cases d with
  | rejected => exact iff_of_true rfl h
  | updates p =>
    obtain ⟨ht, hsize, -⟩ := h
    refine iff_of_false (by simp) ?_
    rintro (⟨-, hn⟩ | ⟨hn, -⟩)
    · exact hn hsize
    · exact hn ht
  | error e =>
    obtain ⟨ht, -⟩ := h
    refine iff_of_false (by simp) ?_
    rintro (⟨hn, -⟩ | ⟨-, hn⟩)
    · rw [ht] at hn
      exact absurd hn (by decide)
    · exact hn ht

theorem deserializeEventTo_spec (frame : Frame) (startTime : UInt64) (history : History) (q : EventQueue)
    (buffer : Pointer) :
    let s := frame.start buffer
    ∃ rc history' es ctx, deserializeEventTo frame startTime history q buffer buffer.bytes.length =
        some ((rc, history', offers q es), ctx) ∧
      ((rc = -1 ∧ Refused s ∧ es = []) ∨
        (rc = 0 ∧ ¬ Refused s ∧ es.length ≤ itemsAsked s - 5 ∧
          itemsLeft ctx = (itemsOf buffer.bytes).drop (1 + itemsAsked s))) := by
  intro s
  obtain ⟨d, ctx, hd, hat⟩ := decodeHeadTo_at frame startTime history.logIndex buffer
  change (_ ∧ (_ ∨ s.next.1 < 4)) ∨ _ at hat
  simp only [deserializeEventTo, hd, Option.bind_eq_bind, Option.bind_some]
  rcases hat with ⟨rfl, hr⟩ | ⟨hnone, h4, hat⟩
  · refine ⟨-1, _, [], ctx, rfl, .inl ⟨rfl, ?_, rfl⟩⟩
    rcases hr with hr | hr
    · exact .inl hr
    · exact .inr (.inl hr)
  · have href := refused_of_at hnone h4 hat
    cases d with
    | rejected => exact ⟨-1, _, [], ctx, rfl, .inl ⟨rfl, href.mp rfl, rfl⟩⟩
    | updates p =>
      obtain ⟨ht, -, hs, hcount, hzero⟩ := hat
      obtain ⟨v, hv, sv⟩ := Stands.calls (s := s.after 6) hs (2 * p.varCount)
      obtain ⟨log', es, hp, hlen⟩ := pushBatchesTo_calls frame history.log q
        (show p.varCount ≤ p.varsProcessed + p.varCount by omega) (by rw [hzero]; exact hv)
      change p.varCount = (s.after 6).1.toNat at hcount
      have hasked : itemsAsked s = 5 + 2 * p.varCount := by rw [itemsAsked, if_pos ht, hcount]
      refine ⟨0, ⟨history.logIndex + 1, log'⟩, es, v, ?_, .inr ⟨rfl, mt href.mpr (by simp), by omega, ?_⟩⟩
      · simp only [hp, Option.bind_some]
        rfl
      · rw [sv.itemsLeft, Position.items_after, Position.items_after, List.drop_drop, hasked, ← Nat.add_assoc]
        rfl
    | error e =>
      obtain ⟨ht, hs⟩ := hat
      have hne : (s.after 2).1 ≠ eventUpdate := by
        rw [ht]
        decide
      have hasked : itemsAsked s = 6 := if_neg hne
      refine ⟨0, ⟨history.logIndex + 1, history.log⟩, [e], ctx, ?_,
        .inr ⟨rfl, mt href.mpr (by simp), by rw [hasked]; exact le_rfl, ?_⟩⟩
      · simp only [pushEvent_offer, Option.bind_some]
        rfl
      · rw [Stands.itemsLeft (s := (s.after 5).after 2) hs, Position.items_after, Position.items_after,
          List.drop_drop, hasked]
        rfl

/-- After the header, which declares `n`, as many items are taken, and these are what an event of the
kind has; so no more variables are read and no more events pushed than that. -/
structure SizeAgrees (s : Position) (taken pushed : ℕ) (n : UInt32) : Prop where
  header : (itemsOf s.2.bytes)[0]? = some (.array n)
  taken : taken = n.toNat
  update : (s.after 2).1 = eventUpdate → ∃ c : ℕ, (itemsOf s.2.bytes)[5]? = some (.int c) ∧ n.toNat = 5 + 2 * c
  error : (s.after 2).1 = eventError → n.toNat = 6
  rounds : (s.after 2).1 = eventUpdate → (s.after 6).1.toNat ≤ n.toNat
  pushed : pushed ≤ n.toNat

structure SizeDeclared (s : Position) (n : UInt32) : Prop where
  header : (itemsOf s.2.bytes)[0]? = some (.array n)
  present : n.toNat < (itemsOf s.2.bytes).length
  update : (s.after 2).1 = eventUpdate → ∃ c : ℕ, (itemsOf s.2.bytes)[5]? = some (.int c) ∧ 5 + 2 * c < 2 ^ 32
  error : (s.after 2).1 = eventError → n = 6

theorem Position.low_array {n : UInt32} (h : (itemsOf s.2.bytes)[0]? = some (.array n)) : s.next.1 = n := by
  obtain ⟨a, ha⟩ := Position.low_item h
  exact ha

theorem Position.low_count {c : ℕ} (h : (itemsOf s.2.bytes)[5]? = some (.int c)) (hc : 5 + 2 * c < 2 ^ 32) :
    (s.after 6).1.toNat = c := by
  rw [Position.low_int h, ofInt_toUInt32]
  exact UInt32.toNat_ofNat_of_lt' (by simp only [UInt32.size]; omega)

theorem sizeAgrees_of_accepted {pushed taken : ℕ} {n : UInt32} (ha : ¬ Refused s)
    (htaken : taken = min (itemsAsked s) ((itemsOf s.2.bytes).length - 1))
    (hpushed : pushed ≤ itemsAsked s - 5) : SizeAgrees s taken pushed n ↔ SizeDeclared s n := by
  unfold Refused at ha
  push Not at ha
  obtain ⟨hnone, -, hcount, htype⟩ := ha
  have hpos : (itemsOf s.2.bytes).length ≠ 0 := by
    obtain ⟨x, hx⟩ := Option.ne_none_iff_exists'.mp hnone
    rw [itemsOf_cons hx]
    simp
  unfold itemsAsked at htaken hpushed
  constructor
  · rintro ⟨header, ht, update, error, -, -⟩
    refine ⟨header, ?_, ?_, fun he => UInt32.toNat_inj.mp (error he)⟩
    · by_cases hu : (s.after 2).1 = eventUpdate
      · obtain ⟨c, hc, hn⟩ := update hu
        have := Position.low_count hc (hn ▸ n.toNat_lt)
        rw [if_pos hu] at htaken
        omega
      · have := error (htype hu)
        rw [if_neg hu] at htaken
        omega
    · intro hu
      obtain ⟨c, hc, hn⟩ := update hu
      exact ⟨c, hc, hn ▸ n.toNat_lt⟩
  · rintro ⟨header, present, update, error⟩
    by_cases hu : (s.after 2).1 = eventUpdate
    · obtain ⟨c, hc, hlt⟩ := update hu
      have hlow := Position.low_count hc hlt
      have hn : n.toNat = 5 + 2 * c := by
        have hsize := congrArg UInt32.toNat (hcount hu)
        rw [Position.low_array header, UInt32.toNat_add, UInt32.toNat_mul, hlow] at hsize
        simp only [UInt32.reduceToNat] at hsize
        omega
      rw [if_pos hu] at htaken hpushed
      refine ⟨header, by omega, fun _ => ⟨c, hc, hn⟩, ?_, fun _ => by omega, by omega⟩
      intro he
      rw [hu] at he
      exact absurd he (by decide)
    · have hn : n.toNat = 6 := congrArg UInt32.toNat (error (htype hu))
      rw [if_neg hu] at htaken hpushed
      exact ⟨header, by omega, fun h => absurd h hu, fun _ => hn, fun h => absurd h hu, by omega⟩

theorem sizeAgrees_iff (frame : Frame) (startTime : UInt64) (history : History) (q : EventQueue)
    (buffer : Pointer) {history' : History} {q' : EventQueue}
    (h : deserializeEvent frame startTime history q buffer buffer.bytes.length = some (0, history', q')) :
    ∃ ctx es, deserializeEventTo frame startTime history q buffer buffer.bytes.length = some ((0, history', q'), ctx) ∧
      q' = offers q es ∧ ∀ n, SizeAgrees (frame.start buffer) (itemsTaken buffer ctx - 1) es.length n ↔
        SizeDeclared (frame.start buffer) n := by
  obtain ⟨rc, history'', es, ctx, hto, hspec⟩ := deserializeEventTo_spec frame startTime history q buffer
  rw [← deserializeEventTo_eq, hto] at h
  cases h
  rcases hspec with ⟨hrc, -, -⟩ | ⟨-, ha, hlen, hleft⟩
  · cases hrc
  refine ⟨ctx, es, hto, rfl, fun n => sizeAgrees_of_accepted ha ?_ hlen⟩
  rw [itemsTaken, hleft, List.length_drop]
  change _ = min _ ((itemsOf buffer.bytes).length - 1)
  omega

theorem sizeAgrees_iff_oneUpdate :
    ∃ ctx pushed, SizeAgrees (zeroedFrame.start ⟨0, [0x97, 0, 1, 0, 0, 1, 5, 0xca, 0x3f, 0x80, 0, 0]⟩)
      (itemsTaken ⟨0, [0x97, 0, 1, 0, 0, 1, 5, 0xca, 0x3f, 0x80, 0, 0]⟩ ctx - 1) pushed 7 := by
  have he : EncodesAll oneUpdate.items (Pointer.mk 0 [0x97, 0, 1, 0, 0, 1, 5, 0xca, 0x3f, 0x80, 0, 0]).bytes :=
    oneUpdate_encoded
  obtain ⟨history', es, h, -⟩ := deserializeEvent_update zeroedFrame 0 zeroedHistory zeroedQueue he
  obtain ⟨ctx, es, -, -, ha⟩ := sizeAgrees_iff zeroedFrame 0 zeroedHistory zeroedQueue _ h
  refine ⟨ctx, es.length, (ha 7).mpr ⟨by decide, by decide, fun _ => ⟨1, by decide, by decide⟩, ?_⟩⟩
  intro he
  exact absurd he (by decide)

theorem sizes_disagree :
    ((deserializeEventTo zeroedFrame 0 zeroedHistory zeroedQueue ⟨0, [0x94, 1, 0, 0, 0, 3, 0xa0]⟩ 7).map
        fun r => (r.1.1, itemsTaken ⟨0, [0x94, 1, 0, 0, 0, 3, 0xa0]⟩ r.2 - 1)) = some (0, 6) ∧
    (∀ taken pushed n, ¬ SizeAgrees (zeroedFrame.start ⟨0, [0x94, 1, 0, 0, 0, 3, 0xa0]⟩) taken pushed n) ∧
    ((deserializeEventTo zeroedFrame 0 zeroedHistory zeroedQueue
      ⟨0, [0x97, 0, 1, 0, 0, 0xcf, 0, 0, 0, 1, 0, 0, 0, 1, 5, 0xca, 0x3f, 0x80, 0, 0]⟩ 20).map fun r => r.1.1) =
        some 0 ∧
    ∀ taken pushed n, ¬ SizeAgrees (zeroedFrame.start
      ⟨0, [0x97, 0, 1, 0, 0, 0xcf, 0, 0, 0, 1, 0, 0, 0, 1, 5, 0xca, 0x3f, 0x80, 0, 0]⟩) taken pushed n := by
  refine ⟨by decide, ?_, by decide, ?_⟩
  · intro taken pushed n h
    have hn : some (Item.array 4) = some (.array n) := h.header
    obtain rfl : 4 = n := by simpa using hn
    exact absurd (h.error (by decide)) (by decide)
  · intro taken pushed n h
    obtain ⟨c, hc, hn⟩ := h.update (by decide)
    have hcount : some (Item.int (2 ^ 32 + 1)) = some (.int c) := hc
    have := n.toNat_lt
    simp only [Option.some.injEq, Item.int.injEq] at hcount
    omega

end OpenTwins
