import OpenTwins.Binary32
import OpenTwins.EventQueue
import OpenTwins.UnpackItems

/-!
`deserialize_event`. What a decoding call returns is looked at only for the first item, so
a later item that cannot be decoded leaves what the union held before it.
-/

namespace OpenTwins

/-- What the locals of a call hold before they are assigned; `updates` gives the array of the
event declared in the round of the outer loop that starts at the given variable. -/
structure Frame where
  itemType : ItemType
  item : ItemAs
  updates : ℕ → FixedArray PropertyUpdate maxVarsPerEvent
  message : FixedArray UInt8 messageSize

abbrev HistoryLog := FixedArray TimeSeriesRecord maxHistoryRecords

structure History where
  logIndex : UInt32
  log : HistoryLog

structure Parsing where
  ctx : UnpackContext
  header : EventHeader
  varCount : ℕ
  varsProcessed : ℕ
  idx : UInt32
  startTime : UInt64

inductive Decoded
  | rejected
  | updates (p : Parsing)
  | error (event : Event)

def readHeader (ctx : UnpackContext) : Option (EventHeader × UnpackContext) := do
  let ctx ← cwUnpackNext ctx
  let type : EventType := ctx.as.word.toUInt32
  let ctx ← cwUnpackNext ctx
  let timestamp := ctx.as.word
  let ctx ← cwUnpackNext ctx
  let deviation := Binary32.ofUInt64 ctx.as.word
  let ctx ← cwUnpackNext ctx
  return ({ type, timestamp, deviation, twinId := ctx.as.word.toUInt32 }, ctx)

def copyMessage (text : List UInt8) (len : ℕ) (message : FixedArray UInt8 messageSize) :
    Option (FixedArray UInt8 messageSize) := do
  let message ← FixedArray.forLoop (fun i m => text[i]?.bind (FixedArray.write m i)) len message
  FixedArray.write message len 0

def storeMessage (ctx : UnpackContext) (message : FixedArray UInt8 messageSize) :
    Option (FixedArray UInt8 messageSize) :=
  if ctx.type = .str then
    let len := ctx.as.length.toNat
    copyMessage ctx.as.pointee (if messageSize ≤ len then messageSize - 1 else len) message
  else FixedArray.write message 0 0

def readError (frame : Frame) (header : EventHeader) (ctx : UnpackContext) : Option Event := do
  let ctx ← cwUnpackNext ctx
  let errorCode : ErrorType := ctx.as.word.toUInt32
  let ctx ← cwUnpackNext ctx
  let message ← storeMessage ctx frame.message
  return { header, payload := .error { errorCode, message } }

def decodePayload (frame : Frame) (startTime : UInt64) (idx arraySize : UInt32) (header : EventHeader)
    (ctx : UnpackContext) : Option Decoded :=
  if header.type = eventUpdate then do
    let ctx ← cwUnpackNext ctx
    let varCount := ctx.as.word.toUInt32
    let p : Parsing := { ctx, header, varCount := varCount.toNat, varsProcessed := 0, idx, startTime }
    if arraySize ≠ 5 + varCount * 2 then return .rejected
    else return .updates p
  else if header.type = eventError then do
    let event ← readError frame header ctx
    return .error event
  else some .rejected

def decodeHead (frame : Frame) (startTime : UInt64) (idx : UInt32) (buffer : Pointer) (size : ℕ) :
    Option Decoded := do
  let ctx ← cwUnpackNext (cwUnpackContextInit frame.itemType frame.item buffer size)
  let arraySize := ctx.as.word.toUInt32
  if ctx.returnCode ≠ .ok then return .rejected
  else if arraySize < 4 then return .rejected
  else
    let (header, ctx) ← readHeader ctx
    decodePayload frame startTime idx arraySize header ctx

structure Batch where
  parsing : Parsing
  log : HistoryLog
  updates : FixedArray PropertyUpdate maxVarsPerEvent
  batchCount : ℕ

def recordUpdate (p : Parsing) (type : ItemType) (value : UInt32) (log : HistoryLog) : Option HistoryLog :=
  if (type = .float ∨ type = .double) ∧ p.idx.toNat < maxHistoryRecords then
    FixedArray.write log p.idx.toNat { timestampNs := p.startTime, value, twinId := p.header.twinId }
  else some log

/-- Both members of the value are its low four bytes, of a float as of an integer. -/
def readUpdate (b : Batch) : Option Batch := do
  let p := b.parsing
  let ctx ← cwUnpackNext p.ctx
  let varId := ctx.as.word.toUInt16
  let ctx ← cwUnpackNext ctx
  let value := ctx.as.word.toUInt32
  let updates ← b.updates.write b.batchCount { varId, value }
  let log ← recordUpdate p ctx.type value b.log
  return {
    parsing := { p with ctx, varsProcessed := p.varsProcessed + 1 }
    log, updates, batchCount := b.batchCount + 1 }

def fillBatch : ℕ → Batch → Option Batch
  | 0, b => some b
  | room + 1, b =>
    if b.parsing.varsProcessed < b.parsing.varCount then (readUpdate b).bind (fillBatch room)
    else some b

def nextBatch (frame : Frame) (p : Parsing) (log : HistoryLog) : Option (Event × Parsing × HistoryLog) := do
  let b ← fillBatch maxVarsPerEvent
    { parsing := p, log, updates := frame.updates p.varsProcessed, batchCount := 0 }
  let update : UpdateEvent := { count := UInt8.ofNat b.batchCount, updates := b.updates }
  return ({ header := p.header, payload := .update update }, b.parsing, b.log)

/-- The outer loop. Every round takes at least one variable, so `varCount` rounds suffice;
running out of rounds is a fault. -/
def pushBatches (frame : Frame) : ℕ → Parsing → HistoryLog → EventQueue → Option (HistoryLog × EventQueue)
  | 0, p, log, q => if p.varsProcessed < p.varCount then none else some (log, q)
  | rounds + 1, p, log, q =>
    if p.varsProcessed < p.varCount then do
      let (event, p, log) ← nextBatch frame p log
      let (_, q) ← pushEvent q event
      pushBatches frame rounds p log q
    else some (log, q)

def deserializeEvent (frame : Frame) (startTime : UInt64) (history : History) (q : EventQueue)
    (buffer : Pointer) (size : ℕ) : Option (ℤ × History × EventQueue) := do
  let idx := history.logIndex
  let history := { history with logIndex := idx + 1 }
  match ← decodeHead frame startTime idx buffer size with
  | .rejected => return (-1, history, q)
  | .updates p =>
    let (log, q) ← pushBatches frame p.varCount p history.log q
    return (0, { history with log }, q)
  | .error event =>
    let (_, q) ← pushEvent q event
    return (0, history, q)

def zeroedFrame : Frame where
  itemType := .nil
  item := ⟨0, 0, []⟩
  updates := fun _ _ => ⟨0, 0⟩
  message := fun _ => 0

def zeroedHistory : History := ⟨0, fun _ => ⟨0, 0, 0⟩⟩

theorem readHeader_eq {u u1 u2 u3 u4 : UnpackContext} (h1 : cwUnpackNext u = some u1)
    (h2 : cwUnpackNext u1 = some u2) (h3 : cwUnpackNext u2 = some u3) (h4 : cwUnpackNext u3 = some u4) :
    readHeader u = some ({
      type := u1.as.word.toUInt32, timestamp := u2.as.word
      deviation := Binary32.ofUInt64 u3.as.word, twinId := u4.as.word.toUInt32 }, u4) := by
  simp only [readHeader, h1, h2, h3, h4, Option.bind_eq_bind, Option.bind_some]
  rfl

theorem decodeHead_next {frame : Frame} {buffer : Pointer} {size : ℕ} {u : UnpackContext} (startTime : UInt64)
    (idx : UInt32) (hu : cwUnpackNext (cwUnpackContextInit frame.itemType frame.item buffer size) = some u) :
    decodeHead frame startTime idx buffer size =
      if u.returnCode ≠ .ok ∨ u.as.word.toUInt32 < 4 then some .rejected
      else (readHeader u).bind fun r => decodePayload frame startTime idx u.as.word.toUInt32 r.1 r.2 := by
  simp only [decodeHead, hu, Option.bind_eq_bind, Option.bind_some]
  split_ifs <;> first | rfl | grind

theorem decodeHead_eq {frame : Frame} {buffer : Pointer} {size : ℕ} {u v : UnpackContext} {header : EventHeader}
    (startTime : UInt64) (idx : UInt32)
    (hu : cwUnpackNext (cwUnpackContextInit frame.itemType frame.item buffer size) = some u)
    (hh : readHeader u = some (header, v)) :
    decodeHead frame startTime idx buffer size =
      if u.returnCode ≠ .ok ∨ u.as.word.toUInt32 < 4 then some .rejected
      else decodePayload frame startTime idx u.as.word.toUInt32 header v := by
  rw [decodeHead_next startTime idx hu, hh, Option.bind_some]

theorem decodePayload_update {header : EventHeader} {u v : UnpackContext} (frame : Frame) (startTime : UInt64)
    (idx arraySize : UInt32) (ht : header.type = eventUpdate) (hv : cwUnpackNext u = some v) :
    decodePayload frame startTime idx arraySize header u =
      if arraySize ≠ 5 + v.as.word.toUInt32 * 2 then some .rejected
      else some (.updates {
        ctx := v, header, varCount := v.as.word.toUInt32.toNat, varsProcessed := 0, idx, startTime }) := by
  rw [decodePayload, if_pos ht, hv]
  rfl

theorem readError_eq {frame : Frame} {header : EventHeader} {u u1 u2 : UnpackContext}
    {message : FixedArray UInt8 messageSize} (h1 : cwUnpackNext u = some u1)
    (h2 : cwUnpackNext u1 = some u2) (hm : storeMessage u2 frame.message = some message) :
    readError frame header u =
      some { header, payload := .error { errorCode := u1.as.word.toUInt32, message } } := by
  simp only [readError, h1, h2, hm, Option.bind_eq_bind, Option.bind_some]
  rfl

theorem recordUpdate_some (p : Parsing) (type : ItemType) (value : UInt32) (log : HistoryLog) :
    ∃ log', recordUpdate p type value log = some log' := by
  unfold recordUpdate
  split_ifs with h
  · exact ⟨_, FixedArray.write_of_lt log h.2 _⟩
  · exact ⟨log, rfl⟩

theorem readUpdate_eq {b : Batch} {u1 u2 : UnpackContext} (h1 : cwUnpackNext b.parsing.ctx = some u1)
    (h2 : cwUnpackNext u1 = some u2) (hb : b.batchCount < maxVarsPerEvent) :
    ∃ log, readUpdate b = some {
      parsing := { b.parsing with ctx := u2, varsProcessed := b.parsing.varsProcessed + 1 }
      log := log
      updates := Function.update b.updates ⟨b.batchCount, hb⟩ ⟨u1.as.word.toUInt16, u2.as.word.toUInt32⟩
      batchCount := b.batchCount + 1 } := by
  obtain ⟨log, hl⟩ := recordUpdate_some b.parsing u2.type u2.as.word.toUInt32 b.log
  refine ⟨log, ?_⟩
  simp only [readUpdate, h1, h2, hl, FixedArray.write_of_lt b.updates hb, Option.bind_eq_bind,
    Option.bind_some]
  rfl

theorem nextBatch_eq {frame : Frame} {p : Parsing} {log : HistoryLog} {b : Batch}
    (h : fillBatch maxVarsPerEvent
      { parsing := p, log, updates := frame.updates p.varsProcessed, batchCount := 0 } = some b) :
    nextBatch frame p log = some ({
      header := p.header
      payload := .update { count := UInt8.ofNat b.batchCount, updates := b.updates } }, b.parsing, b.log) := by
  simp only [nextBatch, h, Option.bind_eq_bind, Option.bind_some]
  rfl

theorem pushBatches_succ {frame : Frame} {p p' : Parsing} {log log' : HistoryLog} {event : Event}
    (rounds : ℕ) (q : EventQueue) (hp : p.varsProcessed < p.varCount)
    (h : nextBatch frame p log = some (event, p', log')) :
    pushBatches frame (rounds + 1) p log q = pushBatches frame rounds p' log' (offer q event) := by
  simp only [pushBatches, if_pos hp, h, pushEvent_offer, Option.bind_eq_bind, Option.bind_some]

end OpenTwins
