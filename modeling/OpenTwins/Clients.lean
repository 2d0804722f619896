import OpenTwins.CappedLog
import OpenTwins.Entries
import OpenTwins.EventSender
import OpenTwins.Receive
import OpenTwins.Runs

namespace OpenTwins

open MessagePack FixedArray

structure Reading where
  timestamp : UInt64
  twinId : UInt32
  value : UInt32

namespace Reading

def totalVars : UInt64 := 1

def deviation : UInt32 := 0x3f000000

def pack (overflow : UInt64) (r : Reading) : PackContext :=
  let pc := cwPackArraySize (5 + 1 * 2) (cwPackContextInit zmqBufferSize)
  let pc := cwPackUnsigned 0 pc
  let pc := cwPackUnsigned r.timestamp pc
  let pc := cwPackUnsigned (Binary32.toUInt64 overflow deviation) pc
  let pc := cwPackUnsigned r.twinId.toUInt64 pc
  let pc := cwPackUnsigned totalVars pc
  let pc := cwPackUnsigned 0 pc
  cwPackFloat r.value pc

def bytes (overflow : UInt64) (r : Reading) : List UInt8 := (r.pack overflow).written

def message (overflow : UInt64) (r : Reading) : UpdateMessage where
  timestamp := r.timestamp
  deviation := .int (Binary32.toUInt64 overflow deviation).toNat
  twinId := r.twinId
  updates := [(0, .float r.value)]
  fits := by simp

def entry (r : Reading) : Entry := ⟨r.timestamp, r.twinId, ⟨0, r.value⟩⟩

theorem bytes_encode (overflow : UInt64) (r : Reading) : EncodesAll (r.message overflow).items (r.bytes overflow) := by
  have hemits := (((((((cwPackArraySize_emits (5 + 1 * 2)).comp (cwPackUnsigned_emits 0)).comp
    (cwPackUnsigned_emits r.timestamp)).comp
    (cwPackUnsigned_emits (Binary32.toUInt64 overflow deviation))).comp
    (cwPackUnsigned_emits r.twinId.toUInt64)).comp (cwPackUnsigned_emits totalVars)).comp
    (cwPackUnsigned_emits 0)).comp (cwPackFloat_emits r.value)
  obtain ⟨bs, he, ha⟩ := hemits
  rw [show r.bytes overflow = bs from (ha.init (by decide)).2.1]
  rw [UInt32.toNat_toUInt64] at he
  exact he

theorem wireEntries_bytes (overflow : UInt64) (r : Reading) : wireEntries (r.bytes overflow) = [r.entry] := by
  rw [wireEntries_message (r.bytes_encode overflow) (by simp [message, FloatPair])]
  rfl

end Reading

def maxMsgs : ℕ := 1000000
def clientLogSize : ℕ := 8000000

structure Mensaje where
  sendingTs : UInt64
  receivingTs : UInt64
  twinId : UInt32
  messageId : UInt32

/-- A message at the socket of `zmq_recieve.c`, with what the locals of its round hold before they
are assigned and the time at which it is taken. -/
structure Arrival where
  itemType : ItemType
  item : ItemAs
  address : UInt64
  message : List UInt8
  receivingTs : UInt64

def parseMensaje (a : Arrival) : Option (Option Mensaje) := do
  let (stored, size) := zmqRecv zmqBufferSize a.message
  let ctx ← cwUnpackNext (cwUnpackContextInit a.itemType a.item ⟨a.address, stored⟩ size)
  if ctx.returnCode ≠ .ok then return none
  else if ctx.as.word.toUInt32 < 4 then return none
  else
    let ctx ← cwUnpackNext ctx
    let ctx ← cwUnpackNext ctx
    let sendingTs := ctx.as.word
    let ctx ← cwUnpackNext ctx
    let ctx ← cwUnpackNext ctx
    let twinId := ctx.as.word.toUInt32
    let ctx ← cwUnpackNext ctx
    let ctx ← cwUnpackNext ctx
    let ctx ← cwUnpackNext ctx
    return some { sendingTs, receivingTs := a.receivingTs, twinId, messageId := ctx.as.word.toUInt32 }

structure ReceivingClient where
  totalReceived : ℕ
  historyLog : FixedArray Mensaje clientLogSize

namespace ReceivingClient

def zeroedMensaje : Mensaje := ⟨0, 0, 0, 0⟩

def start : ReceivingClient := ⟨0, fun _ => zeroedMensaje⟩

def round (a : Arrival) : Option ReceivingClient → Option (Option ReceivingClient)
  | none => some none
  | some s => do
    let totalReceived := s.totalReceived + 1
    match ← parseMensaje a with
    | none => return none
    | some m =>
      if totalReceived ≤ maxMsgs then
        let historyLog ← s.historyLog.write (totalReceived - 1) m
        return some { totalReceived, historyLog }
      else return some { s with totalReceived }

def csvRows (s : ReceivingClient) : Option (List Mensaje) :=
  (List.range s.totalReceived).mapM s.historyLog.read

end ReceivingClient

def Arrival.row (a : Arrival) (m : UpdateMessage) (x : UInt16 × Value) : Mensaje :=
  ⟨m.timestamp, a.receivingTs, m.twinId, x.2.stored⟩

theorem parseMensaje_message {a : Arrival} {m : UpdateMessage} {x : UInt16 × Value} {xs : List (UInt16 × Value)}
    (hlen : a.message.length ≤ zmqBufferSize) (hm : EncodesAll m.items a.message) (hx : m.updates = x :: xs) :
    parseMensaje a = some (some (a.row m x)) := by
  have hf := feeds_init a.itemType a.item ⟨a.address, a.message⟩
  have hitems : itemsOf a.message = m.headItems ++ (pairItems x ++ xs.flatMap pairItems) := by
    rw [itemsOf_complete hm, UpdateMessage.items, hx]
    rfl
  rw [hitems] at hf
  obtain ⟨u, hu, fu, ru, -, wu⟩ := hf.next
  obtain ⟨u1, h1, f1, -⟩ := fu.next_int
  obtain ⟨u2, h2, f2, w2⟩ := f1.next_int
  obtain ⟨u3, h3, f3, -⟩ := f2.next
  obtain ⟨u4, h4, f4, w4⟩ := f3.next_int
  obtain ⟨u5, h5, f5, -⟩ := f4.next_int
  obtain ⟨u6, h6, f6, -⟩ := f5.next_int
  obtain ⟨u7, h7, -, -, -, w7⟩ := f6.next
  have hsize : ¬ u.as.word.toUInt32 < 4 := by
    have hlow : u.as.word.toUInt32 = UInt32.ofNat (5 + 2 * m.updates.length) := by
      rw [wu]
      exact withLow32_low _ _
    rw [hlow]
    exact UInt32.not_lt.mpr (four_le_size m.fits)
  have hstored : a.message.take zmqBufferSize = a.message := List.take_of_length_le hlen
  simp only [parseMensaje, zmqRecv, hstored, Option.bind_eq_bind, hu, Option.bind_some, if_neg (not_not.mpr ru),
    if_neg hsize, h1, h2, h3, h4, h5, h6, h7]
  rw [w2, w4, w7, wordAfter_item, Value.word_low, ofInt_toNat, ofInt_toUInt32, UInt32.ofNat_toNat]
  rfl

namespace ReceivingClient

open CappedLog

structure Kept (s : ReceivingClient) (ms : List Mensaje) : Prop where
  total : s.totalReceived = ms.length
  rows : Rows (fun _ => zeroedMensaje) s.historyLog (ms.take maxMsgs)

theorem round_kept {s : ReceivingClient} {ms : List Mensaje} {a : Arrival} {m : Mensaje} (h : Kept s ms)
    (hm : parseMensaje a = some (some m)) : ∃ t, round a (some s) = some (some t) ∧ Kept t (ms ++ [m]) := by
  by_cases hle : ms.length + 1 ≤ maxMsgs
  · have hlt : ms.length < clientLogSize := lt_of_lt_of_le (Nat.lt_of_succ_le hle) (by decide)
    have hall : ms.take maxMsgs = ms := List.take_of_length_le (by omega)
    have hrows := h.rows.record m
    rw [hall] at hrows
    refine ⟨⟨ms.length + 1, record ms.length m s.historyLog⟩, ?_, by simp, ?_⟩
    · simp only [round, hm, Option.bind_eq_bind, Option.bind_some, if_pos hle, Nat.add_sub_cancel, h.total,
        write_of_lt _ hlt, record, dif_pos hlt]
      rfl
    · rwa [List.take_of_length_le (by simpa using hle)]
  · refine ⟨⟨ms.length + 1, s.historyLog⟩, ?_, by simp, ?_⟩
    · simp only [round, hm, Option.bind_eq_bind, Option.bind_some, h.total, if_neg hle]
      rfl
    · rw [List.take_append_of_le_length (by omega)]
      exact h.rows

theorem run_kept {as : List Arrival} {ms ms' : List Mensaje} {s : ReceivingClient} (h : Kept s ms')
    (has : List.Forall₂ (fun a m => parseMensaje a = some (some m)) as ms) :
    ∃ t, Runs.run round as (some s) = some (some t) ∧ Kept t (ms' ++ ms) := by
  induction has generalizing s ms' with
  | nil => exact ⟨s, rfl, by rwa [List.append_nil]⟩
  | @cons a m as ms hm has ih =>
    obtain ⟨s1, h1, hk⟩ := round_kept h hm
    obtain ⟨t, ht, hk'⟩ := ih hk
    refine ⟨t, ?_, ?_⟩
    · rw [Runs.run, h1]
      exact ht
    · rwa [List.append_assoc] at hk'

theorem Kept.csvRows {s : ReceivingClient} {ms : List Mensaje} (h : Kept s ms) (hle : ms.length ≤ clientLogSize) :
    s.csvRows = some (ms.take maxMsgs ++ List.replicate (ms.length - maxMsgs) zeroedMensaje) := by
  rw [ReceivingClient.csvRows, h.total, mapM_read _ hle]
  congr 1
  apply List.ext_getElem
  · rw [prefixList_length _ hle, List.length_append, List.length_take, List.length_replicate]
    omega
  · intro i hi hi'
    rw [prefixList_length _ hle] at hi
    rw [prefixList_getElem _ hle]
    by_cases hrow : i < (ms.take maxMsgs).length
    · rw [List.getElem_append_left hrow]
      exact h.rows.written ⟨i, _⟩ hrow
    · rw [List.getElem_append_right (not_lt.mp hrow), List.getElem_replicate]
      exact h.rows.rest ⟨i, _⟩ (not_lt.mp hrow)

end ReceivingClient

end OpenTwins
