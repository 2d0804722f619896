import OpenTwins.EventParser
import OpenTwins.Messages
import OpenTwins.Pack

/-!
`serialize_event`, and the thread that sends what the notify queue holds. The messaging
library is a parameter: what its calls return is not decided here.
-/

namespace OpenTwins

open MessagePack FixedArray

def packUpdate (p : PropertyUpdate) (pc : PackContext) : PackContext :=
  cwPackFloat p.value (cwPackUnsigned p.varId.toUInt64 pc)

/-- `overflow` is what the conversion of a deviation yields that does not fit 64 bits. -/
def serializeEvent (overflow : UInt64) (event : Event) : Option PackContext := do
  let u ← event.payload.asUpdate
  let pc := cwPackArraySize (5 + u.count.toUInt32 * 2) (cwPackContextInit zmqBufferSize)
  let pc := cwPackUnsigned 0 pc
  let pc := cwPackUnsigned event.header.timestamp pc
  let pc := cwPackUnsigned (Binary32.toUInt64 overflow event.header.deviation) pc
  let pc := cwPackUnsigned event.header.twinId.toUInt64 pc
  let pc := cwPackUnsigned u.count.toUInt64 pc
  forLoop (fun i pc => (u.updates.read i).bind fun p => some (packUpdate p pc)) u.count.toNat pc

def rbpi3Url : String := "tcp://192.168.5.193:5556"
def rbpi4Url : String := "tcp://192.168.5.194:5556"
def rbpi5Url : String := "tcp://192.168.5.195:5556"
def rbpi6Url : String := "tcp://192.168.5.196:5556"
def rbpi7Url : String := "tcp://192.168.5.197:5556"

structure Zmq (Socket : Type) where
  socket : ℕ → Option Socket
  connect : Socket → String → ℤ

abbrev Connectors (Socket : Type) := FixedArray (Option Socket) maxTwins

variable {Socket : Type}

def openConnector (zmq : Zmq Socket) (i : Fin maxTwins) (url : String) (connectors : Connectors Socket) :
    Option (Connectors Socket) :=
  (zmq.socket i).bind fun s =>
    if zmq.connect s url ≠ 0 then none else some (Function.update connectors i (some s))

def openConnectors (zmq : Zmq Socket) : Option (Connectors Socket) := do
  let connectors ← openConnector zmq 0 rbpi3Url fun _ => none
  let connectors ← openConnector zmq 1 rbpi4Url connectors
  let connectors ← openConnector zmq 2 rbpi5Url connectors
  let connectors ← openConnector zmq 3 rbpi6Url connectors
  openConnector zmq 4 rbpi7Url connectors

structure Sent (Socket : Type) where
  publisher : Socket
  bytes : List UInt8

def recordSent (now : UInt64) (event : Event) (history : History) : Option History :=
  let logIndex := history.logIndex + 1
  if history.logIndex.toNat < maxHistoryRecords then do
    let u ← event.payload.asUpdate
    let first ← u.updates.read 0
    let log ← FixedArray.write history.log history.logIndex.toNat ⟨now, first.value, event.header.twinId⟩
    return { logIndex, log }
  else some { history with logIndex }

def sendEvent (overflow now : UInt64) (publisher : Socket) (event : Event) (history : History) :
    Option (Sent Socket × History) := do
  let pc ← serializeEvent overflow event
  let history ← recordSent now event history
  return (⟨publisher, pc.written⟩, history)

def sendNext (overflow now : UInt64) (connectors : Connectors Socket) (garbage : Event) (queue : EventQueue)
    (history : History) : Option (List (Sent Socket) × EventQueue × History) := do
  let (rc, event, queue) ← popEvent queue garbage
  if rc ≠ -1 then
    let publisher ← (connectors.read event.header.twinId.toNat).join
    let (sent, history) ← sendEvent overflow now publisher event history
    return ([sent], queue, history)
  else return ([], queue, history)

def relayMessage (overflow : UInt64) (event : Event) (u : UpdateEvent) (h : u.count.toNat ≤ maxVarsPerEvent) :
    UpdateMessage where
  timestamp := event.header.timestamp
  deviation := .int (Binary32.toUInt64 overflow event.header.deviation).toNat
  twinId := event.header.twinId
  updates := u.entries.map fun p => (p.varId, .float p.value)
  fits := by
    have h8 : maxVarsPerEvent = 8 := rfl
    rw [List.length_map, UpdateEvent.entries_length h]
    omega

theorem relayMessage_deviation (overflow : UInt64) (event : Event) (u : UpdateEvent)
    (h : u.count.toNat ≤ maxVarsPerEvent) : (relayMessage overflow event u h).header.deviation =
      Binary32.ofUInt64 (Binary32.toUInt64 overflow event.header.deviation) :=
  congrArg Binary32.ofUInt64 (ofInt_toNat _)

theorem packUpdate_emits (p : PropertyUpdate) :
    Emits (packUpdate p) (pairItems (p.varId, .float p.value)) 14 :=
  (cwPackUnsigned_emits p.varId.toUInt64).comp (cwPackFloat_emits p.value)

theorem packUpdates_emits (ps : List PropertyUpdate) :
    Emits (fun pc => ps.foldl (fun pc p => packUpdate p pc) pc)
      ((ps.map fun p => (p.varId, Value.float p.value)).flatMap pairItems) (14 * ps.length) := by
  induction ps with
  | nil => exact emits_id
  | cons p ps ih =>
    rw [List.length_cons, Nat.mul_succ, Nat.add_comm]
    exact (packUpdate_emits p).comp ih

theorem packUpdates_eq {u : UpdateEvent} (h : u.count.toNat ≤ maxVarsPerEvent) (pc : PackContext) :
    forLoop (fun i pc => (u.updates.read i).bind fun p => some (packUpdate p pc)) u.count.toNat pc =
      some (u.entries.foldl (fun pc p => packUpdate p pc) pc) := by
  rw [forLoop_read u.updates (fun p pc => some (packUpdate p pc)) h]
  change u.entries.foldlM (fun pc p => pure (packUpdate p pc)) pc = _
  exact List.foldlM_pure

theorem serializeEvent_message (overflow : UInt64) {event : Event} {u : UpdateEvent}
    (hu : event.payload = .update u) (h : u.count.toNat ≤ maxVarsPerEvent) :
    ∃ pc, serializeEvent overflow event = some pc ∧ pc.returnCode = .ok ∧
      EncodesAll (relayMessage overflow event u h).items pc.written := by
  have hlen := UpdateEvent.entries_length h
  have h8 : maxVarsPerEvent = 8 := rfl
  have hemits := ((((((cwPackArraySize_emits (5 + u.count.toUInt32 * 2)).comp
    (cwPackUnsigned_emits 0)).comp (cwPackUnsigned_emits event.header.timestamp)).comp
    (cwPackUnsigned_emits (Binary32.toUInt64 overflow event.header.deviation))).comp
    (cwPackUnsigned_emits event.header.twinId.toUInt64)).comp
    (cwPackUnsigned_emits u.count.toUInt64)).comp (packUpdates_emits u.entries)
  obtain ⟨bs, he, ha⟩ := hemits
  have hroom : 5 + 9 + 9 + 9 + 9 + 9 + 14 * u.entries.length ≤ zmqBufferSize := by
    rw [hlen]
    unfold zmqBufferSize
    omega
  obtain ⟨hok, hw, -⟩ := ha.init hroom
  refine ⟨_, ?_, hok, ?_⟩
  · simp only [serializeEvent, hu, Payload.asUpdate, Option.bind_eq_bind, Option.bind_some]
    exact packUpdates_eq h _
  · have hsize : (5 + u.count.toUInt32 * 2) = UInt32.ofNat (5 + 2 * u.count.toNat) := by
      have := u.count.toNat_lt
      rw [← UInt32.toNat_inj, UInt32.toNat_ofNat', UInt32.toNat_add, UInt32.toNat_mul]
      simp
      omega
    rw [hw]
    convert he using 1
    simp only [UpdateMessage.items, UpdateMessage.headItems, relayMessage, Value.item, hsize, List.length_map, hlen]
    simp

theorem recordSent_some (now : UInt64) {event : Event} {u : UpdateEvent} (hu : event.payload = .update u)
    (history : History) : ∃ history', recordSent now event history = some history' := by
  unfold recordSent
  by_cases h : history.logIndex.toNat < maxHistoryRecords
  · simp only [if_pos h, hu, Payload.asUpdate, read_of_lt u.updates (show 0 < maxVarsPerEvent by decide),
      write_of_lt _ h, Option.bind_eq_bind, Option.bind_some]
    exact ⟨_, rfl⟩
  · rw [if_neg h]
    exact ⟨_, rfl⟩

theorem sendEvent_message (overflow now : UInt64) (publisher : Socket) {event : Event} {u : UpdateEvent}
    (hu : event.payload = .update u) (h : u.count.toNat ≤ maxVarsPerEvent) (history : History) :
    ∃ bytes history', sendEvent overflow now publisher event history = some (⟨publisher, bytes⟩, history') ∧
      EncodesAll (relayMessage overflow event u h).items bytes := by
  obtain ⟨pc, hpc, -, he⟩ := serializeEvent_message overflow hu h
  obtain ⟨history', hh⟩ := recordSent_some now hu history
  refine ⟨pc.written, history', ?_, he⟩
  simp only [sendEvent, hpc, hh, Option.bind_eq_bind, Option.bind_some]
  rfl

end OpenTwins
