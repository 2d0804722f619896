import OpenTwins.FixedArray
import Mathlib.Data.Fintype.Pi

/-!
The constants of `config.h` and the records of `event_types.h`. Floating-point fields hold
their bit patterns, and `value` holds the four bytes that `f32` and `i32` share.
-/

namespace OpenTwins

def zmqBufferSize : ℕ := 1024
def maxVarsPerEvent : ℕ := 8
def maxTwins : ℕ := 10
def maxVarsPerTwins : ℕ := 20
def queueSize : ℕ := 1024
def maxHistoryRecords : ℕ := 5000000
def messageSize : ℕ := 64

instance : @NeZero ℕ Zero.ofOfNat0 maxTwins := ⟨Nat.succ_ne_zero _⟩

abbrev EventType := UInt32

def eventUpdate : EventType := 0
def eventError : EventType := 1
def eventMax : EventType := 2

abbrev ErrorType := UInt32

structure PropertyUpdate where
  varId : UInt16
  value : UInt32
deriving DecidableEq

structure UpdateEvent where
  count : UInt8
  updates : FixedArray PropertyUpdate maxVarsPerEvent
deriving DecidableEq

structure ErrorEvent where
  errorCode : ErrorType
  message : FixedArray UInt8 messageSize
deriving DecidableEq

structure EventHeader where
  type : EventType
  timestamp : UInt64
  deviation : UInt32
  twinId : UInt32
deriving DecidableEq

inductive Payload
  | update (u : UpdateEvent)
  | error (e : ErrorEvent)
deriving DecidableEq

structure Event where
  header : EventHeader
  payload : Payload
deriving DecidableEq

/-- Reading a member other than the one stored is a fault. -/
def Payload.asUpdate : Payload → Option UpdateEvent
  | .update u => some u
  | .error _ => none

def Payload.asError : Payload → Option ErrorEvent
  | .error e => some e
  | .update _ => none

structure TimeSeriesRecord where
  timestampNs : UInt64
  value : UInt32
  twinId : UInt32

def UpdateEvent.entries (u : UpdateEvent) : List PropertyUpdate := u.updates.prefixList u.count.toNat

theorem UpdateEvent.entries_length {u : UpdateEvent} (h : u.count.toNat ≤ maxVarsPerEvent) :
    u.entries.length = u.count.toNat := FixedArray.prefixList_length _ h

def UpdateEvent.append (u : UpdateEvent) (p : PropertyUpdate) : Option UpdateEvent :=
  (u.updates.write u.count.toNat p).map fun updates => { updates, count := u.count + 1 }

theorem UpdateEvent.append_entries {u : UpdateEvent} (h : u.count.toNat < maxVarsPerEvent)
    (p : PropertyUpdate) : ∃ v, u.append p = some v ∧ v.entries = u.entries ++ [p] ∧
      v.count.toNat = u.count.toNat + 1 := by
  have hc : (u.count + 1).toNat = u.count.toNat + 1 := by
    unfold maxVarsPerEvent at h
    rw [UInt8.toNat_add]
    simp
    omega
  refine ⟨_, by rw [UpdateEvent.append, FixedArray.write_of_lt _ h, Option.map_some], ?_, hc⟩
  simp only [UpdateEvent.entries, hc]
  exact FixedArray.prefixList_write _ h p

end OpenTwins
