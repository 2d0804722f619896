import OpenTwins.Reports

namespace OpenTwins

open MessagePack FixedArray

inductive Refusal
  | notUnpacked
  | notArray
  | tooFewArguments
  | unknownOpcode

def Refusal.message : Refusal → String
  | .notUnpacked => "Failed to unpack request"
  | .notArray => "Array of arguments expected"
  | .tooFewArguments => "Not enough arguments for this opcode"
  | .unknownOpcode => "Error: OpCode desconocido"

inductive Query
  | refused (refusal : Refusal)
  | getAll
  | get (id : UInt32)
  | delete (id : UInt32)

structure Twin where
  connected : Bool
  vars : FixedArray UInt32 maxVarsPerTwins

abbrev TwinService := FixedArray Twin maxTwins

namespace TwinService

def start : TwinService := fun _ => ⟨false, fun _ => floatZero⟩

def report (s : TwinService) (id : UInt32) : TwinReport :=
  if h : id.toNat < maxTwins then
    ⟨id.toNat, if (s ⟨id.toNat, h⟩).connected then 0 else 2, (s ⟨id.toNat, h⟩).vars⟩
  else ⟨id.toNat, 2 ^ 64 - 1, fun _ => floatMinusOne⟩

def answer (s : TwinService) : Query → Reply
  | .refused refusal => .error (text refusal.message)
  | .getAll => .all fun t => s.report (UInt32.ofNat t)
  | .get id => .twin (s.report id)
  | .delete id => .deleted id.toNat

def apply (s : TwinService) : Query → TwinService
  | .delete id => fun t => if t.val = id.toNat then { s t with connected := false } else s t
  | _ => s

def set (id : UInt32) (s : TwinService) (p : PropertyUpdate) : TwinService := fun t =>
  if h : t.val = id.toNat ∧ p.varId.toUInt8.toNat < maxVarsPerTwins then
    ⟨true, Function.update (s t).vars ⟨p.varId.toUInt8.toNat, h.2⟩ p.value⟩
  else s t

def hear (id : UInt32) (ps : List PropertyUpdate) (s : TwinService) : TwinService := ps.foldl (set id) s

end TwinService

def queryFor (n : UInt32) (opcode : UInt8) (id : UInt32) : Query :=
  if opcode = opGetAll then .getAll
  else if opcode = opGet ∨ opcode = opDelete then
    if n < 2 then .refused .tooFewArguments
    else if opcode = opGet then .get id
    else .delete id
  else .refused .unknownOpcode

def queryOf (req : Pointer) : Query :=
  match decode req.bytes with
  | none => .refused .notUnpacked
  | some (.array n, r) =>
    if n = 0 then .refused .notArray
    else
      let op := readLow n (req.advance (req.bytes.length - r.length))
      queryFor n op.1.toUInt8 (readLow op.1 op.2).1
  | some _ => .refused .notArray

end OpenTwins
