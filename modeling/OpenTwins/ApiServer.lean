import OpenTwins.Pack
import OpenTwins.TwinsMemory

namespace OpenTwins

open MessagePack FixedArray

def text (s : String) : List UInt8 := s.toList.map fun c => UInt8.ofNat c.toNat

def requestBufferSize : ℕ := 1024
def resBufSize : ℕ := 4096

def opGetAll : UInt8 := 0
def opGet : UInt8 := 1
def opDelete : UInt8 := 2

def sendError (message : String) : List UInt8 :=
  let pc := cwPackMapSize 2 (cwPackContextInit 256)
  let pc := cwPackStr (text "error") (cwPackStr (text "status") pc)
  (cwPackStr (text message) (cwPackStr (text "msg") pc)).written

def packTwin (m : TwinsMemory) (t : UInt32) (pc : PackContext) : Option PackContext := do
  let pc := cwPackUnsigned t.toUInt64 (cwPackStr (text "id") (cwPackMapSize 3 pc))
  let status ← twinsMemoryGetStatus t m
  let pc := cwPackUnsigned (UInt64.ofInt status) (cwPackStr (text "status") pc)
  let pc := cwPackArraySize (UInt32.ofNat maxVarsPerTwins) (cwPackStr (text "vars") pc)
  forLoop (fun i pc => (twinsMemoryGetVar t (UInt8.ofNat i) m).map fun x => cwPackFloat x pc)
    maxVarsPerTwins pc

def execute (opcode : UInt8) (targetId : UInt32) (m : TwinsMemory) : Option (List UInt8 × TwinsMemory) :=
  let pc := cwPackContextInit resBufSize
  if opcode = opGetAll then
    (forLoop (fun t pc => packTwin m (UInt32.ofNat t) pc) maxTwins
      (cwPackArraySize (UInt32.ofNat maxTwins) pc)).map fun pc => (pc.written, m)
  else if opcode = opGet then
    (packTwin m targetId pc).map fun pc => (pc.written, m)
  else if opcode = opDelete then
    (twinsMemorySetStatus targetId statusDisconnected m).map fun p =>
      let pc := cwPackStr (text "deleted") (cwPackStr (text "status") (cwPackMapSize 2 pc))
      ((cwPackUnsigned targetId.toUInt64 (cwPackStr (text "id") pc)).written, p.2)
  else some (sendError "Error: OpCode desconocido", m)

def handleElements (arraySize : UInt32) (ctx : UnpackContext) (m : TwinsMemory) :
    Option (List UInt8 × TwinsMemory) :=
  (cwUnpackNext ctx).bind fun ctx =>
    let opcode := ctx.as.word.toUInt8
    if opcode = opGet ∨ opcode = opDelete then
      if arraySize < 2 then some (sendError "Not enough arguments for this opcode", m)
      else (cwUnpackNext ctx).bind fun ctx => execute opcode ctx.as.word.toUInt32 m
    else execute opcode 0 m

/-- `type` and `item` are what the decoder's context held before it was initialised. -/
def handleRequest (type : ItemType) (item : ItemAs) (reqBuf : Pointer) (size : ℕ) (m : TwinsMemory) :
    Option (List UInt8 × TwinsMemory) :=
  (cwUnpackNext (cwUnpackContextInit type item reqBuf size)).bind fun ctx =>
    let arraySize := ctx.as.word.toUInt32
    if ctx.returnCode ≠ .ok then some (sendError "Failed to unpack request", m)
    else (reqBuf.load 1).bind fun _ =>
      if ctx.type ≠ .array ∨ arraySize = 0 then some (sendError "Array of arguments expected", m)
      else handleElements arraySize ctx m

theorem packTwin_some (m : TwinsMemory) (t : UInt32) (pc : PackContext) :
    ∃ pc', packTwin m t pc = some pc' := by
  obtain ⟨status, hs⟩ := twinsMemoryGetStatus_some t m
  rw [packTwin]
  simp only [hs, Option.bind_eq_bind, Option.bind_some]
  obtain ⟨pc', h, -⟩ := forLoop_invariant (P := fun _ _ => True) (k := maxVarsPerTwins)
    (f := fun i pc => (twinsMemoryGetVar t (UInt8.ofNat i) m).map fun x => cwPackFloat x pc)
    (s := cwPackArraySize (UInt32.ofNat maxVarsPerTwins) (cwPackStr (text "vars") (cwPackUnsigned
      (UInt64.ofInt status) (cwPackStr (text "status") (cwPackUnsigned t.toUInt64
        (cwPackStr (text "id") (cwPackMapSize 3 pc)))))))
    (fun i _ pc _ => by
      obtain ⟨x, hx⟩ := twinsMemoryGetVar_some t (UInt8.ofNat i) m
      exact ⟨_, by rw [hx, Option.map_some], trivial⟩) trivial
  exact ⟨pc', h⟩

def disconnect (t : ℕ) (m : TwinsMemory) : TwinsMemory :=
  fun i => if i.val = t then { m i with status := statusDisconnected } else m i

theorem execute_memory (opcode : UInt8) (targetId : UInt32) (m : TwinsMemory) :
    ∃ reply, execute opcode targetId m =
      some (reply, if opcode = opDelete then disconnect targetId.toNat m else m) := by
  unfold execute
  by_cases h0 : opcode = opGetAll
  · obtain ⟨pc', h, -⟩ := forLoop_invariant (P := fun _ _ => True) (k := maxTwins)
      (s := cwPackArraySize (UInt32.ofNat maxTwins) (cwPackContextInit resBufSize))
      (fun t _ pc _ => by
        obtain ⟨pc', h⟩ := packTwin_some m (UInt32.ofNat t) pc
        exact ⟨pc', h, trivial⟩) trivial
    rw [if_pos h0, h, Option.map_some, if_neg (by rw [h0]; decide)]
    exact ⟨_, rfl⟩
  by_cases h1 : opcode = opGet
  · obtain ⟨pc', h⟩ := packTwin_some m targetId (cwPackContextInit resBufSize)
    rw [if_neg h0, if_pos h1, h, Option.map_some, if_neg (by rw [h1]; decide)]
    exact ⟨_, rfl⟩
  by_cases h2 : opcode = opDelete
  · rw [if_neg h0, if_neg h1, if_pos h2, twinsMemorySetStatus_eq, Option.map_some, if_pos h2]
    exact ⟨_, rfl⟩
  · rw [if_neg h0, if_neg h1, if_neg h2, if_neg h2]
    exact ⟨_, rfl⟩

end OpenTwins
