import OpenTwins.Receive
import OpenTwins.Requests

namespace OpenTwins

open MessagePack FixedArray

def zmqSend (pc : PackContext) (sent : List PackContext) : List PackContext := sent ++ [pc]

def packError (message : List UInt8) (pc : PackContext) : PackContext :=
  let pc := cwPackStr (text "error") (cwPackStr (text "status") (cwPackMapSize 2 pc))
  cwPackStr message (cwPackStr (text "msg") pc)

def errorBufSize : ℕ := 256

def sendErrorTo (message : String) (sent : List PackContext) : List PackContext :=
  zmqSend (packError (text message) (cwPackContextInit errorBufSize)) sent

def packDeleted (targetId : UInt32) (pc : PackContext) : PackContext :=
  let pc := cwPackStr (text "deleted") (cwPackStr (text "status") (cwPackMapSize 2 pc))
  cwPackUnsigned targetId.toUInt64 (cwPackStr (text "id") pc)

/-- The `switch` and the `zmq_send` after it, which the default case jumps over. -/
def switchOpcode (opcode : UInt8) (targetId : UInt32) (m : TwinsMemory) (sent : List PackContext) :
    Option (List PackContext × TwinsMemory) :=
  let pc := cwPackContextInit resBufSize
  if opcode = opGetAll then
    (forLoop (fun t pc => packTwin m (UInt32.ofNat t) pc) maxTwins
      (cwPackArraySize (UInt32.ofNat maxTwins) pc)).map fun pc => (zmqSend pc sent, m)
  else if opcode = opGet then
    (packTwin m targetId pc).map fun pc => (zmqSend pc sent, m)
  else if opcode = opDelete then
    (twinsMemorySetStatus targetId statusDisconnected m).map fun p =>
      (zmqSend (packDeleted targetId pc) sent, p.2)
  else some (sendErrorTo "Error: OpCode desconocido" sent, m)

def apiServerRound (type : ItemType) (item : ItemAs) (reqBuf : Pointer) (size : ℕ) (m : TwinsMemory)
    (sent : List PackContext) : Option (List PackContext × TwinsMemory) :=
  (cwUnpackNext (cwUnpackContextInit type item reqBuf size)).bind fun ctx =>
    let arraySize := ctx.as.word.toUInt32
    if ctx.returnCode ≠ .ok then some (sendErrorTo "Failed to unpack request" sent, m)
    else (reqBuf.load 1).bind fun _ =>
      if ctx.type ≠ .array ∨ arraySize = 0 then some (sendErrorTo "Array of arguments expected" sent, m)
      else (cwUnpackNext ctx).bind fun ctx =>
        let opcode := ctx.as.word.toUInt8
        if opcode = opGet ∨ opcode = opDelete then
          if arraySize < 2 then some (sendErrorTo "Not enough arguments for this opcode" sent, m)
          else (cwUnpackNext ctx).bind fun ctx => switchOpcode opcode ctx.as.word.toUInt32 m sent
        else switchOpcode opcode 0 m sent

structure TwinReport where
  id : ℕ
  status : ℕ
  vars : FixedArray UInt32 maxVarsPerTwins

def TwinReport.items (r : TwinReport) : List Item :=
  [.map 3, .str (text "id"), .int r.id, .str (text "status"), .int r.status, .str (text "vars"),
    .array (UInt32.ofNat maxVarsPerTwins)] ++ (r.vars.prefixList maxVarsPerTwins).map .float

inductive Reply
  | error (msg : List UInt8)
  | twin (report : TwinReport)
  | deleted (id : ℕ)
  | all (reports : FixedArray TwinReport maxTwins)

def Reply.items : Reply → List Item
  | .error msg => [.map 2, .str (text "status"), .str (text "error"), .str (text "msg"), .str msg]
  | .twin report => report.items
  | .deleted id => [.map 2, .str (text "status"), .str (text "deleted"), .str (text "id"), .int id]
  | .all reports => .array (UInt32.ofNat maxTwins) :: (reports.prefixList maxTwins).flatMap TwinReport.items

theorem TwinReport.closed (r : TwinReport) : Closed 1 r.items := by
  have hvars := closed_scalars (show ∀ it ∈ (r.vars.prefixList maxVarsPerTwins).map Item.float, it.arity = 0 by
    simp [Item.arity])
  rw [List.length_map, prefixList_length _ le_rfl] at hvars
  have harray : Closed 1 (.array (UInt32.ofNat maxVarsPerTwins) :: (r.vars.prefixList maxVarsPerTwins).map .float) :=
    .container hvars
  have hkeys := closed_scalars (show ∀ it ∈ [Item.str (text "id"), .int r.id, .str (text "status"), .int r.status,
    .str (text "vars")], it.arity = 0 by simp [Item.arity])
  exact .container (hkeys.append harray)

theorem Reply.closed (r : Reply) : Closed 1 r.items := by
  cases r with
  | error msg =>
    exact .container (closed_scalars (show ∀ it ∈ [Item.str (text "status"), .str (text "error"), .str (text "msg"),
      .str msg], it.arity = 0 by simp [Item.arity]))
  | twin report => exact report.closed
  | deleted id =>
    exact .container (closed_scalars (show ∀ it ∈ [Item.str (text "status"), .str (text "deleted"), .str (text "id"),
      .int id], it.arity = 0 by simp [Item.arity]))
  | all reports =>
    have hall := closed_flatMap (reports.prefixList maxTwins) (fun r _ => TwinReport.closed r)
    rw [prefixList_length _ le_rfl] at hall
    exact .container hall

section packing

variable {α : Type} {n : ℕ}

theorem forLoop_appends {f : ℕ → PackContext → Option PackContext} (c : ℕ) (parts : FixedArray (List UInt8) n)
    (h : ∀ i (hi : i < n), ∃ g, (∀ pc, f i pc = some (g pc)) ∧ Appends g (parts ⟨i, hi⟩) c) {k : ℕ} (hk : k ≤ n) :
    ∃ g, (∀ pc, forLoop f k pc = some (g pc)) ∧ Appends g (parts.prefixList k).flatten (c * k) := by
  induction k with
  | zero => exact ⟨id, fun pc => rfl, by simpa using appends_id⟩
  | succ k ih =>
    obtain ⟨g, hg, hge⟩ := ih (by omega)
    obtain ⟨g', hg', hge'⟩ := h k hk
    refine ⟨fun pc => g' (g pc), fun pc => by rw [forLoop, hg, Option.bind_some, hg'], ?_⟩
    rw [prefixList_succ parts hk, List.flatten_append, List.flatten_singleton, Nat.mul_succ]
    exact hge.comp hge'

theorem encodesAll_flatten {its : α → List Item} {a : FixedArray α n} {parts : FixedArray (List UInt8) n}
    (h : ∀ i, EncodesAll (its (a i)) (parts i)) {k : ℕ} (hk : k ≤ n) :
    EncodesAll ((a.prefixList k).flatMap its) (parts.prefixList k).flatten := by
  induction k with
  | zero => simpa using EncodesAll.nil
  | succ k ih =>
    rw [prefixList_succ a hk, prefixList_succ parts hk, List.flatMap_append, List.flatMap_singleton,
      List.flatten_append, List.flatten_singleton]
    exact (ih (by omega)).append (h ⟨k, hk⟩)

theorem forLoop_emits {f : ℕ → PackContext → Option PackContext} (its : α → List Item) (c : ℕ) (a : FixedArray α n)
    (h : ∀ i (hi : i < n), ∃ g, (∀ pc, f i pc = some (g pc)) ∧ Emits g (its (a ⟨i, hi⟩)) c) {k : ℕ} (hk : k ≤ n) :
    ∃ g, (∀ pc, forLoop f k pc = some (g pc)) ∧ Emits g ((a.prefixList k).flatMap its) (c * k) := by
  choose g hg parts he ha using fun i : Fin n => h i i.isLt
  obtain ⟨g', hg', ha'⟩ := forLoop_appends c parts (fun i hi => ⟨g ⟨i, hi⟩, hg ⟨i, hi⟩, ha ⟨i, hi⟩⟩) hk
  exact ⟨g', hg', _, encodesAll_flatten he hk, ha'⟩

theorem packError_emits {message : List UInt8} (h : message.length ≤ 64) :
    Emits (packError message) (Reply.error message).items errorBufSize := by
  have hstatus : (text "status").length = 6 := rfl
  have herror : (text "error").length = 5 := rfl
  have hmsg : (text "msg").length = 3 := rfl
  have hemits := ((((cwPackMapSize_emits 2).comp (cwPackStr_emits (v := text "status") (by omega))).comp
    (cwPackStr_emits (v := text "error") (by omega))).comp (cwPackStr_emits (v := text "msg") (by omega))).comp
    (cwPackStr_emits (v := message) (by omega))
  exact hemits.mono (by unfold errorBufSize; omega)

theorem packDeleted_emits (targetId : UInt32) :
    Emits (packDeleted targetId) (Reply.deleted targetId.toUInt64.toNat).items resBufSize := by
  have hstatus : (text "status").length = 6 := rfl
  have hdeleted : (text "deleted").length = 7 := rfl
  have hid : (text "id").length = 2 := rfl
  have hemits := ((((cwPackMapSize_emits 2).comp (cwPackStr_emits (v := text "status") (by omega))).comp
    (cwPackStr_emits (v := text "deleted") (by omega))).comp (cwPackStr_emits (v := text "id") (by omega))).comp
    (cwPackUnsigned_emits targetId.toUInt64)
  exact hemits.mono (by unfold resBufSize; omega)

structure Faithful (m : TwinsMemory) (t : UInt32) (status : ℤ) (vars : FixedArray UInt32 maxVarsPerTwins) : Prop where
  status : twinsMemoryGetStatus t m = some status
  vars : ∀ i : Fin maxVarsPerTwins, twinsMemoryGetVar t (UInt8.ofNat i) m = some (vars i)

theorem exists_faithful (m : TwinsMemory) (t : UInt32) : ∃ status vars, Faithful m t status vars := by
  obtain ⟨status, hs⟩ := twinsMemoryGetStatus_some t m
  choose vars hv using fun i : Fin maxVarsPerTwins => twinsMemoryGetVar_some t (UInt8.ofNat i) m
  exact ⟨status, vars, hs, hv⟩

theorem packTwin_report {m : TwinsMemory} {t : UInt32} {status : ℤ} {vars : FixedArray UInt32 maxVarsPerTwins}
    (h : Faithful m t status vars) :
    ∃ g : PackContext → PackContext, (∀ pc, packTwin m t pc = some (g pc)) ∧
      Emits g (TwinReport.items ⟨t.toUInt64.toNat, (UInt64.ofInt status).toNat, vars⟩) 155 := by
  have hid : (text "id").length = 2 := rfl
  have hstatus : (text "status").length = 6 := rfl
  have hvars : (text "vars").length = 4 := rfl
  obtain ⟨g, hg, hge⟩ := forLoop_emits (fun x => [.float x]) 5
    (f := fun i pc => (twinsMemoryGetVar t (UInt8.ofNat i) m).map fun x => cwPackFloat x pc) vars
    (fun i hi => ⟨cwPackFloat (vars ⟨i, hi⟩), fun pc => by rw [h.vars ⟨i, hi⟩, Option.map_some],
      cwPackFloat_emits _⟩) le_rfl
  have hemits := (((((((cwPackMapSize_emits 3).comp (cwPackStr_emits (v := text "id") (by omega))).comp
    (cwPackUnsigned_emits t.toUInt64)).comp (cwPackStr_emits (v := text "status") (by omega))).comp
    (cwPackUnsigned_emits (UInt64.ofInt status))).comp (cwPackStr_emits (v := text "vars") (by omega))).comp
    (cwPackArraySize_emits (UInt32.ofNat maxVarsPerTwins))).comp hge
  refine ⟨_, ?_, hemits.mono ?_⟩
  · intro pc
    simp only [packTwin, h.status, Option.bind_eq_bind, Option.bind_some]
    exact hg _
  · unfold maxVarsPerTwins
    omega

theorem packTwin_emits (m : TwinsMemory) (t : UInt32) :
    ∃ (report : TwinReport) (g : PackContext → PackContext),
      (∀ pc, packTwin m t pc = some (g pc)) ∧ Emits g report.items 155 := by
  obtain ⟨status, vars, h⟩ := exists_faithful m t
  exact ⟨_, packTwin_report h⟩

theorem packAll_emits (m : TwinsMemory) :
    ∃ (reports : FixedArray TwinReport maxTwins) (g : PackContext → PackContext),
      (∀ pc, forLoop (fun t pc => packTwin m (UInt32.ofNat t) pc) maxTwins
        (cwPackArraySize (UInt32.ofNat maxTwins) pc) = some (g pc)) ∧
      Emits g (Reply.all reports).items resBufSize := by
  choose reports g hg hge using fun t : Fin maxTwins => packTwin_emits m (UInt32.ofNat t)
  obtain ⟨g', hg', hge'⟩ := forLoop_emits TwinReport.items 155
    (f := fun t pc => packTwin m (UInt32.ofNat t) pc) reports (fun t ht => ⟨g ⟨t, ht⟩, hg ⟨t, ht⟩, hge ⟨t, ht⟩⟩) le_rfl
  exact ⟨reports, _, fun pc => hg' _, ((cwPackArraySize_emits _).comp hge').mono (by decide)⟩

end packing

structure Answers (pc : PackContext) : Prop where
  ok : pc.returnCode = .ok
  buffer : pc.length = errorBufSize ∨ pc.length = resBufSize
  reply : ∃ reply : Reply, EncodesAll reply.items pc.written

variable (sent : List PackContext)

theorem Emits.answers {g : PackContext → PackContext} {reply : Reply} {n : ℕ} (h : Emits g reply.items n)
    (hn : n = errorBufSize ∨ n = resBufSize) : Answers (g (cwPackContextInit n)) := by
  obtain ⟨bs, he, ha⟩ := h
  obtain ⟨hok, hw, hlen⟩ := ha.init le_rfl
  exact ⟨hok, by rwa [hlen], reply, by rwa [hw]⟩

theorem sendErrorTo_answers {message : String} (h : (text message).length ≤ 64) :
    ∃ pc, sendErrorTo message sent = sent ++ [pc] ∧ Answers pc :=
  ⟨_, rfl, (packError_emits h).answers (.inl rfl)⟩

theorem switchOpcode_answers (opcode : UInt8) (targetId : UInt32) (m : TwinsMemory) :
    ∃ pc m', switchOpcode opcode targetId m sent = some (sent ++ [pc], m') ∧ Answers pc := by
  unfold switchOpcode
  dsimp only
  split_ifs
  · obtain ⟨reports, g, hg, hge⟩ := packAll_emits m
    exact ⟨_, m, by rw [hg, Option.map_some, zmqSend], hge.answers (.inr rfl)⟩
  · obtain ⟨report, g, hg, hge⟩ := packTwin_emits m targetId
    have htwin : Emits g (Reply.twin report).items resBufSize := hge.mono (by decide)
    exact ⟨_, m, by rw [hg, Option.map_some, zmqSend], htwin.answers (.inr rfl)⟩
  · exact ⟨_, _, by rw [twinsMemorySetStatus_eq, Option.map_some, zmqSend],
      (packDeleted_emits targetId).answers (.inr rfl)⟩
  · obtain ⟨pc, hs, ha⟩ := sendErrorTo_answers sent (show (text "Error: OpCode desconocido").length ≤ 64 by decide)
    exact ⟨pc, m, by rw [hs], ha⟩

theorem apiServerRound_answers {type : ItemType} {item : ItemAs} {reqBuf : Pointer} {size : ℕ} {m : TwinsMemory}
    {r : List PackContext × TwinsMemory} (h : apiServerRound type item reqBuf size m sent = some r) :
    ∃ pc, r.1 = sent ++ [pc] ∧ Answers pc := by
  have hswitch (opcode : UInt8) (targetId : UInt32) (h : switchOpcode opcode targetId m sent = some r) :
      ∃ pc, r.1 = sent ++ [pc] ∧ Answers pc := by
    obtain ⟨pc, m', hs, ha⟩ := switchOpcode_answers sent opcode targetId m
    obtain rfl : (sent ++ [pc], m') = r := Option.some.inj (hs.symm.trans h)
    exact ⟨pc, rfl, ha⟩
  obtain ⟨u, -, h⟩ := Option.bind_eq_some_iff.mp h
  by_cases hok : u.returnCode ≠ .ok
  · rw [if_pos hok] at h
    cases h
    exact sendErrorTo_answers sent (by decide)
  rw [if_neg hok] at h
  obtain ⟨_, -, h⟩ := Option.bind_eq_some_iff.mp h
  by_cases harr : u.type ≠ .array ∨ u.as.word.toUInt32 = 0
  · rw [if_pos harr] at h
    cases h
    exact sendErrorTo_answers sent (by decide)
  rw [if_neg harr] at h
  obtain ⟨v, -, h⟩ := Option.bind_eq_some_iff.mp h
  by_cases hop : v.as.word.toUInt8 = opGet ∨ v.as.word.toUInt8 = opDelete
  · rw [if_pos hop] at h
    by_cases hn : u.as.word.toUInt32 < 2
    · rw [if_pos hn] at h
      cases h
      exact sendErrorTo_answers sent (by decide)
    · rw [if_neg hn] at h
      obtain ⟨w, -, h⟩ := Option.bind_eq_some_iff.mp h
      exact hswitch _ _ h
  · rw [if_neg hop] at h
    exact hswitch _ _ h

theorem sendErrorTo_bytes (message : String) : (sendErrorTo message sent).map PackContext.written =
    sent.map PackContext.written ++ [sendError message] := by
  simp [sendErrorTo, zmqSend, sendError, packError, errorBufSize]

theorem switchOpcode_bytes (opcode : UInt8) (targetId : UInt32) (m : TwinsMemory) :
    (switchOpcode opcode targetId m sent).map (fun r => (r.1.map PackContext.written, r.2)) =
      (execute opcode targetId m).map fun r => (sent.map PackContext.written ++ [r.1], r.2) := by
  unfold switchOpcode execute
  split_ifs
  · simp [zmqSend, Function.comp_def]
  · simp [zmqSend, Function.comp_def]
  · simp [zmqSend, packDeleted, Function.comp_def]
  · simp [sendErrorTo_bytes]

theorem apiServerRound_bytes (type : ItemType) (item : ItemAs) (reqBuf : Pointer) (size : ℕ) (m : TwinsMemory) :
    (apiServerRound type item reqBuf size m sent).map (fun r => (r.1.map PackContext.written, r.2)) =
      (handleRequest type item reqBuf size m).map fun r => (sent.map PackContext.written ++ [r.1], r.2) := by
  unfold apiServerRound handleRequest handleElements
  cases cwUnpackNext (cwUnpackContextInit type item reqBuf size) with
  | none => rfl
  | some u =>
    simp only [Option.bind_some]
    by_cases hok : u.returnCode ≠ .ok
    · simp only [if_pos hok, Option.map_some, sendErrorTo_bytes]
    simp only [if_neg hok]
    cases reqBuf.load 1 with
    | none => rfl
    | some b =>
      simp only [Option.bind_some]
      by_cases harr : u.type ≠ .array ∨ u.as.word.toUInt32 = 0
      · simp only [if_pos harr, Option.map_some, sendErrorTo_bytes]
      simp only [if_neg harr]
      cases cwUnpackNext u with
      | none => rfl
      | some v =>
        simp only [Option.bind_some]
        by_cases hop : v.as.word.toUInt8 = opGet ∨ v.as.word.toUInt8 = opDelete
        · simp only [if_pos hop]
          by_cases hn : u.as.word.toUInt32 < 2
          · simp only [if_pos hn, Option.map_some, sendErrorTo_bytes]
          simp only [if_neg hn]
          cases cwUnpackNext v with
          | none => rfl
          | some w => exact switchOpcode_bytes sent _ _ m
        · simp only [if_neg hop]
          exact switchOpcode_bytes sent _ _ m

def serveRequest (type : ItemType) (item : ItemAs) (address : UInt64) (message : List UInt8) (m : TwinsMemory)
    (sent : List PackContext) : Option (List PackContext × TwinsMemory) :=
  let (stored, size) := zmqRecv requestBufferSize message
  apiServerRound type item ⟨address, stored⟩ size m sent

theorem serveRequest_answers (type : ItemType) (item : ItemAs) (address : UInt64) {message : List UInt8}
    (h : message.length ≤ requestBufferSize) (m : TwinsMemory) (sent : List PackContext) :
    ∃ pc m' reply, serveRequest type item address message m sent = some (sent ++ [pc], m') ∧
      pc.returnCode = .ok ∧ (pc.length = errorBufSize ∨ pc.length = resBufSize) ∧
      EncodesAll (Reply.items reply) pc.written ∧ Complete 1 pc.written := by
  have hround : serveRequest type item address message m sent =
      apiServerRound type item ⟨address, message⟩ message.length m sent := by
    simp only [serveRequest, zmqRecv, List.take_of_length_le h]
  obtain ⟨bytes, m', hr, -⟩ := handleRequest_memory type item ⟨address, message⟩ m
  have hbytes := apiServerRound_bytes sent type item ⟨address, message⟩ message.length m
  rw [hr, Option.map_some] at hbytes
  obtain ⟨r, hs, -⟩ := Option.map_eq_some_iff.mp hbytes
  obtain ⟨pc, hpc, ha⟩ := apiServerRound_answers sent hs
  obtain ⟨reply, he⟩ := ha.reply
  refine ⟨pc, r.2, reply, ?_, ha.ok, ha.buffer, he, he.complete reply.closed⟩
  rw [hround, hs, ← hpc]

def reportedStore : TwinsMemory :=
  Function.update connectedStore 3 ⟨fun v => if v.val = 5 then 0x41280000 else floatZero, statusOk, 1700000000000⟩

theorem serveRequest_answers_get :
    ∃ pc m', serveRequest .nil ⟨0, 0, []⟩ 0 [0x92, 1, 3] reportedStore [] = some ([pc], m') ∧ Complete 1 pc.written ∧
      pc.written.length = 121 ∧ (pc.written.drop 46).take 5 = [0xca, 0x41, 0x28, 0, 0] := by
  obtain ⟨pc, m', -, hs, -, -, -, hc⟩ := serveRequest_answers .nil ⟨0, 0, []⟩ 0
    (show [0x92, 1, 3].length ≤ requestBufferSize by decide) reportedStore []
  have hbytes : (serveRequest .nil ⟨0, 0, []⟩ 0 [0x92, 1, 3] reportedStore []).map (fun r => r.1.map fun pc =>
      (pc.written.length, (pc.written.drop 46).take 5)) = some [(121, [0xca, 0x41, 0x28, 0, 0])] := by
    decide +kernel
  rw [hs] at hbytes
  obtain ⟨hl, hv⟩ : pc.written.length = 121 ∧ (pc.written.drop 46).take 5 = [0xca, 0x41, 0x28, 0, 0] := by
    simpa using hbytes
  exact ⟨pc, m', hs, hc, hl, hv⟩

end OpenTwins
