import OpenTwins.EventParser

namespace OpenTwins

open MessagePack FixedArray

/-- The decoder has exactly the given items to take off; after them it fails, or has failed. -/
inductive Feeds : UnpackContext → List Item → Prop
  | going {u : UnpackContext} {its : List Item} {q r : List UInt8} (ok : u.returnCode = .ok)
      (avail : u.avail = u.current.bytes.length) (bytes : u.current.bytes = q ++ r)
      (items : EncodesAll its q) (last : decode r = none) : Feeds u its
  | failed {u : UnpackContext} (code : u.returnCode ≠ .ok) (type : u.type = .notAnItem) : Feeds u []

theorem feeds_init (type : ItemType) (as : ItemAs) (p : Pointer) :
    Feeds (cwUnpackContextInit type as p p.bytes.length) (itemsOf p.bytes) := by
  obtain ⟨q, r, hb, hq, hr⟩ := exists_items p.bytes
  exact .going rfl rfl hb hq hr

theorem Feeds.next {u : UnpackContext} {it : Item} {its : List Item} (h : Feeds u (it :: its)) :
    ∃ v, cwUnpackNext u = some v ∧ Feeds v its ∧ v.returnCode = .ok ∧ v.type = itemType it ∧
      v.as.word = wordAfter (v.current.address - UInt64.ofNat (blobLength it)) u.as.word it := by
  cases h with
  | going ok avail bytes items last =>
    cases items with
    | @cons _ _ e bs he hb =>
      rename_i r
      have hd := he.decode_append (bs ++ r)
      rw [← List.append_assoc, ← bytes] at hd
      obtain ⟨v, hv, ht⟩ := cwUnpackNext_took ok avail.ge hd
      obtain ⟨n, hn, hc, ha⟩ := ht.consumed
      refine ⟨v, hv, .going ht.ok ?_ ht.bytes hb last, ht.ok, ht.type, ht.word⟩
      rw [hc, ha, advance_bytes, List.length_drop, avail]

theorem Feeds.next_nil {u : UnpackContext} (h : Feeds u []) :
    ∃ v, cwUnpackNext u = some v ∧ Feeds v [] ∧ v.returnCode ≠ .ok ∧ v.type = .notAnItem ∧
      v.as.word = u.as.word := by
  cases h with
  | going ok avail bytes items last =>
    cases items
    obtain ⟨v, hv, hf⟩ := cwUnpackNext_failed ok avail (by rw [bytes]; exact last)
    exact ⟨v, hv, .failed hf.code hf.type, hf.code, hf.type, hf.word⟩
  | failed code type => exact ⟨u, cwUnpackNext_stuck code, .failed code type, code, type, rfl⟩

theorem Feeds.next_int {u : UnpackContext} {z : ℤ} {its : List Item} (h : Feeds u (.int z :: its)) :
    ∃ v, cwUnpackNext u = some v ∧ Feeds v its ∧ v.as.word = UInt64.ofInt z := by
  obtain ⟨v, hv, hf, -, -, hw⟩ := h.next
  exact ⟨v, hv, hf, hw⟩

inductive Value
  | float (bits : UInt32)
  | double (bits : UInt64)
  | int (z : ℤ)

def Value.item : Value → Item
  | .float b => .float b
  | .double b => .double b
  | .int z => .int z

def Value.stored : Value → UInt32
  | .float b => b
  | .double b => b.toUInt32
  | .int z => (UInt64.ofInt z).toUInt32

/-- What the union holds after the number has been taken off: a binary32 fills only its low half. -/
def Value.word (w : UInt64) : Value → UInt64
  | .float b => withLow32 w b
  | .double b => b
  | .int z => UInt64.ofInt z

structure UpdateMessage where
  timestamp : UInt64
  deviation : Value
  twinId : UInt32
  updates : List (UInt16 × Value)
  fits : 5 + 2 * updates.length < 2 ^ 32

structure ErrorMessage where
  timestamp : UInt64
  deviation : Value
  twinId : UInt32
  errorCode : UInt32
  text : List UInt8

def pairItems (u : UInt16 × Value) : List Item := [.int u.1.toNat, u.2.item]

def PropertyUpdate.of (u : UInt16 × Value) : PropertyUpdate := ⟨u.1, u.2.stored⟩

/-- An identifier on the wire is any integer, of which the low 16 bits are kept. -/
def wireItems (w : ℤ × Value) : List Item := [.int w.1, w.2.item]

def narrow (w : ℤ × Value) : UInt16 × Value := ((UInt64.ofInt w.1).toUInt16, w.2)

def widen (u : UInt16 × Value) : ℤ × Value := (u.1.toNat, u.2)

namespace UpdateMessage

def headItems (m : UpdateMessage) : List Item :=
  [.array (UInt32.ofNat (5 + 2 * m.updates.length)), .int 0, .int m.timestamp.toNat,
    m.deviation.item, .int m.twinId.toNat, .int m.updates.length]

def items (m : UpdateMessage) : List Item := m.headItems ++ m.updates.flatMap pairItems

def carrying (m : UpdateMessage) (d : Item) : List Item :=
  .array (UInt32.ofNat (5 + 2 * m.updates.length)) :: .int 0 :: .int m.timestamp.toNat :: d ::
    .int m.twinId.toNat :: .int m.updates.length :: m.updates.flatMap pairItems

def headerOf (m : UpdateMessage) (word : UInt64) : EventHeader where
  type := eventUpdate
  timestamp := m.timestamp
  deviation := Binary32.ofUInt64 word
  twinId := m.twinId

def header (m : UpdateMessage) : EventHeader := m.headerOf (m.deviation.word m.timestamp)

end UpdateMessage

def ErrorMessage.items (m : ErrorMessage) : List Item :=
  [.array 6, .int 1, .int m.timestamp.toNat, m.deviation.item, .int m.twinId.toNat,
    .int m.errorCode.toNat, .str m.text]

theorem wordAfter_item (x : Value) (w a : UInt64) : wordAfter a w x.item = x.word w := by
  cases x <;> rfl

theorem Value.word_low (w : UInt64) (x : Value) : (x.word w).toUInt32 = x.stored := by
  cases x with
  | float b => exact withLow32_low w b
  | double b => rfl
  | int z => rfl

theorem ofInt_toNat (x : UInt64) : UInt64.ofInt x.toNat = x := by
  rw [ofInt_natCast, UInt64.ofNat_toNat]

theorem wordAfter_int (w x : UInt64) (a : UInt64) : wordAfter a w (.int x.toNat) = x := ofInt_toNat x

theorem ofInt_toUInt16 (x : UInt16) : (UInt64.ofInt x.toNat).toUInt16 = x := by
  apply UInt16.toNat_inj.mp
  rw [UInt64.toNat_toUInt16, toNat_ofInt]
  have := x.toNat_lt
  omega

theorem ofInt_toUInt32 (n : ℕ) : (UInt64.ofInt n).toUInt32 = UInt32.ofNat n := by
  apply UInt32.toNat_inj.mp
  rw [UInt64.toNat_toUInt32, toNat_ofInt, UInt32.toNat_ofNat']
  omega

theorem narrow_widen (u : UInt16 × Value) : narrow (widen u) = u := by
  rw [narrow, widen, ofInt_toUInt16]

theorem map_narrow_widen (us : List (UInt16 × Value)) : (us.map widen).map narrow = us := by
  rw [List.map_map, show narrow ∘ widen = id from funext narrow_widen, List.map_id]

theorem flatMap_widen (us : List (UInt16 × Value)) : (us.map widen).flatMap wireItems = us.flatMap pairItems :=
  List.flatMap_map ..

theorem readUpdate_wire {b : Batch} {w : ℤ × Value} {its : List Item}
    (hf : Feeds b.parsing.ctx (wireItems w ++ its)) (hb : b.batchCount < maxVarsPerEvent) :
    ∃ b', readUpdate b = some b' ∧ Feeds b'.parsing.ctx its ∧
      b'.updates.prefixList b'.batchCount =
        b.updates.prefixList b.batchCount ++ [PropertyUpdate.of (narrow w)] ∧
      b'.batchCount = b.batchCount + 1 ∧
      b'.parsing = { b.parsing with
        ctx := b'.parsing.ctx, varsProcessed := b.parsing.varsProcessed + 1 } := by
  obtain ⟨u, hu, fu, wu⟩ := Feeds.next_int hf
  obtain ⟨v, hv, fv, -, -, wv⟩ := fu.next
  obtain ⟨log, hl⟩ := readUpdate_eq hu hv hb
  refine ⟨_, hl, fv, ?_, rfl, rfl⟩
  rw [prefixList_write _ hb, wu, wv, wordAfter_item, Value.word_low]
  rfl

theorem fillBatch_wire (room : ℕ) {b : Batch} {ws : List (ℤ × Value)}
    (hf : Feeds b.parsing.ctx (ws.flatMap wireItems))
    (hn : b.parsing.varCount = b.parsing.varsProcessed + ws.length)
    (hb : b.batchCount + room = maxVarsPerEvent) :
    ∃ b', fillBatch room b = some b' ∧ Feeds b'.parsing.ctx ((ws.drop room).flatMap wireItems) ∧
      b'.updates.prefixList b'.batchCount =
        b.updates.prefixList b.batchCount ++ ((ws.map narrow).take room).map PropertyUpdate.of ∧
      b'.batchCount = b.batchCount + min room ws.length ∧
      b'.parsing = { b.parsing with
        ctx := b'.parsing.ctx, varsProcessed := b.parsing.varsProcessed + min room ws.length } := by
  induction room generalizing b ws with
  | zero => exact ⟨b, rfl, hf, by simp, by simp, by simp⟩
  | succ room ih =>
    cases ws with
    | nil =>
      refine ⟨b, if_neg (by simp [hn]), hf, by simp, by simp, by simp⟩
    | cons w ws =>
      rw [List.length_cons] at hn
      obtain ⟨b1, h1, f1, u1, c1, p1⟩ := readUpdate_wire hf (by omega)
      obtain ⟨b2, h2, f2, u2, c2, p2⟩ := ih (b := b1) f1 (by rw [p1]; simp only; omega) (by omega)
      refine ⟨b2, ?_, f2, ?_, ?_, ?_⟩
      · rw [fillBatch, if_pos (by omega), h1, Option.bind_some, h2]
      · rw [u2, u1, List.append_assoc]
        rfl
      · rw [c2, c1, List.length_cons, Nat.succ_min_succ]
        omega
      · rw [p2, p1, List.length_cons, Nat.succ_min_succ]
        simp only [Parsing.mk.injEq, true_and, and_true]
        omega

theorem nextBatch_wire (frame : Frame) {p : Parsing} (log : HistoryLog) {ws : List (ℤ × Value)}
    (hf : Feeds p.ctx (ws.flatMap wireItems)) (hn : p.varCount = p.varsProcessed + ws.length) :
    ∃ u ctx log', nextBatch frame p log = some (⟨p.header, .update u⟩,
        { p with ctx, varsProcessed := p.varsProcessed + min maxVarsPerEvent ws.length }, log') ∧
      u.entries = ((ws.map narrow).take maxVarsPerEvent).map PropertyUpdate.of ∧
      u.count.toNat = min maxVarsPerEvent ws.length ∧
      Feeds ctx ((ws.drop maxVarsPerEvent).flatMap wireItems) := by
  obtain ⟨b, hb, fb, ub, cb, pb⟩ := fillBatch_wire maxVarsPerEvent
    (b := { parsing := p, log, updates := frame.updates p.varsProcessed, batchCount := 0 }) hf hn (by simp)
  rw [Nat.zero_add] at cb
  have hcount : (UInt8.ofNat b.batchCount).toNat = b.batchCount := by
    apply UInt8.toNat_ofNat_of_lt'
    rw [cb]
    exact lt_of_le_of_lt (min_le_left _ _) (by decide)
  refine ⟨_, b.parsing.ctx, b.log, (nextBatch_eq hb).trans (by rw [← pb]), ?_, by rw [hcount, cb], fb⟩
  rw [UpdateEvent.entries, hcount, ub]
  simp

theorem nextBatch_pairs (frame : Frame) {p : Parsing} (log : HistoryLog) {us : List (UInt16 × Value)}
    (hf : Feeds p.ctx (us.flatMap pairItems)) (hn : p.varCount = p.varsProcessed + us.length) :
    ∃ u ctx log', nextBatch frame p log = some (⟨p.header, .update u⟩,
        { p with ctx, varsProcessed := p.varsProcessed + min maxVarsPerEvent us.length }, log') ∧
      u.entries = (us.take maxVarsPerEvent).map PropertyUpdate.of ∧
      u.count.toNat = min maxVarsPerEvent us.length ∧
      Feeds ctx ((us.drop maxVarsPerEvent).flatMap pairItems) := by
  rw [← flatMap_widen] at hf
  obtain ⟨u, ctx, log', hb, he, hc, hf'⟩ := nextBatch_wire frame log hf (by rwa [List.length_map])
  rw [map_narrow_widen] at he
  rw [← List.map_drop, flatMap_widen] at hf'
  rw [List.length_map] at hb hc
  exact ⟨u, ctx, log', hb, he, hc, hf'⟩

theorem decodeHead_items (frame : Frame) (startTime : UInt64) (idx : UInt32) {buffer : Pointer} {n : UInt32}
    (hn : 4 ≤ n) {type timestamp twinId : ℤ} {deviation : Item} {word : UInt64} {more : List Item}
    (hword : ∀ a, wordAfter a (UInt64.ofInt timestamp) deviation = word)
    (h : itemsOf buffer.bytes =
      .array n :: .int type :: .int timestamp :: deviation :: .int twinId :: more) :
    ∃ ctx, decodeHead frame startTime idx buffer buffer.bytes.length = decodePayload frame startTime idx n {
        type := (UInt64.ofInt type).toUInt32, timestamp := UInt64.ofInt timestamp
        deviation := Binary32.ofUInt64 word, twinId := (UInt64.ofInt twinId).toUInt32 } ctx ∧
      Feeds ctx more := by
  have hf := feeds_init frame.itemType frame.item buffer
  rw [h] at hf
  obtain ⟨u, hu, fu, ru, -, wu⟩ := hf.next
  obtain ⟨u1, h1, f1, w1⟩ := fu.next_int
  obtain ⟨u2, h2, f2, w2⟩ := f1.next_int
  obtain ⟨u3, h3, f3, -, -, w3⟩ := f2.next
  obtain ⟨u4, h4, f4, w4⟩ := f3.next_int
  rw [w2, hword] at w3
  have hsize : u.as.word.toUInt32 = n := by
    rw [wu]
    exact withLow32_low _ _
  refine ⟨u4, ?_, f4⟩
  rw [decodeHead_eq startTime idx hu (readHeader_eq h1 h2 h3 h4), if_neg, hsize, w1, w2, w3, w4]
  rw [hsize, not_or, not_not]
  exact ⟨ru, UInt32.not_lt.mpr hn⟩

theorem decodePayload_count (frame : Frame) (startTime : UInt64) (idx : UInt32) {header : EventHeader}
    (ht : header.type = eventUpdate) {k : ℕ} (hk : 5 + 2 * k < 2 ^ 32) {u : UnpackContext} {more : List Item}
    (hf : Feeds u (.int k :: more)) :
    ∃ ctx, decodePayload frame startTime idx (UInt32.ofNat (5 + 2 * k)) header u = some (.updates {
        ctx, header, varCount := k, varsProcessed := 0, idx, startTime }) ∧ Feeds ctx more := by
  obtain ⟨v, hv, fv, wv⟩ := hf.next_int
  have hcount : v.as.word.toUInt32 = UInt32.ofNat k := by rw [wv, ofInt_toUInt32]
  have hn : (UInt32.ofNat k).toNat = k := UInt32.toNat_ofNat_of_lt' (by simp only [UInt32.size]; omega)
  refine ⟨v, ?_, fv⟩
  rw [decodePayload_update frame startTime idx _ ht hv, if_neg, hcount, hn]
  rw [not_not, hcount, ← UInt32.toNat_inj]
  simp [Nat.mul_comm]

theorem four_le_size {k : ℕ} (hk : 5 + 2 * k < 2 ^ 32) : 4 ≤ UInt32.ofNat (5 + 2 * k) := by
  rw [UInt32.le_iff_toNat_le, UInt32.toNat_ofNat_of_lt' hk, show (4 : UInt32).toNat = 4 from rfl]
  omega

theorem decodeHead_carrying (frame : Frame) (startTime : UInt64) (idx : UInt32) {m : UpdateMessage}
    {d : Item} {word : UInt64} (hword : ∀ a, wordAfter a m.timestamp d = word) {buffer : Pointer}
    {more : List Item} (h : itemsOf buffer.bytes = .array (UInt32.ofNat (5 + 2 * m.updates.length)) :: .int 0 ::
      .int m.timestamp.toNat :: d :: .int m.twinId.toNat :: .int m.updates.length :: more) :
    ∃ ctx, decodeHead frame startTime idx buffer buffer.bytes.length = some (.updates {
        ctx, header := m.headerOf word, varCount := m.updates.length, varsProcessed := 0, idx, startTime }) ∧
      Feeds ctx more := by
  rw [← ofInt_toNat m.timestamp] at hword
  obtain ⟨u, hu, fu⟩ := decodeHead_items frame startTime idx (four_le_size m.fits) hword h
  simp only [ofInt_toNat, ofInt_toUInt32, UInt32.ofNat_toNat] at hu
  obtain ⟨ctx, hd, hf⟩ := decodePayload_count frame startTime idx
    (show (m.headerOf word).type = eventUpdate from rfl) m.fits fu
  exact ⟨ctx, hu.trans hd, hf⟩

theorem decodeHead_update (frame : Frame) (startTime : UInt64) (idx : UInt32) {m : UpdateMessage}
    {buffer : Pointer} {more : List Item} (h : itemsOf buffer.bytes = m.headItems ++ more) :
    ∃ ctx, decodeHead frame startTime idx buffer buffer.bytes.length = some (.updates {
        ctx, header := m.header, varCount := m.updates.length, varsProcessed := 0, idx, startTime }) ∧
      Feeds ctx more :=
  decodeHead_carrying frame startTime idx (wordAfter_item m.deviation m.timestamp) h

inductive Batches (header : EventHeader) : List (UInt16 × Value) → List Event → Prop
  | nil : Batches header [] []
  | cons {us : List (UInt16 × Value)} {u : UpdateEvent} {es : List Event} (ne : us ≠ [])
      (entries : u.entries = (us.take maxVarsPerEvent).map PropertyUpdate.of)
      (count : u.count.toNat = min maxVarsPerEvent us.length)
      (rest : Batches header (us.drop maxVarsPerEvent) es) : Batches header us (⟨header, .update u⟩ :: es)

theorem pushBatches_wire (frame : Frame) {rounds : ℕ} {p : Parsing} (log : HistoryLog) (q : EventQueue)
    {ws : List (ℤ × Value)} (hf : Feeds p.ctx (ws.flatMap wireItems))
    (hn : p.varCount = p.varsProcessed + ws.length) (hr : ws.length ≤ rounds) :
    ∃ log' es, pushBatches frame rounds p log q = some (log', offers q es) ∧
      Batches p.header (ws.map narrow) es := by
  induction rounds generalizing p log q ws with
  | zero =>
    obtain rfl := List.length_eq_zero_iff.mp (Nat.le_zero.mp hr)
    exact ⟨log, [], if_neg (by rw [hn]; simp), .nil⟩
  | succ rounds ih =>
    by_cases hw : ws = []
    · subst hw
      exact ⟨log, [], if_neg (by rw [hn]; simp), .nil⟩
    · have hpos := List.length_pos_iff.mpr hw
      have h8 : maxVarsPerEvent = 8 := rfl
      obtain ⟨u, ctx, log', hb, he, hc, hf'⟩ := nextBatch_wire frame log hf hn
      obtain ⟨log'', es, hp, hes⟩ := ih (p := { p with
        ctx, varsProcessed := p.varsProcessed + min maxVarsPerEvent ws.length }) log'
        (offer q ⟨p.header, .update u⟩) hf' (by simp only [List.length_drop]; omega)
        (by rw [List.length_drop]; omega)
      rw [List.map_drop] at hes
      refine ⟨log'', ⟨p.header, .update u⟩ :: es, (pushBatches_succ rounds q (by omega) hb).trans hp,
        .cons (by simpa using hw) he (by rwa [List.length_map]) hes⟩

theorem deserializeEvent_carrying (frame : Frame) (startTime : UInt64) (history : History) (q : EventQueue)
    {m : UpdateMessage} {d : Item} {word : UInt64} (hword : ∀ a, wordAfter a m.timestamp d = word)
    {buffer : Pointer} (h : EncodesAll (m.carrying d) buffer.bytes) :
    ∃ history' es, deserializeEvent frame startTime history q buffer buffer.bytes.length =
      some (0, history', offers q es) ∧ Batches (m.headerOf word) m.updates es := by
  obtain ⟨ctx, hd, hf⟩ := decodeHead_carrying frame startTime history.logIndex hword (itemsOf_complete h)
  rw [← flatMap_widen] at hf
  obtain ⟨log, es, hp, hb⟩ := pushBatches_wire frame history.log q (p := {
    ctx, header := m.headerOf word, varCount := m.updates.length, varsProcessed := 0
    idx := history.logIndex, startTime }) hf (by simp) (by rw [List.length_map])
  rw [map_narrow_widen] at hb
  refine ⟨{ logIndex := history.logIndex + 1, log }, es, ?_, hb⟩
  simp only [deserializeEvent, hd, hp, Option.bind_eq_bind, Option.bind_some]
  rfl

theorem deserializeEvent_update (frame : Frame) (startTime : UInt64) (history : History) (q : EventQueue)
    {m : UpdateMessage} {buffer : Pointer} (h : EncodesAll m.items buffer.bytes) :
    ∃ history' es, deserializeEvent frame startTime history q buffer buffer.bytes.length =
      some (0, history', offers q es) ∧ Batches m.header m.updates es :=
  deserializeEvent_carrying frame startTime history q (wordAfter_item m.deviation m.timestamp) h

def oneUpdate : UpdateMessage where
  timestamp := 1
  deviation := .int 0
  twinId := 0
  updates := [(5, .float 0x3f800000)]
  fits := by decide

theorem onePair_encoded {id : ℤ} {it : Item} {a b : List UInt8} (ha : Encodes (.int id) a) (hb : Encodes it b) :
    EncodesAll [.array 7, .int 0, .int 1, .int 0, .int 0, .int 1, .int id, it]
      ([0x97, 0, 1, 0, 0, 1] ++ (a ++ b)) := by
  have hhead : EncodesAll [.array 7, .int 0, .int 1, .int 0, .int 0, .int 1] [0x97, 0, 1, 0, 0, 1] :=
    .cons (e := [0x97]) rfl <| .cons (e := [0]) rfl <| .cons (e := [1]) rfl <| .cons (e := [0]) rfl <|
      .cons (e := [0]) rfl <| .cons (e := [1]) rfl .nil
  apply hhead.append
  rw [← List.append_nil b]
  exact .cons ha (.cons hb .nil)

theorem oneUpdate_encoded :
    EncodesAll oneUpdate.items [0x97, 0, 1, 0, 0, 1, 5, 0xca, 0x3f, 0x80, 0, 0] :=
  onePair_encoded (a := [5]) (b := [0xca, 0x3f, 0x80, 0, 0]) rfl rfl

end OpenTwins
