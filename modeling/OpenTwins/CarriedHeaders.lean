import OpenTwins.Binary64
import OpenTwins.Deviation
import OpenTwins.ItemSizes

namespace OpenTwins

open MessagePack

def Value.number : Value → Option ℚ
  | .float b => if Binary32.finite b then some (Binary32.toRat b) else none
  | .double d => if Binary64.finite d then some (Binary64.toRat d) else none
  | .int z => some z

/-- A binary32 field that was made of the number holds what this rounds to, and of an infinity or
a NaN no finite number. -/
def Value.KeptAs (x : Value) (c : UInt32) : Prop :=
  match x.number with
  | some r => Binary32.Nearest r c
  | none => Binary32.finite c = false

structure CarriesHeader (m : UpdateMessage) (e : Event) : Prop where
  type : e.header.type = eventUpdate
  timestamp : e.header.timestamp = m.timestamp
  deviation : m.deviation.KeptAs e.header.deviation
  twinId : e.header.twinId = m.twinId

/-- The number comes to the same after it has been read through the integer of the union, where the
timestamp was before it. -/
def Value.KeptThrough (timestamp : UInt64) : Value → Prop
  | .float b => Binary32.Nearest (2 ^ 32 * (timestamp.toNat / 2 ^ 32) + b.toNat : ℕ) b
  | .double d => Binary64.finite d = true ∧
      ∃ c, Binary32.Nearest (Binary64.toRat d) c ∧ Binary32.Nearest d.toNat c
  | .int z => 0 ≤ z

theorem Value.keptAs_some {x : Value} {r : ℚ} (h : x.number = some r) (c : UInt32) :
    x.KeptAs c ↔ Binary32.Nearest r c := by
  unfold KeptAs
  rw [h]

theorem Value.keptAs_none {x : Value} (h : x.number = none) {c : UInt32} (hc : Binary32.finite c = true) :
    ¬ x.KeptAs c := by
  unfold KeptAs
  rw [h]
  simp [hc]

theorem float_kept_iff (timestamp : UInt64) (b : UInt32) :
    (Value.float b).KeptAs (Binary32.ofUInt64 (withLow32 timestamp b)) ↔
      (Value.float b).KeptThrough timestamp := by
  have hw := (withLow32 timestamp b).toNat_lt
  have hfin := Binary32.finite_ofNat hw
  simp only [Value.KeptThrough]
  rw [← withLow32_toNat]
  by_cases hb : Binary32.finite b = true
  · rw [Value.keptAs_some (x := .float b) (if_pos hb), Binary32.ofUInt64, Binary32.nearest_toRat hb hfin,
      ← Binary32.ofNat_eq_iff_nearest hw hb, eq_comm]
  · exact iff_of_false (Value.keptAs_none (x := .float b) (if_neg hb) hfin) fun h => hb h.finite

theorem double_kept_iff (timestamp d : UInt64) :
    (Value.double d).KeptAs (Binary32.ofUInt64 d) ↔ (Value.double d).KeptThrough timestamp := by
  have hfin := Binary32.finite_ofNat d.toNat_lt
  by_cases hd : Binary64.finite d = true
  · rw [Value.keptAs_some (x := .double d) (if_pos hd)]
    constructor
    · intro h
      exact ⟨hd, _, h, Binary32.nearest_ofNat d.toNat_lt⟩
    · rintro ⟨-, c, hc, hn⟩
      exact hc.congr hfin ((Binary32.ofNat_eq_iff_nearest d.toNat_lt hn.finite).mpr hn)
  · exact iff_of_false (Value.keptAs_none (x := .double d) (if_neg hd) hfin) fun h => hd h.1

theorem int_kept_iff (timestamp : UInt64) {z : ℤ} (hz : (Item.int z).InRange) :
    (Value.int z).KeptAs (Binary32.ofUInt64 (UInt64.ofInt z)) ↔ (Value.int z).KeptThrough timestamp := by
  obtain ⟨hlow, hhigh⟩ := hz
  have hlt := (UInt64.ofInt z).toNat_lt
  have hword : ((UInt64.ofInt z).toNat : ℤ) = z % 2 ^ 64 := by
    rw [toNat_ofInt, Int.toNat_of_nonneg (Int.emod_nonneg _ (by norm_num))]
  rw [Value.keptAs_some rfl, Binary32.ofUInt64]
  simp only [Value.KeptThrough]
  constructor
  · -- zero is nearer to a negative number than any positive one
    intro h
    by_contra hneg
    have hpos := Binary32.toRat_ofNat_pos (n := (UInt64.ofInt z).toNat) (by omega) hlt
    have hleast := h.least 0 rfl
    have hzq : (z : ℚ) < 0 := by exact_mod_cast not_le.mp hneg
    rw [Binary32.toRat_zero, zero_sub, abs_neg, abs_of_neg hzq, abs_of_pos (by linarith)] at hleast
    linarith
  · intro hpos
    have hsame : ((UInt64.ofInt z).toNat : ℚ) = z := by
      rw [Int.emod_eq_of_lt hpos hhigh] at hword
      exact_mod_cast hword
    rw [← hsame]
    exact Binary32.nearest_ofNat hlt

theorem Value.kept_iff {x : Value} (hx : x.item.InRange) (timestamp : UInt64) :
    x.KeptAs (Binary32.ofUInt64 (x.word timestamp)) ↔ x.KeptThrough timestamp := by
  cases x with
  | float b => exact float_kept_iff timestamp b
  | double d => exact double_kept_iff timestamp d
  | int z => exact int_kept_iff timestamp hx

theorem carriesHeader_iff {m : UpdateMessage} {bs : List UInt8} (h : EncodesAll m.items bs) {e : Event}
    (he : e.header = m.header) : CarriesHeader m e ↔ m.deviation.KeptThrough m.timestamp := by
  have hmem : m.deviation.item ∈ m.items := by simp [UpdateMessage.items, UpdateMessage.headItems]
  obtain ⟨_, hd⟩ := h.exists_encodes hmem
  rw [← Value.kept_iff hd.inRange]
  constructor
  · intro hc
    have hdev := hc.deviation
    rwa [he] at hdev
  · intro hk
    exact ⟨by rw [he]; rfl, by rw [he]; rfl, by rwa [he], by rw [he]; rfl⟩

/-- A queue takes as many events as it has room for, and these carry the first of the pairs. They
carry the header as well exactly where the deviation is kept, or where there is no event. -/
theorem deserializeEvent_batches (frame : Frame) (startTime : UInt64) (history : History) (q : EventQueue)
    {m : UpdateMessage} {pairs : List PropertyUpdate}
    (hm : m.updates = pairs.map fun p => (p.varId, .float p.value)) {buffer : Pointer}
    (h : EncodesAll m.items buffer.bytes) :
    ∃ history' q' es, deserializeEvent frame startTime history q buffer buffer.bytes.length =
        some (0, history', q') ∧
      q'.contents = q.contents ++ es ∧ es.length = min q.free (batchesOf pairs.length) ∧
      (∀ i (hi : i < es.length), ∃ u, es[i] = ⟨m.header, .update u⟩ ∧
        u.count.toNat = min maxVarsPerEvent (pairs.length - maxVarsPerEvent * i)) ∧
      es.flatMap Event.updates = pairs.take (min pairs.length (maxVarsPerEvent * q.free)) ∧
      ((∀ e ∈ es, CarriesHeader m e) ↔
        (q.Full ∨ pairs = []) ∨ m.deviation.KeptThrough m.timestamp) := by
  obtain ⟨history', es, hd, hb⟩ := deserializeEvent_update frame startTime history q h
  have hn : m.updates.length = pairs.length := by rw [hm, List.length_map]
  have hpairs : m.updates.map PropertyUpdate.of = pairs := by
    rw [hm, List.map_map]
    exact List.map_id pairs
  have hheader : ∀ e ∈ es.take q.free, e.header = m.header := fun e he => hb.header e (List.mem_of_mem_take he)
  refine ⟨history', _, es.take q.free, hd, contents_offers q es, ?_, ?_, ?_, ?_⟩
  · rw [List.length_take, hb.length, hn]
  · intro i hi
    rw [List.length_take] at hi
    obtain ⟨u, he, hc, -⟩ := hb.get i (by omega)
    rw [hn] at hc
    exact ⟨u, by rw [List.getElem_take, he], hc⟩
  · rw [hb.flatMap_take, List.map_take, hpairs, List.take_eq_take_iff]
    omega
  · have hnone : es.take q.free = [] ↔ q.Full ∨ pairs = [] := by
      rw [hb.take_eq_nil q, hm, List.map_eq_nil_iff]
    rw [← hnone, forall₂_congr fun e he => carriesHeader_iff h (hheader e he)]
    by_cases hes : es.take q.free = []
    · simp [hes]
    · obtain ⟨e, he⟩ := List.exists_mem_of_ne_nil _ hes
      simp only [hes, false_or]
      exact ⟨fun hall => hall e he, fun hk _ _ => hk⟩

def seventeenPairs : List PropertyUpdate := (List.range 17).map fun i => ⟨UInt16.ofNat i, 0x3f800000⟩

def seventeenUpdates : UpdateMessage where
  timestamp := 1
  deviation := .int 3
  twinId := 0
  updates := seventeenPairs.map fun p => (p.varId, .float p.value)
  fits := by decide

def seventeenBytes : List UInt8 :=
  [0xdc, 0, 39, 0, 1, 3, 0, 17] ++ seventeenPairs.flatMap fun p => [p.varId.toUInt8, 0xca, 0x3f, 0x80, 0, 0]

theorem seventeenUpdates_encoded : EncodesAll seventeenUpdates.items seventeenBytes := by
  have hhead : EncodesAll seventeenUpdates.headItems [0xdc, 0, 39, 0, 1, 3, 0, 17] :=
    .cons (e := [0xdc, 0, 39]) rfl <| .cons (e := [0]) rfl <| .cons (e := [1]) rfl <| .cons (e := [3]) rfl <|
      .cons (e := [0]) rfl <| .cons (e := [17]) rfl .nil
  have hid : ∀ p ∈ seventeenPairs, Encodes (.int p.varId.toNat) [p.varId.toUInt8] ∧ p.value = 0x3f800000 := by
    decide
  apply hhead.append
  rw [seventeenUpdates, List.flatMap_map]
  apply EncodesAll.flatMap
  intro p hp
  obtain ⟨hp, hvalue⟩ := hid p hp
  apply EncodesAll.cons hp
  rw [hvalue]
  exact .cons (e := [0xca, 0x3f, 0x80, 0, 0]) rfl .nil

theorem nearlyFull_lt : 1021 < queueSize := by decide

def nearlyFullQueue : EventQueue where
  buffer := fun _ => oneEvent
  head := 1021
  tail := 0
  head_lt := nearlyFull_lt
  tail_lt := zeroedQueue.tail_lt

theorem deserializeEvent_batches_seventeen :
    ∃ history' q' es, deserializeEvent zeroedFrame 0 zeroedHistory nearlyFullQueue ⟨0, seventeenBytes⟩
        seventeenBytes.length = some (0, history', q') ∧
      q'.contents = nearlyFullQueue.contents ++ es ∧ es.length = 2 ∧
      es.flatMap Event.updates = seventeenPairs.take 16 ∧ ∀ e ∈ es, CarriesHeader seventeenUpdates e := by
  have hm : seventeenUpdates.updates = seventeenPairs.map fun p => (p.varId, .float p.value) := rfl
  obtain ⟨history', q', es, hd, hc, hlen, -, hpairs, hheader⟩ := deserializeEvent_batches zeroedFrame 0
    zeroedHistory nearlyFullQueue hm
    (show EncodesAll _ (Pointer.mk 0 seventeenBytes).bytes from seventeenUpdates_encoded)
  exact ⟨history', q', es, hd, hc, hlen, hpairs, hheader.mpr (.inr (by decide : (0 : ℤ) ≤ 3))⟩

def halfMessage : UpdateMessage := { oneUpdate with deviation := .float 0x3f000000 }

theorem half_header_lost : EncodesAll halfMessage.items halfBytes ∧
    ∃ es, Adds zeroedFrame 0 zeroedHistory zeroedQueue ⟨0, halfBytes⟩ es ∧ ∃ e ∈ es, ¬ CarriesHeader halfMessage e := by
  have he : EncodesAll halfMessage.items halfBytes := halfBytes_encode
  obtain ⟨history', es, hd, hb⟩ := deserializeEvent_update zeroedFrame 0 zeroedHistory zeroedQueue
    (show EncodesAll _ (Pointer.mk 0 halfBytes).bytes from he)
  refine ⟨he, es.take zeroedQueue.free, ⟨history', _, hd, contents_offers _ es⟩, ?_⟩
  have hsome : es.take zeroedQueue.free ≠ [] := by
    rw [ne_eq, hb.take_eq_nil]
    exact not_or.mpr ⟨by decide, List.cons_ne_nil _ _⟩
  obtain ⟨e, hmem⟩ := List.exists_mem_of_ne_nil _ hsome
  refine ⟨e, hmem, ?_⟩
  rw [carriesHeader_iff he (hb.header e (List.mem_of_mem_take hmem))]
  intro hk
  have hkept := (float_kept_iff 1 0x3f000000).mpr hk
  rw [Value.keptAs_some rfl, Binary32.nearest_toRat rfl rfl] at hkept
  exact absurd (Binary32.magnitude_of_toRat hkept) (by decide)

end OpenTwins
