import OpenTwins.Nearest
import OpenTwins.RoundTrip
import OpenTwins.WireIntegers

namespace OpenTwins

open MessagePack

structure SameNumber (b c : UInt32) : Prop where
  finite : Binary32.finite c = true
  toRat : Binary32.toRat c = Binary32.toRat b

def SameDeviation (b : UInt32) (es : List Event) : Prop := ∀ e ∈ es, SameNumber b e.header.deviation

def Adds (frame : Frame) (startTime : UInt64) (history : History) (q : EventQueue) (buffer : Pointer)
    (es : List Event) : Prop :=
  ∃ history' q', deserializeEvent frame startTime history q buffer buffer.bytes.length =
    some (0, history', q') ∧ q'.contents = q.contents ++ es

theorem withLow32_toNat (w : UInt64) (x : UInt32) :
    (withLow32 w x).toNat = 2 ^ 32 * (w.toNat / 2 ^ 32) + x.toNat := by
  have hw := w.toNat_lt
  have hx := x.toNat_lt
  rw [withLow32, UInt64.toNat_ofNat']
  omega

theorem wordAfter_float (w : UInt64) (b : UInt32) (a : UInt64) : wordAfter a w (.float b) = withLow32 w b := rfl

theorem wordAfter_natCast (w : UInt64) (n : ℕ) (a : UInt64) : wordAfter a w (.int n) = UInt64.ofNat n :=
  ofInt_natCast n

theorem ofNat_isNat_some {n : ℕ} (hn : n < 2 ^ 64) : ∃ m, Binary32.IsNat (Binary32.ofNat n) m := by
  by_cases hk : Nat.log2 n ≤ 23
  · exact ⟨n, Binary32.ofNat_isNat_of_exact hn fun _ => .inl hk⟩
  · obtain ⟨s, hs⟩ : ∃ s, Nat.log2 n = 23 + s := ⟨Nat.log2 n - 23, by omega⟩
    have h0 : n ≠ 0 := by
      rintro rfl
      rw [Nat.log2_zero] at hs
      omega
    refine ⟨Binary32.roundBits n (23 + s) * 2 ^ s, (Binary32.ofNat_rounded h0 hn).1, ?_⟩
    rw [Binary32.ofNat_toRat h0 hn hs]
    push_cast
    rfl

theorem SameNumber.isNat {b : UInt32} {w : UInt64} (hb : Binary32.finite b = true)
    (h : SameNumber b (Binary32.ofUInt64 w)) : ∃ n, Binary32.IsNat b n := by
  obtain ⟨n, -, hn⟩ := ofNat_isNat_some w.toNat_lt
  exact ⟨n, hb, h.toRat ▸ hn⟩

theorem sameNumber_ofUInt64_iff {b : UInt32} (hb : Binary32.finite b = true) (w : UInt64) :
    SameNumber b (Binary32.ofUInt64 w) ↔ Binary32.Nearest w.toNat b := by
  rw [← Binary32.ofNat_eq_iff_nearest w.toNat_lt hb]
  constructor
  · intro h
    exact h.toRat
  · intro h
    obtain ⟨n, hn, -⟩ := ofNat_isNat_some w.toNat_lt
    exact ⟨hn, h⟩

theorem Batches.take_eq_nil {header : EventHeader} {us : List (UInt16 × Value)} {es : List Event}
    (h : Batches header us es) (q : EventQueue) : es.take q.free = [] ↔ q.Full ∨ us = [] := by
  rw [List.take_eq_nil_iff, ← q.full_iff_free]
  apply or_congr_right
  constructor
  · intro hes
    by_contra hus
    exact h.ne_nil hus hes
  · rintro rfl
    cases h with
    | nil => rfl
    | cons ne => exact absurd rfl ne

theorem sameDeviation_iff {b : UInt32} {header : EventHeader} {es : List Event}
    (h : ∀ e ∈ es, e.header = header) :
    SameDeviation b es ↔ es = [] ∨ SameNumber b header.deviation := by
  by_cases hes : es = []
  · subst hes
    simp [SameDeviation]
  · rw [or_iff_right hes]
    exact forall_header hes h fun x => SameNumber b x.deviation

theorem adds_carrying (frame : Frame) (startTime : UInt64) (history : History) (q : EventQueue)
    {m : UpdateMessage} {d : Item} {word : UInt64} (hword : ∀ a, wordAfter a m.timestamp d = word)
    {buffer : Pointer} (h : EncodesAll (m.carrying d) buffer.bytes) :
    ∃ es, Adds frame startTime history q buffer es ∧ (es = [] ↔ q.Full ∨ m.updates = []) ∧
      ∀ b, SameDeviation b es ↔
        (q.Full ∨ m.updates = []) ∨ SameNumber b (Binary32.ofUInt64 word) := by
  obtain ⟨history', es, hd, hb⟩ := deserializeEvent_carrying frame startTime history q hword h
  have hheader : ∀ e ∈ es.take q.free, e.header = m.headerOf word :=
    fun e he => hb.header e (List.mem_of_mem_take he)
  refine ⟨es.take q.free, ⟨history', _, hd, contents_offers q es⟩, hb.take_eq_nil q, ?_⟩
  intro b
  rw [sameDeviation_iff hheader, hb.take_eq_nil q]
  rfl

section relay

variable (overflow : UInt64) {e : Event} {u : UpdateEvent} (hu : e.payload = .update u)
  (hle : u.count.toNat ≤ maxVarsPerEvent)
include hu hle

theorem adds_serialized : ∃ pc, serializeEvent overflow e = some pc ∧ pc.returnCode = .ok ∧
    ∀ (frame : Frame) (startTime : UInt64) (history : History) (q : EventQueue) (address : UInt64),
      ∃ es, Adds frame startTime history q ⟨address, pc.written⟩ es ∧
        (es = [] ↔ q.Full ∨ u.count = 0) ∧
        ∀ b, SameDeviation b es ↔ (q.Full ∨ u.count = 0) ∨
          SameNumber b (Binary32.ofUInt64 (Binary32.toUInt64 overflow e.header.deviation)) := by
  obtain ⟨pc, hpc, hok, hm⟩ := serializeEvent_message overflow hu hle
  refine ⟨pc, hpc, hok, ?_⟩
  intro frame startTime history q address
  have hnone : (relayMessage overflow e u hle).updates = [] ↔ u.count = 0 := by
    rw [← List.length_eq_zero_iff, relayMessage, List.length_map, UpdateEvent.entries_length hle,
      ← UInt8.toNat_inj]
    rfl
  rw [← hnone]
  exact adds_carrying frame startTime history q (wordAfter_int _ _)
    (show EncodesAll ((relayMessage overflow e u hle).carrying _) (⟨address, pc.written⟩ : Pointer).bytes from hm)

end relay

theorem isNat_lt {b : UInt32} {n : ℕ} (h : Binary32.IsNat b n) (hlt : Binary32.toRat b < 2 ^ 63) : n < 2 ^ 63 := by
  rw [h.2] at hlt
  exact_mod_cast hlt

theorem toUInt64_same_iff (overflow : UInt64) {b : UInt32} (hb : Binary32.finite b = true)
    (hlt : Binary32.toRat b < 2 ^ 63) :
    SameNumber b (Binary32.ofUInt64 (Binary32.toUInt64 overflow b)) ↔ ∃ n, Binary32.IsNat b n := by
  constructor
  · exact SameNumber.isNat hb
  · rintro ⟨n, hn⟩
    have hn63 := isNat_lt hn hlt
    obtain ⟨hfin, heq⟩ := Binary32.ofUInt64_toUInt64 overflow hn (by omega)
    exact ⟨hfin, heq.trans hn.2.symm⟩

theorem isNat_nearest {b : UInt32} {n : ℕ} (h : Binary32.IsNat b n) : Binary32.Nearest n b :=
  (Binary32.nearest_of_isNat h h.1).mp rfl

/-- A number sent as an unsigned integer is kept. One sent as a binary32 is kept exactly where it is
nearest to its own bits below the upper half of the timestamp, and one that is passed on exactly
where it is whole. -/
theorem deviation_kept_iff (overflow : UInt64) {b : UInt32} (hb : Binary32.finite b = true)
    (hlt : Binary32.toRat b < 2 ^ 63) :
    (∀ (m : UpdateMessage) (frame : Frame) (startTime : UInt64) (history : History) (q : EventQueue)
      (buffer : Pointer), EncodesAll (m.carrying (.float b)) buffer.bytes →
      ∃ es, Adds frame startTime history q buffer es ∧ (es = [] ↔ q.Full ∨ m.updates = []) ∧
        (SameDeviation b es ↔ (q.Full ∨ m.updates = []) ∨
          Binary32.Nearest (2 ^ 32 * (m.timestamp.toNat / 2 ^ 32) + b.toNat : ℕ) b)) ∧
    (∀ n : ℕ, Binary32.IsNat b n → ∀ (m : UpdateMessage) (frame : Frame) (startTime : UInt64)
      (history : History) (q : EventQueue) (buffer : Pointer),
      EncodesAll (m.carrying (.int n)) buffer.bytes →
      ∃ es, Adds frame startTime history q buffer es ∧ (es = [] ↔ q.Full ∨ m.updates = []) ∧
        SameDeviation b es) ∧
    (∀ (e : Event) (u : UpdateEvent), e.payload = .update u → u.count.toNat ≤ maxVarsPerEvent →
      e.header.deviation = b → ∃ pc, serializeEvent overflow e = some pc ∧ pc.returnCode = .ok ∧
      ∀ (frame : Frame) (startTime : UInt64) (history : History) (q : EventQueue) (address : UInt64),
        ∃ es, Adds frame startTime history q ⟨address, pc.written⟩ es ∧
          (es = [] ↔ q.Full ∨ u.count = 0) ∧
          (SameDeviation b es ↔ (q.Full ∨ u.count = 0) ∨ ∃ n, Binary32.IsNat b n)) := by
  refine ⟨?_, ?_, ?_⟩
  · intro m frame startTime history q buffer h
    obtain ⟨es, hadd, hnone, hsame⟩ := adds_carrying frame startTime history q (wordAfter_float _ b) h
    refine ⟨es, hadd, hnone, (hsame b).trans ?_⟩
    rw [sameNumber_ofUInt64_iff hb, withLow32_toNat]
  · intro n hn m frame startTime history q buffer h
    have hn64 : n < 2 ^ 64 := (isNat_lt hn hlt).trans (by norm_num)
    obtain ⟨es, hadd, hnone, hsame⟩ := adds_carrying frame startTime history q (wordAfter_natCast _ n) h
    refine ⟨es, hadd, hnone, (hsame b).mpr (.inr ?_)⟩
    rw [sameNumber_ofUInt64_iff hb, UInt64.toNat_ofNat_of_lt' hn64]
    exact isNat_nearest hn
  · rintro e u hu hle rfl
    obtain ⟨pc, hpc, hok, hadds⟩ := adds_serialized overflow hu hle
    refine ⟨pc, hpc, hok, ?_⟩
    intro frame startTime history q address
    obtain ⟨es, hadd, hnone, hsame⟩ := hadds frame startTime history q address
    exact ⟨es, hadd, hnone, by rw [hsame, toUInt64_same_iff overflow hb hlt]⟩

theorem deviation_kept_iff_three : ∃ pc, serializeEvent 0 oneEvent = some pc ∧
    ∃ es, Adds zeroedFrame 0 zeroedHistory zeroedQueue ⟨0, pc.written⟩ es ∧ SameDeviation 0x40400000 es := by
  have hthree : Binary32.IsNat 0x40400000 3 := (Binary32.isNat_iff _ _).mpr (by decide)
  obtain ⟨-, -, hrelay⟩ := deviation_kept_iff 0 hthree.1 (by rw [hthree.2]; norm_num)
  obtain ⟨pc, hpc, -, hadds⟩ := hrelay oneEvent ⟨1, fun _ => ⟨5, 0x3f800000⟩⟩ rfl (by decide) rfl
  obtain ⟨es, hadd, -, hsame⟩ := hadds zeroedFrame 0 zeroedHistory zeroedQueue 0
  exact ⟨pc, hpc, es, hadd, hsame.mpr (.inr ⟨3, hthree⟩)⟩

def halfBytes : List UInt8 := [0x97, 0, 1, 0xca, 0x3f, 0, 0, 0, 0, 1, 5, 0xca, 0x3f, 0x80, 0, 0]

theorem halfBytes_encode : EncodesAll (oneUpdate.carrying (.float 0x3f000000)) halfBytes :=
  .cons (e := [0x97]) rfl <| .cons (e := [0]) rfl <| .cons (e := [1]) rfl <|
    .cons (e := [0xca, 0x3f, 0, 0, 0]) rfl <| .cons (e := [0]) rfl <| .cons (e := [1]) rfl <|
    .cons (e := [5]) rfl <| .cons (e := [0xca, 0x3f, 0x80, 0, 0]) rfl .nil

def halfEvent : Event := ⟨⟨eventUpdate, 300, 0x3f000000, 7⟩, .update ⟨1, fun _ => ⟨5, 0x3f800000⟩⟩⟩

theorem half_deviation_lost :
    Binary32.toRat 0x3f000000 = 1 / 2 ∧ EncodesAll (oneUpdate.carrying (.float 0x3f000000)) halfBytes ∧
    (∃ es, Adds zeroedFrame 0 zeroedHistory zeroedQueue ⟨0, halfBytes⟩ es ∧ es ≠ [] ∧
      SameDeviation 0x4e7c0000 es ∧ ¬ SameDeviation 0x3f000000 es) ∧
    (∃ pc, serializeEvent 0 halfEvent = some pc ∧
      ∃ es, Adds zeroedFrame 0 zeroedHistory zeroedQueue ⟨0, pc.written⟩ es ∧ es ≠ [] ∧
        SameDeviation 0 es ∧ ¬ SameDeviation 0x3f000000 es) := by
  have hhalf : ¬ ∃ n, Binary32.IsNat 0x3f000000 n := by
    rintro ⟨n, hn⟩
    obtain ⟨-, hm, -⟩ := (Binary32.isNat_iff _ _).mp hn
    rw [show Binary32.magnitude 0x3f000000 = 2 ^ 148 from rfl] at hm
    omega
  have hlost (w : UInt64) : ¬ SameNumber 0x3f000000 (Binary32.ofUInt64 w) := fun h => hhalf (h.isNat rfl)
  have hqueue : ¬ zeroedQueue.Full := by decide
  refine ⟨?_, halfBytes_encode, ?_, ?_⟩
  · rw [Binary32.toRat_of_not_negative rfl, show Binary32.magnitude 0x3f000000 = 2 ^ 148 from rfl]
    norm_num
  · obtain ⟨es, hadd, hnone, hsame⟩ := adds_carrying zeroedFrame 0 zeroedHistory zeroedQueue
      (wordAfter_float oneUpdate.timestamp 0x3f000000)
      (show EncodesAll _ (⟨0, halfBytes⟩ : Pointer).bytes from halfBytes_encode)
    have hsome : ¬ (zeroedQueue.Full ∨ oneUpdate.updates = []) := by simp [hqueue, oneUpdate]
    refine ⟨es, hadd, mt hnone.mp hsome, (hsame _).mpr (.inr ⟨rfl, rfl⟩), ?_⟩
    rw [hsame, not_or]
    exact ⟨hsome, hlost _⟩
  · obtain ⟨pc, hpc, -, hadds⟩ := adds_serialized 0 (e := halfEvent) rfl (by decide)
    obtain ⟨es, hadd, hnone, hsame⟩ := hadds zeroedFrame 0 zeroedHistory zeroedQueue 0
    have hsome : ¬ (zeroedQueue.Full ∨ (1 : UInt8) = 0) := by simp [hqueue]
    refine ⟨pc, hpc, es, hadd, mt hnone.mp hsome, (hsame _).mpr (.inr ⟨rfl, rfl⟩), ?_⟩
    rw [hsame, not_or]
    exact ⟨hsome, hlost _⟩

end OpenTwins
