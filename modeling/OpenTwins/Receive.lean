import OpenTwins.ParserBounds
import OpenTwins.ParserCalls
import OpenTwins.ApiServer

/-!
The two sockets on which messages arrive. Of a message that is longer than the buffer only the
first part is stored, but its whole length is returned and believed.
-/

namespace OpenTwins

open MessagePack FixedArray

def zmqRecv (len : ℕ) (message : List UInt8) : List UInt8 × ℕ := (message.take len, message.length)

def receiveEvent (frame : Frame) (startTime : UInt64) (history : History) (q : EventQueue) (address : UInt64)
    (message : List UInt8) : Option (ℤ × History × EventQueue) :=
  let (stored, size) := zmqRecv zmqBufferSize message
  deserializeEvent frame startTime history q ⟨address, stored⟩ size

def receiveRequest (type : ItemType) (item : ItemAs) (address : UInt64) (message : List UInt8)
    (m : TwinsMemory) : Option (List UInt8 × TwinsMemory) :=
  let (stored, size) := zmqRecv requestBufferSize message
  handleRequest type item ⟨address, stored⟩ size m

def TextFits (c : ℕ) (s : Position) : Prop :=
  ∀ bs r, decode s.2.bytes = some (.str bs, r) → min bs.length (messageSize - 1) ≤ (bs ++ r).length - c

def payloadAsked (arraySize : UInt32) (type : EventType) (s : Position) : ℕ :=
  if type = eventUpdate then if arraySize = 5 + s.next.1 * 2 then 1 + 2 * s.next.1.toNat else 1
  else if type = eventError then 2 else 0

def PayloadFits (c : ℕ) (arraySize : UInt32) (type : EventType) (s : Position) : Prop :=
  HeadersFit c (payloadAsked arraySize type s) s ∧ (type = eventError → TextFits c s.next)

def EventFits (c : ℕ) (s : Position) : Prop :=
  HeadersFit c 1 s ∧ (decode s.2.bytes ≠ none → 4 ≤ s.next.1 →
    HeadersFit c 4 s.next ∧ PayloadFits c s.next.1 (s.after 2).1 (s.after 5))

def finishEvent (frame : Frame) (history : History) (q : EventQueue) : Decoded → Option (ℤ × History × EventQueue)
  | .rejected => some (-1, history, q)
  | .updates p => (pushBatches frame p.varCount p history.log q).map fun r => (0, { history with log := r.1 }, r.2)
  | .error event => (pushEvent q event).map fun r => (0, history, r.2)

theorem deserializeEvent_finish (frame : Frame) (startTime : UInt64) (history : History) (q : EventQueue)
    (buffer : Pointer) (size : ℕ) : deserializeEvent frame startTime history q buffer size =
      (decodeHead frame startTime history.logIndex buffer size).bind
        (finishEvent frame { history with logIndex := history.logIndex + 1 } q) := by
  rw [deserializeEvent, Option.bind_eq_bind]
  congr 1
  funext d
  cases d with
  | rejected => rfl
  | updates p =>
    simp only [finishEvent]
    cases pushBatches frame p.varCount p history.log q <;> rfl
  | error event =>
    simp only [finishEvent]
    cases pushEvent q event <;> rfl

variable {c : ℕ} {s : Position} {u t u' t' : UnpackContext}

theorem copyMessage_none {text : List UInt8} {len : ℕ} (h : text.length < len)
    (m : FixedArray UInt8 messageSize) : copyMessage text len m = none := by
  rw [copyMessage, forLoop_none h (fun s => by simp)]
  rfl

theorem storeMessage_text (hs : u.type = .str) (m : FixedArray UInt8 messageSize) :
    storeMessage u m = none ↔ u.as.pointee.length < min u.as.length.toNat (messageSize - 1) := by
  have h64 : messageSize = 64 := rfl
  have hmin : (if messageSize ≤ u.as.length.toNat then messageSize - 1 else u.as.length.toNat) =
      min u.as.length.toNat (messageSize - 1) := by
    split_ifs <;> omega
  simp only [storeMessage, if_pos hs, hmin]
  by_cases h : u.as.pointee.length < min u.as.length.toNat (messageSize - 1)
  · simp only [copyMessage_none h, h]
  · obtain ⟨m', hm, -⟩ := copyMessage_terminated
      (show min u.as.length.toNat (messageSize - 1) < messageSize by omega) (not_lt.mp h) m
    simp only [hm, h, reduceCtorEq]

theorem storeMessage_other (hs : u.type ≠ .str) (m : FixedArray UInt8 messageSize) : storeMessage u m ≠ none := by
  rw [storeMessage, if_neg hs, write_of_lt m (by decide)]
  simp

theorem storeMessage_cut (h : Paired c s u t) (hu : cwUnpackNext u = some u') (hc : Cut c u' t')
    (hx : TextCut c u' t') (m : FixedArray UInt8 messageSize) : storeMessage t' m = none ↔ ¬ TextFits c s := by
  by_cases htext : ∃ bs r, decode s.2.bytes = some (.str bs, r)
  · obtain ⟨bs, r, hd⟩ := htext
    obtain ⟨htype, hlen, hp⟩ := h.stands.text hu hd
    rw [storeMessage_text (hc.type.trans htype), hx htype, hc.length, hlen, hp, cutOff, List.length_take,
      Nat.min_eq_left (Nat.sub_le _ _), TextFits]
    simp only [hd, Option.some.injEq, Prod.mk.injEq, Item.str.injEq]
    constructor
    · intro hlt hf
      exact absurd (hf bs r ⟨rfl, rfl⟩) (not_le.mpr hlt)
    · intro hf
      by_contra hle
      apply hf
      intro bs' r' he
      obtain ⟨rfl, rfl⟩ := he
      exact not_lt.mp hle
  · have hno : ∀ bs r, decode s.2.bytes ≠ some (.str bs, r) := fun bs r hd => htext ⟨bs, r, hd⟩
    have htype := h.stands.no_text h.sound hu hno
    rw [← hc.type] at htype
    exact iff_of_false (storeMessage_other htype m) fun hf => hf fun bs r hd => absurd hd (hno bs r)

theorem readError_cut (h : Paired c s u t) (frame : Frame) (header : EventHeader) :
    readError frame header t = none ↔ ¬ (HeadersFit c 2 s ∧ TextFits c s.next) := by
  rw [show 2 = 1 + 1 from rfl, headersFit_add, headersFit_one, headersFit_one, show s.after 1 = s.next from rfl]
  obtain ⟨hfits, hfault⟩ := h.next
  by_cases h1 : HeaderFits c s
  · obtain ⟨u1, t1, -, ht1, hp1, -⟩ := hfits h1
    obtain ⟨hfits', hfault'⟩ := hp1.next
    by_cases h2 : HeaderFits c s.next
    · obtain ⟨u2, t2, hu2, ht2, hp2, hx⟩ := hfits' h2
      have hs := storeMessage_cut hp1 hu2 hp2.cut hx frame.message
      simp only [h1, h2, true_and, ← hs]
      simp only [readError, ht1, ht2, Option.bind_eq_bind, Option.bind_some]
      cases storeMessage t2 frame.message <;> simp
    · simp [readError, ht1, hfault' h2, h2]
  · simp [readError, hfault h1, h1]

theorem finishPayload_cut (h : Paired c s u t) (frame : Frame) (startTime : UInt64) (idx arraySize : UInt32)
    (header : EventHeader) (history : History) (q : EventQueue) :
    (decodePayload frame startTime idx arraySize header t).bind (finishEvent frame history q) = none ↔
      ¬ PayloadFits c arraySize header.type s := by
  unfold PayloadFits payloadAsked
  by_cases hup : header.type = eventUpdate
  · have herr : header.type ≠ eventError := by rw [hup]; decide
    obtain ⟨hfits, hfault⟩ := h.next
    simp only [if_pos hup, herr, false_imp_iff, and_true]
    by_cases h1 : HeaderFits c s
    · obtain ⟨u1, t1, -, ht, hp, -⟩ := hfits h1
      rw [decodePayload_update frame startTime idx arraySize hup ht, hp.word]
      by_cases hsize : arraySize = 5 + s.next.1 * 2
      · rw [if_neg (not_not.mpr hsize), if_pos hsize, Option.bind_some, finishEvent, Option.map_eq_none_iff,
          pushBatches_calls frame _ _ (by simp), headersFit_add, headersFit_one]
        simp only [Nat.sub_zero, h1, true_and]
        obtain ⟨hall, hnone⟩ := hp.calls (2 * s.next.1.toNat)
        refine ⟨?_, hnone⟩
        intro hn hf
        obtain ⟨u2, t2, ht2, -⟩ := hall hf
        rw [hn] at ht2
        cases ht2
      · rw [if_pos hsize, if_neg hsize, headersFit_one]
        simp [finishEvent, h1]
    · have hnone : decodePayload frame startTime idx arraySize header t = none := by
        rw [decodePayload, if_pos hup, hfault h1]
        rfl
      rw [hnone]
      refine iff_of_true rfl fun hf => h1 ?_
      split_ifs at hf
      · exact hf 0 (by omega)
      · exact hf 0 (by omega)
  by_cases herr : header.type = eventError
  · have hr := readError_cut h frame header
    rw [decodePayload, if_neg hup, if_pos herr, if_neg hup, if_pos herr]
    simp only [herr, true_imp_iff]
    rw [← hr]
    cases readError frame header t with
    | none => simp
    | some event => simp [finishEvent, pushEvent_offer]
  · rw [decodePayload, if_neg hup, if_neg herr, if_neg hup, if_neg herr]
    simp [finishEvent, herr, HeadersFit]

theorem deserializeEvent_cut (c : ℕ) (frame : Frame) (startTime : UInt64) (history : History) (q : EventQueue)
    (p : Pointer) :
    deserializeEvent frame startTime history q ⟨p.address, cutOff c p.bytes⟩ p.bytes.length = none ↔
      ¬ EventFits c (frame.item.word.toUInt32, p) := by
  have h := paired_init frame.itemType frame.item c p
  set s : Position := (frame.item.word.toUInt32, p)
  obtain ⟨hfits, hfault⟩ := h.next
  rw [deserializeEvent_finish, EventFits, headersFit_one]
  by_cases h1 : HeaderFits c s
  · obtain ⟨u1, t1, hu1, ht1, hp1, -⟩ := hfits h1
    have hcode : t1.returnCode ≠ .ok ↔ decode s.2.bytes = none := by
      rw [hp1.cut.returnCode]
      exact h.stands.code rfl hu1
    by_cases hrej : t1.returnCode ≠ .ok ∨ t1.as.word.toUInt32 < 4
    · rw [decodeHead_next startTime _ ht1, if_pos hrej, Option.bind_some, finishEvent]
      refine iff_of_false (by simp) (not_not.mpr ⟨h1, fun hd h4 => ?_⟩)
      rw [hcode, hp1.word] at hrej
      rcases hrej with hn | hlt
      · exact absurd hn hd
      · exact absurd h4 (UInt32.not_le.mpr hlt)
    · obtain ⟨hok, hsize⟩ := not_or.mp hrej
      have hd : decode s.2.bytes ≠ none := fun hn => hok (hcode.mpr hn)
      have h4 : 4 ≤ s.next.1 := by
        rw [← hp1.word]
        exact UInt32.not_lt.mp hsize
      simp only [h1, hd, h4, true_and, ne_eq, not_false_eq_true, true_imp_iff]
      obtain ⟨hall, hnone⟩ := hp1.calls 4
      by_cases hc4 : HeadersFit c 4 s.next
      · obtain ⟨u5, t5, ht5, hp5⟩ := hall hc4
        obtain ⟨header, t2, ht2, htype, hh⟩ := readHeader_some ht5
        obtain ⟨u2, t2', -, ht2', hp2, -⟩ := hp1.next.1 (hc4 0 (by omega))
        obtain rfl : t2 = t2' := Option.some.inj (ht2.symm.trans ht2')
        rw [hp2.word] at htype
        rw [decodeHead_eq startTime _ ht1 hh, if_neg hrej, finishPayload_cut hp5, htype, hp1.word]
        simp only [hc4, true_and]
        rfl
      · have hh : readHeader t1 = none := by
          rw [← Option.map_eq_none_iff (f := Prod.snd), readHeader_calls, hnone hc4]
        rw [decodeHead_next startTime _ ht1, if_neg hrej, hh]
        simp [hc4]
  · simp [decodeHead, hfault h1, h1]

def elementsAsked (arraySize : UInt32) (s : Position) : ℕ :=
  if (s.next.1.toUInt8 = opGet ∨ s.next.1.toUInt8 = opDelete) ∧ 2 ≤ arraySize then 2 else 1

def requestAsked (s : Position) : ℕ :=
  match decode s.2.bytes with
  | some (.array n, _) => if n = 0 then 1 else 1 + elementsAsked n s.next
  | _ => 1

theorem execute_some (opcode : UInt8) (targetId : UInt32) (m : TwinsMemory) : execute opcode targetId m ≠ none := by
  obtain ⟨reply, hr⟩ := execute_memory opcode targetId m
  simp [hr]

theorem handleElements_cut (h : Paired c s u t) (n : UInt32) (m : TwinsMemory) :
    handleElements n t m = none ↔ ¬ HeadersFit c (elementsAsked n s) s := by
  obtain ⟨hfits, hfault⟩ := h.next
  unfold elementsAsked
  by_cases h1 : HeaderFits c s
  · obtain ⟨u1, t1, -, ht1, hp1, -⟩ := hfits h1
    have hop : t1.as.word.toUInt8 = s.next.1.toUInt8 := by
      rw [← hp1.word]
      apply UInt8.toNat_inj.mp
      simp
    simp only [handleElements, ht1, Option.bind_some, hop]
    by_cases hop1 : s.next.1.toUInt8 = opGet ∨ s.next.1.toUInt8 = opDelete
    · by_cases hn : n < 2
      · have hn' : ¬ 2 ≤ n := UInt32.not_le.mpr hn
        simp [hop1, hn, hn', headersFit_one, h1]
      · have hn' : 2 ≤ n := UInt32.not_lt.mp hn
        rw [if_pos hop1, if_neg hn, if_pos ⟨hop1, hn'⟩, show 2 = 1 + 1 from rfl, headersFit_add, headersFit_one,
          headersFit_one]
        simp only [h1, true_and]
        obtain ⟨hfits', hfault'⟩ := hp1.next
        refine ⟨?_, fun hf => by rw [hfault' hf]; rfl⟩
        intro hnone hf
        obtain ⟨u2, t2, -, ht2, -, -⟩ := hfits' hf
        rw [ht2, Option.bind_some] at hnone
        exact execute_some _ _ m hnone
    · rw [if_neg hop1, if_neg fun h => hop1 h.1, headersFit_one]
      exact iff_of_false (execute_some _ _ m) (not_not.mpr h1)
  · have hnone : handleElements n t m = none := by
      rw [handleElements, hfault h1]
      rfl
    refine iff_of_true hnone fun hf => h1 ?_
    split_ifs at hf
    · exact hf 0 (by omega)
    · exact hf 0 (by omega)

theorem headerFits_pos {it : Item} {r : List UInt8} (h : HeaderFits c s) (hd : decode s.2.bytes = some (it, r)) :
    1 ≤ s.2.bytes.length - c := by
  have hpos : 1 ≤ s.2.bytes.length := by
    cases hb : s.2.bytes with
    | nil =>
      rw [hb] at hd
      cases hd
    | cons b bs => simp
  rw [HeaderFits, headerSize, look_some bodyExtent hpos] at h
  omega

theorem handleRequest_cut (c : ℕ) (type : ItemType) (item : ItemAs) (p : Pointer) (m : TwinsMemory) :
    handleRequest type item ⟨p.address, cutOff c p.bytes⟩ p.bytes.length m = none ↔
      ¬ HeadersFit c (requestAsked (item.word.toUInt32, p)) (item.word.toUInt32, p) := by
  have h := paired_init type item c p
  set s : Position := (item.word.toUInt32, p)
  obtain ⟨hfits, hfault⟩ := h.next
  unfold requestAsked
  by_cases h1 : HeaderFits c s
  · obtain ⟨u1, t1, hu1, ht1, hp1, -⟩ := hfits h1
    simp only [handleRequest, ht1, Option.bind_some]
    cases hd : decode s.2.bytes with
    | none =>
      have hcode : t1.returnCode ≠ .ok := by
        rw [hp1.cut.returnCode]
        exact (h.stands.code rfl hu1).mpr hd
      simp [hcode, headersFit_one, h1]
    | some x =>
      obtain ⟨it, r⟩ := x
      obtain ⟨v, hv, htook⟩ := cwUnpackNext_took (u := cwUnpackContextInit type item p p.bytes.length) rfl le_rfl hd
      obtain rfl : u1 = v := Option.some.inj (hu1.symm.trans hv)
      have hcode : t1.returnCode = .ok := hp1.cut.returnCode.trans htook.ok
      have htype : t1.type = itemType it := hp1.cut.type.trans htook.type
      have hload := load_cutOff (show (⟨p.address, cutOff c p.bytes⟩ : Pointer).bytes = cutOff c p.bytes from rfl) 1
      rw [if_pos (headerFits_pos h1 hd)] at hload
      rw [if_neg (not_not.mpr hcode), hload, Option.bind_some, htype, hp1.word]
      by_cases harr : ∃ n, it = .array n
      · obtain ⟨n, rfl⟩ := harr
        have hn : s.next.1 = n := by
          rw [Position.next, readLow, hd]
          rfl
        rw [hn]
        by_cases h0 : n = 0
        · simp [h0, headersFit_one, h1]
        · rw [if_neg (by simp [itemType, h0]), handleElements_cut hp1]
          simp only [h0, if_false, headersFit_add, headersFit_one, h1, true_and]
          rfl
      · have hne : itemType it ≠ .array := fun he => harr (itemType_array he)
        rw [if_pos (.inl hne)]
        cases it with
        | array n => exact absurd ⟨n, rfl⟩ harr
        | _ => simp [headersFit_one, h1]
  · have hnone : handleRequest type item ⟨p.address, cutOff c p.bytes⟩ p.bytes.length m = none := by
      rw [handleRequest, hfault h1]
      rfl
    refine iff_of_true hnone fun hf => h1 (hf 0 ?_)
    split
    · split_ifs <;> omega
    · omega

def missing (len : ℕ) (message : List UInt8) : ℕ := message.length - len

theorem zmqRecv_cutOff (len : ℕ) (message : List UInt8) :
    (zmqRecv len message).1 = cutOff (missing len message) message := by
  simp only [zmqRecv, cutOff, missing]
  by_cases h : message.length ≤ len
  · rw [List.take_of_length_le h, List.take_of_length_le (by omega)]
  · rw [show message.length - (message.length - len) = len by omega]

theorem receive_in_buffer_iff (frame : Frame) (startTime : UInt64) (history : History) (q : EventQueue)
    (type : ItemType) (item : ItemAs) (address : UInt64) (message : List UInt8) (m : TwinsMemory) :
    (receiveEvent frame startTime history q address message ≠ none ↔
      EventFits (missing zmqBufferSize message) (frame.item.word.toUInt32, ⟨address, message⟩)) ∧
    (receiveRequest type item address message m ≠ none ↔
      HeadersFit (missing requestBufferSize message) (requestAsked (item.word.toUInt32, ⟨address, message⟩))
        (item.word.toUInt32, ⟨address, message⟩)) := by
  have he := deserializeEvent_cut (missing zmqBufferSize message) frame startTime history q ⟨address, message⟩
  have hr := handleRequest_cut (missing requestBufferSize message) type item ⟨address, message⟩ m
  rw [← zmqRecv_cutOff] at he hr
  constructor
  · rw [ne_eq, receiveEvent]
    exact not_iff_comm.mp he.symm
  · rw [ne_eq, receiveRequest]
    exact not_iff_comm.mp hr.symm

theorem eventFits_zero (s : Position) : EventFits 0 s := by
  refine ⟨headersFit_zero 1 s, fun _ _ => ⟨headersFit_zero 4 s.next, headersFit_zero _ _, ?_⟩⟩
  intro _ bs r _
  rw [List.length_append]
  omega

theorem zmqRecv_whole {len : ℕ} {message : List UInt8} (h : message.length ≤ len) :
    (zmqRecv len message).1 = cutOff 0 message := by
  rw [zmqRecv_cutOff, missing, Nat.sub_eq_zero_of_le h]

theorem receive_whole (frame : Frame) (startTime : UInt64) (history : History) (q : EventQueue)
    (type : ItemType) (item : ItemAs) (address : UInt64) (message : List UInt8) (m : TwinsMemory) :
    (message.length ≤ zmqBufferSize → receiveEvent frame startTime history q address message ≠ none) ∧
    (message.length ≤ requestBufferSize → receiveRequest type item address message m ≠ none) := by
  constructor
  · intro h
    have hcut := deserializeEvent_cut 0 frame startTime history q ⟨address, message⟩
    rw [← zmqRecv_whole h] at hcut
    rw [ne_eq, receiveEvent]
    exact fun hnone => hcut.mp hnone (eventFits_zero _)
  · intro h
    have hcut := handleRequest_cut 0 type item ⟨address, message⟩ m
    rw [← zmqRecv_whole h] at hcut
    rw [ne_eq, receiveRequest]
    exact fun hnone => hcut.mp hnone (headersFit_zero _ _)

def longMessage : List UInt8 := [0x94, 0xc5, 0x03, 0xfc] ++ List.replicate 1021 0

theorem longMessage_faults : longMessage.length = 1025 ∧
    receiveEvent zeroedFrame 0 zeroedHistory zeroedQueue 0 longMessage = none :=
  ⟨by decide +kernel, Option.isNone_iff_eq_none.mp (by decide +kernel)⟩

end OpenTwins
