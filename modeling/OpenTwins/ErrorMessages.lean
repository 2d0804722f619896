import OpenTwins.EventDispatcher
import OpenTwins.Messages

namespace OpenTwins

open MessagePack FixedArray

theorem Feeds.next_str {u : UnpackContext} {text : List UInt8} {its : List Item} (h : Feeds u (.str text :: its)) :
    ∃ v, cwUnpackNext u = some v ∧ v.type = .str ∧ v.as.length.toNat = text.length ∧
      ∃ rest, v.as.pointee = text ++ rest := by
  cases h with
  | going ok avail bytes items last =>
    cases items with
    | @cons _ _ e bs he hb =>
      rename_i r
      have hd := he.decode_append (bs ++ r)
      rw [← List.append_assoc, ← bytes] at hd
      obtain ⟨v, hv, ht⟩ := cwUnpackNext_took ok avail.ge hd
      obtain ⟨hlen, hp⟩ := ht.text text rfl
      exact ⟨v, hv, ht.type, hlen, _, hp⟩

theorem copyMessage_prefix {text : List UInt8} {len : ℕ} (hlen : len < messageSize) (htext : len ≤ text.length)
    (m : FixedArray UInt8 messageSize) :
    ∃ m', copyMessage text len m = some m' ∧ m'.prefixList (len + 1) = text.take len ++ [0] := by
  obtain ⟨t, ht, hp⟩ := forLoop_invariant (P := fun i (m : FixedArray UInt8 messageSize) =>
      m.prefixList i = text.take i) (k := len) (s := m)
    (f := fun i m => text[i]?.bind (FixedArray.write m i))
    (fun i hi s hs => by
      have hlt : i < messageSize := hi.trans hlen
      have hget : i < text.length := lt_of_lt_of_le hi htext
      rw [List.getElem?_eq_getElem hget, Option.bind_some, write_of_lt s hlt]
      exact ⟨_, rfl, by rw [prefixList_write s hlt, hs, List.take_succ_eq_append_getElem hget]⟩) (by simp)
  refine ⟨_, by rw [copyMessage, ht, Option.bind_eq_bind, Option.bind_some, write_of_lt t hlen], ?_⟩
  rw [prefixList_write t hlen, hp]

theorem storeMessage_str {u : UnpackContext} {text rest : List UInt8} (ht : u.type = .str)
    (hlen : u.as.length.toNat = text.length) (hp : u.as.pointee = text ++ rest) (m : FixedArray UInt8 messageSize) :
    ∃ m', storeMessage u m = some m' ∧
      m'.prefixList ((text.take (messageSize - 1)).length + 1) = text.take (messageSize - 1) ++ [0] := by
  have hpos : 0 < messageSize := by decide
  have hkept : (if messageSize ≤ text.length then messageSize - 1 else text.length) =
      (text.take (messageSize - 1)).length := by
    rw [List.length_take]
    split_ifs <;> omega
  have hle : (text.take (messageSize - 1)).length ≤ text.length := List.length_take_le' _ _
  have hroom : (text.take (messageSize - 1)).length < messageSize := by
    rw [List.length_take]
    omega
  have htext : (text.take (messageSize - 1)).length ≤ (text ++ rest).length := by
    rw [List.length_append]
    omega
  obtain ⟨m', hm, hcopied⟩ := copyMessage_prefix hroom htext m
  refine ⟨m', ?_, ?_⟩
  · rw [storeMessage, if_pos ht, hlen, hp]
    simp only [hkept]
    exact hm
  · rw [hcopied, List.take_append_of_le_length hle, List.length_take, ← List.take_eq_take_min]

def textOf {n : ℕ} (m : FixedArray UInt8 n) : List UInt8 := (m.prefixList n).takeWhile (· ≠ 0)

theorem textOf_prefix {n k : ℕ} {m : FixedArray UInt8 n} {text : List UInt8} (h : m.prefixList k = text ++ [0]) :
    textOf m = text.takeWhile (· ≠ 0) := by
  have hall : m.prefixList n = List.ofFn m := List.take_of_length_le (by simp)
  obtain ⟨rest, hrest⟩ : m.prefixList k <+: m.prefixList n := by
    rw [hall]
    exact List.take_prefix k _
  rw [textOf, ← hrest, h, List.append_assoc, List.takeWhile_append]
  split_ifs with hlen
  · rw [(List.takeWhile_prefix _).eq_of_length hlen]
    simp
  · rfl

def ErrorMessage.header (m : ErrorMessage) : EventHeader where
  type := eventError
  timestamp := m.timestamp
  deviation := Binary32.ofUInt64 (m.deviation.word m.timestamp)
  twinId := m.twinId

theorem deserializeEvent_error (frame : Frame) (startTime : UInt64) (history : History) (q : EventQueue)
    {m : ErrorMessage} {buffer : Pointer} (h : EncodesAll m.items buffer.bytes) :
    ∃ ev : ErrorEvent, deserializeEvent frame startTime history q buffer buffer.bytes.length =
        some (0, { history with logIndex := history.logIndex + 1 }, offer q ⟨m.header, .error ev⟩) ∧
      ev.errorCode = m.errorCode ∧
      textOf ev.message = (m.text.take (messageSize - 1)).takeWhile (· ≠ 0) ∧
      ∀ rules clock d, dispatchEvent rules clock ⟨m.header, .error ev⟩ d = some d := by
  obtain ⟨ctx, hd, hf⟩ := decodeHead_items frame startTime history.logIndex (show (4 : UInt32) ≤ 6 by decide)
    (wordAfter_item m.deviation _) (itemsOf_complete h)
  simp only [ofInt_toNat, ofInt_toUInt32, UInt32.ofNat_toNat] at hd
  obtain ⟨u1, h1, f1, w1⟩ := hf.next_int
  obtain ⟨u2, h2, htype, hlen, rest, hp⟩ := f1.next_str
  obtain ⟨message, hm, hstored⟩ := storeMessage_str htype hlen hp frame.message
  have hcode : u1.as.word.toUInt32 = m.errorCode := by
    rw [w1, ofInt_toUInt32, UInt32.ofNat_toNat]
  have hpayload : decodePayload frame startTime history.logIndex 6 m.header ctx =
      some (.error ⟨m.header, .error ⟨m.errorCode, message⟩⟩) := by
    have herror : m.header.type = eventError := rfl
    rw [decodePayload, herror, if_neg (by decide), if_pos rfl, readError_eq h1 h2 hm, hcode]
    rfl
  refine ⟨⟨m.errorCode, message⟩, ?_, rfl, textOf_prefix hstored, fun rules clock d =>
    dispatchEvent_error rules clock rfl _ d⟩
  simp only [deserializeEvent, hd.trans hpayload, pushEvent_offer, Option.bind_eq_bind, Option.bind_some]
  rfl

def sensorFailure : ErrorMessage where
  timestamp := 1
  deviation := .int 0
  twinId := 4
  errorCode := 1
  text := [0x46, 0x61, 0x69, 0x6c]

theorem sensorFailure_encoded :
    EncodesAll sensorFailure.items [0x96, 1, 1, 0, 4, 1, 0xa4, 0x46, 0x61, 0x69, 0x6c] :=
  .cons (e := [0x96]) (by decide) (.cons (e := [1]) (by decide) (.cons (e := [1]) (by decide)
    (.cons (e := [0]) (by decide) (.cons (e := [4]) (by decide) (.cons (e := [1]) (by decide)
      (.cons (e := [0xa4, 0x46, 0x61, 0x69, 0x6c]) (by decide) .nil))))))

theorem deserializeEvent_error_sensorFailure : ∃ ev : ErrorEvent,
    deserializeEvent zeroedFrame 0 zeroedHistory zeroedQueue
        ⟨0, [0x96, 1, 1, 0, 4, 1, 0xa4, 0x46, 0x61, 0x69, 0x6c]⟩ 11 =
      some (0, { zeroedHistory with logIndex := 1 }, offer zeroedQueue ⟨sensorFailure.header, .error ev⟩) ∧
    ev.errorCode = errorSensorFailure ∧ textOf ev.message = [0x46, 0x61, 0x69, 0x6c] := by
  let buffer : Pointer := ⟨0, [0x96, 1, 1, 0, 4, 1, 0xa4, 0x46, 0x61, 0x69, 0x6c]⟩
  have hencoded : EncodesAll sensorFailure.items buffer.bytes := sensorFailure_encoded
  obtain ⟨ev, hd, hcode, htext, -⟩ := deserializeEvent_error zeroedFrame 0 zeroedHistory zeroedQueue hencoded
  exact ⟨ev, hd, hcode, htext⟩

end OpenTwins
