import OpenTwins.EventParser

namespace OpenTwins

open FixedArray

inductive WellFormed : Event → Prop
  | update {h : EventHeader} {u : UpdateEvent} (type : h.type = eventUpdate) (pos : 1 ≤ u.count.toNat)
      (le : u.count.toNat ≤ maxVarsPerEvent) : WellFormed ⟨h, .update u⟩
  | error {h : EventHeader} {e : ErrorEvent} (type : h.type = eventError) (nul : ∃ i, e.message i = 0) :
      WellFormed ⟨h, .error e⟩

theorem readHeader_sound {u : UnpackContext} (h : Sound u) :
    ∃ header v, readHeader u = some (header, v) ∧ Sound v := by
  obtain ⟨u1, h1, s1, -⟩ := cwUnpackNext_sound h
  obtain ⟨u2, h2, s2, -⟩ := cwUnpackNext_sound s1
  obtain ⟨u3, h3, s3, -⟩ := cwUnpackNext_sound s2
  obtain ⟨u4, h4, s4, -⟩ := cwUnpackNext_sound s3
  exact ⟨_, u4, readHeader_eq h1 h2 h3 h4, s4⟩

theorem copyMessage_terminated {text : List UInt8} {len : ℕ} (hlen : len < messageSize)
    (htext : len ≤ text.length) (m : FixedArray UInt8 messageSize) :
    ∃ m', copyMessage text len m = some m' ∧ ∃ i, m' i = 0 := by
  obtain ⟨t, ht, -⟩ := forLoop_invariant (P := fun _ _ => True) (k := len) (s := m)
    (f := fun i m => text[i]?.bind (FixedArray.write m i))
    (fun i hi s _ => by
      rw [List.getElem?_eq_getElem (by omega), Option.bind_some, write_of_lt s (by omega)]
      exact ⟨_, rfl, trivial⟩) trivial
  refine ⟨_, by rw [copyMessage, ht, Option.bind_eq_bind, Option.bind_some, write_of_lt t hlen],
    ⟨len, hlen⟩, Function.update_self ..⟩

theorem storeMessage_terminated {u : UnpackContext}
    (h : u.type = .str → u.as.length.toNat ≤ u.as.pointee.length) (m : FixedArray UInt8 messageSize) :
    ∃ m', storeMessage u m = some m' ∧ ∃ i, m' i = 0 := by
  have hpos : 0 < messageSize := by decide
  unfold storeMessage
  by_cases hs : u.type = .str
  · have := h hs
    rw [if_pos hs]
    apply copyMessage_terminated
    · split_ifs <;> omega
    · split_ifs <;> omega
  · rw [if_neg hs, write_of_lt m hpos]
    exact ⟨_, rfl, ⟨0, hpos⟩, Function.update_self ..⟩

theorem readError_sound (frame : Frame) {header : EventHeader} {u : UnpackContext} (h : Sound u)
    (ht : header.type = eventError) :
    ∃ event, readError frame header u = some event ∧ WellFormed event := by
  obtain ⟨u1, h1, s1, -⟩ := cwUnpackNext_sound h
  obtain ⟨u2, h2, -, hs⟩ := cwUnpackNext_sound s1
  obtain ⟨m, hm, hz⟩ := storeMessage_terminated hs frame.message
  exact ⟨_, readError_eq h1 h2 hm, .error ht hz⟩

structure Parsing.Sound (p : Parsing) : Prop where
  ctx : OpenTwins.Sound p.ctx
  type : p.header.type = eventUpdate
  le : p.varsProcessed ≤ p.varCount

theorem decodeHead_sound (frame : Frame) (startTime : UInt64) (idx : UInt32) (buffer : Pointer) :
    ∃ d, decodeHead frame startTime idx buffer buffer.bytes.length = some d ∧
      (∀ p, d = .updates p → p.Sound ∧ p.varsProcessed = 0) ∧ ∀ e, d = .error e → WellFormed e := by
  obtain ⟨u, hu, su, -⟩ := cwUnpackNext_sound (sound_init frame.itemType frame.item buffer)
  obtain ⟨header, v, hv, sv⟩ := readHeader_sound su
  rw [decodeHead_eq startTime idx hu hv]
  split_ifs with h1
  · exact ⟨_, rfl, by simp, by simp⟩
  by_cases h3 : header.type = eventUpdate
  · obtain ⟨w, hw, sw, -⟩ := cwUnpackNext_sound sv
    rw [decodePayload_update frame startTime idx _ h3 hw]
    split_ifs
    · exact ⟨_, rfl, by simp, by simp⟩
    · refine ⟨_, rfl, ?_, by simp⟩
      rintro p ⟨⟩
      exact ⟨⟨sw, h3, Nat.zero_le _⟩, rfl⟩
  rw [decodePayload, if_neg h3]
  split_ifs with h4
  · obtain ⟨e, he, we⟩ := readError_sound frame sv h4
    rw [he, Option.bind_eq_bind, Option.bind_some]
    refine ⟨_, rfl, by simp, ?_⟩
    rintro _ ⟨⟩
    exact we
  · exact ⟨_, rfl, by simp, by simp⟩

theorem readUpdate_sound {b : Batch} (h : b.parsing.Sound) (hp : b.parsing.varsProcessed < b.parsing.varCount)
    (hb : b.batchCount < maxVarsPerEvent) :
    ∃ b', readUpdate b = some b' ∧ b'.parsing.Sound ∧ b'.batchCount = b.batchCount + 1 ∧
      b'.parsing.varsProcessed = b.parsing.varsProcessed + 1 ∧
      b'.parsing.varCount = b.parsing.varCount ∧ b'.parsing.header = b.parsing.header := by
  obtain ⟨u, hu, su, -⟩ := cwUnpackNext_sound h.ctx
  obtain ⟨v, hv, sv, -⟩ := cwUnpackNext_sound su
  obtain ⟨log, hl⟩ := readUpdate_eq hu hv hb
  exact ⟨_, hl, ⟨sv, h.type, hp⟩, rfl, rfl, rfl, rfl⟩

theorem fillBatch_sound (room : ℕ) {b : Batch} (h : b.parsing.Sound)
    (hb : b.batchCount + room = maxVarsPerEvent) :
    ∃ b', fillBatch room b = some b' ∧ b'.parsing.Sound ∧ b'.batchCount ≤ maxVarsPerEvent ∧
      b'.batchCount = b.batchCount + min room (b.parsing.varCount - b.parsing.varsProcessed) ∧
      b'.parsing.varsProcessed + b.batchCount = b.parsing.varsProcessed + b'.batchCount ∧
      b'.parsing.varCount = b.parsing.varCount ∧ b'.parsing.header = b.parsing.header := by
  induction room generalizing b with
  | zero => exact ⟨b, rfl, h, by omega, by simp, rfl, rfl, rfl⟩
  | succ room ih =>
    by_cases hp : b.parsing.varsProcessed < b.parsing.varCount
    · obtain ⟨b1, h1, s1, c1, v1, n1, e1⟩ := readUpdate_sound h hp (by omega)
      obtain ⟨b2, h2, s2, l2, c2, v2, n2, e2⟩ := ih s1 (by omega)
      refine ⟨b2, ?_, s2, l2, by omega, by omega, n2.trans n1, e2.trans e1⟩
      rw [fillBatch, if_pos hp, h1, Option.bind_some, h2]
    · refine ⟨b, if_neg hp, h, by omega, ?_, rfl, rfl, rfl⟩
      rw [Nat.sub_eq_zero_of_le (by omega), Nat.min_zero, Nat.add_zero]

theorem nextBatch_sound (frame : Frame) {p : Parsing} (log : HistoryLog) (h : p.Sound)
    (hp : p.varsProcessed < p.varCount) :
    ∃ e p' log', nextBatch frame p log = some (e, p', log') ∧ WellFormed e ∧ p'.Sound ∧
      p'.varCount = p.varCount ∧ p.varsProcessed < p'.varsProcessed := by
  obtain ⟨b, hb, sb, hle, hc, hv, hn, he⟩ := fillBatch_sound maxVarsPerEvent
    (b := { parsing := p, log, updates := frame.updates p.varsProcessed, batchCount := 0 }) h (by simp)
  simp only [Nat.zero_add, Nat.add_zero] at hc hv hn
  have hpos : 1 ≤ b.batchCount := by
    rw [hc]
    exact le_min (by decide) (by omega)
  have hcount : (UInt8.ofNat b.batchCount).toNat = b.batchCount :=
    UInt8.toNat_ofNat_of_lt' (lt_of_le_of_lt hle (by decide))
  refine ⟨_, _, _, nextBatch_eq hb, .update h.type ?_ ?_, sb, hn, by omega⟩
  · rwa [hcount]
  · rwa [hcount]

theorem pushBatches_sound (frame : Frame) (rounds : ℕ) {p : Parsing} (log : HistoryLog) (q : EventQueue)
    (h : p.Sound) (hr : p.varCount ≤ p.varsProcessed + rounds) :
    ∃ log' es, pushBatches frame rounds p log q = some (log', offers q es) ∧
      ∀ e ∈ es, WellFormed e := by
  induction rounds generalizing p log q with
  | zero => exact ⟨log, [], if_neg (by omega), by simp⟩
  | succ rounds ih =>
    by_cases hp : p.varsProcessed < p.varCount
    · obtain ⟨e, p', log', hb, we, sp, hn, hv⟩ := nextBatch_sound frame log h hp
      obtain ⟨log'', es, h', hw⟩ := ih log' (offer q e) sp (by omega)
      refine ⟨log'', e :: es, by rw [pushBatches_succ rounds q hp hb, h']; rfl, ?_⟩
      exact List.forall_mem_cons.mpr ⟨we, hw⟩
    · exact ⟨log, [], if_neg hp, by simp⟩

theorem deserializeEvent_sound (frame : Frame) (startTime : UInt64) (history : History) (q : EventQueue)
    (buffer : Pointer) :
    ∃ rc history' es, deserializeEvent frame startTime history q buffer buffer.bytes.length =
      some (rc, history', offers q es) ∧ (∀ e ∈ es, WellFormed e) := by
  obtain ⟨d, hd, hu, he⟩ := decodeHead_sound frame startTime history.logIndex buffer
  simp only [deserializeEvent, hd, Option.bind_eq_bind, Option.bind_some]
  cases d with
  | rejected => exact ⟨_, _, [], rfl, by simp⟩
  | updates p =>
    obtain ⟨sp, hz⟩ := hu p rfl
    obtain ⟨log', es, h', hw⟩ := pushBatches_sound frame p.varCount history.log q sp (by omega)
    exact ⟨_, _, es, by simp only [h', Option.bind_some]; rfl, hw⟩
  | error e => exact ⟨_, _, [e], by simp only [pushEvent_offer, Option.bind_some]; rfl, by simpa using he e rfl⟩

end OpenTwins
