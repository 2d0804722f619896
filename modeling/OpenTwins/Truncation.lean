import OpenTwins.Messages
import OpenTwins.ParserBounds

namespace OpenTwins

open MessagePack

inductive Message
  | update (m : UpdateMessage)
  | error (m : ErrorMessage)

def Message.items : Message → List Item
  | .update m => m.items
  | .error m => m.items

/-- The cut leaves the type unread, or makes the count disagree with the size of the array: the parser
then takes for the count the last number that has arrived, of which the low 31 bits matter. -/
def Message.CutNoticed (p : List UInt8) : Message → Prop
  | .update m => (itemsOf p).length < 2 ∨ (itemsOf p).length < 6 ∧
      ∀ x : Value, (itemsOf p).getLast? = some x.item → x.stored.toNat % 2 ^ 31 ≠ m.updates.length
  | .error _ => (itemsOf p).length < 2

theorem Feeds.sound {u : UnpackContext} {its : List Item} (h : Feeds u its) : Sound u := by
  cases h with
  | going ok avail => exact ⟨fun _ => avail, fun hn => absurd ok hn⟩
  | failed code type => exact ⟨fun hok => absurd hok code, fun _ => type⟩

theorem Value.item_injective : Function.Injective Value.item := by
  intro x y h
  cases x <;> cases y <;> cases h <;> rfl

def wordsAfter (w : UInt64) (xs : List Value) : UInt64 := xs.foldl (fun w x => x.word w) w

theorem wordsAfter_take (w : UInt64) (xs : List Value) (k : ℕ) :
    wordsAfter (wordsAfter w (xs.take 1)) (xs.tail.take k) = wordsAfter w (xs.take (k + 1)) := by
  cases xs with
  | nil => simp [wordsAfter]
  | cons x xs => rfl

theorem wordsAfter_low (w : UInt64) {xs : List Value} (h : xs ≠ []) :
    (wordsAfter w xs).toUInt32 = (xs.getLast h).stored := by
  induction xs generalizing w with
  | nil => exact absurd rfl h
  | cons x xs ih =>
    by_cases hx : xs = []
    · subst hx
      exact x.word_low w
    · rw [List.getLast_cons hx, ← ih (x.word w) hx]
      rfl

theorem Feeds.next_number {u : UnpackContext} {xs : List Value} (h : Feeds u (xs.map Value.item)) :
    ∃ v, cwUnpackNext u = some v ∧ Feeds v (xs.tail.map Value.item) ∧
      v.as.word = wordsAfter u.as.word (xs.take 1) := by
  cases xs with
  | nil =>
    obtain ⟨v, hv, hf, -, -, hw⟩ := h.next_nil
    exact ⟨v, hv, hf, hw⟩
  | cons x xs =>
    obtain ⟨v, hv, hf, -, -, hw⟩ := h.next
    exact ⟨v, hv, hf, hw.trans (wordAfter_item ..)⟩

theorem readHeader_numbers {u : UnpackContext} {xs : List Value} (h : Feeds u (xs.map Value.item)) :
    ∃ header v, readHeader u = some (header, v) ∧ Feeds v ((xs.drop 4).map Value.item) ∧
      header.type = (wordsAfter u.as.word (xs.take 1)).toUInt32 ∧
      v.as.word = wordsAfter u.as.word (xs.take 4) := by
  obtain ⟨u1, h1, f1, w1⟩ := h.next_number
  obtain ⟨u2, h2, f2, w2⟩ := f1.next_number
  obtain ⟨u3, h3, f3, w3⟩ := f2.next_number
  obtain ⟨u4, h4, f4, w4⟩ := f3.next_number
  refine ⟨_, u4, readHeader_eq h1 h2 h3 h4, ?_, by rw [w1], ?_⟩
  · rw [show xs.drop 4 = xs.tail.tail.tail.tail by simp only [← List.drop_one, List.drop_drop]]
    exact f4
  · rw [w4, w3, wordsAfter_take, w2, wordsAfter_take, w1, wordsAfter_take]

def Rejected (frame : Frame) (startTime : UInt64) (history : History) (q : EventQueue) (buffer : Pointer) : Prop :=
  ∃ history', deserializeEvent frame startTime history q buffer buffer.bytes.length = some (-1, history', q)

theorem rejected_iff (frame : Frame) (startTime : UInt64) (history : History) (q : EventQueue)
    (buffer : Pointer) : Rejected frame startTime history q buffer ↔
      decodeHead frame startTime history.logIndex buffer buffer.bytes.length = some .rejected := by
  obtain ⟨d, hd, hu, he⟩ := decodeHead_sound frame startTime history.logIndex buffer
  simp only [Rejected, deserializeEvent, hd, Option.bind_eq_bind, Option.bind_some, Option.some.injEq]
  cases d with
  | rejected => exact ⟨fun _ => rfl, fun _ => ⟨_, rfl⟩⟩
  | updates p =>
    obtain ⟨sp, hz⟩ := hu p rfl
    obtain ⟨log', es, h', -⟩ := pushBatches_sound frame p.varCount history.log q sp (by omega)
    simp [h']
  | error e => simp [pushEvent_offer]

theorem decodeHead_headless (frame : Frame) (startTime : UInt64) (idx : UInt32) {buffer : Pointer} {n : UInt32}
    (hn : 2 ≤ n) (h : itemsOf buffer.bytes <+: [.array n]) :
    decodeHead frame startTime idx buffer buffer.bytes.length = some .rejected := by
  have hf := feeds_init frame.itemType frame.item buffer
  rcases List.prefix_cons_iff.mp h with h | ⟨t, ht, h⟩
  · rw [h] at hf
    obtain ⟨u, hu, fu, ru, -, -⟩ := hf.next_nil
    obtain ⟨header, v, hh, -⟩ := readHeader_numbers (show Feeds u (([] : List Value).map Value.item) from fu)
    rw [decodeHead_eq startTime idx hu hh, if_pos (.inl ru)]
  · rw [List.prefix_nil] at h
    subst h
    rw [ht] at hf
    obtain ⟨u, hu, fu, -, -, wu⟩ := hf.next
    obtain ⟨header, v, hh, -, htype, -⟩ := readHeader_numbers (show Feeds u (([] : List Value).map Value.item) from fu)
    have hw : header.type = n := by
      rw [htype, wu]
      exact withLow32_low _ _
    rw [decodeHead_eq startTime idx hu hh]
    split_ifs
    · rfl
    · rw [decodePayload, if_neg, if_neg]
      · rw [hw]
        rintro rfl
        exact absurd hn (by decide)
      · rw [hw]
        rintro rfl
        exact absurd hn (by decide)

theorem size_eq_iff {n : ℕ} (hn : 5 + 2 * n < 2 ^ 32) (count : UInt32) :
    UInt32.ofNat (5 + 2 * n) = 5 + count * 2 ↔ count.toNat % 2 ^ 31 = n := by
  have hlt := count.toNat_lt
  rw [← UInt32.toNat_inj, UInt32.toNat_ofNat_of_lt' hn, UInt32.toNat_add, UInt32.toNat_mul]
  simp only [UInt32.reduceToNat]
  omega

theorem decodeHead_counted (frame : Frame) (startTime : UInt64) (idx : UInt32) {buffer : Pointer} {n : ℕ}
    (hn : 5 + 2 * n < 2 ^ 32) {xs : List Value} (hx : xs ≠ []) (hhead : xs.take 1 = [.int 0])
    (hlen : xs.length ≤ 5)
    (h : itemsOf buffer.bytes = .array (UInt32.ofNat (5 + 2 * n)) :: xs.map Value.item) :
    decodeHead frame startTime idx buffer buffer.bytes.length = some .rejected ↔
      (xs.getLast hx).stored.toNat % 2 ^ 31 ≠ n := by
  have hf := feeds_init frame.itemType frame.item buffer
  rw [h] at hf
  obtain ⟨u, hu, fu, ru, -, wu⟩ := hf.next
  obtain ⟨header, v, hh, fv, htype, wv⟩ := readHeader_numbers fu
  obtain ⟨w, hw, -, ww⟩ := fv.next_number
  have hsize : u.as.word.toUInt32 = UInt32.ofNat (5 + 2 * n) := by
    rw [wu]
    exact withLow32_low _ _
  have hcount : w.as.word.toUInt32 = (xs.getLast hx).stored := by
    rw [ww, wv, ← wordsAfter_low u.as.word hx, wordsAfter, wordsAfter, wordsAfter, ← List.foldl_append,
      ← List.take_add, List.take_of_length_le hlen]
  rw [decodeHead_eq startTime idx hu hh, if_neg,
    decodePayload_update frame startTime idx _ (by rw [htype, hhead]; rfl) hw, hsize, hcount]
  · simp only [ne_eq, size_eq_iff hn, ite_eq_left_iff, not_not]
    refine ⟨?_, fun h hz => absurd hz h⟩
    intro h hz
    cases h hz
  · rw [hsize, not_or, not_not, UInt32.lt_iff_toNat_lt, UInt32.toNat_ofNat_of_lt' hn]
    exact ⟨ru, by simp; omega⟩

theorem numbers_prefix (x : Value) (xs : List Value) {t : List Item} (h : t <+: (x :: xs).map Value.item)
    (ht : t ≠ []) : ∃ ys, t = (x :: ys).map Value.item := by
  obtain rfl | ⟨ys, rfl, hys⟩ := List.prefix_cons_iff.mp h
  · exact absurd rfl ht
  · have hmap := List.prefix_iff_eq_take.mp hys
    rw [← List.map_take] at hmap
    exact ⟨xs.take ys.length, by rw [List.map_cons, ← hmap]⟩

theorem getLast_numbers (it : Item) {xs : List Value} (h : xs ≠ []) :
    (it :: xs.map Value.item).getLast? = some (xs.getLast h).item := by
  rw [List.getLast?_cons, List.getLast?_map, List.getLast?_eq_some_getLast h]
  rfl

theorem update_rejected_iff (frame : Frame) (startTime : UInt64) (idx : UInt32) {m : UpdateMessage}
    (hm : m.updates ≠ []) {buffer : Pointer} (h : itemsOf buffer.bytes <+: m.items) :
    decodeHead frame startTime idx buffer buffer.bytes.length = some .rejected ↔
      (Message.update m).CutNoticed buffer.bytes := by
  have hfits := m.fits
  have hpos := List.length_pos_iff.mpr hm
  have hhead : m.headItems <+: m.items := List.prefix_append _ _
  unfold Message.CutNoticed
  by_cases hlen : (itemsOf buffer.bytes).length < 6
  · have hpre : itemsOf buffer.bytes <+: m.headItems := List.prefix_of_prefix_length_le h hhead hlen.le
    rcases List.prefix_cons_iff.mp hpre with hnil | ⟨t, ht, hpre'⟩
    · simp only [hnil, List.length_nil, Nat.zero_lt_two, true_or, iff_true]
      exact decodeHead_headless (n := 2) frame startTime idx (by decide) (by simp [hnil])
    by_cases hnil : t = []
    · subst hnil
      simp only [ht, List.length_singleton, Nat.one_lt_two, true_or, iff_true]
      refine decodeHead_headless (n := UInt32.ofNat (5 + 2 * m.updates.length)) frame startTime idx ?_
        (by simp [ht])
      rw [UInt32.le_iff_toNat_le, UInt32.toNat_ofNat_of_lt' hfits]
      simp
      omega
    · obtain ⟨ys, rfl⟩ := numbers_prefix (.int 0)
        [.int m.timestamp.toNat, m.deviation, .int m.twinId.toNat, .int m.updates.length] hpre' hnil
      have hlen' : (Value.int 0 :: ys).length < 5 := by
        rw [ht, List.length_cons, List.length_map] at hlen
        omega
      rw [decodeHead_counted frame startTime idx hfits (List.cons_ne_nil _ ys) rfl hlen'.le ht, ht,
        getLast_numbers _ (List.cons_ne_nil _ ys)]
      simp only [List.length_cons, List.length_map, Option.some.injEq, Value.item_injective.eq_iff, forall_eq']
      rw [List.length_cons] at hlen'
      omega
  · obtain ⟨more, hmore⟩ := List.prefix_of_prefix_length_le hhead h (not_lt.mp hlen)
    obtain ⟨ctx, hd, -⟩ := decodeHead_update frame startTime idx hmore.symm
    simp only [hd, Option.some.injEq, reduceCtorEq, hlen, false_and, or_false, false_iff]
    omega

theorem error_rejected_iff (frame : Frame) (startTime : UInt64) (idx : UInt32) {m : ErrorMessage}
    {buffer : Pointer} (h : itemsOf buffer.bytes <+: m.items.dropLast) :
    decodeHead frame startTime idx buffer buffer.bytes.length = some .rejected ↔
      (Message.error m).CutNoticed buffer.bytes := by
  unfold Message.CutNoticed
  rcases List.prefix_cons_iff.mp h with hnil | ⟨t, ht, hpre⟩
  · simp only [hnil, List.length_nil, Nat.zero_lt_two, iff_true]
    exact decodeHead_headless (n := 6) frame startTime idx (by decide) (by simp [hnil])
  by_cases hnil : t = []
  · subst hnil
    simp only [ht, List.length_singleton, Nat.one_lt_two, iff_true]
    exact decodeHead_headless (n := 6) frame startTime idx (by decide) (by simp [ht])
  · obtain ⟨ys, rfl⟩ := numbers_prefix (.int 1)
      [.int m.timestamp.toNat, m.deviation, .int m.twinId.toNat, .int m.errorCode.toNat] hpre hnil
    have hf := feeds_init frame.itemType frame.item buffer
    rw [ht] at hf
    obtain ⟨u, hu, fu, ru, -, wu⟩ := hf.next
    obtain ⟨header, v, hh, fv, htype, -⟩ := readHeader_numbers fu
    have hsize : u.as.word.toUInt32 = 6 := by
      rw [wu]
      exact withLow32_low _ _
    have ht1 : header.type = eventError := by rw [htype]; rfl
    obtain ⟨e, he, -⟩ := readError_sound frame fv.sound ht1
    rw [decodeHead_eq startTime idx hu hh, if_neg (by rw [hsize, ru]; decide), decodePayload,
      if_neg (by rw [ht1]; decide), if_pos ht1, he]
    simp [ht]

theorem truncated_rejected_iff (m : Message) (hm : ∀ u, m = .update u → u.updates ≠ [])
    {b p s : List UInt8} (hb : EncodesAll m.items b) (hp : b = p ++ s) (hs : s ≠ []) (frame : Frame)
    (startTime : UInt64) (history : History) (q : EventQueue) (address : UInt64) :
    Rejected frame startTime history q ⟨address, p⟩ ↔ m.CutNoticed p := by
  obtain ⟨its, next, rest, e, r, hits, rfl, he, r', hr', hnext⟩ := hb.cut hp hs
  have hp := itemsOf_encoded he (hnext.decode_prefix hr')
  rw [rejected_iff]
  cases m with
  | update m =>
    apply update_rejected_iff frame startTime history.logIndex (hm m rfl)
    simp only [hp]
    exact ⟨next :: rest, hits.symm⟩
  | error m =>
    apply error_rejected_iff frame startTime history.logIndex
    have hlast : m.items.dropLast = its ++ (next :: rest).dropLast := by
      rw [show m.items = its ++ next :: rest from hits, List.dropLast_append_of_ne_nil (List.cons_ne_nil _ _)]
    simp only [hp, hlast]
    exact List.prefix_append _ _

theorem truncated_rejected_iff_oneUpdate :
    ¬ Rejected zeroedFrame 0 zeroedHistory zeroedQueue ⟨0, [0x97, 0, 1]⟩ := by
  rw [truncated_rejected_iff (.update oneUpdate) (by rintro _ ⟨⟩; decide) oneUpdate_encoded
    (p := [0x97, 0, 1]) (s := [0, 0, 1, 5, 0xca, 0x3f, 0x80, 0, 0]) rfl (by decide)]
  simp only [Message.CutNoticed,
    show itemsOf [0x97, 0, 1] = [.array 7, (Value.int 0).item, (Value.int 1).item] from rfl,
    List.getLast?_cons_cons, List.getLast?_singleton, Option.some.injEq, Value.item_injective.eq_iff, forall_eq']
  simp [oneUpdate, Value.stored, UInt64.ofInt]

theorem truncated_not_rejected :
    EncodesAll (Message.update oneUpdate).items ([0x97, 0, 1] ++ [0, 0, 1, 5, 0xca, 0x3f, 0x80, 0, 0]) ∧
    (deserializeEvent zeroedFrame 0 zeroedHistory zeroedQueue ⟨0, [0x97, 0, 1]⟩ 3).map
      (fun r => (r.1, r.2.2.contents.length)) = some (0, 1) :=
  ⟨oneUpdate_encoded, by decide⟩

end OpenTwins
