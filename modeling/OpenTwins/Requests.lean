import OpenTwins.ApiServer
import OpenTwins.Leftovers

/-!
What the API server takes for a DELETE. After the array header it looks neither at the
decoder's return code nor at the type of an item, and it keeps one byte of the operation and
four of the identifier.
-/

namespace OpenTwins

open MessagePack

/-- The request is an array of at least two, and what stands for the operation and for the
identifier, or is left over from before where nothing does, says DELETE `t`. -/
def TakenForDelete (req : Pointer) (t : ℕ) : Prop :=
  ∃ n r, decode req.bytes = some (.array n, r) ∧ 2 ≤ n.toNat ∧
    let op := readLow n (req.advance (req.bytes.length - r.length))
    op.1.toNat % 2 ^ 8 = 2 ∧ (readLow op.1 op.2).1.toNat = t ∧ t < maxTwins

def GenuineDelete (bs : List UInt8) (t : ℕ) : Prop :=
  ∃ (n : UInt32) (header rest : List UInt8) (k : ℕ), bs = header ++ rest ∧ n.toNat = k + 2 ∧
    EncodesAll [.array n, .int 2, .int t] header ∧ Complete k rest ∧ t < maxTwins

theorem execute_target (opcode : UInt8) {w : UInt32} (targetId : UInt32) (m : TwinsMemory)
    (h : opcode = w.toUInt8) : ∃ reply m', execute opcode targetId m = some (reply, m') ∧
      m' = if w.toNat % 2 ^ 8 = 2 then disconnect targetId.toNat m else m := by
  obtain ⟨reply, hr⟩ := execute_memory opcode targetId m
  refine ⟨reply, _, hr, if_congr ?_ rfl rfl⟩
  rw [h, ← UInt8.toNat_inj, UInt32.toNat_toUInt8]
  rfl

theorem disconnect_of_ge {t : ℕ} (h : maxTwins ≤ t) (m : TwinsMemory) : disconnect t m = m := by
  funext i
  rw [disconnect, if_neg]
  have := i.isLt
  omega

theorem handleElements_memory {u : UnpackContext} {n : UInt32} {p : Pointer} (h : Stands u n p)
    (m : TwinsMemory) : ∃ reply m', handleElements n u m = some (reply, m') ∧
      m' = if 2 ≤ n.toNat ∧ (readLow n p).1.toNat % 2 ^ 8 = 2 then
        disconnect (readLow (readLow n p).1 (readLow n p).2).1.toNat m else m := by
  obtain ⟨v, hv, sv⟩ := h.next
  obtain ⟨w, hw, sw⟩ := sv.next
  have hop : v.as.word.toUInt8 = (readLow n p).1.toUInt8 := by
    rw [← sv.word]
    apply UInt8.toNat_inj.mp
    simp
  have h2 : ((readLow n p).1.toNat % 2 ^ 8 = 2) ↔ v.as.word.toUInt8 = opDelete := by
    rw [hop, ← UInt8.toNat_inj, UInt32.toNat_toUInt8]
    rfl
  simp only [handleElements, hv, Option.bind_some]
  by_cases hop1 : v.as.word.toUInt8 = opGet ∨ v.as.word.toUInt8 = opDelete
  · rw [if_pos hop1]
    by_cases hn : n < 2
    · rw [if_pos hn]
      refine ⟨_, _, rfl, (if_neg ?_).symm⟩
      rw [UInt32.lt_iff_toNat_lt] at hn
      exact fun hc => absurd hc.1 (by simpa using hn)
    · rw [if_neg hn, hw, Option.bind_some, sw.word]
      obtain ⟨reply, m', he, hm⟩ := execute_target v.as.word.toUInt8
        (readLow (readLow n p).1 (readLow n p).2).1 m hop
      refine ⟨reply, m', he, hm.trans (if_congr ?_ rfl rfl)⟩
      rw [UInt32.lt_iff_toNat_lt, not_lt] at hn
      exact (and_iff_right (by simpa using hn)).symm
  · rw [if_neg hop1]
    obtain ⟨reply, hr⟩ := execute_memory v.as.word.toUInt8 0 m
    rw [if_neg fun hc => hop1 (.inr hc)] at hr
    refine ⟨reply, m, hr, (if_neg ?_).symm⟩
    exact fun hc => hop1 (.inr (h2.mp hc.2))

theorem TakenForDelete.array {req : Pointer} {t : ℕ} {it : Item} {r : List UInt8} (h : TakenForDelete req t)
    (hd : decode req.bytes = some (it, r)) : ∃ n, it = .array n ∧ 2 ≤ n.toNat ∧
      let op := readLow n (req.advance (req.bytes.length - r.length))
      op.1.toNat % 2 ^ 8 = 2 ∧ (readLow op.1 op.2).1.toNat = t ∧ t < maxTwins := by
  obtain ⟨n, r', hn, h⟩ := h
  rw [hd] at hn
  cases hn
  exact ⟨n, rfl, h⟩

theorem TakenForDelete.decode_ne_none {req : Pointer} {t : ℕ} (h : TakenForDelete req t) :
    decode req.bytes ≠ none := by
  obtain ⟨n, r, hn, -⟩ := h
  rw [hn]
  simp

theorem handleRequest_memory (type : ItemType) (item : ItemAs) (req : Pointer) (m : TwinsMemory) :
    ∃ reply m', handleRequest type item req req.bytes.length m = some (reply, m') ∧
      (∀ t, TakenForDelete req t → m' = disconnect t m) ∧ ((∀ t, ¬ TakenForDelete req t) → m' = m) := by
  obtain ⟨u, hu, su⟩ := (stands_init type item req).next
  simp only [handleRequest, hu, Option.bind_some]
  cases hd : decode req.bytes with
  | none =>
    obtain ⟨u', hu', hf⟩ := cwUnpackNext_failed (u := cwUnpackContextInit type item req req.bytes.length) rfl rfl hd
    obtain rfl : u = u' := Option.some.inj (hu.symm.trans hu')
    exact ⟨_, m, if_pos hf.code, fun t ht => absurd hd ht.decode_ne_none, fun _ => rfl⟩
  | some q =>
    obtain ⟨it, r⟩ := q
    obtain ⟨u', hu', ht⟩ := cwUnpackNext_took (u := cwUnpackContextInit type item req req.bytes.length) rfl le_rfl hd
    obtain rfl : u = u' := Option.some.inj (hu.symm.trans hu')
    obtain ⟨b, hload⟩ := exists_load (p := req) fun hb => by
      rw [hb] at hd
      cases hd
    rw [if_neg (not_not.mpr ht.ok), hload, Option.bind_some]
    by_cases harr : u.type = .array
    · obtain ⟨n, rfl⟩ := itemType_array (ht.type.symm.trans harr)
      simp only [readLow, hd, lowAfter] at su
      obtain ⟨reply, m', he, hm⟩ := handleElements_memory su m
      rw [su.word]
      by_cases h0 : n = 0
      · refine ⟨_, m, if_pos (.inr h0), ?_, fun _ => rfl⟩
        intro t ht
        obtain ⟨n', hn', h2, -⟩ := ht.array hd
        cases hn'
        rw [h0] at h2
        exact absurd h2 (by decide)
      · rw [if_neg (not_or.mpr ⟨not_not.mpr harr, h0⟩)]
        refine ⟨reply, m', he, ?_, ?_⟩
        · intro t ht
          obtain ⟨n', hn', h2, hop, ht, -⟩ := ht.array hd
          cases hn'
          rw [hm, if_pos ⟨h2, hop⟩, ht]
        · intro hn
          rw [hm]
          split_ifs with hc
          · refine disconnect_of_ge (not_lt.mp fun hlt => ?_) m
            exact hn _ ⟨n, r, hd, hc.1, hc.2, rfl, hlt⟩
          · rfl
    · refine ⟨_, m, if_pos (.inl harr), ?_, fun _ => rfl⟩
      intro t htaken
      obtain ⟨n, rfl, -⟩ := htaken.array hd
      exact absurd ht.type harr

theorem readLow_int {w : UInt32} {p : Pointer} {z : ℤ} {r : List UInt8}
    (h : decode p.bytes = some (.int z, r)) :
    readLow w p = ((UInt64.ofInt z).toUInt32, p.advance (p.bytes.length - r.length)) := by
  rw [readLow, h]
  rfl

theorem advance_rest {p : Pointer} {e r : List UInt8} (h : p.bytes = e ++ r) :
    (p.advance (p.bytes.length - r.length)).bytes = r := by
  rw [advance_bytes, h, List.length_append, Nat.add_sub_cancel, List.drop_left]

theorem GenuineDelete.taken {req : Pointer} {t : ℕ} (h : GenuineDelete req.bytes t) : TakenForDelete req t := by
  obtain ⟨n, header, rest, k, hb, hn, he, -, ht⟩ := h
  cases he with
  | cons h0 he =>
    cases he with
    | cons h1 he =>
      cases he with
      | cons h2 he =>
        cases he
        rename_i e0 e1 e2
        have hb0 : req.bytes = e0 ++ (e1 ++ (e2 ++ rest)) := by simpa using hb
        have hd0 : decode req.bytes = some (.array n, e1 ++ (e2 ++ rest)) := by
          rw [hb0]
          exact h0.decode_append _
        refine ⟨n, _, hd0, by omega, ?_⟩
        have hb1 := advance_rest hb0
        set p1 := req.advance (req.bytes.length - (e1 ++ (e2 ++ rest)).length)
        have hd1 : decode p1.bytes = some (.int 2, e2 ++ rest) := by
          rw [hb1]
          exact h1.decode_append _
        rw [readLow_int hd1]
        have hb2 := advance_rest hb1
        set p2 := p1.advance (p1.bytes.length - (e2 ++ rest).length)
        have hd2 : decode p2.bytes = some (.int t, rest) := by
          rw [hb2]
          exact h2.decode_append _
        simp only [readLow_int hd2]
        refine ⟨rfl, ?_, ht⟩
        rw [UInt64.toNat_toUInt32, toNat_ofInt]
        unfold maxTwins at ht
        omega

def Obeyed (type : ItemType) (item : ItemAs) (req : Pointer) (m : TwinsMemory) : Prop :=
  ∃ reply m', handleRequest type item req req.bytes.length m = some (reply, m') ∧
    (∀ t, GenuineDelete req.bytes t → m' = disconnect t m) ∧
    ((∀ t, ¬ GenuineDelete req.bytes t) → m' = m)

theorem disconnect_eq_self (m : TwinsMemory) (t : Fin maxTwins) :
    disconnect t m = m ↔ (m t).status = statusDisconnected := by
  constructor
  · intro h
    rw [← h, disconnect, if_pos rfl]
  · intro h
    funext i
    rw [disconnect]
    split_ifs with hi
    · obtain rfl : i = t := Fin.ext hi
      rw [← h]
    · rfl

theorem handleRequest_obeyed_iff (type : ItemType) (item : ItemAs) (req : Pointer) (m : TwinsMemory) :
    Obeyed type item req m ↔ (∃ t, GenuineDelete req.bytes t) ∨
      ∀ t : Fin maxTwins, TakenForDelete req t → (m t).status = statusDisconnected := by
  obtain ⟨reply, m', hr, htaken, hnot⟩ := handleRequest_memory type item req m
  constructor
  · rintro ⟨reply', m'', hr', -, hn⟩
    obtain ⟨rfl, rfl⟩ : reply = reply' ∧ m' = m'' := by
      rw [hr] at hr'
      simpa using hr'
    by_cases hg : ∃ t, GenuineDelete req.bytes t
    · exact .inl hg
    · refine .inr fun t ht => (disconnect_eq_self m t).mp ?_
      rw [← htaken t ht]
      exact hn (not_exists.mp hg)
  · intro h
    refine ⟨reply, m', hr, fun t ht => htaken t ht.taken, ?_⟩
    intro hg
    rcases h with ⟨t, ht⟩ | h
    · exact absurd ht (hg t)
    · by_cases ht : ∃ t, TakenForDelete req t
      · obtain ⟨t, ht⟩ := ht
        have hlt : t < maxTwins := by
          obtain ⟨-, -, -, -, -, -, hlt⟩ := ht
          exact hlt
        rw [htaken t ht]
        exact (disconnect_eq_self m ⟨t, hlt⟩).mpr (h ⟨t, hlt⟩ ht)
      · exact hnot (not_exists.mp ht)

def connectedStore : TwinsMemory := fun _ => ⟨fun _ => floatZero, statusOk, 0⟩

theorem truncated_request_deletes :
    (∀ t, ¬ GenuineDelete [0x92] t) ∧
    (handleRequest .nil ⟨0, 0, []⟩ ⟨0, [0x92]⟩ 1 connectedStore).map
      (fun r => (r.2 2).status) = some statusDisconnected ∧ (connectedStore 2).status = statusOk := by
  refine ⟨?_, by decide, rfl⟩
  rintro t ⟨n, header, rest, k, hb, -, he, -⟩
  have hlen := he.length_le
  have := congrArg List.length hb
  simp at this hlen
  omega

end OpenTwins
