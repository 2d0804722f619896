import OpenTwins.UnpackItems

namespace OpenTwins

open MessagePack

def lowAfter (a w : UInt32) : Item → UInt32
  | .nil => w
  | .bool b => UInt32.ofNat (w.toNat / 2 ^ 8 * 2 ^ 8 + if b then 1 else 0)
  | .int z => (UInt64.ofInt z).toUInt32
  | .float b => b
  | .double b => b.toUInt32
  | .str _ | .bin _ | .ext .. => a
  | .timestamp s _ => s.toUInt32
  | .array n => n
  | .map n => n

/-- Reading one item where `w` was left by what came before: the low half of the union, and
the rest of the input. Where no item can be read `w` is left once more. -/
def readLow (w : UInt32) (p : Pointer) : UInt32 × Pointer :=
  match decode p.bytes with
  | none => (w, ⟨p.address, []⟩)
  | some (it, r) =>
    let p' := p.advance (p.bytes.length - r.length)
    (lowAfter (p'.address - UInt64.ofNat (blobLength it)).toUInt32 w it, p')

structure Stands (u : UnpackContext) (w : UInt32) (p : Pointer) : Prop where
  word : u.as.word.toUInt32 = w
  going : u.returnCode = .ok → u.current = p ∧ u.avail = p.bytes.length
  failed : u.returnCode ≠ .ok → p.bytes = []

theorem low_wordAfter (a w : UInt64) (it : Item) :
    (wordAfter a w it).toUInt32 = lowAfter a.toUInt32 w.toUInt32 it := by
  cases it with
  | bool b =>
    apply UInt32.toNat_inj.mp
    simp only [wordAfter, lowAfter, withLow8, UInt64.toNat_toUInt32, UInt64.toNat_ofNat', UInt32.toNat_ofNat']
    cases b <;> simp <;> omega
  | float b => exact withLow32_low w b
  | array n => exact withLow32_low w n
  | map n => exact withLow32_low w n
  | _ => rfl

theorem Stands.next {u : UnpackContext} {w : UInt32} {p : Pointer} (h : Stands u w p) :
    ∃ v, cwUnpackNext u = some v ∧ Stands v (readLow w p).1 (readLow w p).2 := by
  by_cases hok : u.returnCode = .ok
  · obtain ⟨rfl, ha⟩ := h.going hok
    unfold readLow
    cases hd : decode u.current.bytes with
    | none =>
      obtain ⟨v, hv, hf⟩ := cwUnpackNext_failed hok ha hd
      exact ⟨v, hv, by rw [hf.word]; exact h.word, fun hc => absurd hc hf.code, fun _ => rfl⟩
    | some q =>
      obtain ⟨it, r⟩ := q
      obtain ⟨v, hv, ht⟩ := cwUnpackNext_took hok ha.ge hd
      obtain ⟨n, hn, hc, hav⟩ := ht.consumed
      have hlen : n = u.current.bytes.length - r.length := by
        rw [← ht.bytes, hc, advance_bytes, List.length_drop]
        omega
      subst hlen
      refine ⟨v, hv, ?_, fun _ => ⟨hc, ?_⟩, fun hc => absurd ht.ok hc⟩
      · rw [ht.word, low_wordAfter, h.word, hc]
      · rw [hav, advance_bytes, List.length_drop, ha]
  · refine ⟨u, cwUnpackNext_stuck hok, ?_⟩
    have hd : decode p.bytes = none := by rw [h.failed hok]; rfl
    rw [readLow, hd]
    exact ⟨h.word, fun hc => absurd hc hok, fun _ => rfl⟩

theorem stands_init (type : ItemType) (as : ItemAs) (p : Pointer) :
    Stands (cwUnpackContextInit type as p p.bytes.length) as.word.toUInt32 p :=
  ⟨rfl, fun _ => ⟨rfl, rfl⟩, fun h => absurd rfl h⟩

theorem Stands.text {u v : UnpackContext} {w : UInt32} {p : Pointer} (h : Stands u w p)
    (hv : cwUnpackNext u = some v) {bs r : List UInt8} (hd : decode p.bytes = some (.str bs, r)) :
    v.type = .str ∧ v.as.length.toNat = bs.length ∧ v.as.pointee = bs ++ r := by
  have hok : u.returnCode = .ok := by
    by_contra hn
    rw [h.failed hn] at hd
    cases hd
  obtain ⟨rfl, ha⟩ := h.going hok
  obtain ⟨v', hv', ht⟩ := cwUnpackNext_took hok ha.ge hd
  obtain rfl : v = v' := Option.some.inj (hv.symm.trans hv')
  exact ⟨ht.type, ht.text bs rfl⟩

theorem Stands.no_text {u v : UnpackContext} {w : UInt32} {p : Pointer} (h : Stands u w p) (hs : Sound u)
    (hv : cwUnpackNext u = some v) (hd : ∀ bs r, decode p.bytes ≠ some (.str bs, r)) : v.type ≠ .str := by
  by_cases hok : u.returnCode = .ok
  · obtain ⟨rfl, ha⟩ := h.going hok
    cases hn : decode u.current.bytes with
    | none =>
      obtain ⟨v', hv', hf⟩ := cwUnpackNext_failed hok ha hn
      obtain rfl : v = v' := Option.some.inj (hv.symm.trans hv')
      simp [hf.type]
    | some q =>
      obtain ⟨v', hv', ht⟩ := cwUnpackNext_took hok ha.ge hn
      obtain rfl : v = v' := Option.some.inj (hv.symm.trans hv')
      intro htype
      obtain ⟨bs, hbs⟩ := itemType_str (ht.type.symm.trans htype)
      exact hd bs q.2 (hn.trans (by rw [← hbs]))
  · obtain rfl : u = v := Option.some.inj ((cwUnpackNext_stuck hok).symm.trans hv)
    simp [hs.failed hok]

theorem Stands.code {u v : UnpackContext} {w : UInt32} {p : Pointer} (h : Stands u w p)
    (hok : u.returnCode = .ok) (hv : cwUnpackNext u = some v) : v.returnCode ≠ .ok ↔ decode p.bytes = none := by
  obtain ⟨rfl, ha⟩ := h.going hok
  cases hn : decode u.current.bytes with
  | none =>
    obtain ⟨v', hv', hf⟩ := cwUnpackNext_failed hok ha hn
    obtain rfl : v = v' := Option.some.inj (hv.symm.trans hv')
    exact iff_of_true hf.code rfl
  | some q =>
    obtain ⟨v', hv', ht⟩ := cwUnpackNext_took hok ha.ge hn
    obtain rfl : v = v' := Option.some.inj (hv.symm.trans hv')
    exact iff_of_false (not_not.mpr ht.ok) (by simp)

end OpenTwins
