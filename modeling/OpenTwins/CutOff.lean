import OpenTwins.Headers
import OpenTwins.UnpackItems

/-!
A decoder that is told the length of a whole message of which the last `c` bytes were not
stored: it reads past what was stored exactly when a header reaches into those bytes.
-/

namespace OpenTwins

open MessagePack

def cutOff (c : ℕ) (bs : List UInt8) : List UInt8 := bs.take (bs.length - c)

structure Cut (c : ℕ) (u t : UnpackContext) : Prop where
  type : t.type = u.type
  word : t.as.word = u.as.word
  length : t.as.length = u.as.length
  address : t.current.address = u.current.address
  bytes : t.current.bytes = cutOff c u.current.bytes
  avail : t.avail = u.avail
  returnCode : t.returnCode = u.returnCode

def TextCut (c : ℕ) (u t : UnpackContext) : Prop := u.type = .str → t.as.pointee = cutOff c u.as.pointee

/-- With `room` bytes stored from here on, `m'` follows `m` if the `h` bytes that are looked at are
among them, and faults otherwise. -/
def Mirrors (c room h : ℕ) (m m' : Option UnpackContext) : Prop :=
  if h ≤ room then ∃ v v', m = some v ∧ m' = some v' ∧ Cut c v v' ∧ TextCut c v v' else m' = none

variable {c : ℕ} {u t : UnpackContext}

theorem cutOff_drop (k : ℕ) (bs : List UInt8) : (cutOff c bs).drop k = cutOff c (bs.drop k) := by
  rw [cutOff, cutOff, List.drop_take, List.length_drop]
  congr 1
  omega

theorem field_cutOff (k : ℕ) (bs : List UInt8) :
    field k (cutOff c bs) = if k ≤ bs.length - c then some (ofBytes (bs.take k), cutOff c (bs.drop k)) else none := by
  rw [field, ← cutOff_drop]
  have hlen : (cutOff c bs).length = bs.length - c := by simp [cutOff]
  rw [hlen]
  split_ifs with h
  · rw [cutOff, List.take_take, Nat.min_eq_left h]
  · rfl

theorem load_whole {p : Pointer} {k : ℕ} (h : k ≤ p.bytes.length) :
    p.load k = some (ofBytes (p.bytes.take k)) := by
  rw [Pointer.load, field, if_pos h, Option.map_some]

theorem load_cutOff {p p' : Pointer} (h : p'.bytes = cutOff c p.bytes) (k : ℕ) :
    p'.load k = if k ≤ p.bytes.length - c then some (ofBytes (p.bytes.take k)) else none := by
  rw [Pointer.load, h, field_cutOff]
  split_ifs <;> rfl

theorem Cut.advance (h : Cut c u t) (k : ℕ) : Cut c
    { u with current := u.current.advance k, avail := u.avail - k }
    { t with current := t.current.advance k, avail := t.avail - k } where
  type := h.type
  word := h.word
  length := h.length
  address := by simp only [Pointer.advance, h.address]
  bytes := by rw [advance_bytes, advance_bytes, h.bytes, cutOff_drop]
  avail := by simp only [h.avail]
  returnCode := h.returnCode

theorem Cut.setType (h : Cut c u t) (typ : ItemType) : Cut c { u with type := typ } { t with type := typ } :=
  { h with type := rfl }

theorem Cut.error (h : Cut c u t) (rc : ReturnCode) : Cut c (u.unpackError rc) (t.unpackError rc) :=
  { h with type := rfl, returnCode := rfl }

def Uniform (set : ItemAs → ItemAs) : Prop := ∀ a b : ItemAs, a.word = b.word → a.length = b.length →
  (set a).word = (set b).word ∧ (set a).length = (set b).length

theorem Cut.set (h : Cut c u t) {set : ItemAs → ItemAs} (hs : Uniform set) :
    Cut c { u with as := set u.as } { t with as := set t.as } :=
  { h with word := (hs _ _ h.word h.length).1, length := (hs _ _ h.word h.length).2 }

theorem uniform_setWord (w : UInt64) : Uniform (.setWord w) := fun _ _ _ hl => ⟨rfl, hl⟩

theorem uniform_setLength (n : UInt32) : Uniform (.setLength n) := fun _ _ hw _ => ⟨hw, rfl⟩

theorem uniform_setLow32 (x : UInt32) : Uniform (.setLow32 x) := by
  rintro ⟨w, l, p⟩ ⟨w', l', p'⟩ rfl hl
  exact ⟨rfl, hl⟩

theorem uniform_setBoolean (b : Bool) : Uniform (.setBoolean b) := by
  rintro ⟨w, l, p⟩ ⟨w', l', p'⟩ rfl hl
  exact ⟨rfl, hl⟩

theorem uniform_setStamp (w : UInt64) (n : UInt32) : Uniform fun a => (a.setWord w).setLength n :=
  fun _ _ _ _ => ⟨rfl, rfl⟩

theorem mirrors_some {room : ℕ} {v v' : UnpackContext} (h : Cut c v v') (ht : v.type ≠ .str) :
    Mirrors c room 0 (some v) (some v') :=
  (if_pos (Nat.zero_le _)).mpr ⟨v, v', rfl, rfl, h, fun hs => absurd hs ht⟩

theorem mirrors_error {room : ℕ} (h : Cut c u t) (rc : ReturnCode) :
    Mirrors c room 0 (some (u.unpackError rc)) (some (t.unpackError rc)) :=
  mirrors_some (h.error rc) (by simp [UnpackContext.unpackError])

def Whole (u : UnpackContext) : Prop := u.avail = u.current.bytes.length

theorem Whole.advance {k : ℕ} (h : Whole u) :
    Whole { u with current := u.current.advance k, avail := u.avail - k } := by
  rw [Whole, advance_bytes, List.length_drop, h]

theorem mirrors_space (rc : ReturnCode) {k h : ℕ} {f : Pointer → UnpackContext → Option UnpackContext}
    (hc : Cut c u t) (hw : Whole u)
    (hnext : k ≤ u.current.bytes.length → Mirrors c (u.current.bytes.length - c) h
      (f u.current { u with current := u.current.advance k, avail := u.avail - k })
      (f t.current { t with current := t.current.advance k, avail := t.avail - k })) :
    Mirrors c (u.current.bytes.length - c) (if u.current.bytes.length < k then 0 else h)
      (u.assertSpace rc k f) (t.assertSpace rc k f) := by
  rw [UnpackContext.assertSpace, UnpackContext.assertSpace, hc.avail, hw]
  split_ifs with hk
  · exact mirrors_error hc _
  · rw [hw, hc.avail, hw] at hnext
    exact hnext (not_lt.mp hk)

theorem mirrors_blob (hc : Cut c u t) (hw : Whole u) :
    Mirrors c (u.current.bytes.length - c) 0 u.assertBlob t.assertBlob := by
  rw [UnpackContext.assertBlob, UnpackContext.assertBlob, hc.length]
  have h := mirrors_space .bufferUnderflow (k := u.as.length.toNat) (h := 0) (f := fun p u =>
    some { u with as := { u.as with word := p.address, pointee := p.bytes } }) hc hw fun _ =>
    (if_pos (Nat.zero_le _)).mpr ⟨_, _, rfl, rfl,
      { hc.advance u.as.length.toNat with word := hc.address, length := hc.length }, fun _ => hc.bytes⟩
  rwa [ite_self] at h

theorem mirrors_peek {k : ℕ} {e : ℕ → Extent} {next next' : ℕ → Option UnpackContext} {p p' : Pointer}
    (hb : p'.bytes = cutOff c p.bytes) (hk : k ≤ p.bytes.length)
    (hnext : ∀ n < 256 ^ k, Mirrors c ((p.bytes.drop k).length - c) (e n (p.bytes.drop k)) (next n) (next' n)) :
    Mirrors c (p.bytes.length - c) (look k e p.bytes) ((p.load k).bind next) ((p'.load k).bind next') := by
  have hlt := ofBytes_lt (p.bytes.take k)
  rw [List.length_take, Nat.min_eq_left hk] at hlt
  have hn := hnext _ hlt
  rw [List.length_drop] at hn
  rw [load_whole hk, load_cutOff hb, look_some e hk, Option.bind_some]
  unfold Mirrors at hn ⊢
  by_cases hr : k ≤ p.bytes.length - c
  · rw [if_pos hr, Option.bind_some]
    split_ifs at hn ⊢ with h1 h2 h2
    · exact hn
    · omega
    · omega
    · exact hn
  · rw [if_neg hr, if_neg (by omega), Option.bind_none]

theorem mirrors_load {k : ℕ} {e : ℕ → Extent} {next : ℕ → UnpackContext → Option UnpackContext}
    (hc : Cut c u t) (hw : Whole u)
    (hnext : ∀ n < 256 ^ k, ∀ u' t', Cut c u' t' → Whole u' → u'.as = u.as → u'.type = u.type →
      Mirrors c (u'.current.bytes.length - c) (e n u'.current.bytes) (next n u') (next n t')) :
    Mirrors c (u.current.bytes.length - c) (look k e u.current.bytes) (u.loadSpace k next)
      (t.loadSpace k next) := by
  have h := mirrors_space .bufferUnderflow (k := k) (h := look k e u.current.bytes)
    (f := fun p u => (p.load k).bind fun v => next v u) hc hw fun hk =>
    mirrors_peek hc.bytes hk fun n hn => hnext n hn _ _ (hc.advance k) hw.advance rfl rfl
  rw [UnpackContext.loadSpace, UnpackContext.loadSpace]
  split_ifs at h with hk
  · rwa [look_none hk]
  · exact h

theorem mirrors_getDDItemN {typ : ItemType} {k : ℕ} {set : ℕ → ItemAs → ItemAs} {e : ℕ → Extent}
    {next : UnpackContext → Option UnpackContext} (hc : Cut c u t) (hw : Whole u)
    (hset : ∀ n, Uniform (set n))
    (hnext : ∀ n < 256 ^ k, ∀ u' t', Cut c u' t' → Whole u' → u'.as = set n u.as → u'.type = typ →
      Mirrors c (u'.current.bytes.length - c) (e n u'.current.bytes) (next u') (next t')) :
    Mirrors c (u.current.bytes.length - c) (look k e u.current.bytes) (u.getDDItemN typ k set next)
      (t.getDDItemN typ k set next) :=
  mirrors_load (hc.setType typ) hw fun n hn u' t' hc' hw' ha ht =>
    hnext n hn { u' with as := set n u'.as } { t' with as := set n t'.as } (hc'.set (hset n)) hw'
      (congrArg (set n) ha) ht

theorem mirrors_scalar {typ : ItemType} {k : ℕ} {set : ℕ → ItemAs → ItemAs} (hc : Cut c u t) (hw : Whole u)
    (hset : ∀ n, Uniform (set n)) (htyp : typ ≠ .str) :
    Mirrors c (u.current.bytes.length - c) (look k (fun _ => stop) u.current.bytes)
      (u.getDDItemN typ k set some) (t.getDDItemN typ k set some) :=
  mirrors_getDDItemN hc hw hset fun _ _ _ _ hc' _ _ ht => mirrors_some hc' (ht ▸ htyp)

theorem mirrors_signed {k : ℕ} {word : ℕ → UInt64} (hc : Cut c u t) (hw : Whole u) :
    Mirrors c (u.current.bytes.length - c) (look k (fun _ => stop) u.current.bytes)
      (u.getDDItemN .negativeInteger k (fun v => .setWord (word v)) UnpackContext.fixSign)
      (t.getDDItemN .negativeInteger k (fun v => .setWord (word v)) UnpackContext.fixSign) := by
  apply mirrors_getDDItemN hc hw (fun n => uniform_setWord (word n))
  intro _ _ u' _ hc' _ _ ht
  rw [UnpackContext.fixSign, UnpackContext.fixSign, hc'.word]
  split_ifs
  · exact mirrors_some (hc'.setType _) (by simp)
  · exact mirrors_some hc' (by simp [ht])

theorem mirrors_sized {typ : ItemType} {k : ℕ} (hc : Cut c u t) (hw : Whole u) :
    Mirrors c (u.current.bytes.length - c) (look k (fun _ => stop) u.current.bytes)
      (u.getDDItemN typ k (fun v => .setLength (UInt32.ofNat v)) UnpackContext.assertBlob)
      (t.getDDItemN typ k (fun v => .setLength (UInt32.ofNat v)) UnpackContext.assertBlob) :=
  mirrors_getDDItemN hc hw (fun _ => uniform_setLength _) fun _ _ _ _ hc' hw' _ _ => mirrors_blob hc' hw'

theorem mirrors_ext {k : ℕ} (hc : Cut c u t) (hw : Whole u) :
    Mirrors c (u.current.bytes.length - c) (look k (fun _ => look 1 fun _ => stop) u.current.bytes)
      (u.getExt k) (t.getExt k) :=
  mirrors_getDDItemN hc hw (fun _ => uniform_setLength _) fun _ _ _ _ hc' hw' _ _ =>
    mirrors_load hc' hw' fun _ _ _ _ hc'' hw'' _ _ => mirrors_blob (hc''.setType _) hw''

theorem mirrors_ext8 (hc : Cut c u t) (hw : Whole u) :
    Mirrors c (u.current.bytes.length - c) (ext8Extent u.current.bytes) u.getExt8 t.getExt8 := by
  apply mirrors_getDDItemN hc hw (fun _ => uniform_setLength _)
  intro n hn u1 t1 hc1 hw1 ha1 _
  apply mirrors_load hc1 hw1
  intro x hx u2 t2 hc2 hw2 ha2 _
  have hlen : u2.as.length = UInt32.ofNat n := by rw [ha2, ha1]; rfl
  have h12 : UInt32.ofNat n = 12 ↔ n = 12 := by
    rw [← UInt32.toNat_inj, toNat_ofNat_of_lt (k := 1) (by omega) hn]
    rfl
  simp only [ItemType.ext.injEq, signed_one hx, hc2.length, hlen, h12]
  by_cases h1 : x = 0xff
  · by_cases h2 : n = 12
    · rw [if_pos h1, if_pos h1, if_pos h2, if_pos h2, if_pos ⟨h1, h2⟩]
      apply mirrors_load (hc2.setType (.ext (signed 1 x))) hw2
      intro y _ u3 t3 hc3 hw3 _ ht3
      apply mirrors_load (hc3.set (uniform_setLength (UInt32.ofNat y))) hw3
      intro z _ u4 t4 hc4 hw4 _ ht4
      refine mirrors_some (hc4.set (uniform_setWord (UInt64.ofNat z))) ?_
      rw [show u4.type = u3.type from ht4, ht3]
      simp
    · rw [if_pos h1, if_pos h1, if_neg h2, if_neg h2, if_neg fun h => h2 h.2]
      exact mirrors_error (hc2.setType _) _
  · rw [if_neg h1, if_neg h1, if_neg fun h => h1 h.1]
    exact mirrors_blob (hc2.setType _) hw2

theorem mirrors_fixext {len : ℕ} (hc : Cut c u t) (hw : Whole u) :
    Mirrors c (u.current.bytes.length - c) (fixextExtent len u.current.bytes) (u.getDDItemFix len)
      (t.getDDItemFix len) := by
  apply mirrors_space .bufferUnderflow hc hw
  intro hk
  apply mirrors_peek hc.bytes (by omega)
  intro x hx
  have hbytes : (t.current.advance 1).bytes = cutOff c (u.current.advance 1).bytes := by
    rw [advance_bytes, advance_bytes, hc.bytes, cutOff_drop]
  have haddr : (t.current.advance 1).address = (u.current.advance 1).address := by
    simp only [Pointer.advance, hc.address]
  have hlen : (u.current.advance 1).bytes.length = u.current.bytes.length - 1 := by
    rw [advance_bytes, List.length_drop]
  have hc' := (hc.advance (len + 1)).setType (.ext (signed 1 x))
  simp only [ItemType.ext.injEq, signed_one hx]
  by_cases h1 : x = 0xff
  · rw [if_pos h1, if_pos h1]
    by_cases h4 : len = 4
    · subst h4
      rw [if_pos rfl, if_pos rfl, if_pos ⟨h1, .inl rfl⟩]
      apply mirrors_peek hbytes (by omega)
      intro y _
      exact mirrors_some (hc'.set (uniform_setStamp _ _)) (by simp)
    by_cases h8 : len = 8
    · subst h8
      rw [if_neg h4, if_neg h4, if_pos rfl, if_pos rfl, if_pos ⟨h1, .inr rfl⟩]
      apply mirrors_peek hbytes (by omega)
      intro y _
      exact mirrors_some (hc'.set (uniform_setStamp _ _)) (by simp)
    · rw [if_neg h4, if_neg h4, if_neg h8, if_neg h8, if_neg (by tauto)]
      exact mirrors_error hc' _
  · rw [if_neg h1, if_neg h1, if_neg fun h => h1 h.1]
    refine (if_pos (Nat.zero_le _)).mpr ⟨_, _, rfl, rfl, { hc' with word := haddr, length := rfl }, fun _ => hbytes⟩

theorem mirrors_item (b : ℕ) (hc : Cut c u t) (hw : Whole u) :
    Mirrors c (u.current.bytes.length - c) (bodyExtent b u.current.bytes) (u.unpackItem b) (t.unpackItem b) := by
  unfold bodyExtent UnpackContext.unpackItem
  by_cases h1 : b < 0x80
  · rw [if_pos (by omega), if_pos h1, if_pos h1]
    exact mirrors_some ((hc.setType _).set (uniform_setWord _)) (by simp [UnpackContext.getDDItem])
  by_cases h2 : b < 0x90
  · rw [if_pos (by omega), if_neg h1, if_neg h1, if_pos h2, if_pos h2]
    exact mirrors_some ((hc.setType _).set (uniform_setLow32 _)) (by simp [UnpackContext.getDDItem])
  by_cases h3 : b < 0xa0
  · rw [if_pos (by omega), if_neg h1, if_neg h1, if_neg h2, if_neg h2, if_pos h3, if_pos h3]
    exact mirrors_some ((hc.setType _).set (uniform_setLow32 _)) (by simp [UnpackContext.getDDItem])
  by_cases h4 : b < 0xc0
  · rw [if_pos (by omega), if_neg h1, if_neg h1, if_neg h2, if_neg h2, if_neg h3, if_neg h3, if_pos h4, if_pos h4]
    exact mirrors_blob ((hc.setType .str).set (uniform_setLength (UInt32.ofNat (b &&& 0x1f)))) hw
  by_cases h5 : 0xe0 ≤ b
  · rw [if_pos (by omega), if_neg h1, if_neg h1, if_neg h2, if_neg h2, if_neg h3, if_neg h3, if_neg h4, if_neg h4,
      if_pos h5, if_pos h5]
    exact mirrors_some ((hc.setType _).set (uniform_setWord _)) (by simp [UnpackContext.getDDItem])
  rw [if_neg (by omega), if_neg h1, if_neg h1, if_neg h2, if_neg h2, if_neg h3, if_neg h3, if_neg h4, if_neg h4,
    if_neg h5, if_neg h5]
  split
  · exact mirrors_some (hc.setType _) (by simp)
  · exact mirrors_some ((hc.setType _).set (uniform_setBoolean _)) (by simp [UnpackContext.getDDItem])
  · exact mirrors_some ((hc.setType _).set (uniform_setBoolean _)) (by simp [UnpackContext.getDDItem])
  · exact mirrors_sized hc hw
  · exact mirrors_scalar hc hw (fun _ => uniform_setWord _) (by simp)
  · exact mirrors_signed hc hw
  · exact mirrors_sized hc hw
  · exact mirrors_sized hc hw
  · exact mirrors_scalar hc hw (fun _ => uniform_setWord _) (by simp)
  · exact mirrors_signed hc hw
  · exact mirrors_sized hc hw
  · exact mirrors_scalar hc hw (fun _ => uniform_setLow32 _) (by simp)
  · exact mirrors_scalar hc hw (fun _ => uniform_setLow32 _) (by simp)
  · exact mirrors_sized hc hw
  · exact mirrors_scalar hc hw (fun _ => uniform_setLow32 _) (by simp)
  · exact mirrors_scalar hc hw (fun _ => uniform_setWord _) (by simp)
  · exact mirrors_signed hc hw
  · exact mirrors_sized hc hw
  · exact mirrors_scalar hc hw (fun _ => uniform_setLow32 _) (by simp)
  · exact mirrors_scalar hc hw (fun _ => uniform_setLow32 _) (by simp)
  · exact mirrors_scalar hc hw (fun _ => uniform_setWord _) (by simp)
  · exact mirrors_scalar hc hw (fun _ => uniform_setWord _) (by simp)
  · exact mirrors_signed hc hw
  · exact mirrors_ext8 hc hw
  · exact mirrors_ext hc hw
  · exact mirrors_ext hc hw
  · exact mirrors_fixext hc hw
  · exact mirrors_fixext hc hw
  · exact mirrors_fixext hc hw
  · exact mirrors_fixext hc hw
  · exact mirrors_fixext hc hw
  · obtain rfl : b = 0xc1 := by grind
    exact mirrors_error hc _

theorem cwUnpackNext_mirrors (hok : u.returnCode = .ok) (hc : Cut c u t) (hw : Whole u) :
    Mirrors c (u.current.bytes.length - c) (headerSize u.current.bytes) (cwUnpackNext u) (cwUnpackNext t) := by
  have h := mirrors_space .endOfInput (k := 1) (h := headerSize u.current.bytes)
    (f := fun p u => (p.load 1).bind u.unpackItem) hc hw fun hk =>
    mirrors_peek hc.bytes hk fun b _ => mirrors_item b (hc.advance 1) hw.advance
  rw [cwUnpackNext, cwUnpackNext, if_neg (not_not.mpr hok), if_neg (not_not.mpr (hc.returnCode.trans hok))]
  split_ifs at h with hk
  · rwa [headerSize, look_none hk]
  · exact h

end OpenTwins
