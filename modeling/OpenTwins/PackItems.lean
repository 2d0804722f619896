import OpenTwins.ItemSizes
import OpenTwins.Messages
import OpenTwins.Pack

namespace OpenTwins

open MessagePack

def int64Bits (i : ℤ) : ℕ := (i % 2 ^ 64).toNat

def cwPackSigned (i : ℤ) (pc : PackContext) : PackContext :=
  if pc.returnCode ≠ .ok then pc
  else if 127 < i then
    if i < 256 then pc.tryMove 1 0xcc (int64Bits i)
    else if i < 0x10000 then pc.tryMove 2 0xcd (int64Bits i)
    else if i < 0x100000000 then pc.tryMove 4 0xce (int64Bits i)
    else pc.tryMove 8 0xcf (int64Bits i)
  else if -32 ≤ i then pc.tryMove0 (int64Bits i)
  else if -128 ≤ i then pc.tryMove 1 0xd0 (int64Bits i)
  else if -32768 ≤ i then pc.tryMove 2 0xd1 (int64Bits i)
  else if -2147483648 ≤ i then pc.tryMove 4 0xd2 (int64Bits i)
  else pc.tryMove 8 0xd3 (int64Bits i)

def cwPackDouble (d : UInt64) (pc : PackContext) : PackContext :=
  if pc.returnCode ≠ .ok then pc
  else pc.tryMove 8 0xcb d.toNat

def cwPackNil (pc : PackContext) : PackContext :=
  if pc.returnCode ≠ .ok then pc
  else pc.tryMove0 0xc0

def cwPackTrue (pc : PackContext) : PackContext :=
  if pc.returnCode ≠ .ok then pc
  else pc.tryMove0 0xc3

def cwPackFalse (pc : PackContext) : PackContext :=
  if pc.returnCode ≠ .ok then pc
  else pc.tryMove0 0xc2

def cwPackBoolean (b : Bool) (pc : PackContext) : PackContext :=
  if pc.returnCode ≠ .ok then pc
  else pc.tryMove0 (if b then 0xc3 else 0xc2)

def cwPackBin (v : List UInt8) (pc : PackContext) : PackContext :=
  if pc.returnCode ≠ .ok then pc
  else if v.length < 256 then pc.reserveSpace (0xc4 :: (toBytes 1 v.length ++ v))
  else if v.length < 65536 then pc.reserveSpace (0xc5 :: (toBytes 2 v.length ++ v))
  else pc.reserveSpace (0xc6 :: (toBytes 4 v.length ++ v))

def typeByte (type : ℤ) : UInt8 := UInt8.ofNat (type % 2 ^ 8).toNat

def cwPackExt (type : ℤ) (v : List UInt8) (pc : PackContext) : PackContext :=
  if pc.returnCode ≠ .ok then pc
  else match v.length with
    | 1 => pc.reserveSpace (0xd4 :: typeByte type :: v)
    | 2 => pc.reserveSpace (0xd5 :: typeByte type :: v)
    | 4 => pc.reserveSpace (0xd6 :: typeByte type :: v)
    | 8 => pc.reserveSpace (0xd7 :: typeByte type :: v)
    | 16 => pc.reserveSpace (0xd8 :: typeByte type :: v)
    | l =>
      if l < 256 then pc.reserveSpace (0xc7 :: (toBytes 1 l ++ typeByte type :: v))
      else if l < 65536 then pc.reserveSpace (0xc8 :: (toBytes 2 l ++ typeByte type :: v))
      else pc.reserveSpace (0xc9 :: (toBytes 4 l ++ typeByte type :: v))

/-- `none`: the packer is left with the code for a wrong value, which no other function reports. -/
def cwPackTime (sec : UInt64) (nsec : UInt32) (pc : PackContext) : Option PackContext :=
  if pc.returnCode ≠ .ok then some pc
  else if 1000000000 ≤ nsec.toNat then none
  else if 2 ^ 34 ≤ sec.toNat then
    some (pc.reserveSpace (0xc7 :: 12 :: 0xff :: (toBytes 4 nsec.toNat ++ toBytes 8 sec.toNat)))
  else
    let data64 := nsec.toNat * 2 ^ 34 + sec.toNat
    if 2 ^ 32 ≤ data64 then some (pc.reserveSpace (0xd7 :: 0xff :: toBytes 8 data64))
    else some (pc.reserveSpace (0xd6 :: 0xff :: toBytes 4 data64))

def packItem : Item → PackContext → PackContext
  | .nil => cwPackNil
  | .bool b => cwPackBoolean b
  | .int z => if z < 0 then cwPackSigned z else cwPackUnsigned (UInt64.ofInt z)
  | .float bits => cwPackFloat bits
  | .double bits => cwPackDouble bits
  | .str bytes => cwPackStr bytes
  | .bin bytes => cwPackBin bytes
  | .ext type bytes => cwPackExt type bytes
  | .timestamp s ns => fun pc => (cwPackTime s ns pc).getD pc
  | .array n => cwPackArraySize n
  | .map n => cwPackMapSize n

def packAll (its : List Item) (pc : PackContext) : PackContext := its.foldl (fun pc it => packItem it pc) pc

structure Puts (f : PackContext → PackContext) (e : List UInt8) : Prop where
  room : ∀ pc : PackContext, pc.returnCode = .ok → pc.written.length + e.length ≤ pc.length →
    (f pc).returnCode = .ok ∧ (f pc).written = pc.written ++ e
  full : ∀ pc : PackContext, pc.returnCode = .ok → pc.length < pc.written.length + e.length →
    (f pc).returnCode = .bufferOverflow ∧ (f pc).written = pc.written
  stuck : ∀ pc : PackContext, pc.returnCode ≠ .ok → f pc = pc
  length : ∀ pc : PackContext, (f pc).length = pc.length

theorem puts_reserveSpace {f : PackContext → PackContext} {e : List UInt8}
    (hf : ∀ pc, f pc = if pc.returnCode ≠ .ok then pc else pc.reserveSpace e) : Puts f e where
  room := by
    intro pc hok hle
    rw [hf, if_neg (not_not.mpr hok), PackContext.reserveSpace, dif_neg (not_lt.mpr hle)]
    exact ⟨hok, rfl⟩
  full := by
    intro pc hok hlt
    rw [hf, if_neg (not_not.mpr hok), PackContext.reserveSpace, dif_pos hlt]
    exact ⟨rfl, rfl⟩
  stuck := by
    intro pc hrc
    rw [hf, if_pos hrc]
  length := by
    intro pc
    rw [hf, PackContext.reserveSpace]
    split_ifs <;> rfl

theorem tryMove0_eq (t : ℕ) (pc : PackContext) : pc.tryMove0 t = pc.reserveSpace [UInt8.ofNat t] := by
  have hfits := pc.fits
  unfold PackContext.tryMove0 PackContext.reserveSpace
  by_cases h : pc.written.length = pc.length
  · rw [dif_pos h, dif_pos (by rw [List.length_singleton]; omega)]
  · rw [dif_neg h, dif_neg (by rw [List.length_singleton]; omega)]

def Packs (f : PackContext → PackContext) (it : Item) : Prop :=
  ∃ e, Puts f e ∧ Encodes it e ∧ e.length = it.size

def WritesItem (g : PackContext → PackContext) (it : Item) : Prop :=
  ∃ e, (∀ pc, g pc = pc.reserveSpace e) ∧ Encodes it e ∧ e.length = it.size

theorem exists_puts {f g : PackContext → PackContext} {P : List UInt8 → Prop}
    (h : ∃ e, (∀ pc, g pc = pc.reserveSpace e) ∧ P e)
    (hf : ∀ pc, f pc = if pc.returnCode ≠ .ok then pc else g pc) : ∃ e, Puts f e ∧ P e := by
  obtain ⟨e, hg, he⟩ := h
  refine ⟨e, puts_reserveSpace ?_, he⟩
  intro pc
  rw [hf, hg]

theorem WritesItem.packs {f g : PackContext → PackContext} {it : Item} (h : WritesItem g it)
    (hf : ∀ pc, f pc = if pc.returnCode ≠ .ok then pc else g pc) : Packs f it := exists_puts h hf

theorem writes_single {it : Item} {c : ℕ} (he : Encodes it [UInt8.ofNat c]) (hs : it.size = 1) :
    WritesItem (·.tryMove0 c) it := ⟨_, tryMove0_eq c, he, hs.symm⟩

theorem writes_number {it : Item} {k c d : ℕ} (he : Encodes it (UInt8.ofNat c :: toBytes k d))
    (hs : it.size = k + 1) : WritesItem (·.tryMove k c d) it := by
  refine ⟨_, fun pc => rfl, he, ?_⟩
  rw [List.length_cons, toBytes_length, hs]

theorem toBytes_mod (k n : ℕ) : toBytes k (n % 256 ^ k) = toBytes k n := by
  induction k generalizing n with
  | zero => rfl
  | succ k ih =>
    have hhead : n % 256 ^ (k + 1) / 256 ^ k = n / 256 ^ k % 256 := by
      rw [Nat.pow_succ, Nat.mod_mul_right_div_self]
    have htail : n % 256 ^ (k + 1) % 256 ^ k = n % 256 ^ k := Nat.mod_mod_of_dvd _ (Nat.pow_dvd_pow _ k.le_succ)
    rw [toBytes, toBytes, hhead, ← ih (n % 256 ^ (k + 1)), htail, ih]
    congr 1
    apply UInt8.toNat_inj.mp
    rw [UInt8.toNat_ofNat', UInt8.toNat_ofNat']
    omega

theorem signed_int64Bits {k : ℕ} (hk : Width k) {i : ℤ} (hl : -(2 ^ (8 * k - 1) : ℤ) ≤ i)
    (hu : i < 2 ^ (8 * k - 1)) : signed k (int64Bits i % 256 ^ k) = i := by
  rcases hk with rfl | rfl | rfl | rfl <;>
  · norm_num at hl hu
    norm_num [signed, int64Bits]
    split_ifs <;> omega

theorem encodes_signed {k c : ℕ} (hk : Width k) (hc : c < 256)
    (hb : body c = andThen (field k) fun n => done (.int (signed k n))) {i : ℤ}
    (hl : -(2 ^ (8 * k - 1) : ℤ) ≤ i) (hu : i < 2 ^ (8 * k - 1)) :
    Encodes (.int i) (UInt8.ofNat c :: toBytes k (int64Bits i)) := by
  have h := encodes_number hc hb (Nat.mod_lt (int64Bits i) (Nat.pow_pos (by decide : 0 < 256)))
  rwa [toBytes_mod, signed_int64Bits hk hl hu] at h

theorem encodes_unsigned {k c : ℕ} (hc : c < 256)
    (hb : body c = andThen (field k) fun n => done (.int n)) {n : ℕ} (hn : n < 256 ^ k) :
    Encodes (.int n) (UInt8.ofNat c :: toBytes k n) := encodes_number hc hb hn

theorem int64Bits_nonneg {i : ℤ} (h0 : 0 ≤ i) (hi : i < 2 ^ 63) : (int64Bits i : ℤ) = i := by
  rw [int64Bits, Int.toNat_of_nonneg (Int.emod_nonneg _ (by decide))]
  omega

theorem encodes_small {i : ℤ} (hl : -32 ≤ i) (hu : i < 128) : Encodes (.int i) [UInt8.ofNat (int64Bits i)] := by
  have hbyte : (UInt8.ofNat (int64Bits i)).toNat = (i % 256).toNat := by
    rw [UInt8.toNat_ofNat', int64Bits]
    omega
  rw [Encodes, decode, hbyte]
  unfold body
  by_cases h : 0 ≤ i
  · rw [if_pos (by omega), done]
    congr 3
    omega
  · rw [if_neg (by omega), if_neg (by omega), if_neg (by omega), if_neg (by omega), if_pos (by omega), done, signed,
      if_neg (by omega)]
    congr 3
    norm_num
    omega

theorem cwPackSigned_packs {i : ℤ} (hl : -2 ^ 63 ≤ i) (hu : i < 2 ^ 63) : Packs (cwPackSigned i) (.int i) := by
  refine WritesItem.packs ?_ fun pc => rfl
  have hunsigned (k c : ℕ) (hc : c < 256) (hb : body c = andThen (field k) fun n => done (.int n)) (h0 : 0 ≤ i)
      (hk : i < (256 ^ k : ℕ)) : Encodes (.int i) (UInt8.ofNat c :: toBytes k (int64Bits i)) := by
    have hi := int64Bits_nonneg h0 hu
    have he := encodes_unsigned hc hb (n := int64Bits i) (by exact_mod_cast hi ▸ hk)
    rwa [hi] at he
  split_ifs with h1 h2 h3 h4 h5 h6 h7 h8
  · apply writes_number (hunsigned 1 0xcc (by omega) rfl (by omega) (by omega))
    simp only [Item.size, intLength]
    split_ifs <;> omega
  · apply writes_number (hunsigned 2 0xcd (by omega) rfl (by omega) (by omega))
    simp only [Item.size, intLength]
    split_ifs <;> omega
  · apply writes_number (hunsigned 4 0xce (by omega) rfl (by omega) (by omega))
    simp only [Item.size, intLength]
    split_ifs <;> omega
  · apply writes_number (hunsigned 8 0xcf (by omega) rfl (by omega) (by omega))
    simp only [Item.size, intLength]
    split_ifs <;> omega
  · apply writes_single (encodes_small h5 (by omega))
    simp only [Item.size, intLength]
    split_ifs <;> omega
  · apply writes_number (encodes_signed (.inl rfl) (by omega) rfl (by norm_num; omega) (by norm_num; omega))
    simp only [Item.size, intLength]
    split_ifs <;> omega
  · apply writes_number (encodes_signed (.inr (.inl rfl)) (by omega) rfl (by norm_num; omega) (by norm_num; omega))
    simp only [Item.size, intLength]
    split_ifs <;> omega
  · apply writes_number (encodes_signed (.inr (.inr (.inl rfl))) (by omega) rfl (by norm_num; omega)
      (by norm_num; omega))
    simp only [Item.size, intLength]
    split_ifs <;> omega
  · apply writes_number (encodes_signed (.inr (.inr (.inr rfl))) (by omega) rfl hl hu)
    simp only [Item.size, intLength]
    split_ifs <;> omega

theorem cwPackUnsigned_packs (i : UInt64) : Packs (cwPackUnsigned i) (.int i.toNat) := by
  have hi := i.toNat_lt
  refine WritesItem.packs ?_ fun pc => rfl
  split_ifs with h1 h2 h3 h4
  · apply writes_single (encodes_single (by omega) (if_pos h1))
    simp only [Item.size, intLength]
    split_ifs <;> omega
  · apply writes_number (encodes_unsigned (by omega) rfl (by omega))
    simp only [Item.size, intLength]
    split_ifs <;> omega
  · apply writes_number (encodes_unsigned (by omega) rfl (by omega))
    simp only [Item.size, intLength]
    split_ifs <;> omega
  · apply writes_number (encodes_unsigned (by omega) rfl (by omega))
    simp only [Item.size, intLength]
    split_ifs <;> omega
  · apply writes_number (encodes_unsigned (by omega) rfl (by omega))
    simp only [Item.size, intLength]
    split_ifs <;> omega

theorem cwPackFloat_packs (f : UInt32) : Packs (cwPackFloat f) (.float f) := by
  have he := @encodes_number 0xca 4 f.toNat (fun n => .float (UInt32.ofNat n)) (by omega) rfl f.toNat_lt
  rw [UInt32.ofNat_toNat] at he
  exact (writes_number he rfl).packs fun pc => rfl

theorem cwPackDouble_packs (d : UInt64) : Packs (cwPackDouble d) (.double d) := by
  have he := @encodes_number 0xcb 8 d.toNat (fun n => .double (UInt64.ofNat n)) (by omega) rfl d.toNat_lt
  rw [UInt64.ofNat_toNat] at he
  exact (writes_number he rfl).packs fun pc => rfl

theorem cwPackNil_packs : Packs cwPackNil .nil :=
  (writes_single (encodes_single (c := 0xc0) (by omega) rfl) rfl).packs fun pc => rfl

theorem cwPackTrue_packs : Packs cwPackTrue (.bool true) :=
  (writes_single (encodes_single (c := 0xc3) (by omega) rfl) rfl).packs fun pc => rfl

theorem cwPackFalse_packs : Packs cwPackFalse (.bool false) :=
  (writes_single (encodes_single (c := 0xc2) (by omega) rfl) rfl).packs fun pc => rfl

theorem cwPackBoolean_packs (b : Bool) : Packs (cwPackBoolean b) (.bool b) := by
  cases b with
  | true => exact cwPackTrue_packs
  | false => exact cwPackFalse_packs

theorem writes_head {item : UInt32 → Item} {n : UInt32} {c0 c2 c4 : ℕ} (hs : (item n).size = headLength n.toNat)
    (h0 : n.toNat < 16 → Encodes (item n) [UInt8.ofNat (c0 ||| n.toNat)]) (hc2 : c2 < 256)
    (h2 : body c2 = andThen (field 2) fun m => done (item (UInt32.ofNat m))) (hc4 : c4 < 256)
    (h4 : body c4 = andThen (field 4) fun m => done (item (UInt32.ofNat m))) :
    WritesItem (fun pc => if n.toNat < 16 then pc.tryMove0 (c0 ||| n.toNat)
      else if n.toNat < 65536 then pc.tryMove 2 c2 n.toNat else pc.tryMove 4 c4 n.toNat) (item n) := by
  have hn := n.toNat_lt
  rw [headLength] at hs
  split_ifs at hs ⊢ with h1 h2'
  · exact writes_single (h0 h1) hs
  · have he := encodes_number hc2 h2 (show n.toNat < 256 ^ 2 by omega)
    rw [UInt32.ofNat_toNat] at he
    exact writes_number he hs
  · have he := encodes_number hc4 h4 (show n.toNat < 256 ^ 4 by omega)
    rw [UInt32.ofNat_toNat] at he
    exact writes_number he hs

theorem cwPackArraySize_packs (n : UInt32) : Packs (cwPackArraySize n) (.array n) := by
  refine (writes_head rfl ?_ (by omega : 0xdc < 256) rfl (by omega : 0xdd < 256) rfl).packs fun pc => rfl
  intro hn
  rw [← Nat.two_pow_add_eq_or_of_lt (i := 4) hn 9]
  apply encodes_single (by omega)
  unfold body
  rw [if_neg (by omega), if_neg (by omega), if_pos (by omega), Nat.add_sub_cancel_left, UInt32.ofNat_toNat]

theorem cwPackMapSize_packs (n : UInt32) : Packs (cwPackMapSize n) (.map n) := by
  refine (writes_head rfl ?_ (by omega : 0xde < 256) rfl (by omega : 0xdf < 256) rfl).packs fun pc => rfl
  intro hn
  rw [← Nat.two_pow_add_eq_or_of_lt (i := 4) hn 8]
  apply encodes_single (by omega)
  unfold body
  rw [if_neg (by omega), if_pos (by omega), Nat.add_sub_cancel_left, UInt32.ofNat_toNat]

theorem writes_sized {k c : ℕ} {item : List UInt8 → Item} {v : List UInt8} (hc : c < 256)
    (hb : body c = sized k item) (hv : v.length < 256 ^ k) (hs : (item v).size = k + v.length + 1) :
    WritesItem (·.reserveSpace (UInt8.ofNat c :: (toBytes k v.length ++ v))) (item v) := by
  refine ⟨_, fun pc => rfl, encodes_sized hc hb hv, ?_⟩
  rw [List.length_cons, List.length_append, toBytes_length, hs]

theorem cwPackStr_packs {v : List UInt8} (hv : v.length < 2 ^ 32) : Packs (cwPackStr v) (.str v) := by
  refine WritesItem.packs ?_ fun pc => rfl
  split_ifs with h1 h2 h3
  · exact ⟨_, fun pc => rfl, encodes_fixstr h1, (if_pos h1).symm⟩
  · apply writes_sized (c := 0xd9) (k := 1) (by omega) rfl (by omega)
    simp only [Item.size, sizedLength]
    split_ifs
    omega
  · apply writes_sized (c := 0xda) (k := 2) (by omega) rfl (by omega)
    simp only [Item.size, sizedLength]
    split_ifs
    omega
  · apply writes_sized (c := 0xdb) (k := 4) (by omega) rfl (by omega)
    simp only [Item.size, sizedLength]
    split_ifs
    omega

theorem cwPackBin_packs {v : List UInt8} (hv : v.length < 2 ^ 32) : Packs (cwPackBin v) (.bin v) := by
  refine WritesItem.packs ?_ fun pc => rfl
  split_ifs with h1 h2
  · apply writes_sized (c := 0xc4) (k := 1) (by omega) rfl (by omega)
    simp only [Item.size, sizedLength]
    split_ifs
    omega
  · apply writes_sized (c := 0xc5) (k := 2) (by omega) rfl (by omega)
    simp only [Item.size, sizedLength]
    split_ifs
    omega
  · apply writes_sized (c := 0xc6) (k := 4) (by omega) rfl (by omega)
    simp only [Item.size, sizedLength]
    split_ifs
    omega

theorem field_append {k n : ℕ} (h : n < 256 ^ k) (t : List UInt8) : field k (toBytes k n ++ t) = some (n, t) := by
  obtain ⟨e, he, hf⟩ := local_field k (field_toBytes h)
  rw [List.append_nil] at he
  rw [he]
  exact hf t

theorem field_byte (b : UInt8) (t : List UInt8) : field 1 (b :: t) = some (b.toNat, t) := by
  simp [field, ofBytes]

theorem blob_all (v : List UInt8) : blob v.length v = some (v, []) := by
  simp [blob]

theorem typeByte_signed {type : ℤ} (hl : -128 ≤ type) (hu : type < 128) : signed 1 (typeByte type).toNat = type := by
  rw [typeByte, UInt8.toNat_ofNat', signed]
  norm_num
  split_ifs <;> omega

theorem typeByte_timestamp {type : ℤ} (hl : -128 ≤ type) (hu : type < 128) :
    (typeByte type).toNat = 0xff ↔ type = -1 := by
  rw [typeByte, UInt8.toNat_ofNat']
  omega

theorem encodes_fixext {c : ℕ} {type : ℤ} {v : List UInt8} (hc : c < 256) (hb : body c = fixext v.length)
    (hl : -128 ≤ type) (hu : type < 128) (ht : type ≠ -1) :
    Encodes (.ext type v) (UInt8.ofNat c :: typeByte type :: v) := by
  have hne : ¬ (typeByte type).toNat = 0xff := fun h => ht ((typeByte_timestamp hl hu).mp h)
  have hone : ofBytes [typeByte type] = (typeByte type).toNat := by simp [ofBytes]
  rw [Encodes, decode, UInt8.toNat_ofNat_of_lt' hc, hb, fixext, andThen,
    show v.length + 1 = (typeByte type :: v).length from rfl, blob_all]
  simp only [Option.bind_some, List.take_succ_cons, List.take_zero, List.drop_succ_cons, List.drop_zero, hone,
    if_neg hne, typeByte_signed hl hu]
  rfl

theorem encodes_ext8 {type : ℤ} {v : List UInt8} (hv : v.length < 256) (hl : -128 ≤ type) (hu : type < 128)
    (ht : type ≠ -1) : Encodes (.ext type v) (0xc7 :: (toBytes 1 v.length ++ typeByte type :: v)) := by
  have hne : ¬ (typeByte type).toNat = 0xff := fun h => ht ((typeByte_timestamp hl hu).mp h)
  rw [Encodes, decode, show body (0xc7 : UInt8).toNat = ext8 from rfl]
  simp only [ext8, andThen, field_append (show v.length < 256 ^ 1 from hv), field_byte, Option.bind_some, if_neg hne,
    blob_all, typeByte_signed hl hu]
  rfl

theorem encodes_typed {k c : ℕ} {type : ℤ} {v : List UInt8} (hc : c < 256) (hb : body c = andThen (field k) typed)
    (hv : v.length < 256 ^ k) (hl : -128 ≤ type) (hu : type < 128) :
    Encodes (.ext type v) (UInt8.ofNat c :: (toBytes k v.length ++ typeByte type :: v)) := by
  rw [Encodes, decode, UInt8.toNat_ofNat_of_lt' hc, hb]
  simp only [andThen, field_append hv, typed, field_byte, Option.bind_some, blob_all, typeByte_signed hl hu]
  rfl

theorem cwPackExt_packs {type : ℤ} {v : List UInt8} (hv : v.length < 2 ^ 32) (hl : -128 ≤ type) (hu : type < 128)
    (ht : type ≠ -1) : Packs (cwPackExt type v) (.ext type v) := by
  refine WritesItem.packs ?_ fun pc => rfl
  have hfix {n c : ℕ} (hn : v.length = n) (hc : c < 256) (hb : body c = fixext n)
      (hs : n = 1 ∨ n = 2 ∨ n = 4 ∨ n = 8 ∨ n = 16) :
      WritesItem (·.reserveSpace (UInt8.ofNat c :: typeByte type :: v)) (.ext type v) := by
    subst hn
    exact ⟨_, fun pc => rfl, encodes_fixext hc hb hl hu ht, (if_pos hs).symm⟩
  split
  case _ hn => exact hfix hn (c := 0xd4) (by omega) rfl (by omega)
  case _ hn => exact hfix hn (c := 0xd5) (by omega) rfl (by omega)
  case _ hn => exact hfix hn (c := 0xd6) (by omega) rfl (by omega)
  case _ hn => exact hfix hn (c := 0xd7) (by omega) rfl (by omega)
  case _ hn => exact hfix hn (c := 0xd8) (by omega) rfl (by omega)
  case _ h1 h2 h4 h8 h16 =>
    have hs : ¬ (v.length = 1 ∨ v.length = 2 ∨ v.length = 4 ∨ v.length = 8 ∨ v.length = 16) := by
      rintro (h | h | h | h | h)
      · exact h1 h
      · exact h2 h
      · exact h4 h
      · exact h8 h
      · exact h16 h
    split_ifs with hs1 hs2
    · refine ⟨_, fun pc => rfl, encodes_ext8 hs1 hl hu ht, ?_⟩
      simp only [Item.size, extLength, if_neg hs, if_pos hs1, List.length_cons, List.length_append, toBytes_length]
      omega
    · refine ⟨_, fun pc => rfl, encodes_typed (c := 0xc8) (by omega) rfl (by omega) hl hu, ?_⟩
      simp only [Item.size, extLength, if_neg hs, if_neg hs1, if_pos hs2, List.length_cons, List.length_append,
        toBytes_length]
      omega
    · refine ⟨_, fun pc => rfl, encodes_typed (c := 0xc9) (by omega) rfl (by omega) hl hu, ?_⟩
      simp only [Item.size, extLength, if_neg hs, if_neg hs1, if_neg hs2, List.length_cons, List.length_append,
        toBytes_length]
      omega

theorem fixext_timestamp {n : ℕ} {w : List UInt8} (hw : w.length = n) : fixext n (0xff :: w) =
    if n = 4 then some (.timestamp (UInt64.ofNat (ofBytes w)) 0, [])
    else if n = 8 then
      some (.timestamp (UInt64.ofNat (ofBytes w % 2 ^ 34)) (UInt32.ofNat (ofBytes w / 2 ^ 34)), [])
    else none := by
  have hone : ofBytes [(0xff : UInt8)] = 0xff := rfl
  rw [fixext, andThen, show n + 1 = ((0xff : UInt8) :: w).length by rw [← hw]; rfl, blob_all]
  simp only [Option.bind_some, List.take_succ_cons, List.take_zero, List.drop_succ_cons, List.drop_zero, hone,
    if_true]
  split_ifs <;> rfl

theorem encodes_time96 (sec : UInt64) (nsec : UInt32) : Encodes (.timestamp sec nsec)
    (0xc7 :: 12 :: 0xff :: (toBytes 4 nsec.toNat ++ toBytes 8 sec.toNat)) := by
  rw [Encodes, decode, show body (0xc7 : UInt8).toNat = ext8 from rfl]
  simp only [ext8, andThen, field_byte, Option.bind_some]
  rw [if_pos (show (0xff : UInt8).toNat = 0xff from rfl), if_pos (show (12 : UInt8).toNat = 12 from rfl)]
  simp only [andThen, field_append (show nsec.toNat < 256 ^ 4 from nsec.toNat_lt), Option.bind_some,
    field_toBytes (show sec.toNat < 256 ^ 8 from sec.toNat_lt), UInt64.ofNat_toNat, UInt32.ofNat_toNat]
  rfl

theorem encodes_time64 {sec : UInt64} {nsec : UInt32} (hs : sec.toNat < 2 ^ 34) (hn : nsec.toNat < 2 ^ 30) :
    Encodes (.timestamp sec nsec) (0xd7 :: 0xff :: toBytes 8 (nsec.toNat * 2 ^ 34 + sec.toNat)) := by
  have hmod : (nsec.toNat * 2 ^ 34 + sec.toNat) % 2 ^ 34 = sec.toNat := by omega
  have hdiv : (nsec.toNat * 2 ^ 34 + sec.toNat) / 2 ^ 34 = nsec.toNat := by omega
  have hall : (nsec.toNat * 2 ^ 34 + sec.toNat) % 256 ^ 8 = nsec.toNat * 2 ^ 34 + sec.toNat := by omega
  rw [Encodes, decode, show body (0xd7 : UInt8).toNat = fixext 8 from rfl, fixext_timestamp (toBytes_length 8 _),
    if_neg (by decide), if_pos rfl, ofBytes_toBytes, hall, hmod, hdiv, UInt64.ofNat_toNat,
    UInt32.ofNat_toNat]

theorem encodes_time32 {sec : UInt64} {nsec : UInt32} (h : nsec.toNat * 2 ^ 34 + sec.toNat < 2 ^ 32) :
    Encodes (.timestamp sec nsec) (0xd6 :: 0xff :: toBytes 4 (nsec.toNat * 2 ^ 34 + sec.toNat)) := by
  have hsec : nsec.toNat * 2 ^ 34 + sec.toNat = sec.toNat := by omega
  have hnsec : nsec = 0 := UInt32.toNat_inj.mp (show nsec.toNat = 0 by omega)
  rw [hsec, Encodes, decode, show body (0xd6 : UInt8).toNat = fixext 4 from rfl,
    fixext_timestamp (toBytes_length 4 _), if_pos rfl, ofBytes_toBytes, Nat.mod_eq_of_lt (by omega),
    UInt64.ofNat_toNat, hnsec]

theorem cwPackTime_packs (sec : UInt64) {nsec : UInt32} (hn : nsec.toNat < 1000000000) :
    Packs (fun pc => (cwPackTime sec nsec pc).getD pc) (.timestamp sec nsec) := by
  have hwrites : WritesItem (fun pc =>
      if 2 ^ 34 ≤ sec.toNat then
        pc.reserveSpace (0xc7 :: 12 :: 0xff :: (toBytes 4 nsec.toNat ++ toBytes 8 sec.toNat))
      else if 2 ^ 32 ≤ nsec.toNat * 2 ^ 34 + sec.toNat then
        pc.reserveSpace (0xd7 :: 0xff :: toBytes 8 (nsec.toNat * 2 ^ 34 + sec.toNat))
      else pc.reserveSpace (0xd6 :: 0xff :: toBytes 4 (nsec.toNat * 2 ^ 34 + sec.toNat)))
      (.timestamp sec nsec) := by
    split_ifs with h96 h64
    · exact ⟨_, fun pc => rfl, encodes_time96 sec nsec, by rw [Item.size, timeLength, if_pos h96]; rfl⟩
    · exact ⟨_, fun pc => rfl, encodes_time64 (not_le.mp h96) (by omega),
        by rw [Item.size, timeLength, if_neg h96, if_pos h64]; rfl⟩
    · exact ⟨_, fun pc => rfl, encodes_time32 (not_le.mp h64),
        by rw [Item.size, timeLength, if_neg h96, if_neg h64]; rfl⟩
  apply hwrites.packs
  intro pc
  unfold cwPackTime
  rw [if_neg (not_le.mpr hn)]
  dsimp only
  split_ifs <;> rfl

/-- What the arguments of the packing functions can hold. A blob is shorter by what its header takes,
or the sum of both does not fit 32 bits; an extension of type -1 is a timestamp. -/
def Packable : Item → Prop
  | .int z => -2 ^ 63 ≤ z ∧ z < 2 ^ 64
  | .str bytes | .bin bytes => bytes.length + 6 < 2 ^ 32
  | .ext type bytes => -128 ≤ type ∧ type < 128 ∧ type ≠ -1 ∧ bytes.length + 6 < 2 ^ 32
  | .timestamp _ ns => ns.toNat < 1000000000
  | _ => True

theorem packItem_packs {it : Item} (h : Packable it) : Packs (packItem it) it := by
  cases it with
  | nil => exact cwPackNil_packs
  | bool b => exact cwPackBoolean_packs b
  | int z =>
    rw [packItem]
    split_ifs with hz
    · exact cwPackSigned_packs h.1 (by omega)
    · have hi := cwPackUnsigned_packs (UInt64.ofInt z)
      have hword : ((UInt64.ofInt z).toNat : ℤ) = z := by
        rw [toNat_ofInt, Int.toNat_of_nonneg (Int.emod_nonneg _ (by decide)), Int.emod_eq_of_lt (not_lt.mp hz) h.2]
      rwa [hword] at hi
  | float bits => exact cwPackFloat_packs bits
  | double bits => exact cwPackDouble_packs bits
  | str bytes => exact cwPackStr_packs (lt_of_le_of_lt (Nat.le_add_right _ _) h)
  | bin bytes => exact cwPackBin_packs (lt_of_le_of_lt (Nat.le_add_right _ _) h)
  | ext type bytes => exact cwPackExt_packs (lt_of_le_of_lt (Nat.le_add_right _ _) h.2.2.2) h.1 h.2.1 h.2.2.1
  | timestamp s ns => exact cwPackTime_packs s h
  | array n => exact cwPackArraySize_packs n
  | map n => exact cwPackMapSize_packs n

theorem packItem_shortest {it : Item} (h : Packable it) :
    ∃ e, Puts (packItem it) e ∧ Encodes it e ∧ ∀ e', Encodes it e' → e.length ≤ e'.length := by
  obtain ⟨e, hp, he, hs⟩ := packItem_packs h
  refine ⟨e, hp, he, ?_⟩
  intro e' he'
  rw [hs]
  exact he'.size_le

theorem packItem_shortest_negative : ∃ e, Puts (packItem (.int (-200))) e ∧ Encodes (.int (-200)) e := by
  obtain ⟨e, hp, he, -⟩ := packItem_shortest (show Packable (.int (-200)) by simp [Packable])
  exact ⟨e, hp, he⟩

theorem packAll_stuck (its : List Item) (h : ∀ it ∈ its, Packable it) {pc : PackContext} (hrc : pc.returnCode ≠ .ok) :
    packAll its pc = pc := by
  induction its with
  | nil => rfl
  | cons it its ih =>
    obtain ⟨e, hp, -, -⟩ := packItem_packs (h it (by simp))
    rw [packAll, List.foldl_cons, hp.stuck pc hrc]
    exact ih fun it hit => h it (by simp [hit])

structure PackedTo (its : List Item) (pc pc' : PackContext) (k : ℕ) (bs : List UInt8) : Prop where
  le : k ≤ its.length
  items : EncodesAll (its.take k) bs
  size : bs.length = ((its.take k).map Item.size).sum
  written : pc'.written = pc.written ++ bs
  length : pc'.length = pc.length
  ok : k = its.length → pc'.returnCode = .ok
  overflow : ∀ hk : k < its.length, pc'.returnCode = .bufferOverflow ∧
    pc.length < pc.written.length + bs.length + its[k].size

theorem packAll_packedTo (its : List Item) (h : ∀ it ∈ its, Packable it) {pc : PackContext}
    (hok : pc.returnCode = .ok) : ∃ k bs, PackedTo its pc (packAll its pc) k bs := by
  induction its generalizing pc with
  | nil =>
    refine ⟨0, [], le_refl 0, .nil, rfl, ?_, rfl, fun _ => hok, ?_⟩
    · rw [List.append_nil]
      rfl
    · intro hk
      cases hk
  | cons it its ih =>
    obtain ⟨e, hp, he, hs⟩ := packItem_packs (h it (by simp))
    have hrest : ∀ it ∈ its, Packable it := fun it hit => h it (by simp [hit])
    by_cases hroom : pc.written.length + e.length ≤ pc.length
    · obtain ⟨hok', hw⟩ := hp.room pc hok hroom
      obtain ⟨k, bs, hk⟩ := ih hrest hok'
      refine ⟨k + 1, e ++ bs, ?_, ?_, ?_, ?_, ?_, ?_, ?_⟩
      · exact Nat.succ_le_succ hk.le
      · exact .cons he hk.items
      · rw [List.length_append, hk.size, hs]
        rfl
      · rw [← List.append_assoc, ← hw]
        exact hk.written
      · exact hk.length.trans (hp.length pc)
      · exact fun he => hk.ok (Nat.succ.inj he)
      · intro hlt
        obtain ⟨hrc, hfull⟩ := hk.overflow (Nat.lt_of_succ_lt_succ hlt)
        rw [hw, hp.length, List.length_append] at hfull
        refine ⟨hrc, ?_⟩
        rw [List.length_append, List.getElem_cons_succ]
        omega
    · obtain ⟨hrc, hw⟩ := hp.full pc hok (not_le.mp hroom)
      have hstuck : packAll (it :: its) pc = packItem it pc :=
        packAll_stuck its hrest (show (packItem it pc).returnCode ≠ .ok by rw [hrc]; decide)
      refine ⟨0, [], Nat.zero_le _, .nil, rfl, ?_, ?_, ?_, ?_⟩
      · rw [hstuck, hw, List.append_nil]
      · rw [hstuck, hp.length]
      · intro h0
        cases h0
      · intro hk
        rw [hstuck]
        refine ⟨hrc, ?_⟩
        rw [List.getElem_cons_zero, ← hs, List.length_nil, Nat.add_zero]
        exact not_le.mp hroom

theorem packAll_unpacks {its : List Item} (h : ∀ it ∈ its, Packable it) (length : ℕ) (type : ItemType) (as : ItemAs)
    (address : UInt64) : ∃ pc, packAll its (cwPackContextInit length) = pc ∧ pc.written.length ≤ length ∧
      ∃ k ≤ its.length, Feeds (cwUnpackContextInit type as ⟨address, pc.written⟩ pc.written.length) (its.take k) ∧
        (k = its.length → pc.returnCode = .ok) ∧
        ∀ hk : k < its.length, pc.returnCode = .bufferOverflow ∧ length < pc.written.length + its[k].size := by
  obtain ⟨k, bs, hk⟩ := packAll_packedTo its h (show (cwPackContextInit length).returnCode = .ok from rfl)
  have hw : (packAll its (cwPackContextInit length)).written = bs := hk.written
  refine ⟨_, rfl, ?_, k, hk.le, ?_, hk.ok, ?_⟩
  · exact (PackContext.fits _).trans hk.length.le
  · have hf := feeds_init type as ⟨address, (packAll its (cwPackContextInit length)).written⟩
    rwa [hw, itemsOf_complete hk.items, ← hw] at hf
  · intro hlt
    obtain ⟨hrc, hfull⟩ := hk.overflow hlt
    rw [hw]
    refine ⟨hrc, ?_⟩
    simpa [cwPackContextInit] using hfull

theorem packAll_unpacks_cut : ∃ pc, packAll [.timestamp 1 0, .timestamp 2 0] (cwPackContextInit 8) = pc ∧
    pc.written.length ≤ 8 := by
  have hits : ∀ it ∈ [Item.timestamp 1 0, .timestamp 2 0], Packable it := by simp [Packable]
  obtain ⟨pc, hpc, hle, -⟩ := packAll_unpacks hits 8 .nil ⟨0, 0, []⟩ 0
  exact ⟨pc, hpc, hle⟩

def readAsTimestamp (v : List UInt8) : Option (Item × List UInt8) :=
  if v.length = 4 then some (.timestamp (UInt64.ofNat (ofBytes v)) 0, [])
  else if v.length = 8 then
    some (.timestamp (UInt64.ofNat (ofBytes v % 2 ^ 34)) (UInt32.ofNat (ofBytes v / 2 ^ 34)), [])
  else if v.length = 12 then
    some (.timestamp (UInt64.ofNat (ofBytes (v.drop 4))) (UInt32.ofNat (ofBytes (v.take 4))), [])
  else if 256 ≤ v.length then some (.ext (-1) v, [])
  else none

theorem ext8_timestamp {v : List UInt8} (hv : v.length < 256) (h4 : v.length ≠ 4) (h8 : v.length ≠ 8) :
    decode (0xc7 :: (toBytes 1 v.length ++ 0xff :: v)) = readAsTimestamp v := by
  rw [decode, show body (0xc7 : UInt8).toNat = ext8 from rfl]
  simp only [ext8, andThen, field_append (show v.length < 256 ^ 1 from hv), field_byte, Option.bind_some]
  rw [if_pos (show (0xff : UInt8).toNat = 0xff from rfl), readAsTimestamp, if_neg h4, if_neg h8]
  by_cases h12 : v.length = 12
  · have hdrop : (v.drop 4).length = 8 := by rw [List.length_drop, h12]
    have hrest : (v.drop 4).drop 8 = [] := List.drop_of_length_le hdrop.le
    have htake : (v.drop 4).take 8 = v.drop 4 := List.take_of_length_le hdrop.le
    rw [if_pos h12, if_pos h12]
    simp only [andThen, field, if_pos (show 4 ≤ v.length by omega), Option.bind_some,
      if_pos (show 8 ≤ (v.drop 4).length by omega), htake, hrest]
    rfl
  · rw [if_neg h12, if_neg h12, if_neg (by omega)]
    rfl

/-- A blob packed as an extension of type -1 comes back as it is only if it is long: up to 255 bytes
the decoder takes it for a timestamp, or for nothing at all. -/
theorem cwPackExt_timestamp (v : List UInt8) (hv : v.length + 6 < 2 ^ 32) :
    ∃ e, Puts (cwPackExt (-1) v) e ∧ decode e = readAsTimestamp v := by
  refine exists_puts ?_ fun pc => rfl
  have hfix {c n : ℕ} (hn : v.length = n) (hc : c < 256) (hb : body c = fixext n)
      (hr : readAsTimestamp v = if n = 4 then some (.timestamp (UInt64.ofNat (ofBytes v)) 0, [])
        else if n = 8 then
          some (.timestamp (UInt64.ofNat (ofBytes v % 2 ^ 34)) (UInt32.ofNat (ofBytes v / 2 ^ 34)), [])
        else none) :
      ∃ e, (∀ pc : PackContext, pc.reserveSpace (UInt8.ofNat c :: typeByte (-1) :: v) = pc.reserveSpace e) ∧
        decode e = readAsTimestamp v := by
    refine ⟨_, fun pc => rfl, ?_⟩
    rw [decode, UInt8.toNat_ofNat_of_lt' hc, hb, hr]
    exact fixext_timestamp hn
  split
  case _ hn => exact hfix hn (c := 0xd4) (by omega) rfl (by simp [readAsTimestamp, hn])
  case _ hn => exact hfix hn (c := 0xd5) (by omega) rfl (by simp [readAsTimestamp, hn])
  case _ hn => exact hfix hn (c := 0xd6) (by omega) rfl (by simp [readAsTimestamp, hn])
  case _ hn => exact hfix hn (c := 0xd7) (by omega) rfl (by simp [readAsTimestamp, hn])
  case _ hn => exact hfix hn (c := 0xd8) (by omega) rfl (by simp [readAsTimestamp, hn])
  case _ h1 h2 h4 h8 h16 =>
    have hlong (h : 256 ≤ v.length) : some (Item.ext (-1) v, []) = readAsTimestamp v := by
      rw [readAsTimestamp, if_neg h4, if_neg h8, if_neg (by omega), if_pos h]
    split_ifs with hs1 hs2
    · exact ⟨_, fun pc => rfl, ext8_timestamp hs1 h4 h8⟩
    · refine ⟨_, fun pc => rfl, ?_⟩
      rw [← hlong (not_lt.mp hs1)]
      exact encodes_typed (c := 0xc8) (by omega) rfl (by omega) (by omega) (by omega)
    · refine ⟨_, fun pc => rfl, ?_⟩
      rw [← hlong (not_lt.mp hs1)]
      exact encodes_typed (c := 0xc9) (by omega) rfl (by omega) (by omega) (by omega)

theorem cwPackExt_timestamp_seconds : ∃ e, Puts (cwPackExt (-1) [0, 0, 1, 0]) e ∧
    decode e = some (.timestamp 256 0, []) :=
  cwPackExt_timestamp [0, 0, 1, 0] (by decide)

end OpenTwins
