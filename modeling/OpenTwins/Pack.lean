import OpenTwins.Unpack

/-!
The encoding half of the vendored `cwpack`, on a buffer without an overflow handler.
-/

namespace OpenTwins

open MessagePack

/-- `written` lies between `start` and `current`; `length` is the distance to `end`. -/
structure PackContext where
  written : List UInt8
  length : ℕ
  returnCode : ReturnCode
  fits : written.length ≤ length

def cwPackContextInit (length : ℕ) : PackContext := ⟨[], length, .ok, Nat.zero_le _⟩

namespace PackContext

def packError (pc : PackContext) (rc : ReturnCode) : PackContext := { pc with returnCode := rc }

def reserveSpace (pc : PackContext) (bytes : List UInt8) : PackContext :=
  if h : pc.length < pc.written.length + bytes.length then pc.packError .bufferOverflow
  else { pc with
    written := pc.written ++ bytes
    fits := by rw [List.length_append]; omega }

def tryMove0 (pc : PackContext) (t : ℕ) : PackContext :=
  if h : pc.written.length = pc.length then pc.packError .bufferOverflow
  else { pc with
    written := pc.written ++ [UInt8.ofNat t]
    fits := by
      have := pc.fits
      rw [List.length_append, List.length_singleton]
      omega }

def tryMove (pc : PackContext) (k t d : ℕ) : PackContext :=
  pc.reserveSpace (UInt8.ofNat t :: toBytes k d)

end PackContext

def cwPackUnsigned (i : UInt64) (pc : PackContext) : PackContext :=
  if pc.returnCode ≠ .ok then pc
  else if i.toNat < 128 then pc.tryMove0 i.toNat
  else if i.toNat < 256 then pc.tryMove 1 0xcc i.toNat
  else if i.toNat < 0x10000 then pc.tryMove 2 0xcd i.toNat
  else if i.toNat < 0x100000000 then pc.tryMove 4 0xce i.toNat
  else pc.tryMove 8 0xcf i.toNat

def cwPackFloat (f : UInt32) (pc : PackContext) : PackContext :=
  if pc.returnCode ≠ .ok then pc
  else pc.tryMove 4 0xca f.toNat

def cwPackArraySize (n : UInt32) (pc : PackContext) : PackContext :=
  if pc.returnCode ≠ .ok then pc
  else if n.toNat < 16 then pc.tryMove0 (0x90 ||| n.toNat)
  else if n.toNat < 65536 then pc.tryMove 2 0xdc n.toNat
  else pc.tryMove 4 0xdd n.toNat

def cwPackMapSize (n : UInt32) (pc : PackContext) : PackContext :=
  if pc.returnCode ≠ .ok then pc
  else if n.toNat < 16 then pc.tryMove0 (0x80 ||| n.toNat)
  else if n.toNat < 65536 then pc.tryMove 2 0xde n.toNat
  else pc.tryMove 4 0xdf n.toNat

/-- The length `l` is that of `v`; `be_compatible` is never set. -/
def cwPackStr (v : List UInt8) (pc : PackContext) : PackContext :=
  if pc.returnCode ≠ .ok then pc
  else if v.length < 32 then pc.reserveSpace (UInt8.ofNat (0xa0 + v.length) :: v)
  else if v.length < 256 then pc.reserveSpace (0xd9 :: (toBytes 1 v.length ++ v))
  else if v.length < 65536 then pc.reserveSpace (0xda :: (toBytes 2 v.length ++ v))
  else pc.reserveSpace (0xdb :: (toBytes 4 v.length ++ v))

structure Appends (f : PackContext → PackContext) (bs : List UInt8) (n : ℕ) : Prop where
  short : bs.length ≤ n
  run : ∀ pc : PackContext, pc.returnCode = .ok → pc.written.length + n ≤ pc.length →
    (f pc).returnCode = .ok ∧ (f pc).written = pc.written ++ bs ∧ (f pc).length = pc.length

def Emits (f : PackContext → PackContext) (its : List Item) (n : ℕ) : Prop :=
  ∃ bs, EncodesAll its bs ∧ Appends f bs n

theorem appends_id : Appends id [] 0 :=
  ⟨le_rfl, fun _ hok _ => ⟨hok, (List.append_nil _).symm, rfl⟩⟩

theorem Appends.mono {f : PackContext → PackContext} {bs : List UInt8} {n m : ℕ} (h : Appends f bs n)
    (hm : n ≤ m) : Appends f bs m :=
  ⟨h.short.trans hm, fun pc hok hl => h.run pc hok (by omega)⟩

theorem Appends.comp {f g : PackContext → PackContext} {bs bs' : List UInt8} {n m : ℕ}
    (hf : Appends f bs n) (hg : Appends g bs' m) : Appends (fun pc => g (f pc)) (bs ++ bs') (n + m) := by
  have hn := hf.short
  have hm := hg.short
  constructor
  · rw [List.length_append]
    omega
  · intro pc hok hl
    obtain ⟨hrc, hw, hlen⟩ := hf.run pc hok (by omega)
    obtain ⟨hrc', hw', hlen'⟩ := hg.run (f pc) hrc (by
      rw [hw, hlen, List.length_append]
      omega)
    refine ⟨hrc', ?_, hlen'.trans hlen⟩
    rw [hw', hw, List.append_assoc]

theorem Appends.init {f : PackContext → PackContext} {bs : List UInt8} {n length : ℕ} (h : Appends f bs n)
    (hn : n ≤ length) : (f (cwPackContextInit length)).returnCode = .ok ∧
      (f (cwPackContextInit length)).written = bs ∧ (f (cwPackContextInit length)).length = length :=
  h.run (cwPackContextInit length) rfl (by rwa [cwPackContextInit, List.length_nil, Nat.zero_add])

theorem emits_id : Emits id [] 0 := ⟨[], .nil, appends_id⟩

theorem Emits.mono {f : PackContext → PackContext} {its : List Item} {n m : ℕ} (h : Emits f its n)
    (hm : n ≤ m) : Emits f its m := by
  obtain ⟨bs, he, ha⟩ := h
  exact ⟨bs, he, ha.mono hm⟩

theorem Emits.comp {f g : PackContext → PackContext} {its its' : List Item} {n m : ℕ}
    (hf : Emits f its n) (hg : Emits g its' m) : Emits (fun pc => g (f pc)) (its ++ its') (n + m) := by
  obtain ⟨bs, he, ha⟩ := hf
  obtain ⟨bs', he', ha'⟩ := hg
  exact ⟨bs ++ bs', he.append he', ha.comp ha'⟩

theorem Emits.of_ok {f g : PackContext → PackContext} {its : List Item} {n : ℕ} (h : Emits g its n)
    (hf : ∀ pc, f pc = if pc.returnCode ≠ .ok then pc else g pc) : Emits f its n := by
  obtain ⟨bs, he, ha⟩ := h
  refine ⟨bs, he, ha.short, ?_⟩
  intro pc hok hl
  rw [hf, if_neg (not_not.mpr hok)]
  exact ha.run pc hok hl

theorem encodesAll_single {it : Item} {e : List UInt8} (h : Encodes it e) : EncodesAll [it] e := by
  simpa using EncodesAll.cons h .nil

theorem reserveSpace_emits {it : Item} {e : List UInt8} {n : ℕ} (h : Encodes it e) (hn : e.length ≤ n) :
    Emits (·.reserveSpace e) [it] n := by
  refine ⟨e, encodesAll_single h, hn, ?_⟩
  intro pc hok hl
  have hfree : ¬ pc.length < pc.written.length + e.length := by omega
  simp only [PackContext.reserveSpace, dif_neg hfree]
  exact ⟨hok, trivial, trivial⟩

theorem tryMove0_emits {c : ℕ} {it : Item} (h : Encodes it [UInt8.ofNat c]) :
    Emits (·.tryMove0 c) [it] 1 := by
  refine ⟨[UInt8.ofNat c], encodesAll_single h, le_rfl, ?_⟩
  intro pc hok hl
  have hfree : ¬ pc.written.length = pc.length := by omega
  simp only [PackContext.tryMove0, dif_neg hfree]
  exact ⟨hok, trivial, trivial⟩

theorem tryMove_emits {c k n : ℕ} {f : ℕ → Item} (hc : c < 256)
    (hb : body c = andThen (field k) fun n => done (f n)) (hn : n < 256 ^ k) :
    Emits (·.tryMove k c n) [f n] (k + 1) :=
  reserveSpace_emits (encodes_number hc hb hn) (by simp)

theorem cwPackUnsigned_emits (i : UInt64) : Emits (cwPackUnsigned i) [.int i.toNat] 9 := by
  have hi := i.toNat_lt
  refine Emits.of_ok ?_ fun pc => rfl
  split_ifs with h1 h2 h3 h4
  · exact (tryMove0_emits (encodes_single (by omega) (if_pos h1))).mono (by omega)
  · exact (tryMove_emits (f := fun n => .int n) (by omega) rfl (by omega)).mono (by omega)
  · exact (tryMove_emits (f := fun n => .int n) (by omega) rfl (by omega)).mono (by omega)
  · exact (tryMove_emits (f := fun n => .int n) (by omega) rfl (by omega)).mono (by omega)
  · exact tryMove_emits (f := fun n => .int n) (by omega) rfl (by omega)

theorem cwPackFloat_emits (f : UInt32) : Emits (cwPackFloat f) [.float f] 5 := by
  have h := tryMove_emits (c := 0xca) (k := 4) (n := f.toNat) (f := fun n => .float (UInt32.ofNat n))
    (by omega) rfl (by have := f.toNat_lt; omega)
  rw [UInt32.ofNat_toNat] at h
  exact h.of_ok fun pc => rfl

theorem cwPackArraySize_emits (n : UInt32) : Emits (cwPackArraySize n) [.array n] 5 := by
  have hn := n.toNat_lt
  refine Emits.of_ok ?_ fun pc => rfl
  split_ifs with h1 h2
  · rw [← Nat.two_pow_add_eq_or_of_lt (i := 4) h1 9]
    refine (tryMove0_emits (encodes_single (by omega) ?_)).mono (by omega)
    unfold body
    rw [if_neg (by omega), if_neg (by omega), if_pos (by omega), Nat.add_sub_cancel_left, UInt32.ofNat_toNat]
  · have h := tryMove_emits (c := 0xdc) (k := 2) (n := n.toNat) (f := fun n => .array (UInt32.ofNat n))
      (by omega) rfl (by omega)
    rw [UInt32.ofNat_toNat] at h
    exact h.mono (by omega)
  · have h := tryMove_emits (c := 0xdd) (k := 4) (n := n.toNat) (f := fun n => .array (UInt32.ofNat n))
      (by omega) rfl (by omega)
    rw [UInt32.ofNat_toNat] at h
    exact h

theorem cwPackMapSize_emits (n : UInt32) : Emits (cwPackMapSize n) [.map n] 5 := by
  have hn := n.toNat_lt
  refine Emits.of_ok ?_ fun pc => rfl
  split_ifs with h1 h2
  · rw [← Nat.two_pow_add_eq_or_of_lt (i := 4) h1 8]
    refine (tryMove0_emits (encodes_single (by omega) ?_)).mono (by omega)
    unfold body
    rw [if_neg (by omega), if_pos (by omega), Nat.add_sub_cancel_left, UInt32.ofNat_toNat]
  · have h := tryMove_emits (c := 0xde) (k := 2) (n := n.toNat) (f := fun n => .map (UInt32.ofNat n))
      (by omega) rfl (by omega)
    rw [UInt32.ofNat_toNat] at h
    exact h.mono (by omega)
  · have h := tryMove_emits (c := 0xdf) (k := 4) (n := n.toNat) (f := fun n => .map (UInt32.ofNat n))
      (by omega) rfl (by omega)
    rw [UInt32.ofNat_toNat] at h
    exact h

theorem cwPackStr_emits {v : List UInt8} (hv : v.length < 2 ^ 32) :
    Emits (cwPackStr v) [.str v] (v.length + 5) := by
  refine Emits.of_ok ?_ fun pc => rfl
  split_ifs with h1 h2 h3
  · exact reserveSpace_emits (encodes_fixstr h1) (by simp)
  · exact reserveSpace_emits (encodes_sized (c := 0xd9) (by omega) rfl (by omega)) (by simp; omega)
  · exact reserveSpace_emits (encodes_sized (c := 0xda) (by omega) rfl (by omega)) (by simp; omega)
  · exact reserveSpace_emits (encodes_sized (c := 0xdb) (by omega) rfl (by omega)) (by simp; omega)

end OpenTwins
