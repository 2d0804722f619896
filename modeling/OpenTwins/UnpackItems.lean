import OpenTwins.Unpack

namespace OpenTwins

open MessagePack

def wordAfter (a w : UInt64) : Item → UInt64
  | .nil => w
  | .bool b => withLow8 w (if b then 1 else 0)
  | .int z => UInt64.ofInt z
  | .float b => withLow32 w b
  | .double b => b
  | .str _ | .bin _ | .ext .. => a
  | .timestamp s _ => s
  | .array n => withLow32 w n
  | .map n => withLow32 w n

def blobLength : Item → ℕ
  | .str bs | .bin bs | .ext _ bs => bs.length
  | _ => 0

/-- `v` is `u` after the item `it`, with `rest` still to come; `w` is the word before it. -/
structure Took (it : Item) (rest : List UInt8) (w : UInt64) (u v : UnpackContext) : Prop where
  ok : v.returnCode = .ok
  type : v.type = itemType it
  word : v.as.word = wordAfter (v.current.address - UInt64.ofNat (blobLength it)) w it
  text : ∀ bs, it = .str bs → v.as.length.toNat = bs.length ∧ v.as.pointee = bs ++ rest
  consumed : ∃ n ≤ u.current.bytes.length, v.current = u.current.advance n ∧ v.avail = u.avail - n
  bytes : v.current.bytes = rest

structure Failed (w : UInt64) (v : UnpackContext) : Prop where
  code : v.returnCode ≠ .ok
  type : v.type = .notAnItem
  word : v.as.word = w

/-- `m` takes off what the reader `f` reads from where `u` stands. A failure to read is only
reported as such where the caller's length is that of the received bytes. -/
def Follows (f : Reader Item) (w : UInt64) (u : UnpackContext) (m : Option UnpackContext) : Prop :=
  u.current.bytes.length ≤ u.avail →
    (∀ it rest, f u.current.bytes = some (it, rest) → ∃ v, m = some v ∧ Took it rest w u v) ∧
    (f u.current.bytes = none → u.avail = u.current.bytes.length → ∃ v, m = some v ∧ Failed w v)

theorem withLow32_low (w : UInt64) (x : UInt32) : (withLow32 w x).toUInt32 = x := by
  apply UInt32.toNat_inj.mp
  rw [UInt64.toNat_toUInt32, withLow32, UInt64.toNat_ofNat']
  have := x.toNat_lt
  omega

@[simp] theorem advance_bytes (p : Pointer) (n : ℕ) : (p.advance n).bytes = p.bytes.drop n := rfl

theorem advance_zero (p : Pointer) : p.advance 0 = p := by
  simp [Pointer.advance]

theorem advance_advance (p : Pointer) (m n : ℕ) : (p.advance m).advance n = p.advance (m + n) := by
  simp [Pointer.advance, UInt64.ofNat_add, UInt64.add_assoc]

theorem load_field {p : Pointer} {k n : ℕ} {r : List UInt8} (h : field k p.bytes = some (n, r)) :
    p.load k = some n := by
  simp [Pointer.load, h]

theorem load_first {p : Pointer} {b : UInt8} {bs : List UInt8} (h : p.bytes = b :: bs) : p.load 1 = some b.toNat :=
  load_field (r := bs) (by rw [h]; simp [field, ofBytes])

theorem exists_load {p : Pointer} (h : p.bytes ≠ []) : ∃ n, p.load 1 = some n := by
  obtain ⟨b, bs, hb⟩ := List.exists_cons_of_ne_nil h
  exact ⟨_, load_first hb⟩

theorem field_eq {k n : ℕ} {bs r : List UInt8} (h : field k bs = some (n, r)) :
    k ≤ bs.length ∧ n < 256 ^ k ∧ r = bs.drop k := by
  unfold field at h
  split_ifs at h with hk
  cases h
  refine ⟨hk, ?_, rfl⟩
  simpa [hk] using ofBytes_lt (bs.take k)

theorem Took.of_advance {it : Item} {rest : List UInt8} {w : UInt64} {u u' v : UnpackContext} (k : ℕ)
    (hk : k ≤ u.current.bytes.length) (hc : u'.current = u.current.advance k)
    (ha : u'.avail = u.avail - k) (h : Took it rest w u' v) : Took it rest w u v := by
  obtain ⟨n, hn, hv, hav⟩ := h.consumed
  rw [hc, advance_bytes, List.length_drop] at hn
  refine ⟨h.ok, h.type, h.word, h.text, ⟨k + n, by omega, ?_, by omega⟩, h.bytes⟩
  rw [hv, hc, advance_advance]

theorem follows_field {k : ℕ} {g : ℕ → Reader Item} {w : UInt64} {u : UnpackContext}
    {next : ℕ → UnpackContext → Option UnpackContext} {u₀ : UnpackContext}
    (hc : u.current = u₀.current) (ha : u.avail = u₀.avail) (hw : u.as.word = w)
    (hnext : ∀ n < 256 ^ k, ∀ u' : UnpackContext, u'.current = u.current.advance k →
      u'.avail = u.avail - k → u'.as = u.as → u'.type = u.type → u'.returnCode = u.returnCode →
      Follows (g n) w u' (next n u')) :
    Follows (andThen (field k) g) w u₀ (u.loadSpace k next) := by
  intro hl
  rw [← hc, ← ha] at hl
  unfold UnpackContext.loadSpace UnpackContext.assertSpace
  cases hf : field k u.current.bytes with
  | none =>
    have hk : u.current.bytes.length < k := by
      by_contra hk
      simp [field, not_lt.mp hk] at hf
    constructor
    · intro it rest h
      rw [andThen, ← hc, hf] at h
      cases h
    · intro _ he
      rw [← hc, ← ha] at he
      exact ⟨u.unpackError .bufferUnderflow, if_pos (by omega), by simp [UnpackContext.unpackError], rfl, hw⟩
  | some p =>
    obtain ⟨n, r⟩ := p
    obtain ⟨hk, hn, rfl⟩ := field_eq hf
    rw [if_neg (by omega)]
    simp only [load_field hf, Option.bind_some]
    obtain ⟨h1, h2⟩ := hnext n hn
      { u with current := u.current.advance k, avail := u.avail - k } rfl rfl rfl rfl rfl
      (by simp only [advance_bytes, List.length_drop]; omega)
    simp only [andThen, ← hc, hf, Option.bind_some]
    constructor
    · intro it rest h
      obtain ⟨v, hv, ht⟩ := h1 it rest h
      refine ⟨v, hv, Took.of_advance k ?_ ?_ ?_ ht⟩
      · rwa [← hc]
      · rw [← hc]
      · rw [← ha]
    · intro h he
      exact h2 h (by simp only [advance_bytes, List.length_drop]; omega)

theorem Follows.congr {f : Reader Item} {w : UInt64} {u u' : UnpackContext} {m : Option UnpackContext}
    (hc : u.current = u'.current) (ha : u.avail = u'.avail) (h : Follows f w u m) : Follows f w u' m := by
  unfold Follows at h ⊢
  rw [hc, ha] at h
  refine fun hl => ⟨fun it rest hf => ?_, (h hl).2⟩
  obtain ⟨v, hv, ht⟩ := (h hl).1 it rest hf
  refine ⟨v, hv, ht.of_advance 0 (Nat.zero_le _) ?_ ?_⟩
  · rw [advance_zero, hc]
  · rw [ha, Nat.sub_zero]

theorem follows_done {it : Item} {w : UInt64} {u v : UnpackContext} (hok : v.returnCode = .ok)
    (htype : v.type = itemType it) (hstr : ∀ bs, it ≠ .str bs)
    (hword : v.as.word = wordAfter (v.current.address - UInt64.ofNat (blobLength it)) w it)
    (hc : v.current = u.current) (ha : v.avail = u.avail) : Follows (done it) w u (some v) := by
  intro _
  refine ⟨?_, fun h => (by cases h)⟩
  intro it' rest h
  cases h
  refine ⟨v, rfl, hok, htype, hword, fun bs h => absurd h (hstr bs), ⟨0, Nat.zero_le _, ?_, ?_⟩, ?_⟩
  · rw [advance_zero, hc]
  · rw [ha, Nat.sub_zero]
  · rw [hc]

theorem follows_space {k : ℕ} {g : List UInt8 → Reader Item} {w : UInt64} {u : UnpackContext}
    {next : Pointer → UnpackContext → Option UnpackContext} (hw : u.as.word = w)
    (hnext : ∀ x, u.current.bytes.take k = x → x.length = k → ∀ u' : UnpackContext,
      u'.current = u.current.advance k → u'.as = u.as → u'.returnCode = u.returnCode →
      Follows (g x) w u' (next u.current u')) :
    Follows (andThen (blob k) g) w u (u.assertSpace .bufferUnderflow k next) := by
  intro hl
  unfold UnpackContext.assertSpace andThen blob
  by_cases hk : k ≤ u.current.bytes.length
  · rw [if_pos hk, if_neg (by omega)]
    obtain ⟨h1, h2⟩ := hnext _ rfl (by simpa using hk)
      { u with current := u.current.advance k, avail := u.avail - k } rfl rfl rfl
      (by simp only [advance_bytes, List.length_drop]; omega)
    constructor
    · intro it rest h
      obtain ⟨v, hv, ht⟩ := h1 it rest h
      exact ⟨v, hv, ht.of_advance k hk rfl rfl⟩
    · intro h he
      exact h2 h (by simp only [advance_bytes, List.length_drop]; omega)
  · rw [if_neg hk]
    refine ⟨fun it rest h => (by cases h), ?_⟩
    intro _ he
    exact ⟨u.unpackError .bufferUnderflow, if_pos (by omega), by simp [UnpackContext.unpackError], rfl, hw⟩

theorem follows_blob {n : ℕ} (item : List UInt8 → Item) {w : UInt64} {u : UnpackContext}
    (hok : u.returnCode = .ok) (hn : u.as.length.toNat = n) (hw : u.as.word = w)
    (htype : ∀ bs, u.type = itemType (item bs)) (hblob : ∀ bs, blobLength (item bs) = bs.length)
    (hword : ∀ bs a, wordAfter a w (item bs) = a) (hstr : ∀ bs bs', item bs = .str bs' → bs = bs') :
    Follows (andThen (blob n) fun x => done (item x)) w u u.assertBlob := by
  intro hl
  unfold UnpackContext.assertBlob UnpackContext.assertSpace andThen blob
  rw [hn]
  by_cases hk : n ≤ u.current.bytes.length
  · rw [if_pos hk, if_neg (by omega)]
    refine ⟨?_, fun h => (by cases h)⟩
    intro it rest h
    simp only [Option.bind_some, done, Option.some.injEq, Prod.mk.injEq] at h
    obtain ⟨rfl, rfl⟩ := h
    refine ⟨_, rfl, hok, htype _, ?_, ?_, ⟨n, hk, rfl, rfl⟩, rfl⟩
    · rw [hword, hblob, List.length_take, Nat.min_eq_left hk]
      simp [Pointer.advance]
    · intro bs h
      have hbs := hstr _ _ h
      subst hbs
      exact ⟨by simp [hn, hk], (List.take_append_drop n _).symm⟩
  · rw [if_neg hk]
    refine ⟨fun it rest h => (by cases h), ?_⟩
    intro _ he
    exact ⟨u.unpackError .bufferUnderflow, if_pos (by omega), by simp [UnpackContext.unpackError], rfl, hw⟩

theorem follows_fail {w : UInt64} {u v : UnpackContext} (h : Failed w v) :
    Follows fail w u (some v) :=
  fun _ => ⟨fun _ _ h => (by cases h), fun _ _ => ⟨v, rfl, h⟩⟩

theorem toNat_ofInt (z : ℤ) : (UInt64.ofInt z).toNat = (z % 2 ^ 64).toNat := by
  rw [UInt64.ofInt, UInt64.toNat_ofNat']
  omega

theorem ofInt_natCast (n : ℕ) : UInt64.ofInt n = UInt64.ofNat n := by
  apply UInt64.toNat_inj.mp
  rw [toNat_ofInt, UInt64.toNat_ofNat']
  omega

theorem ofInt_signed_eight (n : ℕ) : UInt64.ofInt (signed 8 n) = UInt64.ofNat n := by
  apply UInt64.toNat_inj.mp
  rw [toNat_ofInt, UInt64.toNat_ofNat', signed]
  split_ifs <;> omega

theorem follows_getDDItemN {typ : ItemType} {k : ℕ} {set : ℕ → ItemAs → ItemAs}
    {next : UnpackContext → Option UnpackContext} {g : ℕ → Reader Item} {u : UnpackContext}
    (hok : u.returnCode = .ok)
    (hnext : ∀ n < 256 ^ k, ∀ u' : UnpackContext, u'.as = u.as → u'.type = typ →
      u'.returnCode = .ok → Follows (g n) u.as.word u' (next { u' with as := set n u'.as })) :
    Follows (andThen (field k) g) u.as.word u (u.getDDItemN typ k set next) :=
  follows_field (u := { u with type := typ }) rfl rfl rfl fun n hn u' _ _ ha ht hr =>
    hnext n hn u' ha ht (hr.trans hok)

theorem follows_scalar {typ : ItemType} {k : ℕ} {set : ℕ → ItemAs → ItemAs} {item : ℕ → Item}
    {u : UnpackContext} (hok : u.returnCode = .ok) (htype : ∀ n < 256 ^ k, typ = itemType (item n))
    (hstr : ∀ n bs, item n ≠ .str bs)
    (hword : ∀ n < 256 ^ k, ∀ a, (set n u.as).word = wordAfter a u.as.word (item n)) :
    Follows (andThen (field k) fun n => done (item n)) u.as.word u (u.getDDItemN typ k set some) :=
  follows_getDDItemN hok fun n hn u' ha ht hr =>
    follows_done hr (ht.trans (htype n hn)) (hstr n) (by rw [ha]; exact hword n hn _) rfl rfl

theorem follows_signed {k : ℕ} (hk : 1 ≤ k ∧ k ≤ 8) {word : ℕ → UInt64} {u : UnpackContext}
    (hok : u.returnCode = .ok) (hw : ∀ n, word n = UInt64.ofInt (signed k n)) :
    Follows (andThen (field k) fun n => done (.int (signed k n))) u.as.word u
      (u.getDDItemN .negativeInteger k (fun v => .setWord (word v)) UnpackContext.fixSign) := by
  apply follows_getDDItemN hok
  intro n hn u' ha ht hr
  have hsign : ((word n).toNat < 2 ^ 63) ↔ 0 ≤ signed k n := by
    have h8 : 256 ^ k = 2 ^ (8 * k) := by rw [Nat.pow_mul]
    have hsplit : 2 ^ (8 * k) = 2 * 2 ^ (8 * k - 1) := by
      rw [← Nat.pow_succ']; congr 1; omega
    have hle : 2 ^ (8 * k - 1) ≤ 2 ^ 63 := Nat.pow_le_pow_right (by norm_num) (by omega)
    rw [hw, toNat_ofInt, signed]
    rw [h8] at hn
    have hz : (2 : ℤ) ^ (8 * k) = ((2 ^ (8 * k) : ℕ) : ℤ) := by push_cast; rfl
    rw [hz]
    generalize 2 ^ (8 * k) = b at *
    generalize 2 ^ (8 * k - 1) = c at *
    split_ifs <;> omega
  unfold UnpackContext.fixSign
  refine follows_done ?_ ?_ (by simp) ?_ ?_ ?_
  · split_ifs <;> exact hr
  · simp only [ItemAs.setWord, hsign, itemType]
    split_ifs
    · rfl
    · exact ht
  · split_ifs <;> exact hw n
  · split_ifs <;> rfl
  · split_ifs <;> rfl

theorem toNat_ofNat_of_lt {k n : ℕ} (hk : k ≤ 4) (hn : n < 256 ^ k) : (UInt32.ofNat n).toNat = n := by
  rw [UInt32.toNat_ofNat']
  have hle : 256 ^ k ≤ 256 ^ 4 := Nat.pow_le_pow_right (by norm_num) hk
  exact Nat.mod_eq_of_lt (by omega)

theorem follows_sized {typ : ItemType} {k : ℕ} (hk : k ≤ 4) {item : List UInt8 → Item}
    {u : UnpackContext} (hok : u.returnCode = .ok) (htype : ∀ bs, typ = itemType (item bs))
    (hblob : ∀ bs, blobLength (item bs) = bs.length)
    (hword : ∀ bs w a, wordAfter a w (item bs) = a) (hstr : ∀ bs bs', item bs = .str bs' → bs = bs') :
    Follows (sized k item) u.as.word u
      (u.getDDItemN typ k (fun v => .setLength (UInt32.ofNat v)) UnpackContext.assertBlob) := by
  apply follows_getDDItemN hok
  intro n hn u' ha ht hr
  have hw : (u'.as.setLength (UInt32.ofNat n)).word = u.as.word := by simp [ItemAs.setLength, ha]
  exact Follows.congr (u := { u' with as := u'.as.setLength (UInt32.ofNat n) }) rfl rfl
    (follows_blob item hr (toNat_ofNat_of_lt hk hn) hw (fun bs => ht.trans (htype bs)) hblob
      (fun bs a => hword bs _ a) hstr)

theorem follows_ext {k : ℕ} (hk : k ≤ 4) {u : UnpackContext} (hok : u.returnCode = .ok) :
    Follows (andThen (field k) typed) u.as.word u (u.getExt k) := by
  apply follows_getDDItemN hok
  intro n hn u' ha ht hr
  refine follows_field rfl rfl (by simp [ItemAs.setLength, ha]) fun t _ u'' _ _ ha' _ hr' => ?_
  refine Follows.congr (u := { u'' with type := .ext (signed 1 t) }) rfl rfl
    (follows_blob (.ext (signed 1 t)) (hr'.trans hr) ?_ ?_ (fun _ => rfl) (fun _ => rfl)
      (fun _ _ => rfl) (by simp))
  · simp only [ha', ItemAs.setLength]
    exact toNat_ofNat_of_lt hk hn
  · simp only [ha', ItemAs.setLength, ha]

theorem signed_one {t : ℕ} (ht : t < 256 ^ 1) : signed 1 t = -1 ↔ t = 0xff := by
  have h7 : 2 ^ (8 * 1 - 1) = 128 := rfl
  have h8 : (2 : ℤ) ^ (8 * 1) = 256 := rfl
  rw [signed, h7, h8]
  by_cases h : t < 128
  · rw [if_pos h]; omega
  · rw [if_neg h]; omega

theorem follows_ext8 {u : UnpackContext} (hok : u.returnCode = .ok) :
    Follows ext8 u.as.word u u.getExt8 := by
  apply follows_getDDItemN hok
  intro n hn u' ha ht hr
  refine follows_field rfl rfl (by simp [ItemAs.setLength, ha]) fun t htn u'' _ _ ha' _ hr' => ?_
  have hw : u''.as.word = u.as.word := by simp [ha', ItemAs.setLength, ha]
  have hlen : u''.as.length = UInt32.ofNat n := by simp [ha', ItemAs.setLength]
  have hl12 : UInt32.ofNat n = 12 ↔ n = 12 := by
    rw [← UInt32.toNat_inj, toNat_ofNat_of_lt (k := 1) (by omega) hn]
    rfl
  simp only [ItemType.ext.injEq, signed_one htn, hlen, hl12]
  split_ifs with h1 h2
  · refine follows_field rfl rfl hw fun ns _ v hv1 hv2 hv3 hv4 hv5 => ?_
    refine follows_field rfl rfl (by simp [hv3, hw, ItemAs.setLength]) fun s _ v' _ _ _ ht' hr'' => ?_
    refine follows_done ((hr''.trans hv5).trans (hr'.trans hr)) ?_ (by simp) rfl rfl rfl
    rw [show v'.type = v.type from ht', hv4]
    simp [itemType, signed, h1]
  · exact follows_fail ⟨by simp [UnpackContext.unpackError], rfl, hw⟩
  · have hlen' : u''.as.length.toNat = n := by rw [hlen]; exact toNat_ofNat_of_lt (k := 1) (by omega) hn
    exact Follows.congr (u := { u'' with type := .ext (signed 1 t) }) rfl rfl
      (follows_blob (.ext (signed 1 t)) (hr'.trans hr) hlen' hw (fun _ => rfl) (fun _ => rfl)
        (fun _ _ => rfl) (by simp))

theorem follows_fixext {n : ℕ} {u : UnpackContext} (hok : u.returnCode = .ok) (hn : n < 2 ^ 32) :
    Follows (fixext n) u.as.word u (u.getDDItemFix n) := by
  apply follows_space rfl
  intro x hx hlen u' hc ha hr
  have hle : n + 1 ≤ u.current.bytes.length := by
    rw [← hx, List.length_take] at hlen
    omega
  have hx1 : x.take 1 = u.current.bytes.take 1 := by
    rw [← hx, List.take_take, Nat.min_eq_left (by omega)]
  have hxd : x.drop 1 = (u.current.advance 1).bytes.take n := by
    rw [← hx, List.drop_take, advance_bytes, Nat.add_sub_cancel]
  have hload1 : u.current.load 1 = some (ofBytes (x.take 1)) := by
    rw [hx1]
    exact load_field (r := u.current.bytes.drop 1) (by rw [field, if_pos (by omega)])
  have hload : (u.current.advance 1).load n = some (ofBytes (x.drop 1)) := by
    rw [hxd]
    apply load_field (r := (u.current.advance 1).bytes.drop n)
    rw [field, if_pos (by simp only [advance_bytes, List.length_drop]; omega)]
  have ht : ofBytes (x.take 1) < 256 ^ 1 := by
    have := ofBytes_lt (x.take 1)
    rwa [List.length_take, hlen, Nat.min_eq_left (by omega)] at this
  have hok' := hr.trans hok
  simp only [hload1, Option.bind_eq_bind, Option.bind_some, ItemType.ext.injEq, signed_one ht]
  split_ifs with h1 h4 h8
  · subst h4
    rw [hload]
    exact follows_done hok' (by simp [itemType, signed, h1]) (by simp) rfl rfl rfl
  · subst h8
    rw [hload]
    exact follows_done hok' (by simp [itemType, signed, h1]) (by simp) rfl rfl rfl
  · exact follows_fail ⟨by simp [UnpackContext.unpackError], rfl, by rw [← ha]; rfl⟩
  · refine follows_done hok' rfl (by simp) ?_ rfl rfl
    simp only [wordAfter, blobLength, List.length_drop, hlen, hc]
    rw [show n + 1 = 1 + n from Nat.add_comm .., ← advance_advance, Nat.add_sub_cancel_left]
    simp [Pointer.advance]

theorem follows_fixstr {n : ℕ} {u : UnpackContext} (hok : u.returnCode = .ok) (hn : n < 2 ^ 32) :
    Follows (andThen (blob n) fun x => done (.str x)) u.as.word u
      (u.getDDItem .str (.setLength (UInt32.ofNat n))).assertBlob :=
  Follows.congr (u := u.getDDItem .str (.setLength (UInt32.ofNat n))) rfl rfl
    (follows_blob .str hok (UInt32.toNat_ofNat_of_lt' hn) rfl (fun _ => rfl) (fun _ => rfl)
      (fun _ _ => rfl) (by simp))

theorem low_nibble (c : ℕ) : c &&& 0x0f = c % 16 := Nat.and_two_pow_sub_one_eq_mod c 4

theorem low_five (c : ℕ) : c &&& 0x1f = c % 32 := Nat.and_two_pow_sub_one_eq_mod c 5

theorem ofNat_nat (n : ℕ) : itemType (.int n) = .positiveInteger := by
  simp [itemType]

theorem follows_item {c : ℕ} {u : UnpackContext} (hok : u.returnCode = .ok) (hc : c < 256) :
    Follows (body c) u.as.word u (u.unpackItem c) := by
  unfold body UnpackContext.unpackItem
  split_ifs with h1 h2 h3 h4 h5
  · exact follows_done hok (ofNat_nat c).symm (by simp) (ofInt_natCast c).symm rfl rfl
  · rw [low_nibble, show c % 16 = c - 0x80 by omega]
    exact follows_done hok rfl (by simp) rfl rfl rfl
  · rw [low_nibble, show c % 16 = c - 0x90 by omega]
    exact follows_done hok rfl (by simp) rfl rfl rfl
  · rw [low_five, show c % 32 = c - 0xa0 by omega]
    exact follows_fixstr hok (by omega)
  · refine follows_done hok ?_ (by simp) rfl rfl rfl
    have hneg : ¬ 0 ≤ signed 1 c := by
      have h7 : 2 ^ (8 * 1 - 1) = 128 := rfl
      have h8 : (2 : ℤ) ^ (8 * 1) = 256 := rfl
      rw [signed, h7, h8, if_neg (by omega)]
      omega
    simp [itemType, hneg, UnpackContext.getDDItem]
  · split
    · exact follows_done hok rfl (by simp) rfl rfl rfl
    · exact follows_done hok rfl (by simp) rfl rfl rfl
    · exact follows_done hok rfl (by simp) rfl rfl rfl
    · exact follows_sized (by omega) hok (fun _ => rfl) (fun _ => rfl) (fun _ _ _ => rfl) (by simp)
    · exact follows_sized (by omega) hok (fun _ => rfl) (fun _ => rfl) (fun _ _ _ => rfl) (by simp)
    · exact follows_sized (by omega) hok (fun _ => rfl) (fun _ => rfl) (fun _ _ _ => rfl) (by simp)
    · exact follows_ext8 hok
    · exact follows_ext (by omega) hok
    · exact follows_ext (by omega) hok
    · exact follows_scalar hok (fun _ _ => rfl) (by simp) (fun _ _ _ => rfl)
    · exact follows_scalar hok (fun _ _ => rfl) (by simp) (fun _ _ _ => rfl)
    · exact follows_scalar hok (fun n _ => (ofNat_nat n).symm) (by simp) (fun n _ _ => (ofInt_natCast n).symm)
    · exact follows_scalar hok (fun n _ => (ofNat_nat n).symm) (by simp) (fun n _ _ => (ofInt_natCast n).symm)
    · exact follows_scalar hok (fun n _ => (ofNat_nat n).symm) (by simp) (fun n _ _ => (ofInt_natCast n).symm)
    · exact follows_scalar hok (fun n _ => (ofNat_nat n).symm) (by simp) (fun n _ _ => (ofInt_natCast n).symm)
    · exact follows_signed (by omega) hok fun _ => rfl
    · exact follows_signed (by omega) hok fun _ => rfl
    · exact follows_signed (by omega) hok fun _ => rfl
    · exact follows_signed (by omega) hok fun n => (ofInt_signed_eight n).symm
    · exact follows_fixext hok (by omega)
    · exact follows_fixext hok (by omega)
    · exact follows_fixext hok (by omega)
    · exact follows_fixext hok (by omega)
    · exact follows_fixext hok (by omega)
    · exact follows_sized (by omega) hok (fun _ => rfl) (fun _ => rfl) (fun _ _ _ => rfl) (by simp)
    · exact follows_sized (by omega) hok (fun _ => rfl) (fun _ => rfl) (fun _ _ _ => rfl) (by simp)
    · exact follows_sized (by omega) hok (fun _ => rfl) (fun _ => rfl) (fun _ _ _ => rfl) (by simp)
    · exact follows_scalar hok (fun _ _ => rfl) (by simp) (fun _ _ _ => rfl)
    · exact follows_scalar hok (fun _ _ => rfl) (by simp) (fun _ _ _ => rfl)
    · exact follows_scalar hok (fun _ _ => rfl) (by simp) (fun _ _ _ => rfl)
    · exact follows_scalar hok (fun _ _ => rfl) (by simp) (fun _ _ _ => rfl)
    · try split
      all_goals first
        | contradiction
        | exact follows_fail ⟨by simp [UnpackContext.unpackError], rfl, rfl⟩

theorem cwUnpackNext_follows {u : UnpackContext} (hok : u.returnCode = .ok) :
    Follows decode u.as.word u (cwUnpackNext u) := by
  intro hl
  rw [cwUnpackNext, if_neg (not_not.mpr hok), UnpackContext.assertSpace]
  cases hb : u.current.bytes with
  | nil =>
    refine ⟨fun it rest h => (by cases h), ?_⟩
    intro _ he
    exact ⟨u.unpackError .endOfInput, if_pos (by rw [he]; simp), by simp [UnpackContext.unpackError], rfl, rfl⟩
  | cons b bs =>
    have hload := load_first hb
    have hlen : bs.length + 1 ≤ u.avail := by rw [hb] at hl; exact hl
    obtain ⟨h1, h2⟩ := follows_item (u := { u with current := u.current.advance 1, avail := u.avail - 1 })
      hok b.toNat_lt (by simp only [advance_bytes, hb, List.drop_one, List.tail_cons]; omega)
    rw [if_neg (by omega), hload, Option.bind_some]
    simp only [advance_bytes, hb, List.drop_one, List.tail_cons] at h1 h2
    refine ⟨?_, fun h he => h2 h (by rw [he, List.length_cons]; omega)⟩
    intro it rest h
    obtain ⟨v, hv, ht⟩ := h1 it rest h
    exact ⟨v, hv, ht.of_advance 1 (by rw [hb]; simp) rfl rfl⟩

theorem cwUnpackNext_took {u : UnpackContext} {it : Item} {rest : List UInt8}
    (hok : u.returnCode = .ok) (hl : u.current.bytes.length ≤ u.avail)
    (h : decode u.current.bytes = some (it, rest)) :
    ∃ v, cwUnpackNext u = some v ∧ Took it rest u.as.word u v :=
  (cwUnpackNext_follows hok hl).1 it rest h

theorem cwUnpackNext_failed {u : UnpackContext} (hok : u.returnCode = .ok)
    (hl : u.avail = u.current.bytes.length) (h : decode u.current.bytes = none) :
    ∃ v, cwUnpackNext u = some v ∧ Failed u.as.word v :=
  (cwUnpackNext_follows hok hl.ge).2 h hl

theorem cwUnpackNext_stuck {u : UnpackContext} (h : u.returnCode ≠ .ok) : cwUnpackNext u = some u := by
  rw [cwUnpackNext, if_pos h]

structure Sound (u : UnpackContext) : Prop where
  avail : u.returnCode = .ok → u.avail = u.current.bytes.length
  failed : u.returnCode ≠ .ok → u.type = .notAnItem

theorem sound_init (type : ItemType) (as : ItemAs) (p : Pointer) :
    Sound (cwUnpackContextInit type as p p.bytes.length) :=
  ⟨fun _ => rfl, fun h => absurd rfl h⟩

theorem itemType_str {it : Item} (h : itemType it = .str) : ∃ bs, it = .str bs := by
  cases it with
  | str bs => exact ⟨bs, rfl⟩
  | int z => simp only [itemType] at h; split_ifs at h
  | _ => cases h

theorem itemType_array {it : Item} (h : itemType it = .array) : ∃ n, it = .array n := by
  cases it with
  | array n => exact ⟨n, rfl⟩
  | int z => simp only [itemType] at h; split_ifs at h
  | _ => cases h

theorem cwUnpackNext_sound {u : UnpackContext} (h : Sound u) :
    ∃ v, cwUnpackNext u = some v ∧ Sound v ∧
      (v.type = .str → v.as.length.toNat ≤ v.as.pointee.length) := by
  by_cases hok : u.returnCode = .ok
  · have hl := h.avail hok
    cases hd : decode u.current.bytes with
    | none =>
      obtain ⟨v, hv, hf⟩ := cwUnpackNext_failed hok hl hd
      refine ⟨v, hv, ⟨fun h => absurd h hf.code, fun _ => hf.type⟩, ?_⟩
      intro h
      rw [hf.type] at h
      cases h
    | some p =>
      obtain ⟨v, hv, ht⟩ := cwUnpackNext_took hok hl.ge hd
      obtain ⟨n, hn, hc, ha⟩ := ht.consumed
      refine ⟨v, hv, ⟨?_, fun h => absurd ht.ok h⟩, ?_⟩
      · intro _
        rw [hc, ha, advance_bytes, List.length_drop, hl]
      · intro hs
        obtain ⟨bs, hbs⟩ := itemType_str (ht.type.symm.trans hs)
        obtain ⟨hlen, hp⟩ := ht.text bs hbs
        rw [hlen, hp, List.length_append]
        omega
  · refine ⟨u, cwUnpackNext_stuck hok, h, ?_⟩
    intro hs
    rw [h.failed hok] at hs
    cases hs

end OpenTwins
