import OpenTwins.StoredPart

namespace OpenTwins

open MessagePack

namespace UnpackContext

def skipBytes (u : UnpackContext) (n : ℕ) (next : UnpackContext → Option UnpackContext) : Option UnpackContext :=
  u.assertSpace .bufferUnderflow n fun _ u => next u

/-- `next` gets the number of values that the item still brings with it. For a map or an extension of 32-bit
size that is computed in 32 bits. -/
def skipItem (u : UnpackContext) (c : ℕ) (next : ℕ → UnpackContext → Option UnpackContext) : Option UnpackContext :=
  if c < 0x80 then next 0 u
  else if c < 0x90 then next (2 * (c &&& 0x0f)) u
  else if c < 0xa0 then next (c &&& 0x0f) u
  else if c < 0xc0 then u.skipBytes (c &&& 0x1f) (next 0)
  else if 0xe0 ≤ c then next 0 u
  else match c with
    | 0xc0 => next 0 u
    | 0xc2 => next 0 u
    | 0xc3 => next 0 u
    | 0xc4 => u.loadSpace 1 fun n u => u.skipBytes n (next 0)
    | 0xc5 => u.loadSpace 2 fun n u => u.skipBytes n (next 0)
    | 0xc6 => u.loadSpace 4 fun n u => u.skipBytes n (next 0)
    | 0xc7 => u.loadSpace 1 fun n u => u.skipBytes (n + 1) (next 0)
    | 0xc8 => u.loadSpace 2 fun n u => u.skipBytes (n + 1) (next 0)
    | 0xc9 => u.loadSpace 4 fun n u => u.skipBytes ((n + 1) % 2 ^ 32) (next 0)
    | 0xca => u.skipBytes 4 (next 0)
    | 0xcb => u.skipBytes 8 (next 0)
    | 0xcc => u.skipBytes 1 (next 0)
    | 0xcd => u.skipBytes 2 (next 0)
    | 0xce => u.skipBytes 4 (next 0)
    | 0xcf => u.skipBytes 8 (next 0)
    | 0xd0 => u.skipBytes 1 (next 0)
    | 0xd1 => u.skipBytes 2 (next 0)
    | 0xd2 => u.skipBytes 4 (next 0)
    | 0xd3 => u.skipBytes 8 (next 0)
    | 0xd4 => u.skipBytes 2 (next 0)
    | 0xd5 => u.skipBytes 3 (next 0)
    | 0xd6 => u.skipBytes 5 (next 0)
    | 0xd7 => u.skipBytes 9 (next 0)
    | 0xd8 => u.skipBytes 17 (next 0)
    | 0xd9 => u.loadSpace 1 fun n u => u.skipBytes n (next 0)
    | 0xda => u.loadSpace 2 fun n u => u.skipBytes n (next 0)
    | 0xdb => u.loadSpace 4 fun n u => u.skipBytes n (next 0)
    | 0xdc => u.loadSpace 2 next
    | 0xdd => u.loadSpace 4 next
    | 0xde => u.loadSpace 2 fun n => next (2 * n)
    | 0xdf => u.loadSpace 4 fun n => next (2 * n % 2 ^ 32)
    | _ => some (u.unpackError .malformedInput)

/-- Every round takes at least one byte, so that `avail` rounds and one more suffice; `none` is a fault. -/
def skipItems : ℕ → ℕ → UnpackContext → Option UnpackContext
  | _, 0, u => some u
  | 0, _ + 1, _ => none
  | rounds + 1, count + 1, u => u.assertSpace .endOfInput 1 fun p u =>
    (p.load 1).bind fun c => u.skipItem c fun more u => skipItems rounds (count + more) u

def skip (u : UnpackContext) (n : ℕ) : UnpackContext :=
  { u with current := u.current.advance n, avail := u.avail - n }

end UnpackContext

open UnpackContext

def cwSkipItems (u : UnpackContext) (itemCount : ℤ) : Option UnpackContext :=
  if u.returnCode ≠ .ok then some u else skipItems (u.avail + 1) itemCount.toNat u

def Takes (f : Reader Item) (m : ℕ) : Prop :=
  ∀ ⦃bs it r⦄, f bs = some (it, r) → bs.length = m + r.length ∧ it.arity = 0

theorem takes_done {it : Item} (h : it.arity = 0) : Takes (done it) 0 := by
  intro bs it' r hr
  cases hr
  exact ⟨(Nat.zero_add _).symm, h⟩

theorem takes_fail (m : ℕ) : Takes fail m := by
  intro bs it r h
  cases h

theorem takes_field {k m : ℕ} {g : ℕ → Reader Item} (h : ∀ n, Takes (g n) m) : Takes (andThen (field k) g) (k + m) := by
  intro bs it r hr
  obtain ⟨⟨n, r'⟩, hf, hg⟩ := Option.bind_eq_some_iff.mp hr
  obtain ⟨hk, -, rfl⟩ := field_eq hf
  obtain ⟨hlen, harity⟩ := h n hg
  rw [List.length_drop] at hlen
  exact ⟨by omega, harity⟩

theorem takes_blob {k m : ℕ} {g : List UInt8 → Reader Item} (h : ∀ x, Takes (g x) m) :
    Takes (andThen (blob k) g) (k + m) := by
  intro bs it r hr
  obtain ⟨⟨x, r'⟩, hb, hg⟩ := Option.bind_eq_some_iff.mp hr
  unfold blob at hb
  split_ifs at hb with hk
  cases hb
  obtain ⟨hlen, harity⟩ := h _ hg
  rw [List.length_drop] at hlen
  exact ⟨by omega, harity⟩

theorem takes_number {k : ℕ} {item : ℕ → Item} (h : ∀ n, (item n).arity = 0) :
    Takes (andThen (field k) fun n => done (item n)) k :=
  takes_field (m := 0) fun n => takes_done (h n)

theorem takes_bytes {k : ℕ} {item : List UInt8 → Item} (h : ∀ x, (item x).arity = 0) :
    Takes (andThen (blob k) fun x => done (item x)) k :=
  takes_blob (m := 0) fun x => takes_done (h x)

theorem takes_typed (n : ℕ) : Takes (typed n) (n + 1) := by
  rw [Nat.add_comm]
  exact takes_field fun t => takes_bytes fun _ => rfl

theorem takes_fixext (n : ℕ) : Takes (fixext n) (n + 1) := by
  refine takes_blob (m := 0) fun x => ?_
  dsimp only
  split_ifs
  · exact takes_done rfl
  · exact takes_done rfl
  · exact takes_fail 0
  · exact takes_done rfl

def Skips (f : Reader Item)
    (s : UnpackContext → (ℕ → UnpackContext → Option UnpackContext) → Option UnpackContext) : Prop :=
  ∀ ⦃u next e it r⦄, u.current.bytes = e ++ r → u.current.bytes.length ≤ u.avail → f (e ++ r) = some (it, r) →
    it.arity < 2 ^ 32 → e.length < 2 ^ 32 → s u next = next it.arity (u.skip e.length)

theorem skip_zero (u : UnpackContext) : u.skip 0 = u := by
  rw [UnpackContext.skip, advance_zero, Nat.sub_zero]

theorem skip_skip (u : UnpackContext) (m n : ℕ) : (u.skip m).skip n = u.skip (m + n) := by
  simp only [UnpackContext.skip, advance_advance, Nat.sub_sub]

theorem skips_done (it : Item) : Skips (done it) fun u next => next it.arity u := by
  intro u next e it' r hb hl hr _ _
  obtain ⟨rfl, her⟩ := Prod.mk.inj (Option.some.inj hr)
  obtain rfl : e = [] := List.append_left_eq_self.mp her
  rw [List.length_nil, skip_zero]

theorem skips_fail (s : UnpackContext → (ℕ → UnpackContext → Option UnpackContext) → Option UnpackContext) :
    Skips fail s := by
  intro u next e it r _ _ hr
  cases hr

theorem skips_fixed {f : Reader Item} {m : ℕ} (h : Takes f m) : Skips f fun u next => u.skipBytes m (next 0) := by
  intro u next e it r hb hl hr _ _
  obtain ⟨hlen, harity⟩ := h hr
  rw [List.length_append] at hlen
  rw [hb, List.length_append] at hl
  have he : e.length = m := by omega
  rw [harity, he]
  exact if_neg (by omega)

theorem skips_field {k : ℕ} {g : ℕ → Reader Item}
    {s : ℕ → UnpackContext → (ℕ → UnpackContext → Option UnpackContext) → Option UnpackContext}
    (hg : ∀ n, Local (g n)) (h : ∀ n < 256 ^ k, Skips (g n) (s n)) :
    Skips (andThen (field k) g) fun u next => u.loadSpace k fun n u => s n u next := by
  intro u next e it r hb hl hr harity hsmall
  obtain ⟨⟨n, bs⟩, hf, hn⟩ := Option.bind_eq_some_iff.mp hr
  obtain ⟨hk, hlt, hdrop⟩ := field_eq hf
  dsimp only at hn
  obtain ⟨e', hbs, -⟩ := hg n hn
  have hlen : e.length = k + e'.length := by
    have := congrArg List.length (hbs.symm.trans hdrop)
    simp only [List.length_append, List.length_drop] at this
    simp only [List.length_append] at hk
    omega
  have hrest : (u.skip k).current.bytes = e' ++ r := by
    rw [UnpackContext.skip, advance_bytes, hb, ← hdrop, hbs]
  have havail : (u.skip k).current.bytes.length ≤ (u.skip k).avail := by
    simp only [UnpackContext.skip, advance_bytes, List.length_drop]
    omega
  have hload : u.loadSpace k (fun n u => s n u next) = s n (u.skip k) next := by
    rw [hb] at hl
    rw [loadSpace, assertSpace, if_neg (by omega), load_field (r := bs) (by rw [hb, hf]), Option.bind_some]
    rfl
  dsimp only
  rw [hload, hlen, ← skip_skip]
  exact h n hlt hrest havail (by rw [← hbs, hn]) harity (by omega)

theorem skips_sized {k : ℕ} {item : List UInt8 → Item} (h : ∀ x, (item x).arity = 0) :
    Skips (sized k item) fun u next => u.loadSpace k fun n u => u.skipBytes n (next 0) :=
  skips_field (fun n => local_andThen (local_blob n) fun _ => local_done _) fun _ _ => skips_fixed (takes_bytes h)

theorem skips_container {k : ℕ} {item : ℕ → Item} {count : ℕ → ℕ}
    (h : ∀ n < 256 ^ k, (item n).arity < 2 ^ 32 → count n = (item n).arity) :
    Skips (andThen (field k) fun n => done (item n)) fun u next => u.loadSpace k fun n => next (count n) := by
  refine skips_field (fun _ => local_done _) ?_
  intro n hn u next e it r hb hl hr harity hsmall
  have hdone : next (item n).arity u = next it.arity (u.skip e.length) := skips_done (item n) hb hl hr harity hsmall
  obtain ⟨rfl, -⟩ := Prod.mk.inj (Option.some.inj hr)
  dsimp only
  rw [h n hn harity, hdone]

theorem skips_ext8 : Skips ext8 fun u next => u.loadSpace 1 fun n u => u.skipBytes (n + 1) (next 0) := by
  have htail (n : ℕ) : Takes (andThen (field 1) fun t =>
      if t = 0xff then
        if n = 12 then andThen (field 4) fun ns => andThen (field 8) fun s =>
          done (.timestamp (UInt64.ofNat s) (UInt32.ofNat ns))
        else fail
      else andThen (blob n) fun x => done (.ext (signed 1 t) x)) (n + 1) := by
    rw [Nat.add_comm]
    apply takes_field
    intro t
    split_ifs with ht hn
    · subst hn
      exact takes_field fun ns => takes_number fun _ => rfl
    · exact takes_fail n
    · exact takes_bytes fun _ => rfl
  refine skips_field ?_ fun n _ => skips_fixed (htail n)
  intro n
  refine local_andThen (local_field 1) fun t => ?_
  split_ifs
  · exact local_andThen (local_field 4) fun _ => local_scalar 8 _
  · exact local_fail
  · exact local_andThen (local_blob n) fun _ => local_done _

theorem skips_ext {k : ℕ} : Skips (andThen (field k) typed) fun u next =>
    u.loadSpace k fun n u => u.skipBytes (n + 1) (next 0) :=
  skips_field local_typed fun n _ => skips_fixed (takes_typed n)

theorem skips_ext32 : Skips (andThen (field 4) typed) fun u next =>
    u.loadSpace 4 fun n u => u.skipBytes ((n + 1) % 2 ^ 32) (next 0) := by
  refine skips_field local_typed fun n _ => ?_
  intro u next e it r hb hl hr harity hsmall
  have hlen := (takes_typed n hr).1
  rw [List.length_append] at hlen
  dsimp only
  rw [Nat.mod_eq_of_lt (by omega)]
  exact skips_fixed (takes_typed n) hb hl hr harity hsmall

theorem skips_item {c : ℕ} (hc : c < 256) : Skips (body c) fun u next => u.skipItem c next := by
  unfold body skipItem
  split_ifs with h1 h2 h3 h4 h5
  · exact skips_done _
  · have harity : 2 * (c &&& 0x0f) = (Item.map (UInt32.ofNat (c - 0x80))).arity := by
      rw [low_nibble, Item.arity, toNat_ofNat_of_lt (k := 4) (by omega) (by omega)]
      omega
    rw [harity]
    exact skips_done _
  · have harity : c &&& 0x0f = (Item.array (UInt32.ofNat (c - 0x90))).arity := by
      rw [low_nibble, Item.arity, toNat_ofNat_of_lt (k := 4) (by omega) (by omega)]
      omega
    rw [harity]
    exact skips_done _
  · rw [low_five, show c % 32 = c - 0xa0 by omega]
    exact skips_fixed (takes_bytes fun _ => rfl)
  · exact skips_done _
  · split
    · exact skips_done _
    · exact skips_done _
    · exact skips_done _
    · exact skips_sized fun _ => rfl
    · exact skips_sized fun _ => rfl
    · exact skips_sized fun _ => rfl
    · exact skips_ext8
    · exact skips_ext
    · exact skips_ext32
    · exact skips_fixed (takes_number fun _ => rfl)
    · exact skips_fixed (takes_number fun _ => rfl)
    · exact skips_fixed (takes_number fun _ => rfl)
    · exact skips_fixed (takes_number fun _ => rfl)
    · exact skips_fixed (takes_number fun _ => rfl)
    · exact skips_fixed (takes_number fun _ => rfl)
    · exact skips_fixed (takes_number fun _ => rfl)
    · exact skips_fixed (takes_number fun _ => rfl)
    · exact skips_fixed (takes_number fun _ => rfl)
    · exact skips_fixed (takes_number fun _ => rfl)
    · exact skips_fixed (takes_fixext 1)
    · exact skips_fixed (takes_fixext 2)
    · exact skips_fixed (takes_fixext 4)
    · exact skips_fixed (takes_fixext 8)
    · exact skips_fixed (takes_fixext 16)
    · exact skips_sized fun _ => rfl
    · exact skips_sized fun _ => rfl
    · exact skips_sized fun _ => rfl
    · exact skips_container fun n hn _ => (toNat_ofNat_of_lt (k := 2) (by omega) hn).symm
    · exact skips_container fun n hn _ => (toNat_ofNat_of_lt (k := 4) (by omega) hn).symm
    · exact skips_container fun n hn _ => by rw [Item.arity, toNat_ofNat_of_lt (k := 2) (by omega) hn]
    · refine skips_container fun n hn h => ?_
      rw [Item.arity, toNat_ofNat_of_lt (k := 4) (by omega) hn] at h ⊢
      exact Nat.mod_eq_of_lt h
    · try split
      all_goals first
        | contradiction
        | exact skips_fail _

theorem complete_le {n : ℕ} {e : List UInt8} (h : Complete n e) : n ≤ e.length := by
  induction h with
  | nil => exact Nat.zero_le _
  | cons he _ ih =>
    have hpos := he.length_pos
    rw [List.length_append]
    omega

theorem complete_items {n : ℕ} {e : List UInt8} (h : Complete n e) : ∃ its, EncodesAll its e ∧ Closed n its := by
  induction h with
  | nil => exact ⟨[], .nil, .nil⟩
  | @cons n it e bs he _ ih =>
    obtain ⟨its, hits, hclosed⟩ := ih
    exact ⟨it :: its, .cons he hits, .cons hclosed⟩

theorem skipItems_complete {n : ℕ} {e : List UInt8} (h : Complete n e) {u : UnpackContext} {rest : List UInt8}
    {rounds : ℕ} (hb : u.current.bytes = e ++ rest) (hl : u.current.bytes.length ≤ u.avail)
    (hsmall : e.length < 2 ^ 32) (hr : e.length ≤ rounds) : skipItems rounds n u = some (u.skip e.length) := by
  induction h generalizing u rounds with
  | nil =>
    rw [List.length_nil, skip_zero]
    cases rounds <;> rfl
  | @cons n it e bs he hc ih =>
    have hcount := complete_le hc
    have hd := he.decode_append (bs ++ rest)
    obtain ⟨b, e', rfl⟩ := List.exists_cons_of_ne_nil he.ne_nil
    simp only [List.length_append, List.length_cons] at hsmall hr
    obtain ⟨rounds, rfl⟩ := Nat.exists_eq_add_of_le' (show 1 ≤ rounds by omega)
    rw [List.append_assoc] at hb
    have hb1 : (u.skip 1).current.bytes = e' ++ (bs ++ rest) := by
      rw [UnpackContext.skip, advance_bytes, hb]
      rfl
    have hl1 : (u.skip 1).current.bytes.length ≤ (u.skip 1).avail := by
      simp only [UnpackContext.skip, advance_bytes, List.length_drop]
      omega
    have hb2 : ((u.skip 1).skip e'.length).current.bytes = bs ++ rest := by
      rw [UnpackContext.skip, advance_bytes, hb1, List.drop_left]
    have hl2 : ((u.skip 1).skip e'.length).current.bytes.length ≤ ((u.skip 1).skip e'.length).avail := by
      rw [UnpackContext.skip, advance_bytes, List.length_drop]
      dsimp only
      omega
    have hitem : (u.skip 1).skipItem b.toNat (fun more u => skipItems rounds (n + more) u) =
        skipItems rounds (n + it.arity) ((u.skip 1).skip e'.length) :=
      skips_item b.toNat_lt hb1 hl1 hd (by omega) (by omega)
    have hstep : skipItems (rounds + 1) (n + 1) u =
        (u.skip 1).skipItem b.toNat fun more u => skipItems rounds (n + more) u := by
      have hpos : ¬ u.avail < 1 := by
        rw [hb] at hl
        simp only [List.cons_append, List.length_cons] at hl
        omega
      rw [skipItems, assertSpace, if_neg hpos, load_first (hb.trans (List.cons_append ..)), Option.bind_some]
      rfl
    rw [hstep, hitem, Nat.add_comm n, ih hb2 hl2 (by omega) (by omega), skip_skip, skip_skip, List.length_append,
      List.length_cons]
    congr 2
    omega

theorem calls_items {its : List Item} {e : List UInt8} (h : EncodesAll its e) {u : UnpackContext}
    {rest : List UInt8} (hok : u.returnCode = .ok) (hb : u.current.bytes = e ++ rest)
    (hl : u.current.bytes.length ≤ u.avail) :
    ∃ v, calls its.length u = some v ∧ v.returnCode = .ok ∧ v.current = (u.skip e.length).current ∧
      v.avail = (u.skip e.length).avail := by
  induction h generalizing u with
  | nil => exact ⟨u, rfl, hok, by rw [List.length_nil, skip_zero], by rw [List.length_nil, skip_zero]⟩
  | @cons it its e bs he _ ih =>
    rw [List.append_assoc] at hb
    obtain ⟨v, hv, ht⟩ := cwUnpackNext_took hok hl (by rw [hb]; exact he.decode_append _)
    obtain ⟨m, hm, hc, ha⟩ := ht.consumed
    have hlen : m = e.length := by
      have hbytes := congrArg List.length ht.bytes
      rw [hc, advance_bytes, List.length_drop, hb, List.length_append] at hbytes
      rw [hb, List.length_append] at hm
      omega
    subst hlen
    have hle : v.current.bytes.length ≤ v.avail := by
      rw [hc, ha, advance_bytes, List.length_drop]
      omega
    obtain ⟨w, hw, hokw, hcw, haw⟩ := ih ht.ok ht.bytes hle
    refine ⟨w, by rw [List.length_cons, calls, hv, Option.bind_some, hw], hokw, ?_, ?_⟩
    · rw [hcw, UnpackContext.skip, hc, advance_advance, List.length_append]
      rfl
    · rw [haw, UnpackContext.skip, ha, Nat.sub_sub, List.length_append]
      rfl

structure Within (l : ℕ) (u : UnpackContext) : Prop where
  ok : u.returnCode = .ok
  avail : u.avail = u.current.bytes.length
  le : u.avail ≤ l

def Safely (m : Option UnpackContext) : Prop := ∃ v, m = some v ∧ Sound v

theorem sound_error (u : UnpackContext) {rc : ReturnCode} (h : rc ≠ .ok) : Sound (u.unpackError rc) :=
  ⟨fun hok => absurd hok h, fun _ => rfl⟩

theorem safely_error (u : UnpackContext) {rc : ReturnCode} (h : rc ≠ .ok) : Safely (some (u.unpackError rc)) :=
  ⟨_, rfl, sound_error u h⟩

theorem Within.sound {l : ℕ} {u : UnpackContext} (h : Within l u) : Sound u :=
  ⟨fun _ => h.avail, fun hne => absurd h.ok hne⟩

theorem Within.skip {l n : ℕ} {u : UnpackContext} (h : Within l u) : Within (l - n) (u.skip n) := by
  refine ⟨h.ok, ?_, Nat.sub_le_sub_right h.le n⟩
  rw [UnpackContext.skip, advance_bytes, List.length_drop, ← h.avail]

theorem Within.mono {l l' : ℕ} {u : UnpackContext} (h : Within l u) (hl : l ≤ l') : Within l' u :=
  ⟨h.ok, h.avail, h.le.trans hl⟩

theorem safely_space {l n : ℕ} {rc : ReturnCode} {u : UnpackContext}
    {next : Pointer → UnpackContext → Option UnpackContext} (h : Within l u) (hrc : rc ≠ .ok)
    (hnext : n ≤ u.current.bytes.length → Within (l - n) (u.skip n) → Safely (next u.current (u.skip n))) :
    Safely (u.assertSpace rc n next) := by
  unfold assertSpace
  split_ifs with hn
  · exact safely_error u hrc
  · rw [not_lt, h.avail] at hn
    exact hnext hn h.skip

theorem safely_skip {l n : ℕ} {u : UnpackContext} {next : UnpackContext → Option UnpackContext} (h : Within l u)
    (hnext : ∀ u, Within l u → Safely (next u)) : Safely (u.skipBytes n next) :=
  safely_space h (by decide) fun _ hu => hnext _ (hu.mono (Nat.sub_le l n))

theorem safely_load {l k : ℕ} {u : UnpackContext} {next : ℕ → UnpackContext → Option UnpackContext} (h : Within l u)
    (hnext : ∀ n u, Within l u → Safely (next n u)) : Safely (u.loadSpace k next) := by
  refine safely_space h (by decide) fun hk hu => ?_
  have hload : u.current.load k = some (ofBytes (u.current.bytes.take k)) :=
    load_field (r := u.current.bytes.drop k) (if_pos hk)
  rw [hload, Option.bind_some]
  exact hnext _ _ (hu.mono (Nat.sub_le l k))

theorem safely_item {l c : ℕ} {u : UnpackContext} {next : ℕ → UnpackContext → Option UnpackContext}
    (h : Within l u) (hnext : ∀ more u, Within l u → Safely (next more u)) : Safely (u.skipItem c next) := by
  have hblob (f : ℕ → ℕ) (k : ℕ) : Safely (u.loadSpace k fun n u => u.skipBytes (f n) (next 0)) :=
    safely_load h fun n u hu => safely_skip hu (hnext 0)
  unfold skipItem
  split_ifs
  · exact hnext _ u h
  · exact hnext _ u h
  · exact hnext _ u h
  · exact safely_skip h (hnext 0)
  · exact hnext _ u h
  · split
    all_goals first
      | exact hnext 0 u h
      | exact safely_skip h (hnext 0)
      | exact hblob _ _
      | exact safely_load h fun n => hnext _
      | exact safely_error u (by decide)

theorem safely_items {l rounds n : ℕ} {u : UnpackContext} (h : Within l u) (hr : l < rounds) :
    Safely (skipItems rounds n u) := by
  induction rounds generalizing l n u with
  | zero => exact absurd hr (Nat.not_lt_zero l)
  | succ rounds ih =>
    cases n with
    | zero => exact ⟨u, rfl, h.sound⟩
    | succ n =>
      refine safely_space h (by decide) fun hpos hu => ?_
      obtain ⟨c, hc⟩ := exists_load (List.ne_nil_of_length_pos hpos)
      rw [hc, Option.bind_some]
      refine safely_item hu fun more u hu => ih hu ?_
      have := h.avail
      have := h.le
      omega

/-- From any sound context `cw_skip_items` ends in one. Where `n` whole values lie ahead it stops behind the last of
them and leaves the item as it was: where reading them would stop, item by item and with all that is nested. -/
theorem cwSkipItems_reads {u : UnpackContext} (hu : Sound u) (hok : u.returnCode = .ok) (n : ℕ) :
    (∃ v, cwSkipItems u n = some v ∧ Sound v) ∧
      ∀ e rest, u.current.bytes = e ++ rest → Complete n e → e.length < 2 ^ 32 →
        cwSkipItems u n = some (u.skip e.length) ∧
        ∃ its v, EncodesAll its e ∧ Closed n its ∧ calls its.length u = some v ∧ v.returnCode = .ok ∧
          v.current = (u.skip e.length).current ∧ v.avail = (u.skip e.length).avail := by
  have havail := hu.avail hok
  have hskip : cwSkipItems u n = skipItems (u.avail + 1) n u := by
    rw [cwSkipItems, if_neg (not_not.mpr hok), Int.toNat_natCast]
  refine ⟨?_, ?_⟩
  · rw [hskip]
    exact safely_items ⟨hok, havail, le_refl _⟩ (Nat.lt_succ_self _)
  · intro e rest hb hc hsmall
    obtain ⟨its, hits, hclosed⟩ := complete_items hc
    obtain ⟨v, hv, hokv, hcur, hav⟩ := calls_items hits hok hb havail.ge
    refine ⟨?_, its, v, hits, hclosed, hv, hokv, hcur, hav⟩
    rw [hskip]
    apply skipItems_complete hc hb havail.ge hsmall
    rw [havail, hb, List.length_append]
    omega

theorem cwSkipItems_reads_map : cwSkipItems (cwUnpackContextInit .nil ⟨0, 0, []⟩ ⟨0, [0x81, 0x92, 1, 2, 3, 4]⟩ 6) 1 =
    some ((cwUnpackContextInit .nil ⟨0, 0, []⟩ ⟨0, [0x81, 0x92, 1, 2, 3, 4]⟩ 6).skip 5) := by
  have hits : EncodesAll [.map 1, .array 2, .int 1, .int 2, .int 3] [0x81, 0x92, 1, 2, 3] :=
    .cons (e := [0x81]) (by decide) (.cons (e := [0x92]) (by decide) (.cons (e := [1]) (by decide)
      (.cons (e := [2]) (by decide) (.cons (e := [3]) (by decide) .nil))))
  have hclosed : Closed 1 [.map 1, .array 2, .int 1, .int 2, .int 3] :=
    .cons (.cons (.cons (.cons (.cons .nil))))
  exact ((cwSkipItems_reads (sound_init .nil ⟨0, 0, []⟩ ⟨0, [0x81, 0x92, 1, 2, 3, 4]⟩) rfl 1).2
    [0x81, 0x92, 1, 2, 3] [4] rfl (hits.complete hclosed) (by decide)).1

end OpenTwins
