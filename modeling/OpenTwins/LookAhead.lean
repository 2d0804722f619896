import Mathlib.Tactic.IntervalCases
import OpenTwins.SkipItems

namespace OpenTwins

open MessagePack

namespace UnpackContext

/-- The last of the `k` bytes is the type. The comparison of it as an unsigned byte with -1, which `ext 8`
has in addition, never holds. -/
def lookType (u : UnpackContext) (k : ℕ) : Option (ItemType × UnpackContext) :=
  if u.avail < k then some (.notAnItem, u.unpackError .bufferUnderflow)
  else ((u.current.advance (k - 1)).load 1).map fun t => (.ext (signed 1 t), u)

def lookItem (u : UnpackContext) (c : ℕ) : Option (ItemType × UnpackContext) :=
  if c < 0x80 then some (.positiveInteger, u)
  else if c < 0x90 then some (.map, u)
  else if c < 0xa0 then some (.array, u)
  else if c < 0xc0 then some (.str, u)
  else if 0xe0 ≤ c then some (.negativeInteger, u)
  else match c with
    | 0xc0 => some (.nil, u)
    | 0xc2 => some (.boolean, u)
    | 0xc3 => some (.boolean, u)
    | 0xc4 => some (.bin, u)
    | 0xc5 => some (.bin, u)
    | 0xc6 => some (.bin, u)
    | 0xc7 => u.lookType 3
    | 0xc8 => u.lookType 4
    | 0xc9 => u.lookType 6
    | 0xca => some (.float, u)
    | 0xcb => some (.double, u)
    | 0xcc => some (.positiveInteger, u)
    | 0xcd => some (.positiveInteger, u)
    | 0xce => some (.positiveInteger, u)
    | 0xcf => some (.positiveInteger, u)
    | 0xd0 => some (.negativeInteger, u)
    | 0xd1 => some (.negativeInteger, u)
    | 0xd2 => some (.negativeInteger, u)
    | 0xd3 => some (.negativeInteger, u)
    | 0xd4 => u.lookType 2
    | 0xd5 => u.lookType 2
    | 0xd6 => u.lookType 2
    | 0xd7 => u.lookType 2
    | 0xd8 => u.lookType 2
    | 0xd9 => some (.str, u)
    | 0xda => some (.str, u)
    | 0xdb => some (.str, u)
    | 0xdc => some (.array, u)
    | 0xdd => some (.array, u)
    | 0xde => some (.map, u)
    | 0xdf => some (.map, u)
    | _ => some (.notAnItem, u)

end UnpackContext

open UnpackContext

def cwLookAhead (u : UnpackContext) : Option (ItemType × UnpackContext) :=
  if u.returnCode ≠ .ok then some (.notAnItem, u)
  else if u.avail < 1 then some (.notAnItem, u.unpackError .endOfInput)
  else (u.current.load 1).bind u.lookItem

def HasType (f : Reader Item) (t : ItemType) : Prop := ∀ ⦃bs it r⦄, f bs = some (it, r) → itemType it = t

theorem hasType_done {it : Item} {t : ItemType} (h : itemType it = t) : HasType (done it) t := by
  intro bs it' r hr
  cases hr
  exact h

theorem hasType_field {k : ℕ} {item : ℕ → Item} {t : ItemType} (h : ∀ n, itemType (item n) = t) :
    HasType (andThen (field k) fun n => done (item n)) t := by
  intro bs it r hr
  obtain ⟨p, -, hp⟩ := Option.bind_eq_some_iff.mp hr
  exact hasType_done (h p.1) hp

theorem hasType_blob {n : ℕ} {item : List UInt8 → Item} {t : ItemType} (h : ∀ x, itemType (item x) = t) :
    HasType (andThen (blob n) fun x => done (item x)) t := by
  intro bs it r hr
  obtain ⟨p, -, hp⟩ := Option.bind_eq_some_iff.mp hr
  exact hasType_done (h p.1) hp

theorem hasType_sized {k : ℕ} {item : List UInt8 → Item} {t : ItemType} (h : ∀ x, itemType (item x) = t) :
    HasType (sized k item) t := by
  intro bs it r hr
  obtain ⟨p, -, hp⟩ := Option.bind_eq_some_iff.mp hr
  exact hasType_blob h hp

theorem hasType_ext (n t : ℕ) :
    HasType (andThen (blob n) fun x => done (.ext (signed 1 t) x)) (.ext (signed 1 t)) := hasType_blob fun _ => rfl

theorem hasType_timestamp : HasType (andThen (field 4) fun ns => andThen (field 8) fun s =>
    done (.timestamp (UInt64.ofNat s) (UInt32.ofNat ns))) (.ext (signed 1 0xff)) := by
  intro bs it r hr
  obtain ⟨p, -, hp⟩ := Option.bind_eq_some_iff.mp hr
  have htail : HasType (andThen (field 8) fun s => done (.timestamp (UInt64.ofNat s) (UInt32.ofNat p.1)))
      (.ext (signed 1 0xff)) := hasType_field fun _ => rfl
  exact htail hp

def TypeAt (f : Reader Item) (j : ℕ) : Prop :=
  ∀ ⦃bs it r⦄, f bs = some (it, r) → ∃ t r', field 1 (bs.drop j) = some (t, r') ∧ itemType it = .ext (signed 1 t)

theorem typeAt_typed (n : ℕ) : TypeAt (typed n) 0 := by
  intro bs it r hr
  obtain ⟨⟨t, r'⟩, ht, hp⟩ := Option.bind_eq_some_iff.mp hr
  exact ⟨t, r', ht, hasType_ext n t hp⟩

theorem typeAt_field {k j : ℕ} {g : ℕ → Reader Item} (h : ∀ n, TypeAt (g n) j) :
    TypeAt (andThen (field k) g) (k + j) := by
  intro bs it r hr
  obtain ⟨⟨n, r'⟩, hn, hp⟩ := Option.bind_eq_some_iff.mp hr
  obtain ⟨-, -, rfl⟩ := field_eq hn
  obtain ⟨t, r', ht, htype⟩ := h n hp
  rw [List.drop_drop] at ht
  exact ⟨t, r', ht, htype⟩

theorem typeAt_ext8 : TypeAt ext8 1 := by
  refine typeAt_field (j := 0) fun n => ?_
  intro bs it r hr
  obtain ⟨⟨t, r'⟩, ht, hp⟩ := Option.bind_eq_some_iff.mp hr
  refine ⟨t, r', ht, ?_⟩
  dsimp only at hp
  split_ifs at hp with hstamp hn
  · rw [hstamp]
    exact hasType_timestamp hp
  · cases hp
  · exact hasType_ext n t hp

theorem typeAt_fixext (n : ℕ) : TypeAt (fixext n) 0 := by
  intro bs it r hr
  obtain ⟨⟨x, r'⟩, hx, hp⟩ := Option.bind_eq_some_iff.mp hr
  unfold blob at hx
  split_ifs at hx with hn
  cases hx
  have hfield : field 1 bs = some (ofBytes (bs.take 1), bs.drop 1) := if_pos (by omega)
  refine ⟨ofBytes (bs.take 1), bs.drop 1, hfield, ?_⟩
  dsimp only at hp
  rw [List.take_take, Nat.min_eq_left (by omega)] at hp
  split_ifs at hp with hstamp
  · rw [hstamp]
    exact hasType_done rfl hp
  · rw [hstamp]
    exact hasType_done rfl hp
  · cases hp
  · exact hasType_done rfl hp

def Looks (f : Reader Item) (look : UnpackContext → Option (ItemType × UnpackContext)) : Prop :=
  ∀ ⦃u b bs it r⦄, u.current.bytes = b :: bs → u.current.bytes.length ≤ u.avail → f bs = some (it, r) →
    look u = some (itemType it, u)

theorem looks_typed {f : Reader Item} {t : ItemType} (h : HasType f t) : Looks f fun u => some (t, u) := by
  intro u b bs it r _ _ hr
  dsimp only
  rw [h hr]

theorem looks_fail (look : UnpackContext → Option (ItemType × UnpackContext)) : Looks fail look := by
  intro u b bs it r _ _ hr
  cases hr

theorem looks_type {f : Reader Item} {j : ℕ} (h : TypeAt f j) : Looks f fun u => u.lookType (j + 2) := by
  intro u b bs it r hb hl hr
  obtain ⟨t, r', ht, htype⟩ := h hr
  have hlen := (field_eq ht).1
  rw [List.length_drop] at hlen
  rw [hb, List.length_cons] at hl
  have hload : (u.current.advance (j + 2 - 1)).load 1 = some t := by
    apply load_field (r := r')
    rw [advance_bytes, hb]
    exact ht
  dsimp only
  rw [lookType, if_neg (by omega), hload, htype]
  rfl

theorem looks_item {c : ℕ} (hc : c < 256) (hsigned : ¬ (0xd0 ≤ c ∧ c < 0xd4)) :
    Looks (body c) fun u => u.lookItem c := by
  unfold body lookItem
  split_ifs with h1 h2 h3 h4 h5
  · exact looks_typed (hasType_done (ofNat_nat c))
  · exact looks_typed (hasType_done rfl)
  · exact looks_typed (hasType_done rfl)
  · exact looks_typed (hasType_blob fun _ => rfl)
  · have hneg : ¬ 0 ≤ signed 1 c := by
      have h7 : 2 ^ (8 * 1 - 1) = 128 := rfl
      have h8 : (2 : ℤ) ^ (8 * 1) = 256 := rfl
      rw [signed, h7, h8, if_neg (by omega)]
      omega
    exact looks_typed (hasType_done (if_neg hneg))
  · split
    · exact looks_typed (hasType_done rfl)
    · exact looks_typed (hasType_done rfl)
    · exact looks_typed (hasType_done rfl)
    · exact looks_typed (hasType_sized fun _ => rfl)
    · exact looks_typed (hasType_sized fun _ => rfl)
    · exact looks_typed (hasType_sized fun _ => rfl)
    · exact looks_type typeAt_ext8
    · exact looks_type (typeAt_field typeAt_typed)
    · exact looks_type (typeAt_field typeAt_typed)
    · exact looks_typed (hasType_field fun _ => rfl)
    · exact looks_typed (hasType_field fun _ => rfl)
    · exact looks_typed (hasType_field ofNat_nat)
    · exact looks_typed (hasType_field ofNat_nat)
    · exact looks_typed (hasType_field ofNat_nat)
    · exact looks_typed (hasType_field ofNat_nat)
    · exact absurd ⟨le_refl _, by decide⟩ hsigned
    · exact absurd ⟨by decide, by decide⟩ hsigned
    · exact absurd ⟨by decide, by decide⟩ hsigned
    · exact absurd ⟨by decide, by decide⟩ hsigned
    · exact looks_type (typeAt_fixext 1)
    · exact looks_type (typeAt_fixext 2)
    · exact looks_type (typeAt_fixext 4)
    · exact looks_type (typeAt_fixext 8)
    · exact looks_type (typeAt_fixext 16)
    · exact looks_typed (hasType_sized fun _ => rfl)
    · exact looks_typed (hasType_sized fun _ => rfl)
    · exact looks_typed (hasType_sized fun _ => rfl)
    · exact looks_typed (hasType_field fun _ => rfl)
    · exact looks_typed (hasType_field fun _ => rfl)
    · exact looks_typed (hasType_field fun _ => rfl)
    · exact looks_typed (hasType_field fun _ => rfl)
    · try split
      all_goals first
        | contradiction
        | exact looks_fail _

theorem looks_signed {c : ℕ} (hc : 0xd0 ≤ c ∧ c < 0xd4) {u : UnpackContext} {bs r : List UInt8} {it : Item}
    (h : body c bs = some (it, r)) : u.lookItem c = some (.negativeInteger, u) ∧ ∃ z, it = .int z := by
  obtain ⟨k, hlook, hbody⟩ : ∃ k, u.lookItem c = some (.negativeInteger, u) ∧
      body c = andThen (field k) fun n => done (.int (signed k n)) := by
    obtain ⟨h1, h2⟩ := hc
    interval_cases c
    · exact ⟨1, rfl, rfl⟩
    · exact ⟨2, rfl, rfl⟩
    · exact ⟨4, rfl, rfl⟩
    · exact ⟨8, rfl, rfl⟩
  rw [hbody] at h
  obtain ⟨⟨n, r'⟩, -, h⟩ := Option.bind_eq_some_iff.mp h
  obtain ⟨rfl, -⟩ := Prod.mk.inj (Option.some.inj h)
  exact ⟨hlook, _, rfl⟩

def SignedNatural (it : Item) (bs : List UInt8) : Prop :=
  ∃ b, bs.head? = some b ∧ 0xd0 ≤ b.toNat ∧ b.toNat < 0xd4 ∧ ∃ n : ℕ, it = .int n

structure Looked (u : UnpackContext) (t : ItemType) (v : UnpackContext) : Prop where
  sound : Sound v
  current : v.current = u.current
  avail : v.avail = u.avail
  told : t ≠ .notAnItem → v = u

theorem looked_same {u : UnpackContext} (hu : Sound u) (t : ItemType) : Looked u t u :=
  ⟨hu, rfl, rfl, fun _ => rfl⟩

theorem looked_error (u : UnpackContext) {rc : ReturnCode} (hrc : rc ≠ .ok) :
    Looked u .notAnItem (u.unpackError rc) :=
  ⟨sound_error u hrc, rfl, rfl, fun h => absurd rfl h⟩

theorem lookItem_looked {u : UnpackContext} (hu : Sound u) (hok : u.returnCode = .ok) (c : ℕ) :
    ∃ t v, u.lookItem c = some (t, v) ∧ Looked u t v := by
  have hstays (t : ItemType) : ∃ t' v, some (t, u) = some (t', v) ∧ Looked u t' v := ⟨t, u, rfl, looked_same hu t⟩
  have htype (k : ℕ) (hk : 0 < k) : ∃ t v, u.lookType k = some (t, v) ∧ Looked u t v := by
    unfold lookType
    split_ifs with hlt
    · exact ⟨_, _, rfl, looked_error u (by decide)⟩
    · rw [hu.avail hok] at hlt
      have hne : (u.current.advance (k - 1)).bytes ≠ [] := by
        apply List.ne_nil_of_length_pos
        rw [advance_bytes, List.length_drop]
        omega
      obtain ⟨n, hn⟩ := exists_load hne
      rw [hn]
      exact hstays _
  unfold lookItem
  split_ifs
  · exact hstays _
  · exact hstays _
  · exact hstays _
  · exact hstays _
  · exact hstays _
  · split
    all_goals first
      | exact hstays _
      | exact htype _ (by decide)

theorem cwLookAhead_looked {u : UnpackContext} (hu : Sound u) :
    ∃ t v, cwLookAhead u = some (t, v) ∧ Looked u t v := by
  unfold cwLookAhead
  split_ifs with hrc hlt
  · exact ⟨_, u, rfl, looked_same hu _⟩
  · exact ⟨_, _, rfl, looked_error u (by decide)⟩
  · rw [not_not] at hrc
    rw [hu.avail hrc] at hlt
    obtain ⟨c, hc⟩ := exists_load (List.ne_nil_of_length_pos (show 0 < u.current.bytes.length by omega))
    rw [hc, Option.bind_some]
    exact lookItem_looked hu hrc c

theorem signedNatural_iff {b : UInt8} (h : 0xd0 ≤ b.toNat ∧ b.toNat < 0xd4) (z : ℤ) (bs : List UInt8) :
    SignedNatural (.int z) (b :: bs) ↔ 0 ≤ z := by
  constructor
  · rintro ⟨-, -, -, -, n, hn⟩
    cases hn
    exact Int.natCast_nonneg n
  · intro hz
    obtain ⟨n, rfl⟩ := Int.eq_ofNat_of_zero_le hz
    exact ⟨b, rfl, h.1, h.2, n, rfl⟩

theorem not_signedNatural {b : UInt8} (h : ¬ (0xd0 ≤ b.toNat ∧ b.toNat < 0xd4)) (it : Item) (bs : List UInt8) :
    ¬ SignedNatural it (b :: bs) := by
  rintro ⟨b', hb', h1, h2, -⟩
  cases hb'
  exact h ⟨h1, h2⟩

/-- Looking ahead moves nothing. The type that it tells is the one that the next `cw_unpack_next` finds, except
that it takes every number in a signed form for a negative one. -/
theorem cwLookAhead_type {u : UnpackContext} (hu : Sound u) :
    (∃ t v, cwLookAhead u = some (t, v) ∧ Looked u t v) ∧
      ∀ it rest, u.returnCode = .ok → decode u.current.bytes = some (it, rest) →
        ∃ t v, cwLookAhead u = some (t, u) ∧ cwUnpackNext u = some v ∧ v.returnCode = .ok ∧
          (t = v.type ↔ ¬ SignedNatural it u.current.bytes) ∧
          (SignedNatural it u.current.bytes → t = .negativeInteger) := by
  refine ⟨cwLookAhead_looked hu, ?_⟩
  intro it rest hok hd
  have havail := hu.avail hok
  obtain ⟨v, hv, ht⟩ := cwUnpackNext_took hok havail.ge hd
  cases hb : u.current.bytes with
  | nil =>
    rw [hb] at hd
    cases hd
  | cons b bs =>
    rw [hb, List.length_cons] at havail
    have hlook : cwLookAhead u = u.lookItem b.toNat := by
      rw [cwLookAhead, if_neg (not_not.mpr hok), if_neg (by omega), load_first hb, Option.bind_some]
    rw [hb] at hd
    rw [hlook]
    by_cases hsigned : 0xd0 ≤ b.toNat ∧ b.toNat < 0xd4
    · obtain ⟨hitem, z, rfl⟩ := looks_signed hsigned (u := u) hd
      refine ⟨_, v, hitem, hv, ht.ok, ?_, fun _ => rfl⟩
      rw [signedNatural_iff hsigned, ht.type, itemType]
      split_ifs with hz <;> simp [hz]
    · have hnot := not_signedNatural hsigned it bs
      exact ⟨_, v, looks_item b.toNat_lt hsigned hb (by rw [hb, List.length_cons]; omega) hd, hv, ht.ok,
        iff_of_true ht.type.symm hnot, fun h => absurd h hnot⟩

theorem cwLookAhead_type_five : ∃ t v, cwLookAhead (cwUnpackContextInit .nil ⟨0, 0, []⟩ ⟨0, [0xd0, 5]⟩ 2) =
      some (t, cwUnpackContextInit .nil ⟨0, 0, []⟩ ⟨0, [0xd0, 5]⟩ 2) ∧
    cwUnpackNext (cwUnpackContextInit .nil ⟨0, 0, []⟩ ⟨0, [0xd0, 5]⟩ 2) = some v ∧ t ≠ v.type ∧
      t = .negativeInteger := by
  obtain ⟨t, v, ht, hv, -, htype, hsigned⟩ :=
    (cwLookAhead_type (sound_init .nil ⟨0, 0, []⟩ ⟨0, [0xd0, 5]⟩)).2 (.int 5) [] rfl (by decide)
  have hnatural : SignedNatural (.int 5) [0xd0, 5] := ⟨0xd0, rfl, by decide, by decide, 5, rfl⟩
  exact ⟨t, v, ht, hv, fun h => htype.mp h hnatural, hsigned hnatural⟩

end OpenTwins
