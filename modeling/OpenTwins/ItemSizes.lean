import OpenTwins.MessagePack

namespace MessagePack

def sizedLength (n : ℕ) : ℕ :=
  if n < 256 then n + 2 else if n < 65536 then n + 3 else n + 5

def extLength (n : ℕ) : ℕ :=
  if n = 1 ∨ n = 2 ∨ n = 4 ∨ n = 8 ∨ n = 16 then n + 2
  else if n < 256 then n + 3 else if n < 65536 then n + 4 else n + 6

def headLength (n : ℕ) : ℕ := if n < 16 then 1 else if n < 65536 then 3 else 5

def intLength (z : ℤ) : ℕ :=
  if -32 ≤ z ∧ z < 128 then 1 else if -128 ≤ z ∧ z < 256 then 2 else if -32768 ≤ z ∧ z < 65536 then 3
  else if -2147483648 ≤ z ∧ z < 4294967296 then 5 else 9

def timeLength (seconds nanoseconds : ℕ) : ℕ :=
  if 2 ^ 34 ≤ seconds then 15 else if 2 ^ 32 ≤ nanoseconds * 2 ^ 34 + seconds then 10 else 6

def Item.size : Item → ℕ
  | .nil | .bool _ => 1
  | .int z => intLength z
  | .float _ => 5
  | .double _ => 9
  | .str bs => if bs.length < 32 then bs.length + 1 else sizedLength bs.length
  | .bin bs => sizedLength bs.length
  | .ext _ bs => extLength bs.length
  | .timestamp s ns => timeLength s.toNat ns.toNat
  | .array n | .map n => headLength n.toNat

def Spends {α : Type} (f : Reader α) (P : α → ℕ → Prop) : Prop := ∀ ⦃bs x⦄, f bs = some (x, []) → P x bs.length

theorem spends_done {α : Type} {x : α} {P : α → ℕ → Prop} (h : P x 0) : Spends (done x) P := by
  intro bs y hy
  simp only [done, Option.some.injEq, Prod.mk.injEq] at hy
  obtain ⟨rfl, rfl⟩ := hy
  exact h

theorem spends_fail {α : Type} {P : α → ℕ → Prop} : Spends (fail : Reader α) P := by
  intro bs y hy
  cases hy

theorem spends_field {α : Type} {k : ℕ} {g : ℕ → Reader α} {P : α → ℕ → Prop}
    (h : ∀ n < 256 ^ k, Spends (g n) fun x l => P x (k + l)) : Spends (andThen (field k) g) P := by
  intro bs x hx
  obtain ⟨⟨n, r⟩, hn, hx⟩ := Option.bind_eq_some_iff.mp hx
  unfold field at hn
  split_ifs at hn with hk
  cases hn
  have hlt := ofBytes_lt (bs.take k)
  rw [List.length_take, min_eq_left hk] at hlt
  have hp := h _ hlt hx
  rw [List.length_drop] at hp
  rwa [Nat.add_sub_cancel' hk] at hp

theorem spends_blob {α : Type} {n : ℕ} {g : List UInt8 → Reader α} {P : α → ℕ → Prop}
    (h : ∀ x, x.length = n → Spends (g x) fun y l => P y (n + l)) : Spends (andThen (blob n) g) P := by
  intro bs y hy
  obtain ⟨⟨x, r⟩, hx, hy⟩ := Option.bind_eq_some_iff.mp hy
  unfold blob at hx
  split_ifs at hx with hn
  cases hx
  have hp := h _ (by rw [List.length_take, min_eq_left hn]) hy
  rw [List.length_drop] at hp
  rwa [Nat.add_sub_cancel' hn] at hp

theorem signed_bounds {k n : ℕ} (hk : 0 < k) (hn : n < 256 ^ k) :
    -(2 ^ (8 * k - 1) : ℤ) ≤ signed k n ∧ signed k n < 2 ^ (8 * k - 1) := by
  have hsplit : (256 : ℕ) ^ k = 2 * 2 ^ (8 * k - 1) := by
    rw [show (256 : ℕ) = 2 ^ 8 from rfl, ← Nat.pow_mul, ← Nat.pow_succ']
    congr 1
    omega
  have hpow : (2 : ℤ) ^ (8 * k) = 2 * 2 ^ (8 * k - 1) := by
    rw [← pow_succ']
    congr 1
    omega
  have hn' : (n : ℤ) < 2 * 2 ^ (8 * k - 1) := by exact_mod_cast hsplit ▸ hn
  unfold signed
  split_ifs with h
  · have h' : (n : ℤ) < 2 ^ (8 * k - 1) := by exact_mod_cast h
    constructor
    · have : (0 : ℤ) < 2 ^ (8 * k - 1) := by positivity
      omega
    · exact h'
  · have h' : (2 : ℤ) ^ (8 * k - 1) ≤ n := by exact_mod_cast not_lt.mp h
    rw [hpow]
    constructor <;> omega

def Fits (it : Item) (l : ℕ) : Prop := it.size ≤ l + 1

theorem spends_sized {k : ℕ} {item : List UInt8 → Item}
    (h : ∀ bs : List UInt8, bs.length < 256 ^ k → (item bs).size ≤ k + bs.length + 1) : Spends (sized k item) Fits := by
  apply spends_field
  intro n hn
  apply spends_blob
  intro x hx
  apply spends_done
  have hs := h x (by omega)
  unfold Fits
  omega

theorem spends_typed {k n : ℕ} (h : extLength n ≤ k + n + 2) : Spends (typed n) fun it l => Fits it (k + l) := by
  apply spends_field
  intro t _
  apply spends_blob
  intro x hx
  apply spends_done
  simp only [Fits, Item.size, hx]
  omega

theorem spends_ext8 : Spends ext8 Fits := by
  apply spends_field
  intro n hn
  apply spends_field
  intro t ht
  split_ifs with h1 h2
  · apply spends_field
    intro ns hns
    apply spends_field
    intro s hs
    apply spends_done
    simp only [Fits, Item.size, timeLength]
    split_ifs <;> omega
  · exact spends_fail
  · apply spends_blob
    intro x hx
    apply spends_done
    simp only [Fits, Item.size, hx, extLength]
    split_ifs <;> omega

theorem spends_fixext {n : ℕ} (hn : n = 1 ∨ n = 2 ∨ n = 4 ∨ n = 8 ∨ n = 16) : Spends (fixext n) Fits := by
  apply spends_blob
  intro x hx
  have hv := ofBytes_lt (x.drop 1)
  have hlen : (x.drop 1).length = n := by rw [List.length_drop, hx, Nat.add_sub_cancel]
  rw [hlen] at hv
  dsimp only
  split_ifs with h1 h2 h3
  · subst h2
    apply spends_done
    simp only [Fits, Item.size, timeLength, UInt64.toNat_ofNat', UInt32.toNat_zero]
    split_ifs <;> omega
  · subst h3
    apply spends_done
    simp only [Fits, Item.size, timeLength, UInt64.toNat_ofNat', UInt32.toNat_ofNat']
    split_ifs <;> omega
  · exact spends_fail
  · apply spends_done
    simp only [Fits, Item.size, hlen, extLength, if_pos hn]
    omega

def Width (k : ℕ) : Prop := k = 1 ∨ k = 2 ∨ k = 4 ∨ k = 8

theorem spends_number {k : ℕ} {item : ℕ → Item} (h : ∀ n < 256 ^ k, (item n).size ≤ k + 1) :
    Spends (andThen (field k) fun n => done (item n)) Fits := by
  apply spends_field
  intro n hn
  apply spends_done
  exact h n hn

theorem spends_float : Spends (andThen (field 4) fun n => done (.float (UInt32.ofNat n))) Fits :=
  spends_number fun _ _ => Nat.le_refl 5

theorem spends_double : Spends (andThen (field 8) fun n => done (.double (UInt64.ofNat n))) Fits :=
  spends_number fun _ _ => Nat.le_refl 9

theorem intLength_unsigned {k n : ℕ} (hk : Width k) (hn : n < 256 ^ k) : intLength n ≤ k + 1 := by
  rcases hk with rfl | rfl | rfl | rfl <;>
  · unfold intLength
    split_ifs <;> omega

theorem intLength_signed {k n : ℕ} (hk : Width k) (hn : n < 256 ^ k) : intLength (signed k n) ≤ k + 1 := by
  rcases hk with rfl | rfl | rfl | rfl <;>
  · obtain ⟨hl, hu⟩ := signed_bounds (by omega) hn
    norm_num at hl hu
    unfold intLength
    split_ifs <;> omega

theorem headLength_le {k n : ℕ} (hk : k = 2 ∨ k = 4) (hn : n < 256 ^ k) :
    headLength (UInt32.ofNat n).toNat ≤ k + 1 := by
  rw [UInt32.toNat_ofNat']
  rcases hk with rfl | rfl <;>
  · unfold headLength
    split_ifs <;> omega

theorem spends_unsigned {k : ℕ} (hk : Width k) : Spends (andThen (field k) fun n => done (.int n)) Fits :=
  spends_number fun _ hn => intLength_unsigned hk hn

theorem spends_signed {k : ℕ} (hk : Width k) : Spends (andThen (field k) fun n => done (.int (signed k n))) Fits :=
  spends_number fun _ hn => intLength_signed hk hn

theorem spends_array {k : ℕ} (hk : k = 2 ∨ k = 4) :
    Spends (andThen (field k) fun n => done (.array (UInt32.ofNat n))) Fits :=
  spends_number fun _ hn => headLength_le hk hn

theorem spends_map {k : ℕ} (hk : k = 2 ∨ k = 4) :
    Spends (andThen (field k) fun n => done (.map (UInt32.ofNat n))) Fits :=
  spends_number fun _ hn => headLength_le hk hn

theorem sizedLength_le {k n : ℕ} (hk : k = 1 ∨ k = 2 ∨ k = 4) (hn : n < 256 ^ k) : sizedLength n ≤ k + n + 1 := by
  rcases hk with rfl | rfl | rfl <;>
  · unfold sizedLength
    split_ifs <;> omega

theorem spends_str {k : ℕ} (hk : k = 1 ∨ k = 2 ∨ k = 4) : Spends (sized k .str) Fits := by
  apply spends_sized
  intro bs hbs
  have hle := sizedLength_le hk hbs
  rw [Item.size]
  split_ifs <;> omega

theorem spends_bin {k : ℕ} (hk : k = 1 ∨ k = 2 ∨ k = 4) : Spends (sized k .bin) Fits :=
  spends_sized fun _ hbs => sizedLength_le hk hbs

theorem spends_ext {k : ℕ} (hk : k = 2 ∨ k = 4) : Spends (andThen (field k) typed) Fits := by
  apply spends_field
  intro n hn
  apply spends_typed
  rcases hk with rfl | rfl <;>
  · unfold extLength
    split_ifs <;> omega

theorem spends_body {c : ℕ} (hc : c < 256) : Spends (body c) Fits := by
  unfold body
  split_ifs with h1 h2 h3 h4 h5
  · apply spends_done
    simp only [Fits, Item.size, intLength]
    split_ifs <;> omega
  · apply spends_done
    simp only [Fits, Item.size, headLength, UInt32.toNat_ofNat']
    split_ifs <;> omega
  · apply spends_done
    simp only [Fits, Item.size, headLength, UInt32.toNat_ofNat']
    split_ifs <;> omega
  · apply spends_blob
    intro x hx
    apply spends_done
    simp only [Fits, Item.size, if_pos (show x.length < 32 by omega)]
    omega
  · apply spends_done
    have hz : signed 1 c = (c : ℤ) - 256 := by
      rw [signed, if_neg (by omega)]
      rfl
    simp only [Fits, Item.size, intLength, hz]
    split_ifs <;> omega
  · split <;> first
      | exact spends_done (le_refl 1)
      | exact spends_str (by decide)
      | exact spends_bin (by decide)
      | exact spends_ext8
      | exact spends_float
      | exact spends_double
      | exact spends_ext (by decide)
      | exact spends_fixext (by decide)
      | exact spends_fail
      | exact spends_unsigned (by unfold Width; decide)
      | exact spends_signed (by unfold Width; decide)
      | exact spends_array (by decide)
      | exact spends_map (by decide)

theorem Encodes.size_le {it : Item} {e : List UInt8} (h : Encodes it e) : it.size ≤ e.length := by
  cases e with
  | nil => cases h
  | cons b bs => exact spends_body b.toNat_lt h

def Item.InRange : Item → Prop
  | .int z => -2 ^ 63 ≤ z ∧ z < 2 ^ 64
  | _ => True

def Ranged (f : Reader Item) : Prop := Spends f fun it _ => it.InRange

theorem ranged_number {k : ℕ} {item : ℕ → Item} (h : ∀ n < 256 ^ k, (item n).InRange) :
    Ranged (andThen (field k) fun n => done (item n)) := by
  apply spends_field
  intro n hn
  exact spends_done (h n hn)

theorem ranged_unsigned {k : ℕ} (hk : Width k) : Ranged (andThen (field k) fun n => done (.int n)) := by
  apply ranged_number
  intro n hn
  rcases hk with rfl | rfl | rfl | rfl <;>
  · simp only [Item.InRange]
    omega

theorem ranged_signed {k : ℕ} (hk : Width k) : Ranged (andThen (field k) fun n => done (.int (signed k n))) := by
  apply ranged_number
  intro n hn
  rcases hk with rfl | rfl | rfl | rfl <;>
  · obtain ⟨hl, hu⟩ := signed_bounds (by omega) hn
    norm_num at hl hu
    simp only [Item.InRange]
    omega

theorem ranged_blob {n : ℕ} {item : List UInt8 → Item} (h : ∀ bs, (item bs).InRange) :
    Ranged (andThen (blob n) fun bs => done (item bs)) := by
  apply spends_blob
  intro bs _
  exact spends_done (h bs)

theorem ranged_sized {k : ℕ} {item : List UInt8 → Item} (h : ∀ bs, (item bs).InRange) : Ranged (sized k item) :=
  spends_field fun _ _ => ranged_blob h

theorem ranged_typed (n : ℕ) : Ranged (typed n) :=
  spends_field fun _ _ => ranged_blob fun _ => trivial

theorem ranged_ext8 : Ranged ext8 := by
  apply spends_field
  intro n _
  apply spends_field
  intro t _
  split_ifs
  · exact spends_field fun _ _ => ranged_number fun _ _ => trivial
  · exact spends_fail
  · exact ranged_blob fun _ => trivial

theorem ranged_fixext (n : ℕ) : Ranged (fixext n) := by
  apply spends_blob
  intro x _
  dsimp only
  split_ifs
  · exact spends_done trivial
  · exact spends_done trivial
  · exact spends_fail
  · exact spends_done trivial

theorem ranged_body {c : ℕ} (hc : c < 256) : Ranged (body c) := by
  unfold body
  split_ifs with h1 h2 h3 h4 h5
  · refine spends_done ⟨?_, ?_⟩ <;> omega
  · exact spends_done trivial
  · exact spends_done trivial
  · exact ranged_blob fun _ => trivial
  · obtain ⟨hl, hu⟩ := signed_bounds (k := 1) (by decide) hc
    norm_num at hl hu
    refine spends_done ⟨?_, ?_⟩ <;> omega
  · split <;> first
      | exact spends_done trivial
      | exact ranged_sized fun _ => trivial
      | exact ranged_ext8
      | exact spends_field fun n _ => ranged_typed n
      | exact ranged_fixext _
      | exact spends_fail
      | exact ranged_unsigned (by unfold Width; decide)
      | exact ranged_signed (by unfold Width; decide)
      | exact ranged_number fun _ _ => trivial

theorem Encodes.inRange {it : Item} {e : List UInt8} (h : Encodes it e) : it.InRange := by
  cases e with
  | nil => cases h
  | cons b bs => exact ranged_body b.toNat_lt h

end MessagePack
