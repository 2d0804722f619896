import Mathlib.Data.List.Basic
import Mathlib.Data.Nat.Basic
import Mathlib.Tactic.SplitIfs
import Mathlib.Tactic.Ring
import Mathlib.Tactic.Linarith

/-!
The MessagePack format, item by item: an array or a map is read as its header alone and
its elements are the items that follow.
-/

namespace MessagePack

inductive Item
  | nil
  | bool (b : Bool)
  | int (z : ℤ)
  | float (bits : UInt32)
  | double (bits : UInt64)
  | str (bytes : List UInt8)
  | bin (bytes : List UInt8)
  | ext (type : ℤ) (bytes : List UInt8)
  | timestamp (seconds : UInt64) (nanoseconds : UInt32)
  | array (size : UInt32)
  | map (size : UInt32)
deriving DecidableEq

def ofBytes (bs : List UInt8) : ℕ := bs.foldl (fun n b => 256 * n + b.toNat) 0

def toBytes : ℕ → ℕ → List UInt8
  | 0, _ => []
  | k + 1, n => UInt8.ofNat (n / 256 ^ k) :: toBytes k n

def signed (k n : ℕ) : ℤ := if n < 2 ^ (8 * k - 1) then n else n - 2 ^ (8 * k)

@[simp] theorem toBytes_length (k n : ℕ) : (toBytes k n).length = k := by
  induction k with
  | zero => rfl
  | succ k ih => simp [toBytes, ih]

theorem foldl_bytes (bs : List UInt8) (n : ℕ) :
    bs.foldl (fun n b => 256 * n + b.toNat) n = n * 256 ^ bs.length + ofBytes bs := by
  unfold ofBytes
  induction bs generalizing n with
  | nil => simp
  | cons b bs ih =>
    simp only [List.foldl_cons, List.length_cons]
    rw [ih, ih (256 * 0 + b.toNat)]
    ring

theorem ofBytes_cons (b : UInt8) (bs : List UInt8) :
    ofBytes (b :: bs) = b.toNat * 256 ^ bs.length + ofBytes bs := by
  rw [ofBytes, List.foldl_cons, foldl_bytes]
  simp

theorem ofBytes_toBytes (k n : ℕ) : ofBytes (toBytes k n) = n % 256 ^ k := by
  induction k with
  | zero => simp [toBytes, ofBytes, Nat.mod_one]
  | succ k ih =>
    have hm : n % (256 ^ k * 256) = n % 256 ^ k + 256 ^ k * (n / 256 ^ k % 256) := Nat.mod_mul
    rw [toBytes, ofBytes_cons, ih, toBytes_length, UInt8.toNat_ofNat', show 2 ^ 8 = 256 from rfl,
      show 256 ^ (k + 1) = 256 ^ k * 256 from Nat.pow_succ .., hm, Nat.mul_comm, Nat.add_comm]

theorem ofBytes_lt (bs : List UInt8) : ofBytes bs < 256 ^ bs.length := by
  induction bs with
  | nil => simp [ofBytes]
  | cons b bs ih =>
    rw [ofBytes_cons, List.length_cons, Nat.pow_succ]
    have hb : b.toNat < 256 := b.toNat_lt
    nlinarith

abbrev Reader (α : Type) := List UInt8 → Option (α × List UInt8)

def Local {α : Type} (f : Reader α) : Prop :=
  ∀ ⦃bs x r⦄, f bs = some (x, r) → ∃ e, bs = e ++ r ∧ ∀ t, f (e ++ t) = some (x, t)

def field (k : ℕ) : Reader ℕ := fun bs =>
  if k ≤ bs.length then some (ofBytes (bs.take k), bs.drop k) else none

def blob (n : ℕ) : Reader (List UInt8) := fun bs =>
  if n ≤ bs.length then some (bs.take n, bs.drop n) else none

def done {α : Type} (x : α) : Reader α := fun bs => some (x, bs)

def andThen {α β : Type} (f : Reader α) (g : α → Reader β) : Reader β := fun bs =>
  (f bs).bind fun p => g p.1 p.2

def fail {α : Type} : Reader α := fun _ => none

theorem local_done {α : Type} (x : α) : Local (done x) := by
  intro bs y r h
  simp only [done, Option.some.injEq, Prod.mk.injEq] at h
  obtain ⟨rfl, rfl⟩ := h
  exact ⟨[], rfl, fun t => rfl⟩

theorem local_fail {α : Type} : Local (fail : Reader α) := by
  intro bs y r h
  cases h

theorem local_andThen {α β : Type} {f : Reader α} {g : α → Reader β} (hf : Local f)
    (hg : ∀ x, Local (g x)) : Local (andThen f g) := by
  intro bs y r h
  obtain ⟨⟨x, r'⟩, hx, hy⟩ := Option.bind_eq_some_iff.mp h
  obtain ⟨e, rfl, he⟩ := hf hx
  obtain ⟨e', rfl, he'⟩ := hg x hy
  refine ⟨e ++ e', (List.append_assoc _ _ _).symm, ?_⟩
  intro t
  rw [andThen, List.append_assoc, he, Option.bind_some]
  exact he' t

theorem take_append_of_length (bs t : List UInt8) (n : ℕ) (h : n ≤ bs.length) :
    (bs.take n ++ t).take n = bs.take n ∧ (bs.take n ++ t).drop n = t := by
  have hn : (bs.take n).length = n := by simpa using h
  exact ⟨List.take_left' hn, List.drop_left' hn⟩

theorem local_field (k : ℕ) : Local (field k) := by
  intro bs n r h
  unfold field at h
  split_ifs at h with hk
  cases h
  refine ⟨bs.take k, (List.take_append_drop k bs).symm, ?_⟩
  intro t
  obtain ⟨ht, hd⟩ := take_append_of_length bs t k hk
  rw [field, if_pos (by simp; omega), ht, hd]

theorem local_blob (n : ℕ) : Local (blob n) := by
  intro bs x r h
  unfold blob at h
  split_ifs at h with hn
  cases h
  refine ⟨bs.take n, (List.take_append_drop n bs).symm, ?_⟩
  intro t
  obtain ⟨ht, hd⟩ := take_append_of_length bs t n hn
  rw [blob, if_pos (by simp; omega), ht, hd]

def sized (k : ℕ) (item : List UInt8 → Item) : Reader Item :=
  andThen (field k) fun n => andThen (blob n) fun x => done (item x)

def typed (n : ℕ) : Reader Item :=
  andThen (field 1) fun t => andThen (blob n) fun x => done (.ext (signed 1 t) x)

def ext8 : Reader Item :=
  andThen (field 1) fun n => andThen (field 1) fun t =>
    if t = 0xff then
      if n = 12 then andThen (field 4) fun ns => andThen (field 8) fun s =>
        done (.timestamp (UInt64.ofNat s) (UInt32.ofNat ns))
      else fail
    else andThen (blob n) fun x => done (.ext (signed 1 t) x)

def fixext (n : ℕ) : Reader Item :=
  andThen (blob (n + 1)) fun x =>
    let t := ofBytes (x.take 1)
    let v := ofBytes (x.drop 1)
    if t = 0xff then
      if n = 4 then done (.timestamp (UInt64.ofNat v) 0)
      else if n = 8 then done (.timestamp (UInt64.ofNat (v % 2 ^ 34)) (UInt32.ofNat (v / 2 ^ 34)))
      else fail
    else done (.ext (signed 1 t) (x.drop 1))

def body (c : ℕ) : Reader Item :=
  if c < 0x80 then done (.int c)
  else if c < 0x90 then done (.map (UInt32.ofNat (c - 0x80)))
  else if c < 0xa0 then done (.array (UInt32.ofNat (c - 0x90)))
  else if c < 0xc0 then andThen (blob (c - 0xa0)) fun x => done (.str x)
  else if 0xe0 ≤ c then done (.int (signed 1 c))
  else match c with
    | 0xc0 => done .nil
    | 0xc2 => done (.bool false)
    | 0xc3 => done (.bool true)
    | 0xc4 => sized 1 .bin
    | 0xc5 => sized 2 .bin
    | 0xc6 => sized 4 .bin
    | 0xc7 => ext8
    | 0xc8 => andThen (field 2) typed
    | 0xc9 => andThen (field 4) typed
    | 0xca => andThen (field 4) fun n => done (.float (UInt32.ofNat n))
    | 0xcb => andThen (field 8) fun n => done (.double (UInt64.ofNat n))
    | 0xcc => andThen (field 1) fun n => done (.int n)
    | 0xcd => andThen (field 2) fun n => done (.int n)
    | 0xce => andThen (field 4) fun n => done (.int n)
    | 0xcf => andThen (field 8) fun n => done (.int n)
    | 0xd0 => andThen (field 1) fun n => done (.int (signed 1 n))
    | 0xd1 => andThen (field 2) fun n => done (.int (signed 2 n))
    | 0xd2 => andThen (field 4) fun n => done (.int (signed 4 n))
    | 0xd3 => andThen (field 8) fun n => done (.int (signed 8 n))
    | 0xd4 => fixext 1
    | 0xd5 => fixext 2
    | 0xd6 => fixext 4
    | 0xd7 => fixext 8
    | 0xd8 => fixext 16
    | 0xd9 => sized 1 .str
    | 0xda => sized 2 .str
    | 0xdb => sized 4 .str
    | 0xdc => andThen (field 2) fun n => done (.array (UInt32.ofNat n))
    | 0xdd => andThen (field 4) fun n => done (.array (UInt32.ofNat n))
    | 0xde => andThen (field 2) fun n => done (.map (UInt32.ofNat n))
    | 0xdf => andThen (field 4) fun n => done (.map (UInt32.ofNat n))
    | _ => fail

def decode : Reader Item
  | [] => none
  | b :: bs => body b.toNat bs

theorem local_sized (k : ℕ) (item : List UInt8 → Item) : Local (sized k item) :=
  local_andThen (local_field k) fun n => local_andThen (local_blob n) fun _ => local_done _

theorem local_typed (n : ℕ) : Local (typed n) :=
  local_andThen (local_field 1) fun _ => local_andThen (local_blob n) fun _ => local_done _

theorem local_ext8 : Local ext8 := by
  apply local_andThen (local_field 1)
  intro n
  apply local_andThen (local_field 1)
  intro t
  split_ifs
  · exact local_andThen (local_field 4) fun _ => local_andThen (local_field 8) fun _ => local_done _
  · exact local_fail
  · exact local_andThen (local_blob n) fun _ => local_done _

theorem local_fixext (n : ℕ) : Local (fixext n) := by
  apply local_andThen (local_blob _)
  intro x
  dsimp only
  split_ifs
  · exact local_done _
  · exact local_done _
  · exact local_fail
  · exact local_done _

theorem local_scalar (k : ℕ) (item : ℕ → Item) : Local (andThen (field k) fun n => done (item n)) :=
  local_andThen (local_field k) fun _ => local_done _

theorem local_body (c : ℕ) : Local (body c) := by
  unfold body
  split_ifs
  · exact local_done _
  · exact local_done _
  · exact local_done _
  · exact local_andThen (local_blob _) fun _ => local_done _
  · exact local_done _
  · split <;> first
      | exact local_done _
      | exact local_sized _ _
      | exact local_scalar _ _
      | exact local_fixext _
      | exact local_ext8
      | exact local_andThen (local_field _) local_typed
      | exact local_fail

theorem local_decode : Local decode := by
  intro bs x r h
  cases bs with
  | nil => cases h
  | cons b bs =>
    obtain ⟨e, rfl, he⟩ := local_body b.toNat h
    exact ⟨b :: e, rfl, he⟩

def Encodes (it : Item) (e : List UInt8) : Prop := decode e = some (it, [])

instance (it : Item) (e : List UInt8) : Decidable (Encodes it e) := by
  unfold Encodes; infer_instance

theorem Encodes.decode_append {it : Item} {e : List UInt8} (h : Encodes it e) (t : List UInt8) :
    decode (e ++ t) = some (it, t) := by
  obtain ⟨e', he, hd⟩ := local_decode h
  rw [List.append_nil] at he
  exact he ▸ hd t

theorem decode_split {it : Item} {bs r : List UInt8} (h : decode bs = some (it, r)) :
    ∃ e, bs = e ++ r ∧ Encodes it e := by
  obtain ⟨e, rfl, he⟩ := local_decode h
  exact ⟨e, rfl, by simpa [Encodes] using he []⟩

theorem Encodes.ne_nil {it : Item} {e : List UInt8} (h : Encodes it e) : e ≠ [] := by
  rintro rfl
  cases h

theorem Encodes.length_pos {it : Item} {e : List UInt8} (h : Encodes it e) : 0 < e.length :=
  List.length_pos_iff.mpr h.ne_nil

theorem Encodes.decode_prefix {it : Item} {p s : List UInt8} (h : Encodes it (p ++ s))
    (hs : s ≠ []) : decode p = none := by
  cases hp : decode p with
  | none => rfl
  | some q =>
    obtain ⟨it', r⟩ := q
    obtain ⟨e, rfl, he⟩ := decode_split hp
    have hd := he.decode_append (r ++ s)
    rw [← List.append_assoc, show decode (e ++ r ++ s) = some (it, []) from h] at hd
    simp only [Option.some.injEq, Prod.mk.injEq, List.nil_eq, List.append_eq_nil_iff] at hd
    exact absurd hd.2.2 hs

inductive EncodesAll : List Item → List UInt8 → Prop
  | nil : EncodesAll [] []
  | cons {it : Item} {its : List Item} {e bs : List UInt8} :
      Encodes it e → EncodesAll its bs → EncodesAll (it :: its) (e ++ bs)

theorem EncodesAll.append {its its' : List Item} {bs bs' : List UInt8} (h : EncodesAll its bs)
    (h' : EncodesAll its' bs') : EncodesAll (its ++ its') (bs ++ bs') := by
  induction h with
  | nil => exact h'
  | cons he _ ih =>
    rw [List.cons_append, List.append_assoc]
    exact .cons he ih

theorem EncodesAll.flatMap {α : Type} {f : α → List Item} {g : α → List UInt8} {xs : List α}
    (h : ∀ x ∈ xs, EncodesAll (f x) (g x)) : EncodesAll (xs.flatMap f) (xs.flatMap g) := by
  induction xs with
  | nil => exact .nil
  | cons x xs ih => exact (h x List.mem_cons_self).append (ih fun y hy => h y (List.mem_cons_of_mem x hy))

theorem EncodesAll.exists_encodes {its : List Item} {bs : List UInt8} (h : EncodesAll its bs) {it : Item}
    (hit : it ∈ its) : ∃ e, Encodes it e := by
  induction h with
  | nil => cases hit
  | cons he _ ih =>
    rcases List.mem_cons.mp hit with rfl | hit
    · exact ⟨_, he⟩
    · exact ih hit

theorem EncodesAll.length_le {its : List Item} {bs : List UInt8} (h : EncodesAll its bs) :
    its.length ≤ bs.length := by
  induction h with
  | nil => simp
  | cons he _ ih =>
    have := he.length_pos
    simp only [List.length_cons, List.length_append]
    omega

def takeItems : ℕ → List UInt8 → List Item
  | 0, _ => []
  | fuel + 1, bs =>
    match decode bs with
    | none => []
    | some (it, r) => it :: takeItems fuel r

def itemsOf (bs : List UInt8) : List Item := takeItems bs.length bs

theorem takeItems_encoded {its : List Item} {q r : List UInt8} (hq : EncodesAll its q)
    (hr : decode r = none) {fuel : ℕ} (hf : its.length ≤ fuel) : takeItems fuel (q ++ r) = its := by
  induction hq generalizing fuel with
  | nil =>
    cases fuel with
    | zero => rfl
    | succ fuel => rw [List.nil_append, takeItems, hr]
  | cons he _ ih =>
    cases fuel with
    | zero => cases hf
    | succ fuel =>
      rw [takeItems, List.append_assoc, he.decode_append]
      simp only
      rw [ih (Nat.le_of_succ_le_succ hf)]

theorem itemsOf_encoded {its : List Item} {q r : List UInt8} (hq : EncodesAll its q)
    (hr : decode r = none) : itemsOf (q ++ r) = its := by
  apply takeItems_encoded hq hr
  rw [List.length_append]
  exact hq.length_le.trans (Nat.le_add_right _ _)

theorem exists_items (bs : List UInt8) :
    ∃ q r, bs = q ++ r ∧ EncodesAll (itemsOf bs) q ∧ decode r = none := by
  suffices h : ∃ its q r, bs = q ++ r ∧ EncodesAll its q ∧ decode r = none by
    obtain ⟨its, q, r, rfl, hq, hr⟩ := h
    exact ⟨q, r, rfl, by rwa [itemsOf_encoded hq hr], hr⟩
  induction hn : bs.length using Nat.strong_induction_on generalizing bs with
  | _ n ih =>
    cases hd : decode bs with
    | none => exact ⟨[], [], bs, rfl, .nil, hd⟩
    | some p =>
      obtain ⟨it, r⟩ := p
      obtain ⟨e, rfl, he⟩ := decode_split hd
      have hpos := he.length_pos
      obtain ⟨its, q, r', rfl, hq, hr⟩ := ih r.length (by rw [← hn, List.length_append]; omega) r rfl
      exact ⟨it :: its, e ++ q, r', (List.append_assoc _ _ _).symm, .cons he hq, hr⟩

theorem itemsOf_complete {its : List Item} {bs : List UInt8} (h : EncodesAll its bs) : itemsOf bs = its := by
  simpa using itemsOf_encoded h (r := []) rfl

theorem field_toBytes {k n : ℕ} (h : n < 256 ^ k) : field k (toBytes k n) = some (n, []) := by
  rw [field, if_pos (toBytes_length k n).ge, List.take_of_length_le (toBytes_length k n).le,
    List.drop_of_length_le (toBytes_length k n).le, ofBytes_toBytes, Nat.mod_eq_of_lt h]

theorem encodes_number {c k n : ℕ} {item : ℕ → Item} (hc : c < 256)
    (hb : body c = andThen (field k) fun n => done (item n)) (hn : n < 256 ^ k) :
    Encodes (item n) (UInt8.ofNat c :: toBytes k n) := by
  rw [Encodes, decode, UInt8.toNat_ofNat_of_lt' hc, hb, andThen, field_toBytes hn]
  rfl

theorem encodes_single {c : ℕ} {it : Item} (hc : c < 256) (hb : body c = done it) :
    Encodes it [UInt8.ofNat c] := by
  rw [Encodes, decode, UInt8.toNat_ofNat_of_lt' hc, hb]
  rfl

theorem encodes_fixstr {bs : List UInt8} (h : bs.length < 32) :
    Encodes (.str bs) (UInt8.ofNat (0xa0 + bs.length) :: bs) := by
  have hc : 0xa0 + bs.length < 256 := by omega
  rw [Encodes, decode, UInt8.toNat_ofNat_of_lt' hc]
  unfold body
  rw [if_neg (by omega), if_neg (by omega), if_neg (by omega), if_pos (by omega),
    Nat.add_sub_cancel_left]
  simp [andThen, blob, done]

theorem encodes_sized {c k : ℕ} {item : List UInt8 → Item} {bs : List UInt8} (hc : c < 256)
    (hb : body c = sized k item) (h : bs.length < 256 ^ k) :
    Encodes (item bs) (UInt8.ofNat c :: (toBytes k bs.length ++ bs)) := by
  obtain ⟨e, he, hf⟩ := local_field k (field_toBytes h)
  rw [List.append_nil] at he
  rw [Encodes, decode, UInt8.toNat_ofNat_of_lt' hc, hb, sized, andThen, he, hf bs]
  simp [andThen, blob, done]

def Item.arity : Item → ℕ
  | .array n => n.toNat
  | .map n => 2 * n.toNat
  | _ => 0

inductive Complete : ℕ → List UInt8 → Prop
  | nil : Complete 0 []
  | cons {n : ℕ} {it : Item} {e bs : List UInt8} :
      Encodes it e → Complete (it.arity + n) bs → Complete (n + 1) (e ++ bs)

inductive Closed : ℕ → List Item → Prop
  | nil : Closed 0 []
  | cons {n : ℕ} {it : Item} {its : List Item} : Closed (it.arity + n) its → Closed (n + 1) (it :: its)

theorem Closed.append {n m : ℕ} {its its' : List Item} (h : Closed n its) (h' : Closed m its') :
    Closed (n + m) (its ++ its') := by
  induction h with
  | nil => rwa [Nat.zero_add]
  | cons _ ih =>
    rw [Nat.add_right_comm]
    apply Closed.cons
    rwa [← Nat.add_assoc]

theorem Closed.container {it : Item} {its : List Item} (h : Closed it.arity its) : Closed 1 (it :: its) :=
  .cons h

theorem closed_scalars {its : List Item} (h : ∀ it ∈ its, it.arity = 0) : Closed its.length its := by
  induction its with
  | nil => exact .nil
  | cons it its ih =>
    apply Closed.cons
    rw [h it (by simp), Nat.zero_add]
    exact ih fun it' hit => h it' (by simp [hit])

theorem closed_flatMap {α : Type} {f : α → List Item} (xs : List α) (h : ∀ x ∈ xs, Closed 1 (f x)) :
    Closed xs.length (xs.flatMap f) := by
  induction xs with
  | nil => exact .nil
  | cons x xs ih =>
    rw [List.flatMap_cons, List.length_cons, Nat.add_comm]
    exact (h x (by simp)).append (ih fun y hy => h y (by simp [hy]))

theorem EncodesAll.complete {n : ℕ} {its : List Item} {bs : List UInt8} (h : EncodesAll its bs)
    (hw : Closed n its) : Complete n bs := by
  induction h generalizing n with
  | nil =>
    cases hw
    exact .nil
  | cons he _ ih =>
    cases hw with
    | cons hw => exact .cons he (ih hw)

theorem EncodesAll.cut {its : List Item} {bs p s : List UInt8} (h : EncodesAll its bs)
    (hp : bs = p ++ s) (hs : s ≠ []) :
    ∃ done next rest q r, its = done ++ next :: rest ∧ p = q ++ r ∧ EncodesAll done q ∧
      ∃ r', r' ≠ [] ∧ Encodes next (r ++ r') := by
  induction h generalizing p with
  | nil => exact absurd (List.append_eq_nil_iff.mp hp.symm).2 hs
  | @cons it its e bs he hb ih =>
    rcases List.append_eq_append_iff.mp hp with ⟨a, rfl, hbs⟩ | ⟨a, rfl, rfl⟩
    · obtain ⟨d, n, rest, q, r, rfl, rfl, hd, hn⟩ := ih hbs
      exact ⟨it :: d, n, rest, e ++ q, r, rfl, (List.append_assoc _ _ _).symm, .cons he hd, hn⟩
    · by_cases ha : a = []
      · subst ha
        obtain ⟨d, n, rest, q, r, rfl, hq, hd, hn⟩ := ih (p := []) (by simp)
        obtain ⟨rfl, rfl⟩ := List.append_eq_nil_iff.mp hq.symm
        exact ⟨it :: d, n, rest, p ++ [], [], rfl, by simp, .cons (by simpa using he) hd, hn⟩
      · exact ⟨[], it, its, [], p, rfl, rfl, .nil, a, ha, he⟩

end MessagePack
