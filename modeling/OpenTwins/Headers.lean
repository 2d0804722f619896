import OpenTwins.MessagePack

namespace MessagePack

abbrev Extent := List UInt8 → ℕ

def stop : Extent := fun _ => 0

def look (k : ℕ) (next : ℕ → Extent) : Extent := fun bs =>
  match field k bs with
  | none => 0
  | some (n, r) => k + next n r

def ext8Extent : Extent := look 1 fun n => look 1 fun t =>
  if t = 0xff ∧ n = 12 then look 4 fun _ => look 8 fun _ => stop else stop

/-- The type is looked at only if the bytes behind it are there too. -/
def fixextExtent (len : ℕ) : Extent := fun bs =>
  if bs.length < len + 1 then 0
  else look 1 (fun t => if t = 0xff ∧ (len = 4 ∨ len = 8) then look len fun _ => stop else stop) bs

def bodyExtent (c : ℕ) : Extent :=
  if c < 0xc0 ∨ 0xe0 ≤ c then stop
  else match c with
    | 0xc0 | 0xc2 | 0xc3 => stop
    | 0xc4 | 0xcc | 0xd0 | 0xd9 => look 1 fun _ => stop
    | 0xc5 | 0xcd | 0xd1 | 0xda | 0xdc | 0xde => look 2 fun _ => stop
    | 0xc6 | 0xca | 0xce | 0xd2 | 0xdb | 0xdd | 0xdf => look 4 fun _ => stop
    | 0xcb | 0xcf | 0xd3 => look 8 fun _ => stop
    | 0xc7 => ext8Extent
    | 0xc8 => look 2 fun _ => look 1 fun _ => stop
    | 0xc9 => look 4 fun _ => look 1 fun _ => stop
    | 0xd4 => fixextExtent 1
    | 0xd5 => fixextExtent 2
    | 0xd6 => fixextExtent 4
    | 0xd7 => fixextExtent 8
    | 0xd8 => fixextExtent 16
    | _ => stop

def headerSize : Extent := look 1 bodyExtent

theorem look_none {k : ℕ} {next : ℕ → Extent} {bs : List UInt8} (h : bs.length < k) : look k next bs = 0 := by
  rw [look, field, if_neg (by omega)]

theorem look_some {k : ℕ} {bs : List UInt8} (next : ℕ → Extent) (h : k ≤ bs.length) :
    look k next bs = k + next (ofBytes (bs.take k)) (bs.drop k) := by
  rw [look, field, if_pos h]

def Contained (e : Extent) : Prop := ∀ bs, e bs ≤ bs.length

theorem contained_stop : Contained stop := fun _ => Nat.zero_le _

theorem contained_look {k : ℕ} {next : ℕ → Extent} (h : ∀ n, Contained (next n)) : Contained (look k next) := by
  intro bs
  by_cases hk : k ≤ bs.length
  · have hn := h (ofBytes (bs.take k)) (bs.drop k)
    rw [List.length_drop] at hn
    rw [look_some next hk]
    omega
  · rw [look_none (by omega)]
    exact Nat.zero_le _

theorem contained_ite {p : Prop} [Decidable p] {e e' : Extent} (h : Contained e) (h' : Contained e') :
    Contained (if p then e else e') := by
  split_ifs
  · exact h
  · exact h'

theorem contained_number (k : ℕ) : Contained (look k fun _ => stop) := contained_look fun _ => contained_stop

theorem contained_ext8 : Contained ext8Extent :=
  contained_look fun _ => contained_look fun _ =>
    contained_ite (contained_look fun _ => contained_number 8) contained_stop

theorem contained_fixext (len : ℕ) : Contained (fixextExtent len) := by
  intro bs
  unfold fixextExtent
  split_ifs
  · exact Nat.zero_le _
  · exact contained_look (fun _ => contained_ite (contained_number len) contained_stop) bs

theorem contained_body (c : ℕ) : Contained (bodyExtent c) := by
  unfold bodyExtent
  apply contained_ite contained_stop
  split
  all_goals first
    | exact contained_number _
    | exact contained_ext8
    | exact contained_look fun _ => contained_number 1
    | exact contained_fixext _
    | exact contained_stop

theorem headerSize_le : Contained headerSize := contained_look contained_body

end MessagePack
