import OpenTwins.FixedArray
import Mathlib.Data.List.Range
import Mathlib.Tactic.SplitIfs

structure RingBuffer (α : Type) (n : ℕ) where
  buffer : FixedArray α n
  head : ℕ
  tail : ℕ
  head_lt : head < n
  tail_lt : tail < n

namespace RingBuffer

variable {α : Type} {n : ℕ}

theorem succ_mod {i : ℕ} (h : i < n) : (i + 1) % n = if i + 1 < n then i + 1 else 0 := by
  split_ifs with hi
  · exact Nat.mod_eq_of_lt hi
  · rw [show i + 1 = n by omega, Nat.mod_self]

theorem add_mod {i j : ℕ} (hi : i < n) (hj : j ≤ n) :
    (i + j) % n = if i + j < n then i + j else i + j - n := by
  split_ifs with h
  · exact Nat.mod_eq_of_lt h
  · rw [Nat.mod_eq_sub_mod (by omega)]
    exact Nat.mod_eq_of_lt (by omega)

theorem size_pos (q : RingBuffer α n) : 0 < n := (Nat.zero_le _).trans_lt q.head_lt

theorem next_lt (q : RingBuffer α n) : (q.head + 1) % n < n := Nat.mod_lt _ q.size_pos

variable (q : RingBuffer α n)

def held : ℕ := if q.tail ≤ q.head then q.head - q.tail else q.head + n - q.tail

def slot (i : ℕ) : Fin n := ⟨(q.tail + i) % n, Nat.mod_lt _ q.size_pos⟩

def contents : List α := (List.range q.held).map fun i => q.buffer (q.slot i)

def Full : Prop := (q.head + 1) % n = q.tail
def Empty : Prop := q.head = q.tail

instance : Decidable q.Full := inferInstanceAs (Decidable (_ = _))
instance : Decidable q.Empty := inferInstanceAs (Decidable (_ = _))

def fill (x : α) : RingBuffer α n := { q with buffer := Function.update q.buffer ⟨q.head, q.head_lt⟩ x }

def advanceHead : RingBuffer α n :=
  { q with head := (q.head + 1) % n, head_lt := Nat.mod_lt _ q.size_pos }

def advanceTail : RingBuffer α n :=
  { q with tail := (q.tail + 1) % n, tail_lt := Nat.mod_lt _ q.size_pos }

def push (x : α) : RingBuffer α n := (q.fill x).advanceHead

def front : α := q.buffer ⟨q.tail, q.tail_lt⟩

theorem held_lt : q.held < n := by
  have := q.head_lt
  have := q.tail_lt
  unfold held
  split_ifs <;> omega

@[simp] theorem length_contents : q.contents.length = q.held := by simp [contents]

def free : ℕ := n - 1 - q.held

theorem full_iff : q.Full ↔ q.held = n - 1 := by
  have := q.head_lt
  have := q.tail_lt
  unfold Full held
  rw [succ_mod q.head_lt]
  split_ifs <;> omega

theorem full_iff_free : q.Full ↔ q.free = 0 := by
  have := q.held_lt
  rw [full_iff, free]
  omega

theorem empty_iff : q.Empty ↔ q.held = 0 := by
  have := q.head_lt
  have := q.tail_lt
  unfold Empty held
  split_ifs <;> omega

theorem slot_ne_head {i : ℕ} (hi : i < q.held) : q.slot i ≠ ⟨q.head, q.head_lt⟩ := by
  have := q.head_lt
  have ht := q.tail_lt
  have hl := q.held_lt
  simp only [slot, ne_eq, Fin.mk.injEq]
  rw [add_mod ht (by omega)]
  unfold held at hi
  split_ifs at hi ⊢ <;> omega

theorem slot_held : q.slot q.held = ⟨q.head, q.head_lt⟩ := by
  have := q.head_lt
  have ht := q.tail_lt
  have hl := q.held_lt
  simp only [slot, Fin.mk.injEq]
  rw [add_mod ht (by omega)]
  unfold held at hl ⊢
  split_ifs at hl ⊢ <;> omega

theorem contents_fill (x : α) : (q.fill x).contents = q.contents := by
  unfold contents
  apply List.map_congr_left
  intro i hi
  have hi' : i < q.held := List.mem_range.mp hi
  exact Function.update_of_ne (q.slot_ne_head hi') _ _

theorem held_advanceHead (h : ¬ q.Full) : q.advanceHead.held = q.held + 1 := by
  have := q.head_lt
  have := q.tail_lt
  unfold Full at h
  simp only [advanceHead, held, succ_mod q.head_lt] at h ⊢
  split_ifs at h ⊢ <;> omega

theorem contents_advanceHead (h : ¬ q.Full) :
    q.advanceHead.contents = q.contents ++ [q.buffer ⟨q.head, q.head_lt⟩] := by
  rw [contents, q.held_advanceHead h, List.range_succ, List.map_append, List.map_singleton]
  change q.contents ++ [q.buffer (q.slot q.held)] = _
  rw [q.slot_held]

theorem contents_push (h : ¬ q.Full) (x : α) : (q.push x).contents = q.contents ++ [x] := by
  rw [push, contents_advanceHead (q.fill x) h, contents_fill]
  simp [fill]

theorem free_push (h : ¬ q.Full) (x : α) : (q.push x).free + 1 = q.free := by
  have hlt := q.held_lt
  have hfull := mt q.full_iff.mpr h
  rw [free, free, ← length_contents, contents_push q h, List.length_append, length_contents, List.length_singleton]
  omega

theorem held_advanceTail (h : ¬ q.Empty) : q.advanceTail.held + 1 = q.held := by
  have := q.head_lt
  have := q.tail_lt
  unfold Empty at h
  simp only [advanceTail, held, succ_mod q.tail_lt]
  split_ifs <;> omega

theorem slot_advanceTail (i : ℕ) : q.advanceTail.slot i = q.slot (i + 1) := by
  simp only [slot, advanceTail, Fin.mk.injEq]
  rw [Nat.mod_add_mod]
  congr 1
  omega

theorem contents_advanceTail (h : ¬ q.Empty) : q.contents = q.front :: q.advanceTail.contents := by
  have hs : q.slot 0 = ⟨q.tail, q.tail_lt⟩ := by
    simp [slot, Nat.mod_eq_of_lt q.tail_lt]
  rw [contents, ← q.held_advanceTail h, List.range_succ_eq_map, List.map_cons, hs, List.map_map]
  congr 1
  apply List.map_congr_left
  intro i _
  rw [slot_advanceTail]
  rfl

theorem contents_eq_nil : q.contents = [] ↔ q.Empty := by
  rw [← List.length_eq_zero_iff, length_contents, empty_iff]

end RingBuffer
