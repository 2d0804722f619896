import OpenTwins.ParserCalls
import OpenTwins.Truncation

namespace OpenTwins

open MessagePack

variable {s : Position} {u v : UnpackContext}

theorem itemsOf_none {bs : List UInt8} (h : decode bs = none) : itemsOf bs = [] :=
  itemsOf_encoded .nil h

theorem itemsOf_cons {bs r : List UInt8} {it : Item} (h : decode bs = some (it, r)) :
    itemsOf bs = it :: itemsOf r := by
  obtain ⟨e, rfl, he⟩ := decode_split h
  obtain ⟨q, r', hr, hq, hn⟩ := exists_items r
  rw [hr, ← List.append_assoc, itemsOf_encoded (.cons he hq) hn, ← hr]

theorem decode_of_items {bs : List UInt8} {it : Item} (h : (itemsOf bs)[0]? = some it) :
    ∃ r, decode bs = some (it, r) := by
  cases hd : decode bs with
  | none =>
    rw [itemsOf_none hd] at h
    cases h
  | some p =>
    rw [itemsOf_cons hd] at h
    cases h
    exact ⟨p.2, rfl⟩

theorem Position.next_of_decode {it : Item} {r : List UInt8} (h : decode s.2.bytes = some (it, r)) :
    s.next.2.bytes = r ∧ ∃ a, s.next.1 = lowAfter a s.1 it := by
  obtain ⟨e, he, -⟩ := decode_split h
  rw [next, readLow, h]
  refine ⟨?_, _, rfl⟩
  rw [advance_bytes, he, List.length_append, Nat.add_sub_cancel, List.drop_left]

theorem Position.items_next (s : Position) : itemsOf s.next.2.bytes = (itemsOf s.2.bytes).tail := by
  cases hd : decode s.2.bytes with
  | none =>
    rw [next, readLow, hd, itemsOf_none hd]
    rfl
  | some p =>
    rw [(next_of_decode hd).1, itemsOf_cons hd]
    rfl

theorem Position.items_after (s : Position) (n : ℕ) : itemsOf (s.after n).2.bytes = (itemsOf s.2.bytes).drop n := by
  induction n with
  | zero => rfl
  | succ n ih =>
    rw [after, Function.iterate_succ_apply', ← after, items_next, ih, List.tail_drop]

theorem Position.low_item {n : ℕ} {it : Item} (h : (itemsOf s.2.bytes)[n]? = some it) :
    ∃ a, (s.after (n + 1)).1 = lowAfter a (s.after n).1 it := by
  have hfirst : (itemsOf (s.after n).2.bytes)[0]? = some it := by
    rw [items_after, List.getElem?_drop]
    exact h
  obtain ⟨r, hd⟩ := decode_of_items hfirst
  rw [after, Function.iterate_succ_apply', ← after]
  exact (next_of_decode hd).2

theorem Position.low_int {n : ℕ} {z : ℤ} (h : (itemsOf s.2.bytes)[n]? = some (.int z)) :
    (s.after (n + 1)).1 = (UInt64.ofInt z).toUInt32 := by
  obtain ⟨a, ha⟩ := low_item h
  exact ha

theorem Stands.calls (h : Stands u s.1 s.2) (n : ℕ) :
    ∃ v, calls n u = some v ∧ Stands v (s.after n).1 (s.after n).2 := by
  induction n generalizing s u with
  | zero => exact ⟨u, rfl, h⟩
  | succ n ih =>
    obtain ⟨v, hv, hs⟩ := h.next
    obtain ⟨w, hw, hs'⟩ := ih (s := s.next) hs
    exact ⟨w, by rw [OpenTwins.calls, hv, Option.bind_some, hw], hs'⟩

def itemsLeft (u : UnpackContext) : List Item := if u.returnCode = .ok then itemsOf u.current.bytes else []

theorem Stands.itemsLeft (h : Stands u s.1 s.2) : itemsLeft u = itemsOf s.2.bytes := by
  unfold OpenTwins.itemsLeft
  split_ifs with hok
  · rw [(h.going hok).1]
  · rw [h.failed hok]
    rfl

theorem Stands.header (h : Stands u s.1 s.2) :
    ∃ header v, readHeader u = some (header, v) ∧ header.type = s.next.1 ∧ Stands v (s.after 4).1 (s.after 4).2 := by
  obtain ⟨v, hv, hs⟩ := h.calls 4
  obtain ⟨header, u1, h1, ht, hh⟩ := readHeader_some hv
  obtain ⟨u1', h1', hs1⟩ := h.next
  obtain rfl : u1 = u1' := Option.some.inj (h1.symm.trans h1')
  exact ⟨header, v, hh, ht.trans hs1.word, hs⟩

def Refused (s : Position) : Prop :=
  decode s.2.bytes = none ∨ s.next.1 < 4 ∨
  ((s.after 2).1 = eventUpdate ∧ s.next.1 ≠ 5 + (s.after 6).1 * 2) ∨
  ((s.after 2).1 ≠ eventUpdate ∧ (s.after 2).1 ≠ eventError)

instance (s : Position) : Decidable (Refused s) := inferInstanceAs (Decidable (_ ∨ _))

end OpenTwins
