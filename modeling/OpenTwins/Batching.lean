import OpenTwins.Messages

namespace OpenTwins

open MessagePack

def Event.updates (e : Event) : List PropertyUpdate :=
  match e.payload with
  | .update u => u.entries
  | .error _ => []

def batchesOf (n : ℕ) : ℕ := (n + maxVarsPerEvent - 1) / maxVarsPerEvent

theorem batchesOf_step {n : ℕ} (h : n ≠ 0) : batchesOf n = batchesOf (n - maxVarsPerEvent) + 1 := by
  unfold batchesOf maxVarsPerEvent
  omega

variable {header : EventHeader} {us : List (UInt16 × Value)} {es : List Event}

theorem Batches.length (h : Batches header us es) : es.length = batchesOf us.length := by
  induction h with
  | nil => rfl
  | cons ne _ _ _ ih =>
    rw [List.length_cons, ih, List.length_drop, ← batchesOf_step (mt List.length_eq_zero_iff.mp ne)]

theorem Batches.get (h : Batches header us es) (i : ℕ) (hi : i < es.length) :
    ∃ u, es[i] = ⟨header, .update u⟩ ∧ u.count.toNat = min maxVarsPerEvent (us.length - maxVarsPerEvent * i) ∧
      u.entries = ((us.drop (maxVarsPerEvent * i)).take maxVarsPerEvent).map PropertyUpdate.of := by
  induction h generalizing i with
  | nil => exact absurd hi (Nat.not_lt_zero i)
  | @cons us u es _ entries count _ ih =>
    cases i with
    | zero => exact ⟨u, rfl, count, entries⟩
    | succ i =>
      obtain ⟨u', he, hc, hu⟩ := ih i (by simpa using hi)
      have hsum : maxVarsPerEvent + maxVarsPerEvent * i = maxVarsPerEvent * (i + 1) := by ring
      refine ⟨u', he, ?_, ?_⟩
      · rw [hc, List.length_drop, Nat.sub_sub, hsum]
      · rw [hu, List.drop_drop, hsum]

theorem Batches.flatMap_take (h : Batches header us es) (k : ℕ) :
    (es.take k).flatMap Event.updates = (us.take (maxVarsPerEvent * k)).map PropertyUpdate.of := by
  induction h generalizing k with
  | nil => simp
  | @cons us u es _ entries _ _ ih =>
    cases k with
    | zero => rfl
    | succ k =>
      rw [List.take_succ_cons, List.flatMap_cons, ih, Nat.mul_succ, Nat.add_comm, List.take_add, List.map_append,
        ← entries]
      rfl

end OpenTwins
