import OpenTwins.FixedArray

namespace CappedLog

open FixedArray

variable {α : Type} {n : ℕ}

def record (k : ℕ) (x : α) (a : FixedArray α n) : FixedArray α n :=
  if h : k < n then Function.update a ⟨k, h⟩ x else a

structure Rows (a₀ a : FixedArray α n) (xs : List α) : Prop where
  written : ∀ i : Fin n, ∀ h : i.val < xs.length, a i = xs[i.val]
  rest : ∀ i : Fin n, xs.length ≤ i.val → a i = a₀ i

variable {a₀ a : FixedArray α n} {xs : List α}

theorem rows_nil (a : FixedArray α n) : Rows a a [] where
  written := fun _ h => absurd h (Nat.not_lt_zero _)
  rest := fun _ _ => rfl

theorem Rows.skip (h : Rows a₀ a xs) {x : α} (hx : ∀ i : Fin n, i.val = xs.length → a₀ i = x) :
    Rows a₀ a (xs ++ [x]) where
  written := by
    intro i hi
    by_cases hl : i.val < xs.length
    · rw [List.getElem_append_left hl]
      exact h.written i hl
    · have he : i.val = xs.length := by
        rw [List.length_append, List.length_singleton] at hi
        omega
      rw [List.getElem_append_right he.ge, List.getElem_singleton, h.rest i he.ge]
      exact hx i he
  rest := by
    intro i hi
    rw [List.length_append, List.length_singleton] at hi
    exact h.rest i (by omega)

theorem record_ne {k : ℕ} {i : Fin n} (h : i.val ≠ k) (x : α) (a : FixedArray α n) : record k x a i = a i := by
  unfold record
  split_ifs with hk
  · exact Function.update_of_ne (fun he => h (congrArg Fin.val he)) _ _
  · rfl

theorem record_self {k : ℕ} {i : Fin n} (h : i.val = k) (x : α) (a : FixedArray α n) : record k x a i = x := by
  subst h
  rw [record, dif_pos i.isLt]
  exact Function.update_self _ _ _

theorem Rows.rewrite {y : α} (h : Rows a₀ a (xs ++ [y])) (x : α) :
    Rows a₀ (record xs.length x a) (xs ++ [x]) where
  written := by
    intro i hi
    by_cases he : i.val = xs.length
    · rw [record_self he, List.getElem_append_right he.ge, List.getElem_singleton]
    · have hl : i.val < xs.length := by
        rw [List.length_append, List.length_singleton] at hi
        omega
      have hw := h.written i (by rw [List.length_append]; omega)
      rw [List.getElem_append_left hl] at hw
      rw [record_ne he, hw, List.getElem_append_left hl]
  rest := by
    intro i hi
    rw [List.length_append, List.length_singleton] at hi
    rw [record_ne (by omega)]
    exact h.rest i (by rw [List.length_append, List.length_singleton]; omega)

theorem Rows.record (h : Rows a₀ a xs) (x : α) : Rows a₀ (record xs.length x a) (xs ++ [x]) := by
  by_cases hn : xs.length < n
  · exact (h.skip (x := a₀ ⟨xs.length, hn⟩) fun i hi => congrArg a₀ (Fin.ext hi)).rewrite x
  · have hfull : CappedLog.record xs.length x a = a := dif_neg hn
    rw [hfull]
    apply h.skip
    intro i hi
    exact absurd (hi ▸ i.isLt) hn

theorem Rows.prefixList (h : Rows a₀ a xs) : a.prefixList (min xs.length n) = xs.take n := by
  apply List.ext_getElem
  · rw [prefixList_length _ (min_le_right _ _), List.length_take, min_comm]
  · intro i hi hi'
    rw [prefixList_length _ (min_le_right _ _)] at hi
    rw [prefixList_getElem _ (min_le_right _ _), List.getElem_take]
    exact h.written ⟨i, _⟩ (by simp only; omega)

theorem mapM_read {k : ℕ} (a : FixedArray α n) (h : k ≤ n) :
    (List.range k).mapM a.read = some (a.prefixList k) := by
  induction k with
  | zero => rfl
  | succ k ih =>
    rw [List.range_succ, List.mapM_append, ih (by omega), prefixList_succ _ (by omega)]
    simp [read_of_lt a (show k < n by omega)]

end CappedLog
