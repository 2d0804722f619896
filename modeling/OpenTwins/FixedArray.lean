import Mathlib.Data.List.OfFn
import Mathlib.Logic.Function.Basic

/-!
Arrays of a fixed length with checked access, and counted loops whose body may fault.
An access outside the array is `none`, so a run that returns `some` stayed in bounds.
-/

abbrev FixedArray (α : Type) (n : ℕ) := Fin n → α

namespace FixedArray

variable {α σ : Type} {n : ℕ}

def read (a : FixedArray α n) (i : ℕ) : Option α :=
  if h : i < n then some (a ⟨i, h⟩) else none

def write (a : FixedArray α n) (i : ℕ) (x : α) : Option (FixedArray α n) :=
  if h : i < n then some (Function.update a ⟨i, h⟩ x) else none

theorem read_of_lt (a : FixedArray α n) {i : ℕ} (h : i < n) : a.read i = some (a ⟨i, h⟩) := by
  simp [read, h]

theorem write_of_lt (a : FixedArray α n) {i : ℕ} (h : i < n) (x : α) :
    a.write i x = some (Function.update a ⟨i, h⟩ x) := by
  simp [write, h]

def prefixList (a : FixedArray α n) (k : ℕ) : List α := (List.ofFn a).take k

@[simp] theorem prefixList_zero (a : FixedArray α n) : a.prefixList 0 = [] := by
  simp [prefixList]

theorem prefixList_length (a : FixedArray α n) {k : ℕ} (h : k ≤ n) : (a.prefixList k).length = k := by
  simpa [prefixList] using h

theorem prefixList_getElem (a : FixedArray α n) {k i : ℕ} (hk : k ≤ n) (hi : i < (a.prefixList k).length) :
    (a.prefixList k)[i] = a ⟨i, by rw [prefixList_length a hk] at hi; omega⟩ := by
  simp [prefixList]

theorem prefixList_succ (a : FixedArray α n) {k : ℕ} (h : k < n) :
    a.prefixList (k + 1) = a.prefixList k ++ [a ⟨k, h⟩] := by
  have hk : k < (List.ofFn a).length := by simpa using h
  rw [prefixList, List.take_succ_eq_append_getElem hk]
  simp [prefixList]

theorem prefixList_update (a : FixedArray α n) {k : ℕ} (h : k < n) (x : α) :
    (FixedArray.prefixList (Function.update a ⟨k, h⟩ x) k) = a.prefixList k := by
  apply List.ext_getElem
  · rw [prefixList_length _ h.le, prefixList_length _ h.le]
  · intro i hi hi'
    rw [prefixList_length _ h.le] at hi
    rw [prefixList_getElem _ h.le, prefixList_getElem _ h.le]
    exact Function.update_of_ne (by simp; omega) _ _

theorem prefixList_write (a : FixedArray α n) {k : ℕ} (h : k < n) (x : α) :
    (FixedArray.prefixList (Function.update a ⟨k, h⟩ x) (k + 1)) = a.prefixList k ++ [x] := by
  rw [prefixList_succ _ h, prefixList_update, Function.update_self]

theorem update_lt {k : ℕ} (hk : k < n) (x : α) (a : FixedArray α n) :
    Function.update (fun i => if i.val < k then x else a i) ⟨k, hk⟩ x =
      fun i => if i.val < k + 1 then x else a i := by
  funext i
  by_cases h : i = ⟨k, hk⟩
  · subst h
    simp
  · have hne : i.val ≠ k := fun he => h (Fin.ext he)
    have hiff : i.val < k + 1 ↔ i.val < k := by omega
    simp only [Function.update_of_ne h, hiff]

def forLoop (body : ℕ → σ → Option σ) : ℕ → σ → Option σ
  | 0, s => some s
  | n + 1, s => (forLoop body n s).bind (body n)

theorem forLoop_congr {body body' : ℕ → σ → Option σ} (k : ℕ) (s : σ)
    (h : ∀ i < k, ∀ s, body i s = body' i s) : forLoop body k s = forLoop body' k s := by
  induction k with
  | zero => rfl
  | succ k ih =>
    rw [forLoop, forLoop, ih (fun i hi => h i (by omega))]
    congr 1
    funext t
    exact h k (by omega) t

theorem forLoop_map {τ : Type} {f : ℕ → σ → Option σ} {f' : ℕ → τ → Option τ} {g : σ → τ}
    (h : ∀ i s, f' i (g s) = (f i s).map g) (k : ℕ) (s : σ) : forLoop f' k (g s) = (forLoop f k s).map g := by
  induction k with
  | zero => rfl
  | succ k ih =>
    rw [forLoop, forLoop, ih]
    cases forLoop f k s with
    | none => rfl
    | some t => exact h k t

theorem forLoop_read (a : FixedArray α n) (body : α → σ → Option σ) {k : ℕ} (h : k ≤ n) (s : σ) :
    forLoop (fun i s => (a.read i).bind (fun x => body x s)) k s =
      (a.prefixList k).foldlM (fun s x => body x s) s := by
  induction k with
  | zero => simp [forLoop]
  | succ k ih =>
    rw [forLoop, ih (by omega), prefixList_succ a (by omega), List.foldlM_append]
    simp [read_of_lt a (show k < n by omega)]

theorem forLoop_invariant {P : ℕ → σ → Prop} {f : ℕ → σ → Option σ} {k : ℕ}
    (hstep : ∀ i < k, ∀ s, P i s → ∃ t, f i s = some t ∧ P (i + 1) t) {s : σ} (hs : P 0 s) :
    ∃ t, forLoop f k s = some t ∧ P k t := by
  induction k with
  | zero => exact ⟨s, rfl, hs⟩
  | succ k ih =>
    obtain ⟨t, ht, hp⟩ := ih (fun i hi => hstep i (by omega))
    obtain ⟨u, hu, hq⟩ := hstep k (by omega) t hp
    exact ⟨u, by rw [forLoop, ht, Option.bind_some, hu], hq⟩

theorem forLoop_none {f : ℕ → σ → Option σ} {i k : ℕ} (hi : i < k) (h : ∀ s, f i s = none) (s : σ) :
    forLoop f k s = none := by
  induction k with
  | zero => omega
  | succ k ih =>
    rw [forLoop]
    by_cases hk : i = k
    · subst hk
      cases forLoop f i s with
      | none => rfl
      | some t => exact h t
    · rw [ih (by omega), Option.bind_none]

end FixedArray
