import Mathlib.Data.List.Basic

namespace Interleavings

variable {α β γ σ : Type}

inductive Interleaved : List α → List β → List (α ⊕ β) → Prop
  | nil : Interleaved [] [] []
  | left {a : α} {xs : List α} {ys : List β} {zs : List (α ⊕ β)} :
      Interleaved xs ys zs → Interleaved (a :: xs) ys (.inl a :: zs)
  | right {b : β} {xs : List α} {ys : List β} {zs : List (α ⊕ β)} :
      Interleaved xs ys zs → Interleaved xs (b :: ys) (.inr b :: zs)

theorem interleaved_between (xs : List α) (ys : List β) (k : ℕ) :
    Interleaved xs ys ((ys.take k).map .inr ++ (xs.map .inl ++ (ys.drop k).map .inr)) := by
  have hloads (ys : List β) : Interleaved ([] : List α) ys (ys.map .inr) := by
    induction ys with
    | nil => exact .nil
    | cons b ys ih => exact .right ih
  have hwrites (ys : List β) : Interleaved xs ys (xs.map .inl ++ ys.map .inr) := by
    induction xs with
    | nil => exact hloads ys
    | cons a xs ih => exact .left ih
  induction ys generalizing k with
  | nil => simpa using hwrites []
  | cons b ys ih =>
    cases k with
    | zero => exact hwrites (b :: ys)
    | succ k => exact .right (ih k)

def observe (write : α → σ → σ) (load : β → σ → γ) : List (α ⊕ β) → σ → List γ
  | [], _ => []
  | .inl a :: zs, s => observe write load zs (write a s)
  | .inr b :: zs, s => load b s :: observe write load zs s

/-- For each load how many writes have gone before it, `k` of them before the list. -/
def instants : ℕ → List (α ⊕ β) → List ℕ
  | _, [] => []
  | k, .inl _ :: zs => instants (k + 1) zs
  | k, .inr _ :: zs => k :: instants k zs

def after (write : α → σ → σ) (xs : List α) (k : ℕ) (s : σ) : σ :=
  (xs.take k).foldl (fun s a => write a s) s

theorem after_append (write : α → σ → σ) (xs ys : List α) (s : σ) :
    after write (xs ++ ys) xs.length s = xs.foldl (fun s a => write a s) s := by
  rw [after, List.take_left]

theorem observe_from {write : α → σ → σ} {load : β → σ → γ} {xs : List α} {ys : List β}
    {zs : List (α ⊕ β)} (h : Interleaved xs ys zs) (done : List α) (s : σ) :
    observe write load zs (after write (done ++ xs) done.length s) =
      List.zipWith (fun b k => load b (after write (done ++ xs) k s)) ys (instants done.length zs) := by
  induction h generalizing done with
  | nil => rfl
  | @left a xs ys zs _ ih =>
    have ih := ih (done ++ [a])
    rw [List.append_assoc, List.singleton_append, List.length_append, List.length_singleton] at ih
    rw [observe, instants, ← ih]
    congr 1
    rw [after_append, after, List.take_append, List.take_of_length_le (by omega)]
    simp
  | right _ ih => rw [observe, instants, ih, List.zipWith_cons_cons]

theorem observe_eq {write : α → σ → σ} {load : β → σ → γ} {xs : List α} {ys : List β}
    {zs : List (α ⊕ β)} (h : Interleaved xs ys zs) (s : σ) :
    observe write load zs s =
      List.zipWith (fun b k => load b (after write xs k s)) ys (instants 0 zs) :=
  observe_from h [] s

theorem le_of_mem_instants {zs : List (α ⊕ β)} {k i : ℕ} (h : i ∈ instants k zs) : k ≤ i := by
  induction zs generalizing k with
  | nil => cases h
  | cons z zs ih =>
    cases z with
    | inl a => exact Nat.le_of_succ_le (ih h)
    | inr b =>
      rcases List.mem_cons.mp h with rfl | h
      · exact Nat.le_refl _
      · exact ih h

theorem instants_sorted (zs : List (α ⊕ β)) (k : ℕ) : (instants k zs).Pairwise (· ≤ ·) := by
  induction zs generalizing k with
  | nil => exact .nil
  | cons z zs ih =>
    cases z with
    | inl a => exact ih (k + 1)
    | inr b => exact .cons (fun i hi => le_of_mem_instants hi) (ih k)

theorem instants_length {xs : List α} {ys : List β} {zs : List (α ⊕ β)} (h : Interleaved xs ys zs)
    (k : ℕ) : (instants k zs).length = ys.length := by
  induction h generalizing k with
  | nil => rfl
  | left _ ih => exact ih (k + 1)
  | right _ ih => rw [instants, List.length_cons, List.length_cons, ih]

theorem zipWith_instant (f : β → ℕ → γ) {ys : List β} {ks : List ℕ} {k : ℕ} (hlen : ks.length = ys.length)
    (h : ∀ i ∈ ks, i = k) : List.zipWith f ys ks = ys.map fun b => f b k := by
  induction ys generalizing ks with
  | nil => rw [List.zipWith_nil_left, List.map_nil]
  | cons b ys ih =>
    cases ks with
    | nil => cases hlen
    | cons i ks =>
      rw [List.zipWith_cons_cons, List.map_cons, h i (by simp),
        ih (Nat.succ.inj hlen) fun j hj => h j (by simp [hj])]

section cells

variable {ν : Type}

def onCell (writes : α → Option ν) (loads : β → Bool) : α ⊕ β → Option (ν ⊕ Unit)
  | .inl a => (writes a).map .inl
  | .inr b => if loads b then some (.inr ()) else none

def written (writes : α → Option ν) (zs : List (α ⊕ β)) : List ν := (zs.filterMap Sum.getLeft?).filterMap writes

def seen (write : α → σ → σ) (get : σ → ν) (loads : β → Bool) (zs : List (α ⊕ β)) (s : σ) : List ν :=
  (observe write (fun b s => if loads b then some (get s) else none) zs s).filterMap id

theorem instants_succ (zs : List (α ⊕ β)) (k : ℕ) : instants (k + 1) zs = (instants k zs).map (· + 1) := by
  induction zs generalizing k with
  | nil => rfl
  | cons z zs ih =>
    cases z with
    | inl a => exact ih (k + 1)
    | inr b => rw [instants, instants, ih, List.map_cons]

theorem seen_inr (write : α → σ → σ) (get : σ → ν) (loads : β → Bool) (b : β) (zs : List (α ⊕ β)) (s : σ) :
    seen write get loads (.inr b :: zs) s =
      if loads b then get s :: seen write get loads zs s else seen write get loads zs s := by
  cases hb : loads b <;> simp [seen, observe, hb]

theorem written_inl (writes : α → Option ν) (a : α) (zs : List (α ⊕ β)) :
    written writes (.inl a :: zs) = match writes a with
      | none => written writes zs
      | some x => x :: written writes zs :=
  List.filterMap_cons

theorem seen_eq {write : α → σ → σ} {get : σ → ν} {writes : α → Option ν}
    (hwrite : ∀ a s, get (write a s) = (writes a).getD (get s)) (loads : β → Bool) (zs : List (α ⊕ β)) (s : σ) :
    seen write get loads zs s = (instants 0 (zs.filterMap (onCell writes loads))).map fun k =>
      ((written writes zs).take k).getLast?.getD (get s) := by
  induction zs generalizing s with
  | nil => rfl
  | cons z zs ih =>
    cases z with
    | inl a =>
      have hseen : seen write get loads (.inl a :: zs) s = seen write get loads zs (write a s) := rfl
      rw [hseen, ih, hwrite, written_inl, List.filterMap_cons, onCell]
      cases writes a with
      | none => rfl
      | some x =>
        rw [Option.map_some, instants, instants_succ, List.map_map]
        apply List.map_congr_left
        intro k _
        rw [Function.comp_apply, List.take_succ_cons, List.getLast?_cons]
        rfl
    | inr b =>
      have hwritten : written writes (.inr b :: zs : List (α ⊕ β)) = written writes zs := rfl
      rw [seen_inr, ih, hwritten, List.filterMap_cons, onCell]
      split_ifs
      · rfl
      · rfl

end cells

section merged

def merge : α ⊕ (α ⊕ β) → α ⊕ β := Sum.elim .inl id

theorem written_merge {ν : Type} {writes : α → Option ν} {xs : List α} {ys : List (α ⊕ β)} {zs : List (α ⊕ (α ⊕ β))}
    (h : Interleaved xs ys zs) (hy : ∀ a, .inl a ∈ ys → writes a = none) :
    written writes (zs.map merge) = xs.filterMap writes := by
  induction h with
  | nil => rfl
  | @left a xs ys zs _ ih =>
    rw [List.filterMap_cons, ← ih hy]
    exact List.filterMap_cons
  | @right b xs ys zs _ ih =>
    rw [← ih fun a ha => hy a (List.mem_cons_of_mem _ ha)]
    cases b with
    | inl a => exact List.filterMap_cons_none (hy a List.mem_cons_self)
    | inr b => rfl

end merged

end Interleavings
