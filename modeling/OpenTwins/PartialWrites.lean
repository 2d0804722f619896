import Mathlib.Data.List.TakeDrop
import Mathlib.Tactic.SplitIfs

/-!
An output stream over a device that may take fewer elements than it is given. After an insertion
that was not taken whole the stream is bad and later insertions do nothing.
-/

namespace PartialWrites

variable {α : Type}

/-- How much the `i`-th insertion can take, and how much of the whole is kept on closing. No number
is no limit. -/
structure Device where
  insertion : ℕ → Option ℕ
  close : Option ℕ

structure Stream (α : Type) where
  content : List α
  inserted : ℕ
  bad : Bool

def Fits (limit : Option ℕ) (n : ℕ) : Prop := ∀ k ∈ limit, n ≤ k

instance (limit : Option ℕ) (n : ℕ) : Decidable (Fits limit n) :=
  match limit with
  | none => isTrue fun _ h => nomatch h
  | some k => decidable_of_iff (n ≤ k) ⟨fun h _ hk => Option.mem_some.mp hk ▸ h, fun h => h k rfl⟩

def upTo (limit : Option ℕ) (xs : List α) : List α :=
  match limit with
  | none => xs
  | some k => xs.take k

def opened : Stream α := ⟨[], 0, false⟩

def Stream.insert (device : Device) (s : Stream α) (xs : List α) : Stream α :=
  if s.bad then { s with inserted := s.inserted + 1 }
  else
    let limit := device.insertion s.inserted
    { content := s.content ++ upTo limit xs
      inserted := s.inserted + 1
      bad := !decide (Fits limit xs.length) }

def Stream.close (device : Device) (s : Stream α) : List α := upTo device.close s.content

def AllFit (device : Device) : ℕ → List (List α) → Prop
  | _, [] => True
  | i, xs :: rest => Fits (device.insertion i) xs.length ∧ AllFit device (i + 1) rest

theorem fits_none (n : ℕ) : Fits none n := by
  intro k hk
  cases hk

theorem upTo_length_le (limit : Option ℕ) (xs : List α) : (upTo limit xs).length ≤ xs.length := by
  cases limit with
  | none => exact Nat.le_refl _
  | some k => exact List.length_take_le' _ _

theorem upTo_eq_iff (limit : Option ℕ) (xs : List α) : upTo limit xs = xs ↔ Fits limit xs.length := by
  cases limit with
  | none => exact iff_of_true rfl (fits_none _)
  | some k =>
    rw [upTo, List.take_eq_self_iff]
    constructor
    · intro h k' hk
      rwa [← Option.mem_some.mp hk]
    · intro h
      exact h k rfl

theorem upTo_length_lt {limit : Option ℕ} {xs : List α} (h : ¬ Fits limit xs.length) :
    (upTo limit xs).length < xs.length := by
  cases limit with
  | none => exact absurd (fits_none _) h
  | some k =>
    rw [upTo, List.length_take]
    by_contra hk
    apply h
    intro k' hk'
    rw [← Option.mem_some.mp hk']
    omega

variable {device : Device}

theorem foldl_bad {s : Stream α} (h : s.bad = true) (parts : List (List α)) :
    (parts.foldl (Stream.insert device) s).content = s.content := by
  induction parts generalizing s with
  | nil => rfl
  | cons xs parts ih =>
    rw [List.foldl_cons, Stream.insert, if_pos h, ih (by exact h)]

theorem insert_good {s : Stream α} (h : s.bad = false) (xs : List α) : s.insert device xs =
    ⟨s.content ++ upTo (device.insertion s.inserted) xs, s.inserted + 1,
      !decide (Fits (device.insertion s.inserted) xs.length)⟩ := by
  rw [Stream.insert, if_neg (by rw [h]; decide)]

theorem foldl_allFit {parts : List (List α)} {s : Stream α} (h : s.bad = false)
    (hf : AllFit device s.inserted parts) :
    (parts.foldl (Stream.insert device) s).content = s.content ++ parts.flatten := by
  induction parts generalizing s with
  | nil => exact (List.append_nil _).symm
  | cons xs parts ih =>
    obtain ⟨hx, hf⟩ := hf
    rw [List.foldl_cons, insert_good h, ih (by simpa using hx) hf, (upTo_eq_iff _ _).mpr hx, List.append_assoc,
      List.flatten_cons]

theorem foldl_not_allFit {parts : List (List α)} {s : Stream α} (h : s.bad = false)
    (hf : ¬ AllFit device s.inserted parts) :
    (parts.foldl (Stream.insert device) s).content.length < s.content.length + parts.flatten.length := by
  induction parts generalizing s with
  | nil => exact absurd trivial hf
  | cons xs parts ih =>
    rw [List.foldl_cons, insert_good h, List.flatten_cons, List.length_append]
    by_cases hx : Fits (device.insertion s.inserted) xs.length
    · have hlt := ih (s := ⟨s.content ++ upTo (device.insertion s.inserted) xs, s.inserted + 1,
        !decide (Fits (device.insertion s.inserted) xs.length)⟩) (by simpa using hx) fun hc => hf ⟨hx, hc⟩
      rw [List.length_append, (upTo_eq_iff _ _).mpr hx] at hlt
      rw [(upTo_eq_iff _ _).mpr hx]
      omega
    · have hlt := upTo_length_lt hx
      rw [foldl_bad (by simpa using hx), List.length_append]
      omega

theorem closed_eq_iff (device : Device) (parts : List (List α)) :
    (parts.foldl (Stream.insert device) opened).close device = parts.flatten ↔
      AllFit device 0 parts ∧ Fits device.close parts.flatten.length := by
  constructor
  · intro h
    have hf : AllFit device 0 parts := by
      by_contra hf
      have hlt := foldl_not_allFit (s := opened) rfl hf
      have hle := upTo_length_le device.close (parts.foldl (Stream.insert device) opened).content
      rw [← Stream.close, h] at hle
      simp only [opened, List.length_nil] at hlt hle
      omega
    rw [Stream.close, foldl_allFit rfl hf] at h
    exact ⟨hf, (upTo_eq_iff _ _).mp h⟩
  · rintro ⟨hf, hc⟩
    rw [Stream.close, foldl_allFit rfl hf]
    exact (upTo_eq_iff _ _).mpr hc

end PartialWrites
