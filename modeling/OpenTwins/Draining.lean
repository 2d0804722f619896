import Mathlib.Order.Nat
import OpenTwins.Runs

namespace Runs

variable {σ α κ : Type}

structure Drains (step : α → σ → Option σ) (P : σ → Prop) (Q : α → Prop) (turn : κ → α → Prop)
    (ready : κ → σ → Prop) (work : σ → ℕ) : Prop where
  moves : ∀ a s, Q a → P s → ∃ t, step a s = some t ∧ P t ∧
    (work t < work s ∨ work t = work s ∧ ∀ k, ready k s → ready k t)
  helps : ∀ k a s t, turn k a → P s → ready k s → step a s = some t → work t < work s
  some_ready : ∀ s, P s → work s ≠ 0 → ∃ k, ready k s

variable {step : α → σ → Option σ} {P : σ → Prop} {Q : α → Prop} {turn : κ → α → Prop}
  {ready : κ → σ → Prop} {work : σ → ℕ}

theorem Drains.steps (h : Drains step P Q turn ready work) {as : List α} {s : σ} (hq : ∀ a ∈ as, Q a) (hs : P s) :
    ∃ t, run step as s = some t ∧ P t ∧ work t ≤ work s ∧
      ∀ k, ready k s → (∃ a ∈ as, turn k a) → work t < work s := by
  induction as generalizing s with
  | nil =>
    refine ⟨s, rfl, hs, le_refl _, ?_⟩
    rintro k - ⟨a, ha, -⟩
    cases ha
  | cons a as ih =>
    obtain ⟨u, hu, hpu, hmove⟩ := h.moves a s (hq a (by simp)) hs
    obtain ⟨t, ht, hpt, hle, hless⟩ := ih (fun b hb => hq b (by simp [hb])) hpu
    refine ⟨t, by rw [run, hu, Option.bind_some, ht], hpt, ?_, ?_⟩
    · rcases hmove with hlt | ⟨heq, -⟩
      · exact hle.trans hlt.le
      · exact hle.trans heq.le
    · rintro k hk ⟨b, hb, hkb⟩
      rcases hmove with hlt | ⟨heq, hready⟩
      · exact hle.trans_lt hlt
      · rcases List.mem_cons.mp hb with rfl | hb
        · exact hle.trans_lt (h.helps k b s u hkb hs hk hu)
        · exact (hless k (hready k hk) ⟨b, hb, hkb⟩).trans_eq heq

theorem Drains.rounds (h : Drains step P Q turn ready work) {rs : List (List α)} {s : σ}
    (hq : ∀ r ∈ rs, ∀ a ∈ r, Q a) (hturn : ∀ r ∈ rs, ∀ k, ∃ a ∈ r, turn k a) (hs : P s) :
    ∃ t, run step rs.flatten s = some t ∧ P t ∧ (work t = 0 ∨ work t + rs.length ≤ work s) := by
  induction rs generalizing s with
  | nil => exact ⟨s, rfl, hs, .inr (le_refl _)⟩
  | cons r rs ih =>
    obtain ⟨u, hu, hpu, hle, hless⟩ := h.steps (hq r (by simp)) hs
    obtain ⟨t, ht, hpt, hwork⟩ := ih (fun r' hr => hq r' (by simp [hr])) (fun r' hr => hturn r' (by simp [hr])) hpu
    refine ⟨t, by rw [List.flatten_cons, run_append, hu, Option.bind_some, ht], hpt, ?_⟩
    rcases hwork with h0 | hwork
    · exact .inl h0
    · rcases Nat.eq_zero_or_pos (work s) with h0 | hpos
      · left
        omega
      · obtain ⟨k, hk⟩ := h.some_ready s hs hpos.ne'
        have hlt := hless k hk (hturn r (by simp) k)
        right
        rw [List.length_cons]
        omega

end Runs
