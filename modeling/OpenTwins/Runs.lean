import Mathlib.Data.List.Basic

namespace Runs

variable {σ α : Type}

def run (step : α → σ → Option σ) : List α → σ → Option σ
  | [], s => some s
  | a :: as, s => (step a s).bind (run step as)

theorem run_preserves {step : α → σ → Option σ} {P : σ → Prop}
    (hstep : ∀ a s t, P s → step a s = some t → P t) {as : List α} {s t : σ}
    (hs : P s) (h : run step as s = some t) : P t := by
  induction as generalizing s with
  | nil => cases h; exact hs
  | cons a as ih =>
    obtain ⟨u, hu, h⟩ := Option.bind_eq_some_iff.mp h
    exact ih (hstep a s u hs hu) h

theorem run_total {step : α → σ → Option σ} {P : σ → Prop} {Q : α → Prop}
    (hstep : ∀ a s, Q a → P s → ∃ t, step a s = some t ∧ P t) {as : List α} {s : σ}
    (hq : ∀ a ∈ as, Q a) (hs : P s) : ∃ t, run step as s = some t ∧ P t := by
  induction as generalizing s with
  | nil => exact ⟨s, rfl, hs⟩
  | cons a as ih =>
    obtain ⟨u, hu, hp⟩ := hstep a s (hq a (by simp)) hs
    obtain ⟨t, ht, hpt⟩ := ih (fun b hb => hq b (by simp [hb])) hp
    exact ⟨t, by rw [run, hu, Option.bind_some, ht], hpt⟩

theorem run_keeps {step : α → σ → Option σ} {P : σ → Prop} {Q : α → Prop}
    (hstep : ∀ a s t, Q a → P s → step a s = some t → P t) {as : List α} {s t : σ} (hq : ∀ a ∈ as, Q a)
    (hs : P s) (h : run step as s = some t) : P t := by
  induction as generalizing s with
  | nil => cases h; exact hs
  | cons a as ih =>
    obtain ⟨u, hu, h⟩ := Option.bind_eq_some_iff.mp h
    exact ih (fun b hb => hq b (by simp [hb])) (hstep a s u (hq a (by simp)) hs hu) h

theorem run_append (step : α → σ → Option σ) (as bs : List α) (s : σ) :
    run step (as ++ bs) s = (run step as s).bind (run step bs) := by
  induction as generalizing s with
  | nil => rfl
  | cons a as ih =>
    rw [List.cons_append, run, run, Option.bind_assoc]
    congr 1
    funext t
    exact ih t

def Reaches (step : α → σ → Option σ) (s t : σ) : Prop := ∃ as, run step as s = some t

theorem Reaches.refl (step : α → σ → Option σ) (s : σ) : Reaches step s s := ⟨[], rfl⟩

theorem Reaches.run {step : α → σ → Option σ} {s t u : σ} (h : Reaches step s t) {as : List α}
    (hu : run step as t = some u) : Reaches step s u := by
  obtain ⟨bs, hbs⟩ := h
  refine ⟨bs ++ as, ?_⟩
  rw [run_append, hbs, Option.bind_some, hu]

theorem run_simulates {τ β : Type} {step : α → σ → Option σ} {step' : β → τ → Option τ} {R : σ → τ → Prop}
    {Q : α → Prop} {P : β → Prop}
    (hstep : ∀ a s s' t, Q a → R s t → step a s = some s' →
      ∃ bs t', run step' bs t = some t' ∧ (∀ b ∈ bs, P b) ∧ R s' t')
    {as : List α} {s s' : σ} {t : τ} (hq : ∀ a ∈ as, Q a) (hr : R s t) (h : run step as s = some s') :
    ∃ bs t', run step' bs t = some t' ∧ (∀ b ∈ bs, P b) ∧ R s' t' := by
  induction as generalizing s t with
  | nil =>
    cases h
    exact ⟨[], t, rfl, by simp, hr⟩
  | cons a as ih =>
    obtain ⟨u, hu, h⟩ := Option.bind_eq_some_iff.mp h
    obtain ⟨bs, t1, h1, hp, hr1⟩ := hstep a s u t (hq a (by simp)) hr hu
    obtain ⟨cs, t2, h2, hp2, hr2⟩ := ih (fun b hb => hq b (by simp [hb])) hr1 h
    refine ⟨bs ++ cs, t2, ?_, ?_, hr2⟩
    · rw [run_append, h1, Option.bind_some, h2]
    · intro b hb
      rcases List.mem_append.mp hb with hb | hb
      · exact hp b hb
      · exact hp2 b hb

end Runs
