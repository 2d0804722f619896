import OpenTwins.Runs

namespace Runs

variable {σ α : Type}

def Always (step : α → σ → Option σ) (P : σ → Prop) : List α → σ → Prop
  | [], s => P s
  | a :: as, s => P s ∧ ∀ t, step a s = some t → Always step P as t

def Throughout (step : α → σ → Option σ) (Q : α → σ → Prop) : List α → σ → Prop
  | [], _ => True
  | a :: as, s => Q a s ∧ ∀ t, step a s = some t → Throughout step Q as t

theorem Always.now {step : α → σ → Option σ} {P : σ → Prop} {as : List α} {s : σ}
    (h : Always step P as s) : P s := by
  cases as with
  | nil => exact h
  | cons a as => exact h.1

theorem Always.last {step : α → σ → Option σ} {P : σ → Prop} {as : List α} {s t : σ}
    (h : Always step P as s) (hrun : run step as s = some t) : P t := by
  induction as generalizing s with
  | nil =>
    cases hrun
    exact h
  | cons a as ih =>
    obtain ⟨u, hu, hrun⟩ := Option.bind_eq_some_iff.mp hrun
    exact ih (h.2 u hu) hrun

theorem always_iff_throughout {step : α → σ → Option σ} {I P : σ → Prop} {Q : α → σ → Prop}
    (hP : ∀ s, I s → P s) (hkeep : ∀ a s t, I s → Q a s → step a s = some t → I t)
    (hneed : ∀ a s, I s → (∀ t, step a s = some t → P t) → Q a s) {as : List α} {s : σ} (hs : I s) :
    Always step P as s ↔ Throughout step Q as s := by
  induction as generalizing s with
  | nil => exact ⟨fun _ => trivial, fun _ => hP s hs⟩
  | cons a as ih =>
    constructor
    · rintro ⟨-, h⟩
      have hq : Q a s := hneed a s hs fun t ht => (h t ht).now
      exact ⟨hq, fun t ht => (ih (hkeep a s t hs hq ht)).mp (h t ht)⟩
    · rintro ⟨hq, h⟩
      exact ⟨hP s hs, fun t ht => (ih (hkeep a s t hs hq ht)).mpr (h t ht)⟩

def Since (raised kept : α → Prop) (log : List α) : Prop :=
  ∃ before x after, log = before ++ x :: after ∧ raised x ∧ ∀ y ∈ after, kept y

theorem since_nil {raised kept : α → Prop} : ¬ Since raised kept [] := by
  rintro ⟨before, x, after, h, -⟩
  simp at h

theorem since_concat {raised kept : α → Prop} {log : List α} {x : α} :
    Since raised kept (log ++ [x]) ↔ raised x ∨ Since raised kept log ∧ kept x := by
  constructor
  · rintro ⟨before, y, after, h, hy, hk⟩
    rcases List.eq_nil_or_concat after with rfl | ⟨after, z, rfl⟩
    · obtain ⟨-, h⟩ := List.append_inj' h rfl
      cases h
      exact .inl hy
    · rw [List.concat_eq_append, ← List.cons_append, ← List.append_assoc] at h
      obtain ⟨rfl, hz⟩ := List.append_inj' h rfl
      cases hz
      refine .inr ⟨⟨before, y, after, rfl, hy, ?_⟩, hk x (by simp)⟩
      intro w hw
      exact hk w (by simp [hw])
  · rintro (hx | ⟨⟨before, y, after, rfl, hy, hk⟩, hx⟩)
    · exact ⟨log, x, [], rfl, hx, by simp⟩
    · refine ⟨before, y, after ++ [x], by simp, hy, ?_⟩
      intro w hw
      rcases List.mem_append.mp hw with hw | hw
      · exact hk w hw
      · rwa [List.mem_singleton.mp hw]

end Runs
