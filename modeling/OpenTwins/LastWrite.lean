import OpenTwins.Runs

namespace LastWrite

variable {α ν σ : Type} {writes : α → Option ν}

def lastOf (writes : α → Option ν) (as : List α) : Option ν := (as.filterMap writes).getLast?

theorem lastOf_nil : lastOf writes [] = none := rfl

theorem lastOf_append (xs ys : List α) : lastOf writes (xs ++ ys) = (lastOf writes ys).or (lastOf writes xs) := by
  rw [lastOf, List.filterMap_append, List.getLast?_append]
  rfl

theorem lastOf_singleton (a : α) : lastOf writes [a] = writes a := by
  rw [lastOf, List.filterMap_cons, List.filterMap_nil]
  cases writes a <;> rfl

theorem lastOf_cons (a : α) (as : List α) : lastOf writes (a :: as) = (lastOf writes as).or (writes a) := by
  rw [← List.singleton_append, lastOf_append, lastOf_singleton]

theorem getD_or (x y : Option ν) (v : ν) : (x.or y).getD v = x.getD (y.getD v) := by
  cases x <;> rfl

theorem run_last {step : α → σ → Option σ} {get : σ → ν}
    (hstep : ∀ a s t, step a s = some t → get t = (writes a).getD (get s)) {as : List α} {s t : σ}
    (h : Runs.run step as s = some t) : get t = (lastOf writes as).getD (get s) := by
  induction as generalizing s with
  | nil =>
    cases h
    rfl
  | cons a as ih =>
    obtain ⟨u, hu, h⟩ := Option.bind_eq_some_iff.mp h
    rw [ih h, hstep a s u hu, lastOf_cons, getD_or]

end LastWrite
