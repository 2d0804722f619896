import Mathlib.Data.List.Basic
import Mathlib.Tactic.SplitIfs

namespace Lines

variable {α : Type}

section lines

variable [DecidableEq α] (nl : α)

def readLines : List α → List α → List (List α)
  | line, [] => if line = [] then [] else [line]
  | line, c :: text => if c = nl then line :: readLines [] text else readLines (line ++ [c]) text

def linesOf (text : List α) : List (List α) := readLines nl [] text

def written (ls : List (List α)) : List α := ls.flatMap fun l => l ++ [nl]

variable {nl}

theorem readLines_read {p : List α} (hp : nl ∉ p) (line text : List α) :
    readLines nl line (p ++ text) = readLines nl (line ++ p) text := by
  induction p generalizing line with
  | nil => rw [List.append_nil, List.nil_append]
  | cons c p ih =>
    obtain ⟨hc, hp⟩ := not_or.mp (mt List.mem_cons.mpr hp)
    rw [List.cons_append, readLines, if_neg (Ne.symm hc), ih hp, List.append_assoc]
    rfl

theorem linesOf_line {l : List α} (h : nl ∉ l) (text : List α) :
    linesOf nl (l ++ nl :: text) = l :: linesOf nl text := by
  rw [linesOf, readLines_read h, List.nil_append, readLines, if_pos rfl]
  rfl

theorem readLines_append (line l text : List α) :
    readLines nl line (l ++ nl :: text) = readLines nl line (l ++ [nl]) ++ linesOf nl text := by
  induction l generalizing line with
  | nil =>
    rw [List.nil_append, List.nil_append, readLines, readLines, if_pos rfl, if_pos rfl]
    rfl
  | cons c l ih =>
    rw [List.cons_append, List.cons_append, readLines, readLines]
    split_ifs
    · rw [ih, List.cons_append]
    · exact ih _

theorem linesOf_written (ls : List (List α)) :
    linesOf nl (written nl ls) = ls.flatMap fun l => linesOf nl (l ++ [nl]) := by
  induction ls with
  | nil => rfl
  | cons l ls ih =>
    rw [written, List.flatMap_cons, List.append_assoc, List.singleton_append, linesOf, readLines_append,
      List.flatMap_cons, ← ih]
    rfl

theorem linesOf_written_of_notMem {ls : List (List α)} (h : ∀ l ∈ ls, nl ∉ l) :
    linesOf nl (written nl ls) = ls := by
  rw [linesOf_written]
  apply (List.flatMap_congr fun l hl => ?_).trans (List.flatMap_singleton' ls)
  exact linesOf_line (h l hl) []

theorem readLines_first (line l : List α) :
    ∃ first, readLines nl line (l ++ [nl]) = (line ++ first) :: (linesOf nl (l ++ [nl])).tail := by
  induction l generalizing line with
  | nil => exact ⟨[], by simp [readLines, linesOf]⟩
  | cons c l ih =>
    rw [linesOf, List.cons_append, readLines, readLines]
    split_ifs
    · exact ⟨[], by simp⟩
    · obtain ⟨first, hf⟩ := ih (line ++ [c])
      obtain ⟨first', hf'⟩ := ih ([] ++ [c])
      exact ⟨c :: first, by rw [hf, hf']; simp⟩

theorem notMem_of_mem_readLines {line text l : List α} (h : nl ∉ line) (hl : l ∈ readLines nl line text) : nl ∉ l := by
  induction text generalizing line with
  | nil =>
    unfold readLines at hl
    split_ifs at hl with hn
    · cases hl
    · rwa [List.mem_singleton.mp hl]
  | cons c text ih =>
    unfold readLines at hl
    split_ifs at hl with hc
    · rcases List.mem_cons.mp hl with rfl | hl
      · exact h
      · exact ih (List.not_mem_nil) hl
    · exact ih (by simp [h, Ne.symm hc]) hl

theorem notMem_of_mem_linesOf {text l : List α} (hl : l ∈ linesOf nl text) : nl ∉ l :=
  notMem_of_mem_readLines List.not_mem_nil hl

end lines

section words

variable (space : α → Bool)

def firstWord (l : List α) : List α := (l.dropWhile space).takeWhile fun c => !space c

variable {space} {word : List α} (hne : word ≠ []) (hw : ∀ c ∈ word, space c = false)

include hne hw

theorem dropWhile_word (rest : List α) : (word ++ rest).dropWhile space = word ++ rest := by
  obtain ⟨c, word, rfl⟩ := List.exists_cons_of_ne_nil hne
  rw [List.cons_append, List.dropWhile_cons_of_neg (by simp [hw c (by simp)])]

theorem firstWord_append {s : α} (hs : space s = true) (rest : List α) :
    firstWord space (word ++ s :: rest) = word := by
  rw [firstWord, dropWhile_word hne hw, List.takeWhile_append_of_pos (fun c hc => by simp [hw c hc]),
    List.takeWhile_cons_of_neg (by simp [hs]), List.append_nil]

end words

theorem flatMap_lengths {β : Type} {f g : α → List β} {xs : List α} {k : ℕ}
    (h : ∀ x ∈ xs, (g x).length ≤ (f x).length)
    (he : (xs.flatMap f).length + k = (xs.flatMap g).length) :
    k = 0 ∧ ∀ x ∈ xs, (f x).length = (g x).length := by
  induction xs generalizing k with
  | nil => exact ⟨by simpa using he, by simp⟩
  | cons x xs ih =>
    have hx := h x (by simp)
    simp only [List.flatMap_cons, List.length_append] at he
    obtain ⟨hk, hxs⟩ := ih (k := k + ((f x).length - (g x).length)) (fun y hy => h y (by simp [hy])) (by omega)
    refine ⟨by omega, List.forall_mem_cons.mpr ⟨by omega, hxs⟩⟩

section stretches

variable {β : Type} {p : α → Bool}

@[elab_as_elim]
theorem stretches_induction {motive : List α → Prop}
    (whole : ∀ st, (∀ x ∈ st, p x = false) → motive st)
    (first : ∀ st sep rest, (∀ x ∈ st, p x = false) → p sep = true → motive rest → motive (st ++ sep :: rest))
    (xs : List α) : motive xs := by
  suffices h : ∀ st, (∀ x ∈ st, p x = false) → motive (st ++ xs) from h [] (by simp)
  induction xs with
  | nil =>
    intro st hst
    rw [List.append_nil]
    exact whole st hst
  | cons x xs ih =>
    intro st hst
    cases hx : p x with
    | true => exact first st x xs hst hx (ih [] (by simp))
    | false =>
      rw [List.append_cons]
      apply ih
      intro y hy
      rcases List.mem_append.mp hy with hy | hy
      · exact hst y hy
      · rwa [List.mem_singleton.mp hy]

theorem of_mem_splitOnP {xs st : List α} (h : st ∈ xs.splitOnP p) : ∀ x ∈ st, p x = false := by
  induction xs using stretches_induction (p := p) with
  | whole xs hxs =>
    rw [List.splitOnP_eq_singleton hxs, List.mem_singleton] at h
    exact h ▸ hxs
  | first st' sep rest hst hsep ih =>
    rw [List.splitOnP_append_cons_of_forall_mem hst _ hsep, List.mem_cons] at h
    rcases h with rfl | h
    · exact hst
    · exact ih h

variable {q : β → Bool}

theorem takeWhile_unmarked {ys zs : List β} {b : β} (h : ∀ y ∈ ys, q y = false) (hb : q b = true) :
    (ys ++ b :: zs).takeWhile (fun y => !q y) = ys := by
  rw [List.takeWhile_append_of_pos (fun y hy => by simp [h y hy]), List.takeWhile_cons_of_neg (by simp [hb]),
    List.append_nil]

variable {f g : α → List β} (hp : ∀ x, p x = true → ∃ b, q b = true ∧ f x = [b] ∧ g x = [b])
  (hg : ∀ x, p x = false → ∀ b ∈ g x, q b = false)

include hp in
theorem flatMap_eq_of_stretches {xs : List α} (h : ∀ st ∈ xs.splitOnP p, st.flatMap f = st.flatMap g) :
    xs.flatMap f = xs.flatMap g := by
  induction xs using stretches_induction (p := p) with
  | whole xs hxs => exact h xs (by rw [List.splitOnP_eq_singleton hxs, List.mem_singleton])
  | first st sep rest hst hsep ih =>
    rw [List.splitOnP_append_cons_of_forall_mem hst _ hsep, List.forall_mem_cons] at h
    obtain ⟨b, -, hf, hg⟩ := hp sep hsep
    rw [List.flatMap_append, List.flatMap_append, List.flatMap_cons, List.flatMap_cons, h.1, hf, hg, ih h.2]

include hp hg

/-- The marked elements on the right come from the separators alone, and on the left they cannot
come from anywhere else, for then there would be more of them. -/
theorem unmarked_of_flatMap_eq {xs : List α} (h : xs.flatMap f = xs.flatMap g) :
    ∀ x ∈ xs, p x = false → ∀ b ∈ f x, q b = false := by
  have hunmarked {x : α} (hx : p x = false) : (g x).filter q = [] :=
    List.filter_eq_nil_iff.mpr fun b hb => by simp [hg x hx b hb]
  have hle : ∀ x ∈ xs, ((g x).filter q).length ≤ ((f x).filter q).length := by
    intro x _
    cases hx : p x with
    | true =>
      obtain ⟨b, -, hf, hg⟩ := hp x hx
      exact Nat.le_of_eq (by rw [hf, hg])
    | false =>
      rw [hunmarked hx]
      exact Nat.zero_le _
  have hsame : xs.flatMap (fun x => (f x).filter q) = xs.flatMap fun x => (g x).filter q := by
    rw [← List.filter_flatMap, ← List.filter_flatMap, h]
  obtain ⟨-, hlen⟩ := flatMap_lengths hle (k := 0) (congrArg List.length hsame)
  intro x hx hpx b hb
  have hnone := hlen x hx
  rw [hunmarked hpx, List.length_nil, List.length_eq_zero_iff] at hnone
  simpa using List.filter_eq_nil_iff.mp hnone b hb

theorem stretches_of_flatMap_eq {xs : List α} (h : xs.flatMap f = xs.flatMap g) :
    ∀ st ∈ xs.splitOnP p, st.flatMap f = st.flatMap g := by
  have hf := unmarked_of_flatMap_eq hp hg h
  induction xs using stretches_induction (p := p) with
  | whole xs hxs =>
    rw [List.splitOnP_eq_singleton hxs]
    simpa using h
  | first st sep rest hst hsep ih =>
    obtain ⟨b, hq, hfb, hgb⟩ := hp sep hsep
    rw [List.flatMap_append, List.flatMap_append, List.flatMap_cons, List.flatMap_cons, hfb, hgb] at h
    have hleft : ∀ y ∈ st.flatMap f, q y = false := by
      intro y hy
      obtain ⟨x, hx, hy⟩ := List.mem_flatMap.mp hy
      exact hf x (List.mem_append_left _ hx) (hst x hx) y hy
    have hright : ∀ y ∈ st.flatMap g, q y = false := by
      intro y hy
      obtain ⟨x, hx, hy⟩ := List.mem_flatMap.mp hy
      exact hg x (hst x hx) y hy
    have hfirst := congrArg (List.takeWhile fun y => !q y) h
    rw [List.singleton_append, List.singleton_append, takeWhile_unmarked hleft hq, takeWhile_unmarked hright hq] at hfirst
    rw [hfirst, List.append_cancel_left_eq, List.append_cancel_left_eq] at h
    rw [List.splitOnP_append_cons_of_forall_mem hst _ hsep, List.forall_mem_cons]
    exact ⟨hfirst, ih h fun x hx => hf x (by simp [hx])⟩

theorem flatMap_eq_iff_stretches {xs : List α} :
    xs.flatMap f = xs.flatMap g ↔ ∀ st ∈ xs.splitOnP p, st.flatMap f = st.flatMap g :=
  ⟨stretches_of_flatMap_eq hp hg, flatMap_eq_of_stretches hp⟩

end stretches

end Lines
