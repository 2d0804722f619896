import OpenTwins.EventParser
import OpenTwins.StoredPart

namespace OpenTwins

theorem readHeader_calls (u : UnpackContext) : (readHeader u).map Prod.snd = calls 4 u := by
  simp only [readHeader, calls, Option.bind_eq_bind, Option.map_bind, Function.comp_def]
  rfl

theorem readHeader_some {u v : UnpackContext} (h : calls 4 u = some v) :
    ∃ header u1, cwUnpackNext u = some u1 ∧ header.type = u1.as.word.toUInt32 ∧
      readHeader u = some (header, v) := by
  obtain ⟨u1, h1, h⟩ := Option.bind_eq_some_iff.mp h
  obtain ⟨u2, h2, h⟩ := Option.bind_eq_some_iff.mp h
  obtain ⟨u3, h3, h⟩ := Option.bind_eq_some_iff.mp h
  obtain ⟨u4, h4, h⟩ := Option.bind_eq_some_iff.mp h
  cases h
  exact ⟨_, u1, h1, rfl, readHeader_eq h1 h2 h3 h4⟩

theorem readUpdate_calls {b : Batch} (hb : b.batchCount < maxVarsPerEvent) :
    (calls 2 b.parsing.ctx = none ∧ readUpdate b = none) ∨ ∃ b', readUpdate b = some b' ∧
      calls 2 b.parsing.ctx = some b'.parsing.ctx ∧ b'.batchCount = b.batchCount + 1 ∧
      b'.parsing.varsProcessed = b.parsing.varsProcessed + 1 ∧ b'.parsing.varCount = b.parsing.varCount := by
  simp only [calls]
  cases h1 : cwUnpackNext b.parsing.ctx with
  | none => exact .inl ⟨rfl, by simp [readUpdate, h1]⟩
  | some u1 =>
    cases h2 : cwUnpackNext u1 with
    | none => exact .inl ⟨by simp [h2], by simp [readUpdate, h1, h2]⟩
    | some u2 =>
      obtain ⟨log, hl⟩ := readUpdate_eq h1 h2 hb
      exact .inr ⟨_, hl, by simp [h2], rfl, rfl, rfl⟩

theorem fillBatch_calls (room : ℕ) {b : Batch} (hb : b.batchCount + room = maxVarsPerEvent) :
    let n := min room (b.parsing.varCount - b.parsing.varsProcessed)
    (calls (2 * n) b.parsing.ctx = none ∧ fillBatch room b = none) ∨ ∃ b', fillBatch room b = some b' ∧
      calls (2 * n) b.parsing.ctx = some b'.parsing.ctx ∧
      b'.parsing.varsProcessed = b.parsing.varsProcessed + n ∧ b'.parsing.varCount = b.parsing.varCount := by
  induction room generalizing b with
  | zero => exact .inr ⟨b, rfl, by simp [calls], by simp, rfl⟩
  | succ room ih =>
    by_cases hp : b.parsing.varsProcessed < b.parsing.varCount
    · have hsplit : 2 * min (room + 1) (b.parsing.varCount - b.parsing.varsProcessed) =
          2 + 2 * min room (b.parsing.varCount - (b.parsing.varsProcessed + 1)) := by omega
      simp only [hsplit, calls_add, fillBatch, if_pos hp]
      rcases readUpdate_calls (b := b) (by omega) with ⟨hc, hr⟩ | ⟨b1, hr, hc, hcount, hproc, hvars⟩
      · exact .inl ⟨by rw [hc]; rfl, by rw [hr]; rfl⟩
      · simp only [hc, hr, Option.bind_some]
        have ih := ih (b := b1) (by omega)
        rw [hproc, hvars] at ih
        rcases ih with ⟨hc', hf⟩ | ⟨b2, hf, hc', hproc', hvars'⟩
        · exact .inl ⟨hc', hf⟩
        · exact .inr ⟨b2, hf, hc', by omega, hvars'⟩
    · have hzero : b.parsing.varCount - b.parsing.varsProcessed = 0 := by omega
      simp only [hzero, Nat.min_zero, fillBatch, if_neg hp]
      exact .inr ⟨b, rfl, rfl, rfl, rfl⟩

theorem pushBatches_calls (frame : Frame) {rounds : ℕ} {p : Parsing} (log : HistoryLog) (q : EventQueue)
    (hr : p.varCount ≤ p.varsProcessed + rounds) :
    pushBatches frame rounds p log q = none ↔ calls (2 * (p.varCount - p.varsProcessed)) p.ctx = none := by
  induction rounds generalizing p log q with
  | zero =>
    rw [pushBatches, if_neg (by omega), Nat.sub_eq_zero_of_le (by omega)]
    simp [calls]
  | succ rounds ih =>
    by_cases hp : p.varsProcessed < p.varCount
    · have hsplit : 2 * (p.varCount - p.varsProcessed) =
          2 * min maxVarsPerEvent (p.varCount - p.varsProcessed) +
            2 * (p.varCount - (p.varsProcessed + min maxVarsPerEvent (p.varCount - p.varsProcessed))) := by
        omega
      rw [hsplit, calls_add]
      rcases fillBatch_calls maxVarsPerEvent
        (b := { parsing := p, log, updates := frame.updates p.varsProcessed, batchCount := 0 }) (by simp)
        with ⟨hc, hf⟩ | ⟨b, hf, hc, hproc, hvars⟩
      · simp only [hc, Option.bind_none, pushBatches, if_pos hp, nextBatch, hf, Option.bind_eq_bind]
      · simp only at hproc hvars
        have h8 : 0 < min maxVarsPerEvent (p.varCount - p.varsProcessed) :=
          lt_min (by decide) (by omega)
        rw [hc, Option.bind_some, pushBatches_succ rounds q hp (nextBatch_eq hf), ih _ _ (by omega), hproc, hvars]
    · rw [pushBatches, if_neg hp, Nat.sub_eq_zero_of_le (by omega)]
      simp [calls]

end OpenTwins
