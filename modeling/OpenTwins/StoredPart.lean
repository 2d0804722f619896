import OpenTwins.CutOff
import OpenTwins.Leftovers

namespace OpenTwins

open MessagePack

def calls : ℕ → UnpackContext → Option UnpackContext
  | 0, u => some u
  | n + 1, u => (cwUnpackNext u).bind (calls n)

abbrev Position := UInt32 × Pointer

def Position.next (s : Position) : Position := readLow s.1 s.2

def Position.after (n : ℕ) (s : Position) : Position := Position.next^[n] s

def HeaderFits (c : ℕ) (s : Position) : Prop := headerSize s.2.bytes ≤ s.2.bytes.length - c

def HeadersFit (c n : ℕ) (s : Position) : Prop := ∀ i < n, HeaderFits c (s.after i)

instance (c : ℕ) (s : Position) : Decidable (HeaderFits c s) := inferInstanceAs (Decidable (_ ≤ _))

instance (c n : ℕ) (s : Position) : Decidable (HeadersFit c n s) := inferInstanceAs (Decidable (∀ i < n, _))

structure Paired (c : ℕ) (s : Position) (u t : UnpackContext) : Prop where
  stands : Stands u s.1 s.2
  sound : Sound u
  cut : Cut c u t

theorem calls_add (m n : ℕ) (u : UnpackContext) : calls (m + n) u = (calls m u).bind (calls n) := by
  induction m generalizing u with
  | zero => rw [Nat.zero_add]; rfl
  | succ m ih =>
    rw [Nat.succ_add, calls, calls, Option.bind_assoc]
    congr 1
    funext v
    exact ih v

theorem Position.after_add (m n : ℕ) (s : Position) : s.after (m + n) = (s.after m).after n := by
  rw [after, after, after, Nat.add_comm, Function.iterate_add_apply]

theorem headersFit_add (c m n : ℕ) (s : Position) :
    HeadersFit c (m + n) s ↔ HeadersFit c m s ∧ HeadersFit c n (s.after m) := by
  constructor
  · intro h
    refine ⟨fun i hi => h i (by omega), ?_⟩
    intro i hi
    rw [← Position.after_add]
    exact h (m + i) (by omega)
  · rintro ⟨h1, h2⟩ i hi
    by_cases him : i < m
    · exact h1 i him
    · have h := h2 (i - m) (by omega)
      rwa [← Position.after_add, Nat.add_sub_cancel' (not_lt.mp him)] at h

theorem headersFit_one (c : ℕ) (s : Position) : HeadersFit c 1 s ↔ HeaderFits c s := by
  constructor
  · intro h
    exact h 0 Nat.one_pos
  · intro h i hi
    obtain rfl : i = 0 := by omega
    exact h

theorem headersFit_zero (n : ℕ) (s : Position) : HeadersFit 0 n s := fun i _ => headerSize_le (s.after i).2.bytes

variable {c : ℕ} {s : Position} {u t : UnpackContext}

theorem paired_init (type : ItemType) (as : ItemAs) (c : ℕ) (p : Pointer) :
    Paired c (as.word.toUInt32, p) (cwUnpackContextInit type as p p.bytes.length)
      (cwUnpackContextInit type as ⟨p.address, cutOff c p.bytes⟩ p.bytes.length) where
  stands := stands_init type as p
  sound := sound_init type as p
  cut := ⟨rfl, rfl, rfl, rfl, rfl, rfl, rfl⟩

theorem Paired.word (h : Paired c s u t) : t.as.word.toUInt32 = s.1 := by
  rw [h.cut.word, h.stands.word]

theorem Paired.next (h : Paired c s u t) :
    (HeaderFits c s → ∃ u' t', cwUnpackNext u = some u' ∧ cwUnpackNext t = some t' ∧
      Paired c s.next u' t' ∧ TextCut c u' t') ∧
    (¬ HeaderFits c s → cwUnpackNext t = none) := by
  obtain ⟨u', hu, st⟩ := h.stands.next
  obtain ⟨u'', hu', so, -⟩ := cwUnpackNext_sound h.sound
  obtain rfl : u' = u'' := Option.some.inj (hu.symm.trans hu')
  by_cases hok : u.returnCode = .ok
  · obtain ⟨hp, -⟩ := h.stands.going hok
    have hm := cwUnpackNext_mirrors hok h.cut (h.sound.avail hok)
    rw [hp] at hm
    refine ⟨?_, fun hf => (if_neg hf).mp hm⟩
    intro hf
    · obtain ⟨v, t', hv, ht, hc, hx⟩ := (if_pos hf).mp hm
      obtain rfl : u' = v := Option.some.inj (hu.symm.trans hv)
      exact ⟨u', t', hu, ht, ⟨st, so, hc⟩, hx⟩
  · have hnil := h.stands.failed hok
    obtain rfl : u = u' := Option.some.inj ((cwUnpackNext_stuck hok).symm.trans hu)
    refine ⟨fun _ => ⟨u, t, hu, cwUnpackNext_stuck (by rwa [h.cut.returnCode]), ⟨st, so, h.cut⟩, fun hs => ?_⟩,
      fun hf => absurd ?_ hf⟩
    · rw [h.sound.failed hok] at hs
      cases hs
    · rw [HeaderFits, hnil]
      exact Nat.zero_le _

theorem Paired.calls (h : Paired c s u t) (n : ℕ) :
    (HeadersFit c n s → ∃ u' t', calls n t = some t' ∧ Paired c (s.after n) u' t') ∧
    (¬ HeadersFit c n s → calls n t = none) := by
  induction n generalizing s u t with
  | zero => exact ⟨fun _ => ⟨u, t, rfl, h⟩, fun hf => absurd (fun i hi => by omega) hf⟩
  | succ n ih =>
    obtain ⟨hfits, hfault⟩ := h.next
    rw [Nat.add_comm n 1, headersFit_add, headersFit_one, Position.after_add]
    by_cases h1 : HeaderFits c s
    · obtain ⟨u', t', -, ht, hp, -⟩ := hfits h1
      obtain ⟨ih1, ih2⟩ := ih hp
      rw [Nat.add_comm 1 n, OpenTwins.calls, ht, Option.bind_some]
      exact ⟨fun hf => ih1 hf.2, fun hf => ih2 fun hn => hf ⟨h1, hn⟩⟩
    · rw [Nat.add_comm 1 n, OpenTwins.calls, hfault h1]
      exact ⟨fun hf => absurd hf.1 h1, fun _ => rfl⟩

end OpenTwins
