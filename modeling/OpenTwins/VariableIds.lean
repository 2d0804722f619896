import OpenTwins.Routing
import OpenTwins.Snapshots

namespace OpenTwins

open FixedArray Snapshots

def Writes (e : Dispatch) (t : Fin maxTwins) (k : Fin maxVarsPerTwins) : Prop := ∃ x, .var t k x ∈ e.stores

def WritesAsNamed (e : Dispatch) : Prop :=
  (∀ t k, Writes e t k ↔ t.val = e.twinId.toNat ∧ ∃ p ∈ e.u.entries, p.varId.toNat = k.val) ∧
  ∀ p ∈ e.u.entries, maxVarsPerTwins ≤ p.varId.toNat →
    ∀ now, updateStores now e.twinId p.varId.toUInt8 p.value = []

theorem updateStores_nil (now : UInt64) (twinId : UInt32) (varId : UInt8) (value : UInt32) :
    updateStores now twinId varId value = [] ↔ maxTwins ≤ twinId.toNat ∨ maxVarsPerTwins ≤ varId.toNat := by
  unfold updateStores
  split_ifs with h
  · simp only [false_iff]
    omega
  · simp only [true_iff]
    omega

theorem mem_updateStores (now : UInt64) (twinId : UInt32) (varId : UInt8) (value : UInt32) (t : Fin maxTwins)
    (k : Fin maxVarsPerTwins) :
    (∃ x, Store.var t k x ∈ updateStores now twinId varId value) ↔ t.val = twinId.toNat ∧ varId.toNat = k := by
  unfold updateStores
  split_ifs with h
  · simp only [List.mem_cons, Store.var.injEq, reduceCtorEq, List.not_mem_nil, or_false, Fin.ext_iff]
    constructor
    · rintro ⟨x, ht, hk, -⟩
      exact ⟨ht, hk.symm⟩
    · rintro ⟨ht, hk⟩
      exact ⟨value, ht, hk.symm, rfl⟩
  · simp only [List.not_mem_nil, exists_false, false_iff]
    rintro ⟨ht, hk⟩
    have := t.isLt
    have := k.isLt
    omega

theorem writes_iff (e : Dispatch) (t : Fin maxTwins) (k : Fin maxVarsPerTwins) :
    Writes e t k ↔ t.val = e.twinId.toNat ∧ ∃ p ∈ e.u.entries, p.varId.toNat % 2 ^ 8 = k := by
  simp only [Writes, Dispatch.stores, List.mem_flatMap]
  constructor
  · rintro ⟨x, ⟨p, i⟩, hp, hx⟩
    obtain ⟨ht, hk⟩ := (mem_updateStores _ _ _ _ t k).mp ⟨x, hx⟩
    exact ⟨ht, p, List.fst_mem_of_mem_zipIdx hp, by rwa [UInt16.toNat_toUInt8] at hk⟩
  · rintro ⟨ht, p, hp, hk⟩
    obtain ⟨i, hi⟩ := List.mem_iff_getElem?.mp hp
    rw [← UInt16.toNat_toUInt8] at hk
    obtain ⟨x, hx⟩ := (mem_updateStores (e.clock i) e.twinId p.varId.toUInt8 p.value t k).mpr ⟨ht, hk⟩
    exact ⟨x, (p, i), List.mk_mem_zipIdx_iff_getElem?.mpr hi, hx⟩

theorem handleEventUpdate_stores (rules : Rules) (clock : ℕ → UInt64) (header : EventHeader) {u : UpdateEvent}
    (h : u.count.toNat ≤ maxVarsPerEvent) (d : Dispatcher) :
    ∃ d', handleEventUpdate rules clock ⟨header, .update u⟩ d = some d' ∧
      d'.memory = (Dispatch.mk clock header.twinId u).stores.foldl Store.apply d.memory := by
  obtain ⟨d', hd, -⟩ := handleEventUpdate_spec rules clock header h d
  refine ⟨d', hd, ?_⟩
  have hloop := dispatchStores_eq ⟨clock, header.twinId, u⟩ h d.memory
  simp only [handleEventUpdate, Payload.asUpdate, Option.bind_eq_bind, Option.bind_some, hloop] at hd
  obtain ⟨b, -, hd⟩ := Option.bind_eq_some_iff.mp hd
  obtain ⟨q, -, hd⟩ := Option.bind_eq_some_iff.mp hd
  obtain ⟨q', -, hd⟩ := Option.bind_eq_some_iff.mp hd
  cases hd
  rfl

theorem writesAsNamed_iff (rules : Rules) (clock : ℕ → UInt64) (header : EventHeader) {u : UpdateEvent}
    (h : u.count.toNat ≤ maxVarsPerEvent) (d : Dispatcher) :
    (∃ d', handleEventUpdate rules clock ⟨header, .update u⟩ d = some d' ∧
      d'.memory = (Dispatch.mk clock header.twinId u).stores.foldl Store.apply d.memory) ∧
    (WritesAsNamed ⟨clock, header.twinId, u⟩ ↔ maxTwins ≤ header.twinId.toNat ∨
      ∀ p ∈ u.entries, p.varId.toNat < 2 ^ 8 ∨ maxVarsPerTwins ≤ p.varId.toNat % 2 ^ 8) := by
  have h20 : maxVarsPerTwins = 20 := rfl
  refine ⟨handleEventUpdate_stores rules clock header h d, ?_⟩
  constructor
  · rintro ⟨-, hsilent⟩
    by_contra hn
    push Not at hn
    obtain ⟨ht, p, hp, hwide, hlow⟩ := hn
    have hnil := (updateStores_nil _ _ _ _).mp (hsilent p hp (by omega) 0)
    rw [UInt16.toNat_toUInt8] at hnil
    simp only at hnil
    omega
  · intro hcond
    constructor
    · intro t k
      rw [writes_iff]
      apply and_congr_right
      intro ht
      have hin := hcond.resolve_left (by have := t.isLt; simp only at ht; omega)
      apply exists_congr
      intro p
      apply and_congr_right
      intro hp
      have := hin p hp
      have := k.isLt
      omega
    · intro p hp hv now
      rw [updateStores_nil, UInt16.toNat_toUInt8]
      rcases hcond with ht | hin
      · exact .inl ht
      · have := hin p hp
        exact .inr (by omega)

theorem writesAsNamed_iff_oneVariable :
    WritesAsNamed ⟨fun _ => 0, 3, ⟨1, fun _ => ⟨19, 0x3f800000⟩⟩⟩ :=
  (writesAsNamed_iff allNotify (fun _ => 0) ⟨eventUpdate, 1, 0, 3⟩ (u := ⟨1, fun _ => ⟨19, 0x3f800000⟩⟩)
    (by decide) idleDispatcher).2.mpr (.inr (by decide))

theorem wideId_writes_low :
    ¬ WritesAsNamed ⟨fun _ => 0, 0, ⟨1, fun _ => ⟨261, 0x3f800000⟩⟩⟩ ∧
    getUpdateRule allNotify 0 261 = some .ignore ∧
    (handleEventUpdate allNotify (fun _ => 0) ⟨⟨eventUpdate, 1, 0, 0⟩, .update ⟨1, fun _ => ⟨261, 0x3f800000⟩⟩⟩
      idleDispatcher).bind (fun d => twinsMemoryGetVar 0 5 d.memory) = some 0x3f800000 ∧
    twinsMemoryGetVar 0 5 idleDispatcher.memory = some floatZero := by
  refine ⟨?_, by decide, by decide, by decide⟩
  intro h
  have hnil := h.2 ⟨261, 0x3f800000⟩ (by decide) (by decide) 0
  rw [updateStores_nil] at hnil
  exact absurd hnil (by decide)

end OpenTwins
