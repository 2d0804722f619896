import OpenTwins.EventDispatcher
import OpenTwins.Requests
import OpenTwins.Runs

namespace OpenTwins.StoreRuns

open MessagePack

inductive Op
  | dispatch (rules : Rules) (clock : ℕ → UInt64) (header : EventHeader) (u : UpdateEvent)
  | request (type : ItemType) (item : ItemAs) (req : Pointer) (target : ℕ)

def step : Op → Dispatcher → Option Dispatcher
  | .dispatch rules clock header u, d => dispatchEvent rules clock ⟨header, .update u⟩ d
  | .request type item req _, d =>
    (handleRequest type item req req.bytes.length d.memory).map fun r => { d with memory := r.2 }

def Op.Valid : Op → Prop
  | .dispatch _ _ header u => header.type = eventUpdate ∧ u.count.toNat ≤ maxVarsPerEvent ∧
      ∀ p ∈ u.entries, p.varId.toNat < 256
  | .request _ _ req target => GenuineDelete req.bytes target

def Op.writes (t v : ℕ) : Op → List UInt32
  | .dispatch _ _ header u =>
    (u.entries.filter fun p => header.twinId.toNat = t ∧ p.varId.toNat = v).map (·.value)
  | .request .. => []

def Op.stamps (t : ℕ) : Op → List UInt64
  | .dispatch _ clock header u =>
    (u.entries.zipIdx.filter fun p => header.twinId.toNat = t ∧ p.1.varId.toNat < maxVarsPerTwins).map fun p =>
      clock p.2 * 1000
  | .request .. => []

inductive Touch
  | update
  | delete
deriving DecidableEq

def Op.touch (t : ℕ) : Op → Option Touch
  | .dispatch _ _ header u =>
    if header.twinId.toNat = t ∧ ∃ p ∈ u.entries, p.varId.toNat < maxVarsPerTwins then some .update else none
  | .request _ _ _ target => if target = t then some .delete else none

def statusAfter (status : UInt32) : Option Touch → UInt32
  | none => status
  | some .update => statusOk
  | some .delete => statusDisconnected

theorem foldl_last {α β : Type} (c : α → Prop) [DecidablePred c] (f : α → β) (ps : List α) (x : β) :
    ps.foldl (fun x p => if c p then f p else x) x =
      ((ps.filter fun p => c p).map f).getLast?.getD x := by
  induction ps generalizing x with
  | nil => rfl
  | cons p ps ih =>
    rw [List.foldl_cons, ih, List.filter_cons]
    by_cases hp : c p
    · rw [if_pos hp, if_pos (by simpa using hp), List.map_cons, List.getLast?_cons, Option.getD_some]
    · rw [if_neg hp, if_neg (by simpa using hp)]

theorem step_memory {op : Op} (hv : op.Valid) (d : Dispatcher) :
    ∃ d', step op d = some d' ∧ ∀ t : Fin maxTwins,
      (∀ v, (d'.memory t).vars v = (op.writes t v).getLast?.getD ((d.memory t).vars v)) ∧
      (d'.memory t).status = statusAfter (d.memory t).status (op.touch t) ∧
      (d'.memory t).lastUpdateMs = (op.stamps t).getLast?.getD (d.memory t).lastUpdateMs := by
  cases op with
  | dispatch rules clock header u =>
    obtain ⟨ht, hc, hids⟩ := hv
    obtain ⟨d', hd, hs, -, -⟩ := handleEventUpdate_spec rules clock header hc d
    refine ⟨d', (dispatchEvent_update rules clock ht u d).trans hd, ?_⟩
    intro t
    obtain ⟨hvars, hstatus, hlast⟩ := hs t
    have hbyte : ∀ p ∈ u.entries, p.varId.toUInt8.toNat = p.varId.toNat := fun p hp => by
      rw [UInt16.toNat_toUInt8]
      exact Nat.mod_eq_of_lt (hids p hp)
    refine ⟨?_, ?_, ?_⟩
    · intro v
      rw [hvars, foldl_last, Op.writes]
      congr 3
      apply List.filter_congr
      intro p hp
      simp only [hbyte p hp, eq_comm]
    · rw [hstatus, Op.touch]
      have hex : (∃ p ∈ u.entries, p.varId.toUInt8.toNat < maxVarsPerTwins) ↔
          ∃ p ∈ u.entries, p.varId.toNat < maxVarsPerTwins :=
        exists_congr fun p => and_congr_right fun hp => by rw [hbyte p hp]
      simp only [hex, eq_comm (a := t.val)]
      split_ifs <;> rfl
    · rw [hlast, foldl_last, Op.stamps]
      congr 3
      apply List.filter_congr
      intro p hp
      simp only [hbyte p.1 (List.fst_mem_of_mem_zipIdx hp), eq_comm]
  | request type item req target =>
    obtain ⟨reply, m', hr, htaken, -⟩ := handleRequest_memory type item req d.memory
    refine ⟨{ d with memory := m' }, by rw [step, hr, Option.map_some], ?_⟩
    intro t
    simp only [htaken target hv.taken, disconnect, Op.writes, Op.touch, Op.stamps]
    by_cases h : t.val = target
    · rw [if_pos h, if_pos h.symm]
      exact ⟨fun v => rfl, rfl, rfl⟩
    · rw [if_neg h, if_neg (Ne.symm h)]
      exact ⟨fun v => rfl, rfl, rfl⟩

theorem getLast_append_getD {α : Type} (xs ys : List α) (x : α) :
    (xs ++ ys).getLast?.getD x = ys.getLast?.getD (xs.getLast?.getD x) := by
  rw [List.getLast?_append]
  cases ys.getLast? <;> rfl

theorem statusAfter_append (status : UInt32) (touch : Option Touch) (ts : List Touch) :
    statusAfter status (touch.toList ++ ts).getLast? = statusAfter (statusAfter status touch) ts.getLast? := by
  rw [List.getLast?_append]
  cases ts.getLast? with
  | none => cases touch <;> rfl
  | some last => cases last <;> rfl

theorem run_memory {ops : List Op} (hv : ∀ op ∈ ops, op.Valid) (d : Dispatcher) :
    ∃ d', Runs.run step ops d = some d' ∧ ∀ t : Fin maxTwins,
      (∀ v, (d'.memory t).vars v =
        (ops.flatMap fun op => op.writes t v).getLast?.getD ((d.memory t).vars v)) ∧
      (d'.memory t).status =
        statusAfter (d.memory t).status (ops.flatMap fun op => (op.touch t).toList).getLast? ∧
      (d'.memory t).lastUpdateMs = (ops.flatMap fun op => op.stamps t).getLast?.getD (d.memory t).lastUpdateMs := by
  induction ops generalizing d with
  | nil => exact ⟨d, rfl, fun t => ⟨fun v => rfl, rfl, rfl⟩⟩
  | cons op ops ih =>
    obtain ⟨d1, h1, hs⟩ := step_memory (hv op (by simp)) d
    obtain ⟨d2, h2, hr⟩ := ih (fun o ho => hv o (by simp [ho])) d1
    refine ⟨d2, by rw [Runs.run, h1, Option.bind_some, h2], ?_⟩
    intro t
    obtain ⟨hvars, hstatus, hlast⟩ := hs t
    obtain ⟨hvars', hstatus', hlast'⟩ := hr t
    simp only [List.flatMap_cons]
    refine ⟨?_, ?_, ?_⟩
    · intro v
      rw [hvars', hvars, getLast_append_getD]
    · rw [hstatus', hstatus, statusAfter_append]
    · rw [hlast', hlast, getLast_append_getD]

/-- Over every run from `twins_memory_init`, a variable reads as the last value addressed to it, a
twin is connected exactly when an update was the last that touched it, and its time is that of the last
update with a variable of its own. -/
theorem store_reflects_run {ops : List Op} (hv : ∀ op ∈ ops, op.Valid) (m : TwinsMemory)
    (notifyQueue userActionsQueue : EventQueue) {t : UInt32} {v : UInt8} (ht : t.toNat < maxTwins)
    (hvar : v.toNat < maxVarsPerTwins) :
    ∃ m₀ d, twinsMemoryInit m = some m₀ ∧
      Runs.run step ops ⟨m₀, notifyQueue, userActionsQueue⟩ = some d ∧
      twinsMemoryGetVar t v d.memory =
        some ((ops.flatMap fun op => op.writes t.toNat v.toNat).getLast?.getD floatZero) ∧
      twinsMemoryGetStatus t d.memory =
        some (if (ops.flatMap fun op => (op.touch t.toNat).toList).getLast? = some .update then 0 else 2) ∧
      ∃ s, d.memory.read t.toNat = some s ∧
        s.lastUpdateMs = (ops.flatMap fun op => op.stamps t.toNat).getLast?.getD 0 := by
  obtain ⟨d, hd, h⟩ := run_memory hv ⟨fun _ => initialTwin, notifyQueue, userActionsQueue⟩
  obtain ⟨hvars, hstatus, hlast⟩ := h ⟨t.toNat, ht⟩
  refine ⟨_, d, twinsMemoryInit_eq m, hd, ?_, ?_, _, FixedArray.read_of_lt _ ht, hlast⟩
  · rw [twinsMemoryGetVar_eq _ ht hvar, hvars]
    rfl
  · rw [twinsMemoryGetStatus_eq _ ht, hstatus]
    generalize (ops.flatMap fun op => (op.touch t.toNat).toList).getLast? = touch
    rcases touch with _ | _ | _ <;> rfl

theorem store_reflects_run_deleted :
    ∃ m₀ d, twinsMemoryInit connectedStore = some m₀ ∧
      Runs.run step [.dispatch ⟨fun _ => .ignore, fun _ _ => .ignore⟩ (fun _ => 7) ⟨eventUpdate, 1, 0, 3⟩
          ⟨1, fun _ => ⟨5, 0x3f800000⟩⟩,
          .dispatch ⟨fun _ => .ignore, fun _ _ => .ignore⟩ (fun _ => 9) ⟨eventUpdate, 1, 0, 3⟩
            ⟨1, fun _ => ⟨200, 0x40000000⟩⟩, .request .nil ⟨0, 0, []⟩ ⟨0, [0x92, 2, 3]⟩ 3]
        ⟨m₀, zeroedQueue, zeroedQueue⟩ = some d ∧
      twinsMemoryGetVar 3 5 d.memory = some 0x3f800000 ∧ twinsMemoryGetStatus 3 d.memory = some 2 ∧
      ∃ s, d.memory.read 3 = some s ∧ s.lastUpdateMs = 7000 := by
  refine store_reflects_run (t := 3) (v := 5) ?_ connectedStore zeroedQueue zeroedQueue (by decide) (by decide)
  intro op hop
  simp only [List.mem_cons, List.not_mem_nil, or_false] at hop
  rcases hop with rfl | rfl | rfl
  · exact ⟨rfl, by decide, by decide⟩
  · exact ⟨rfl, by decide, by decide⟩
  · exact ⟨2, [0x92, 2, 3], [], 0, rfl, rfl, .cons (e := [0x92]) rfl (.cons (e := [2]) rfl
      (.cons (e := [3]) rfl .nil)), .nil, by decide⟩

end OpenTwins.StoreRuns
