import OpenTwins.ApiServer
import OpenTwins.EventDispatcher
import OpenTwins.Interleavings

namespace OpenTwins.Snapshots

open FixedArray Interleavings

inductive Store
  | var (t : Fin maxTwins) (v : Fin maxVarsPerTwins) (value : UInt32)
  | status (t : Fin maxTwins) (status : UInt32)
  | lastUpdateMs (t : Fin maxTwins) (lastUpdateMs : UInt64)

inductive Load
  | status (t : Fin maxTwins)
  | var (t : Fin maxTwins) (v : Fin maxVarsPerTwins)
deriving DecidableEq

def Store.apply (m : TwinsMemory) : Store → TwinsMemory
  | .var t v value => Function.update m t { m t with vars := Function.update (m t).vars v value }
  | .status t x => Function.update m t { m t with status := x }
  | .lastUpdateMs t x => Function.update m t { m t with lastUpdateMs := x }

def Load.value (m : TwinsMemory) : Load → UInt32
  | .status t => (m t).status
  | .var t v => (m t).vars v

def updateStores (now : UInt64) (twinId : UInt32) (varId : UInt8) (value : UInt32) : List Store :=
  if h : twinId.toNat < maxTwins ∧ varId.toNat < maxVarsPerTwins then
    [.var ⟨_, h.1⟩ ⟨_, h.2⟩ value, .status ⟨_, h.1⟩ statusOk, .lastUpdateMs ⟨_, h.1⟩ (now * 1000)]
  else []

structure Dispatch where
  clock : ℕ → UInt64
  twinId : UInt32
  u : UpdateEvent

def Dispatch.stores (e : Dispatch) : List Store :=
  e.u.entries.zipIdx.flatMap fun p => updateStores (e.clock p.2) e.twinId p.1.varId.toUInt8 p.1.value

def twinLoads (t : Fin maxTwins) : List Load :=
  .status t :: (List.finRange maxVarsPerTwins).map (.var t)

inductive Request
  | getAll
  | get (t : Fin maxTwins)

def Request.loads : Request → List Load
  | .getAll => (List.finRange maxTwins).flatMap twinLoads
  | .get t => twinLoads t

def Request.offset (t : Fin maxTwins) : Request → ℕ
  | .getAll => (maxVarsPerTwins + 1) * t
  | .get _ => 0

def reported {α : Type} (req : Request) (t : Fin maxTwins) (cells : List α) : List α :=
  (cells.drop (req.offset t)).take (maxVarsPerTwins + 1)

def Request.About (t : Fin maxTwins) : Request → Prop
  | .getAll => True
  | .get t' => t' = t

def cells (s : TwinState) : List UInt32 := s.status :: (List.finRange maxVarsPerTwins).map s.vars

theorem twinLoads_cells (t : Fin maxTwins) (m : TwinsMemory) :
    (twinLoads t).map (Load.value m) = cells (m t) := by
  simp only [twinLoads, cells, List.map_cons, List.map_map]
  rfl

theorem reported_loads {req : Request} {t : Fin maxTwins} (h : req.About t) :
    reported req t req.loads = twinLoads t := by
  cases req with
  | getAll =>
    clear h
    revert t
    decide
  | get t' =>
    obtain rfl : t' = t := h
    revert t'
    decide

theorem updateStores_eq (now : UInt64) (twinId : UInt32) (varId : UInt8) (value : UInt32) (m : TwinsMemory) :
    twinsMemoryUpdateVar now twinId varId value m =
      some ((updateStores now twinId varId value).foldl Store.apply m) := by
  unfold twinsMemoryUpdateVar updateStores
  by_cases h : twinId.toNat < maxTwins ∧ varId.toNat < maxVarsPerTwins
  · rw [if_neg (by omega), dif_pos h]
    simp only [storeVar_eq m h.1 h.2, storeStatus_eq _ h.1, storeLastUpdateMs_eq _ h.1, Option.bind_eq_bind,
      Option.bind_some]
    rfl
  · rw [if_pos (by omega), dif_neg h]
    rfl

theorem dispatchStores_eq (e : Dispatch) (h : e.u.count.toNat ≤ maxVarsPerEvent) (m : TwinsMemory) :
    forLoop (fun i m => (e.u.updates.read i).bind fun p =>
        twinsMemoryUpdateVar (e.clock i) e.twinId p.varId.toUInt8 p.value m) e.u.count.toNat m =
      some (e.stores.foldl Store.apply m) := by
  obtain ⟨m', hm, rfl⟩ := forLoop_invariant (k := e.u.count.toNat) (s := m)
    (f := fun i m => (e.u.updates.read i).bind fun p =>
      twinsMemoryUpdateVar (e.clock i) e.twinId p.varId.toUInt8 p.value m)
    (P := fun k m' => m' = ((e.u.updates.prefixList k).zipIdx.flatMap fun p =>
      updateStores (e.clock p.2) e.twinId p.1.varId.toUInt8 p.1.value).foldl Store.apply m)
    (fun i hi m' hp => by
      have hi8 : i < maxVarsPerEvent := by omega
      rw [read_of_lt _ hi8, Option.bind_some, updateStores_eq, prefixList_succ _ hi8]
      refine ⟨_, rfl, ?_⟩
      simp [hp, List.zipIdx_append, prefixList_length _ hi8.le]) (by simp)
  exact hm

def packCells (t status : UInt32) (vars : List UInt32) (pc : PackContext) : PackContext :=
  let pc := cwPackUnsigned t.toUInt64 (cwPackStr (text "id") (cwPackMapSize 3 pc))
  let pc := cwPackUnsigned (UInt64.ofInt status.toBitVec.toInt) (cwPackStr (text "status") pc)
  let pc := cwPackArraySize (UInt32.ofNat maxVarsPerTwins) (cwPackStr (text "vars") pc)
  vars.foldl (fun pc x => cwPackFloat x pc) pc

theorem packTwin_cells (m : TwinsMemory) {t : UInt32} (ht : t.toNat < maxTwins) (pc : PackContext) :
    packTwin m t pc = some (packCells t (m ⟨t.toNat, ht⟩).status
      ((m ⟨t.toNat, ht⟩).vars.prefixList maxVarsPerTwins) pc) := by
  have hread (i : ℕ) (hi : i < maxVarsPerTwins) (pc : PackContext) :
      (twinsMemoryGetVar t (UInt8.ofNat i) m).map (fun x => cwPackFloat x pc) =
        ((m ⟨t.toNat, ht⟩).vars.read i).bind fun x => some (cwPackFloat x pc) := by
    have hb : (UInt8.ofNat i).toNat = i := UInt8.toNat_ofNat_of_lt' (hi.trans (by decide))
    have hv : (UInt8.ofNat i).toNat < maxVarsPerTwins := by rwa [hb]
    rw [twinsMemoryGetVar_eq m ht hv, Option.map_some, read_of_lt _ hi, Option.bind_some]
    simp only [hb]
  rw [packTwin]
  simp only [twinsMemoryGetStatus_eq m ht, Option.bind_eq_bind, Option.bind_some]
  rw [forLoop_congr maxVarsPerTwins _ hread,
    forLoop_read (m ⟨t.toNat, ht⟩).vars (fun x pc => some (cwPackFloat x pc)) le_rfl]
  exact List.foldlM_pure

def whole (es : List Dispatch) (j : ℕ) (m : TwinsMemory) : TwinsMemory :=
  ((es.take j).flatMap Dispatch.stores).foldl Store.apply m

theorem after_whole (es : List Dispatch) (j : ℕ) (m : TwinsMemory) :
    after (fun s m => Store.apply m s) (es.flatMap Dispatch.stores)
      ((es.take j).flatMap Dispatch.stores).length m = whole es j m := by
  have hsplit : es.flatMap Dispatch.stores =
      (es.take j).flatMap Dispatch.stores ++ (es.drop j).flatMap Dispatch.stores := by
    rw [← List.flatMap_append, List.take_append_drop]
  rw [hsplit, after_append]
  rfl

def reply (acts : List (Store ⊕ Load)) (m : TwinsMemory) : List UInt32 :=
  observe (fun s m => Store.apply m s) (fun l m => Load.value m l) acts m

/-- Each cell that is reported of a twin is the one found at its own load, and the loads follow
one another. Only where all of them fall between the same two events is the report the state
of the twin at one time. -/
theorem reply_cells (m : TwinsMemory) (es : List Dispatch) {req : Request} {t : Fin maxTwins}
    (hreq : req.About t) {acts : List (Store ⊕ Load)}
    (h : Interleaved (es.flatMap Dispatch.stores) req.loads acts) :
    (reported req t (instants 0 acts)).Pairwise (· ≤ ·) ∧
    (reported req t (instants 0 acts)).length = maxVarsPerTwins + 1 ∧
    reported req t (reply acts m) = List.zipWith (fun l k => Load.value
      (after (fun s m => Store.apply m s) (es.flatMap Dispatch.stores) k m) l) (twinLoads t)
      (reported req t (instants 0 acts)) ∧
    ∀ j, (∀ k ∈ reported req t (instants 0 acts), k = ((es.take j).flatMap Dispatch.stores).length) →
      reported req t (reply acts m) = cells (whole es j m t) := by
  have hzip : reported req t (reply acts m) = List.zipWith (fun l k => Load.value
      (after (fun s m => Store.apply m s) (es.flatMap Dispatch.stores) k m) l) (twinLoads t)
      (reported req t (instants 0 acts)) := by
    rw [reply, observe_eq h, ← reported_loads hreq]
    simp only [reported, List.drop_zipWith, List.take_zipWith]
  have hlen : (reported req t (instants 0 acts)).length = maxVarsPerTwins + 1 := by
    have hl := congrArg List.length (reported_loads hreq)
    simp only [reported, List.length_take, List.length_drop, instants_length h] at hl ⊢
    rw [hl]
    simp [twinLoads]
  refine ⟨?_, hlen, hzip, ?_⟩
  · exact ((instants_sorted acts 0).sublist (List.drop_sublist _ _)).sublist (List.take_sublist _ _)
  · intro j hj
    rw [hzip, ← twinLoads_cells, ← after_whole]
    exact zipWith_instant _ (by rw [hlen]; simp [twinLoads]) hj

def twoUpdates : Dispatch where
  clock := fun _ => 0
  twinId := 0
  u := ⟨2, fun i => ⟨UInt16.ofNat i, 0x3f800000⟩⟩

def tornActs : List (Store ⊕ Load) :=
  ((Request.get 0).loads.take 2).map .inr ++
    (([twoUpdates].flatMap Dispatch.stores).map .inl ++ ((Request.get 0).loads.drop 2).map .inr)

theorem torn_reply : Interleaved ([twoUpdates].flatMap Dispatch.stores) (Request.get 0).loads tornActs ∧
    ∀ j, reported (.get 0) 0 (reply tornActs fun _ => initialTwin) ≠
      cells (whole [twoUpdates] j (fun _ => initialTwin) 0) := by
  refine ⟨interleaved_between _ _ 2, ?_⟩
  intro j
  cases j with
  | zero => decide
  | succ j =>
    have hall : whole [twoUpdates] (j + 1) = whole [twoUpdates] 1 := by
      funext m
      simp only [whole, List.take_succ_cons, List.take_nil]
    rw [hall]
    decide

theorem reply_cells_twoUpdates :
    reported (.get 0) 0 (reply (([twoUpdates].flatMap Dispatch.stores).map .inl ++
      (Request.get 0).loads.map .inr) fun _ => initialTwin) =
        cells (whole [twoUpdates] 1 (fun _ => initialTwin) 0) :=
  (reply_cells (t := 0) (fun _ => initialTwin) [twoUpdates] (show (Request.get 0).About 0 from rfl)
    (interleaved_between _ _ 0)).2.2.2 1 (by decide)

end OpenTwins.Snapshots
