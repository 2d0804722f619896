import OpenTwins.ServerRuns
import OpenTwins.Snapshots
import OpenTwins.ThreadStore

namespace OpenTwins

open FixedArray Interleavings MessagePack Snapshots

section packing

def packReported (t : UInt32) (cells : List UInt32) (pc : PackContext) : PackContext :=
  match cells with
  | [] => packCells t 0xffffffff (List.replicate maxVarsPerTwins floatMinusOne) pc
  | status :: vars => packCells t status vars pc

theorem packTwin_reported (m : TwinsMemory) {t : Fin maxTwins} {id : UInt32} (hid : id.toNat = t.val) (pc : PackContext) :
    packTwin m id pc = some (packReported id (cells (m t)) pc) := by
  obtain ⟨n, ht⟩ := t
  obtain rfl : id.toNat = n := hid
  rw [packTwin_cells m ht, cells, prefixList, List.take_of_length_le (by simp), List.ofFn_eq_map]
  rfl

theorem packTwin_unknown (m : TwinsMemory) {id : UInt32} (hid : maxTwins ≤ id.toNat) (pc : PackContext) :
    packTwin m id pc = some (packReported id [] pc) := by
  have hvar (i : ℕ) (hi : i < maxVarsPerTwins) (pc : PackContext) :
      (twinsMemoryGetVar id (UInt8.ofNat i) m).map (fun x => cwPackFloat x pc) =
        (FixedArray.read (fun _ : Fin maxVarsPerTwins => floatMinusOne) i).bind fun x => some (cwPackFloat x pc) := by
    rw [twinsMemoryGetVar, if_pos (.inl hid), read_of_lt _ hi]
    rfl
  rw [packTwin, twinsMemoryGetStatus, if_pos hid]
  simp only [Option.bind_eq_bind, Option.bind_some]
  rw [forLoop_congr maxVarsPerTwins _ hvar,
    forLoop_read (fun _ : Fin maxVarsPerTwins => floatMinusOne) (fun x pc => some (cwPackFloat x pc)) le_rfl]
  exact List.foldlM_pure

end packing

namespace Query

def accesses : Query → List (Store ⊕ Load)
  | .refused _ => []
  | .getAll => Request.getAll.loads.map .inr
  | .get id => if h : id.toNat < maxTwins then (Request.get ⟨id.toNat, h⟩).loads.map .inr else []
  | .delete id => if h : id.toNat < maxTwins then [.inl (.status ⟨id.toNat, h⟩ statusDisconnected)] else []

def pack (q : Query) (loaded : List UInt32) : PackContext :=
  match q with
  | .refused refusal => packError (text refusal.message) (cwPackContextInit errorBufSize)
  | .getAll => (List.finRange maxTwins).foldl
      (fun pc (t : Fin maxTwins) => packReported (UInt32.ofNat t) (reported .getAll t loaded) pc)
      (cwPackArraySize (UInt32.ofNat maxTwins) (cwPackContextInit resBufSize))
  | .get id => packReported id loaded (cwPackContextInit resBufSize)
  | .delete id => packDeleted id (cwPackContextInit resBufSize)

theorem handle_accesses (q : Query) (m : TwinsMemory) (sent : List PackContext) :
    q.handle m sent = some (sent ++ [q.pack ((q.accesses.filterMap Sum.getRight?).map (Load.value m))],
      (q.accesses.filterMap Sum.getLeft?).foldl Store.apply m) := by
  have hloads (ls : List Load) : (ls.map (Sum.inr : Load → Store ⊕ Load)).filterMap Sum.getRight? = ls := by
    rw [List.filterMap_map]
    exact List.filterMap_some
  have hstores (ls : List Load) : (ls.map (Sum.inr : Load → Store ⊕ Load)).filterMap Sum.getLeft? = [] := by
    rw [List.filterMap_map]
    exact List.filterMap_eq_nil_iff.mpr fun _ _ => rfl
  cases q with
  | refused refusal => rfl
  | getAll =>
    rw [accesses, hloads, hstores, pack, handle, switchOpcode, if_pos rfl]
    have hpack (i : ℕ) (hi : i < maxTwins) (pc : PackContext) : packTwin m (UInt32.ofNat i) pc =
        (FixedArray.read (fun t : Fin maxTwins => t) i).bind fun t => some (packReported (UInt32.ofNat t)
          (reported .getAll t ((Request.loads .getAll).map (Load.value m))) pc) := by
      rw [read_of_lt _ hi, Option.bind_some, packTwin_reported m (t := ⟨i, hi⟩)
        (UInt32.toNat_ofNat_of_lt' (hi.trans (by decide)))]
      have hcells := reported_loads (show Request.getAll.About ⟨i, hi⟩ from trivial)
      rw [reported, ← List.map_drop, ← List.map_take, ← reported, hcells, twinLoads_cells]
    rw [forLoop_congr maxTwins _ hpack, forLoop_read (fun t : Fin maxTwins => t) _ le_rfl, prefixList,
      List.take_of_length_le (by simp)]
    exact congrArg (Option.map fun pc => (zmqSend pc sent, m)) List.foldlM_pure
  | get id =>
    rw [accesses, pack, handle, switchOpcode, if_neg (by decide), if_pos rfl]
    split_ifs with hid
    · rw [hloads, hstores, Request.loads, twinLoads_cells, packTwin_reported m (t := ⟨id.toNat, hid⟩) rfl]
      rfl
    · rw [packTwin_unknown m (not_lt.mp hid)]
      rfl
  | delete id =>
    rw [accesses, pack, handle, switchOpcode, if_neg (by decide), if_neg (by decide), if_pos rfl,
      twinsMemorySetStatus]
    by_cases hid : id.toNat < maxTwins
    · rw [dif_pos hid, if_neg (not_le.mpr hid), storeStatus_eq m hid]
      rfl
    · rw [dif_neg hid, if_pos (not_lt.mp hid)]
      rfl

end Query

theorem apiServerRound_accesses (type : ItemType) (item : ItemAs) (req : Pointer) (m : TwinsMemory)
    (sent : List PackContext) : apiServerRound type item req req.bytes.length m sent =
      some (sent ++ [(queryOf req).pack (((queryOf req).accesses.filterMap Sum.getRight?).map (Load.value m))],
        ((queryOf req).accesses.filterMap Sum.getLeft?).foldl Store.apply m) := by
  rw [apiServerRound_query, Query.handle_accesses]

def Snapshots.Store.writes (c : Load) : Store → Option UInt32
  | .var t v x => if c = .var t v then some x else none
  | .status t x => if c = .status t then some x else none
  | .lastUpdateMs _ _ => none

theorem value_apply (c : Load) (s : Store) (m : TwinsMemory) :
    Load.value (s.apply m) c = (s.writes c).getD (Load.value m c) := by
  have hother {t t' : Fin maxTwins} (x : TwinState) (h : t' ≠ t) : Function.update m t x t' = m t' :=
    Function.update_of_ne h _ _
  cases s with
  | var t v x =>
    cases c with
    | status t' =>
      by_cases ht : t' = t
      · subst ht
        simp [Store.apply, Store.writes, Load.value]
      · simp [Store.apply, Store.writes, Load.value, hother _ ht]
    | var t' v' =>
      by_cases ht : t' = t
      · subst ht
        by_cases hv : v' = v
        · simp [Store.apply, Store.writes, Load.value, hv]
        · simp [Store.apply, Store.writes, Load.value, hv]
      · simp [Store.apply, Store.writes, Load.value, ht]
  | status t x =>
    cases c with
    | status t' =>
      by_cases ht : t' = t
      · simp [Store.apply, Store.writes, Load.value, ht]
      · simp [Store.apply, Store.writes, Load.value, ht]
    | var t' v' =>
      by_cases ht : t' = t
      · subst ht
        simp [Store.apply, Store.writes, Load.value]
      · simp [Store.apply, Store.writes, Load.value, hother _ ht]
  | lastUpdateMs t x =>
    have hcell (t' : Fin maxTwins) : (Store.apply m (.lastUpdateMs t x) t').vars = (m t').vars ∧
        (Store.apply m (.lastUpdateMs t x) t').status = (m t').status := by
      by_cases ht : t' = t
      · subst ht
        simp [Store.apply]
      · simp [Store.apply, hother _ ht]
    cases c with
    | status t' => exact (hcell t').2
    | var t' v' => exact congrFun (hcell t').1 v'

def entryStores (xs : List (UInt64 × Entry)) : List Store :=
  xs.flatMap fun x => updateStores x.1 x.2.twinId x.2.update.varId.toUInt8 x.2.update.value

theorem updateStores_var (now : UInt64) (id : UInt32) (varId : UInt8) (value : UInt32) (t : Fin maxTwins)
    (v : Fin maxVarsPerTwins) : (updateStores now id varId value).filterMap (Store.writes (.var t v)) =
      if id.toNat = t.val ∧ varId.toNat = v.val then [value] else [] := by
  unfold updateStores
  by_cases hin : id.toNat < maxTwins ∧ varId.toNat < maxVarsPerTwins
  · rw [dif_pos hin]
    have hcell : Load.var t v = .var ⟨id.toNat, hin.1⟩ ⟨varId.toNat, hin.2⟩ ↔
        id.toNat = t.val ∧ varId.toNat = v.val := by
      rw [Load.var.injEq, Fin.ext_iff, Fin.ext_iff]
      exact and_congr eq_comm eq_comm
    rw [List.filterMap_cons, Store.writes, if_congr hcell rfl rfl]
    split_ifs <;> rfl
  · rw [dif_neg hin, if_neg]
    · rfl
    · rintro ⟨ht, hv⟩
      exact hin ⟨ht ▸ t.isLt, hv ▸ v.isLt⟩

theorem entryStores_var (t : Fin maxTwins) (v : Fin maxVarsPerTwins) (xs : List (UInt64 × Entry)) :
    (entryStores xs).filterMap (Store.writes (.var t v)) = readings t v (xs.map Prod.snd) := by
  induction xs with
  | nil => rfl
  | cons x xs ih =>
    rw [entryStores, List.flatMap_cons, List.filterMap_append, ← entryStores, ih, updateStores_var, List.map_cons,
      readings, readings, List.filter_cons]
    by_cases hx : x.2.Names t v
    · rw [if_pos (show _ ∧ _ from hx), if_pos (decide_eq_true hx)]
      rfl
    · rw [if_neg (show ¬ (_ ∧ _) from hx), if_neg (by rwa [decide_eq_true_eq])]
      rfl

theorem accesses_var {q : Query} {s : Store} (h : .inl s ∈ q.accesses) (t : Fin maxTwins) (v : Fin maxVarsPerTwins) :
    s.writes (.var t v) = none := by
  cases q with
  | refused refusal => cases h
  | getAll =>
    obtain ⟨l, -, hl⟩ := List.mem_map.mp h
    cases hl
  | get id =>
    rw [Query.accesses] at h
    split_ifs at h
    · obtain ⟨l, -, hl⟩ := List.mem_map.mp h
      cases hl
    · cases h
  | delete id =>
    rw [Query.accesses] at h
    split_ifs at h
    · cases List.mem_singleton.mp h
      rfl
    · cases h

def turns (c : Load) (zs : List (Store ⊕ (Store ⊕ Load))) : List ℕ :=
  instants 0 ((zs.map merge).filterMap (onCell (Store.writes c) (· = c)))

def told (c : Load) (zs : List (Store ⊕ (Store ⊕ Load))) (m : TwinsMemory) : List UInt32 :=
  seen (fun s m => Store.apply m s) (fun m => Load.value m c) (· = c) (zs.map merge) m

theorem told_eq (c : Load) (zs : List (Store ⊕ (Store ⊕ Load))) (m : TwinsMemory) :
    told c zs m = (turns c zs).map fun k =>
      ((written (Store.writes c) (zs.map merge)).take k).getLast?.getD (Load.value m c) :=
  seen_eq (fun s m => value_apply c s m) _ _ m

def ThreadAct.IsRequest : ThreadAct → Prop
  | .request _ _ _ => True
  | _ => False

namespace EngineThreads

variable {Socket : Type} {connectors : Connectors Socket} {acts : List ThreadAct} {t : EngineThreads Socket}

def HasStored (m₀ : TwinsMemory) (t : EngineThreads Socket) : Prop :=
  ∃ xs : List (UInt64 × Entry), xs.map Prod.snd = t.storedEntries ∧
    t.engine.dispatcher.memory = (entryStores xs).foldl Store.apply m₀

theorem StoreStep.hasStored {m₀ : TwinsMemory} {a : ThreadAct} {t' : EngineThreads Socket} (ha : ¬ a.IsRequest)
    (h : StoreStep a t t') (hs : HasStored m₀ t) : HasStored m₀ t' := by
  obtain ⟨xs, hxs, hm⟩ := hs
  cases h with
  | stays memory entries => exact ⟨xs, hxs.trans entries.symm, memory.trans hm⟩
  | stores now x memory entries =>
    refine ⟨xs ++ [(now, x)], ?_, ?_⟩
    · rw [entries, ← hxs, List.map_append]
      rfl
    · have hx := updateStores_eq now x.twinId x.update.varId.toUInt8 x.update.value t.engine.dispatcher.memory
      rw [twinsMemoryUpdateVar_eq, Option.some.injEq] at hx
      rw [memory, hx, hm, entryStores, entryStores, List.flatMap_append, List.foldl_append]
      simp
  | requests act => exact absurd (act ▸ trivial) ha

/-- In every interleaving of a run of the threads and a session of requests, access by access: a
variable is told as one of its readings, in the order in which the queue accepted them and never an
older one after a newer. A status is told as it was set last, by the processor or by the session. -/
theorem session_reads {memory m₀ : TwinsMemory} (hm : twinsMemoryInit memory = some m₀)
    (hacts : ∀ a ∈ acts, ¬ a.IsRequest) (rules : Rules) (history sentHistory : History)
    (queueIn notifyQueue userActionsQueue : EventQueue)
    (h : Runs.run (step connectors) acts
      (start rules history sentHistory m₀ queueIn notifyQueue userActionsQueue) = some t) :
    ∃ xs : List (UInt64 × Entry), xs.map Prod.snd <+: t.engine.accepted.flatMap Event.entries ∧
      t.engine.dispatcher.memory = (entryStores xs).foldl Store.apply m₀ ∧
      ∀ (qs : List Query) zs, Interleaved (entryStores xs) (qs.flatMap Query.accesses) zs → ∀ i,
        (∀ v, (turns (.var i v) zs).Pairwise (· ≤ ·) ∧ told (.var i v) zs m₀ = (turns (.var i v) zs).map fun k =>
          ((readings i v (xs.map Prod.snd)).take k).getLast?.getD floatZero) ∧
        told (.status i) zs m₀ = (turns (.status i) zs).map fun k =>
          ((written (Store.writes (.status i)) (zs.map merge)).take k).getLast?.getD statusDisconnected := by
  rw [twinsMemoryInit_eq, Option.some.injEq] at hm
  subst hm
  have hr : Refines connectors acts _ _ := start_refines rules history sentHistory (fun _ => initialTwin) queueIn
    notifyQueue userActionsQueue
  have hsafe : (Engine.start rules history sentHistory (fun _ => initialTwin) queueIn notifyQueue
      userActionsQueue : Engine Socket).Safe := Engine.start_safe rules history sentHistory
    (fun _ => initialTwin) queueIn notifyQueue userActionsQueue
  obtain ⟨xs, hxs, hmem⟩ := run_storeSteps (P := HasStored fun _ => initialTwin)
    (fun a _ _ ha hs => hs.hasStored (hacts a ha)) (fun _ ha => ha) hr hsafe ⟨[], rfl, rfl⟩ h
  obtain ⟨as, s, hrun, -, hr'⟩ := run_matched (fun _ ha => ha) hr hsafe h
  refine ⟨xs, ?_, hmem, ?_⟩
  · rw [hxs]
    exact storedEntries_accepted hr'
      (Engine.run_effect (fun a s t hs h => Engine.effect_order h hs) (by simp [Engine.start]) hrun)
  · intro qs zs hzs i
    refine ⟨?_, told_eq _ _ _⟩
    intro v
    refine ⟨instants_sorted _ 0, ?_⟩
    rw [told_eq, ← entryStores_var, written_merge hzs]
    · rfl
    · intro s hs
      obtain ⟨q, -, hq⟩ := List.mem_flatMap.mp hs
      exact accesses_var hq i v

theorem session_reads_overlapping : ∃ (t : EngineThreads Unit) (xs : List (UInt64 × Entry)), ∃ zs,
    Runs.run (step fun _ => some ()) overlappingActs
      (start ⟨fun _ => .ignore, fun _ _ => .notifyUpwards⟩ zeroedHistory zeroedHistory (fun _ => initialTwin)
        zeroedQueue zeroedQueue zeroedQueue) = some t ∧
    readings 0 5 (xs.map Prod.snd) = [0x3f800000] ∧
    Interleaved (entryStores xs) ([Query.delete 1, .get 0].flatMap Query.accesses) zs ∧
    told (.var 0 ⟨5, by decide⟩) zs (fun _ => initialTwin) = (turns (.var 0 ⟨5, by decide⟩) zs).map fun k =>
      ([0x3f800000].take k).getLast?.getD floatZero := by
  have hrun : (Runs.run (step fun _ => some ()) overlappingActs (start ⟨fun _ => .ignore, fun _ _ => .notifyUpwards⟩
      zeroedHistory zeroedHistory (fun _ => initialTwin) zeroedQueue zeroedQueue zeroedQueue :
        EngineThreads Unit)).map (fun t => (t.engine.accepted.flatMap Event.entries,
          (t.engine.dispatcher.memory 0).vars ⟨5, by decide⟩)) = some ([⟨1, 0, ⟨5, 0x3f800000⟩⟩], 0x3f800000) := by
    decide
  obtain ⟨t, ht, hrun⟩ := Option.map_eq_some_iff.mp hrun
  obtain ⟨haccepted, hstored⟩ := Prod.mk.inj hrun
  have ha : ∀ a ∈ overlappingActs, ¬ a.IsRequest := by
    simp [overlappingActs, ThreadAct.IsRequest]
  obtain ⟨xs, hxs, hmem, hreads⟩ := session_reads (twinsMemoryInit_eq connectedStore) ha _ _ _ _ _ _ ht
  have hreadings : readings 0 5 (xs.map Prod.snd) = [0x3f800000] := by
    rw [haccepted] at hxs
    rcases List.prefix_cons_iff.mp hxs with hnil | ⟨ys, hys, hnone⟩
    · rw [hmem, List.map_eq_nil_iff.mp hnil] at hstored
      cases hstored
    · rw [hys, List.prefix_nil.mp hnone]
      rfl
  have hzs := interleaved_between (entryStores xs) ([Query.delete 1, .get 0].flatMap Query.accesses) 1
  refine ⟨t, xs, _, ht, hreadings, hzs, ?_⟩
  rw [((hreads _ _ hzs 0).1 ⟨5, by decide⟩).2]
  exact List.map_congr_left fun k _ => by rw [← hreadings]; rfl

end EngineThreads

end OpenTwins
