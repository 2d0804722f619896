import OpenTwins.ThreadRuns
import OpenTwins.TruthfulReplies

namespace OpenTwins

open RingThreads FixedArray MessagePack

def Entry.Names (t v : ℕ) (x : Entry) : Prop := x.twinId.toNat = t ∧ x.update.varId.toUInt8.toNat = v

instance (t v : ℕ) (x : Entry) : Decidable (x.Names t v) := inferInstanceAs (Decidable (_ ∧ _))

def readings (t v : ℕ) (xs : List Entry) : List UInt32 := (xs.filter fun x => x.Names t v).map fun x => x.update.value

def lastValue (t v : ℕ) (xs : List Entry) : UInt32 := (readings t v xs).getLast?.getD floatZero

theorem lastValue_append (t v : ℕ) (xs : List Entry) (x : Entry) :
    lastValue t v (xs ++ [x]) = if x.Names t v then x.update.value else lastValue t v xs := by
  rw [lastValue, lastValue, readings, readings, List.filter_append, List.map_append]
  by_cases hx : x.Names t v
  · simp [hx]
  · simp [hx]

def Shows (m : TwinsMemory) (xs : List Entry) : Prop := ∀ t v, (m t).vars v = lastValue t.val v.val xs

theorem Shows.update {m : TwinsMemory} {xs : List Entry} (h : Shows m xs) (now : UInt64) (x : Entry) :
    Shows (updateVar now x.twinId x.update.varId.toUInt8 x.update.value m) (xs ++ [x]) := by
  intro t v
  rw [lastValue_append, ← h t v, updateVar]
  by_cases ht : t.val = x.twinId.toNat ∧ x.update.varId.toUInt8.toNat < maxVarsPerTwins
  · rw [if_pos ht]
    simp only [Entry.Names, ht.1, true_and, eq_comm (a := v.val)]
  · rw [if_neg ht, if_neg]
    rintro ⟨hx, hv⟩
    exact ht ⟨hx.symm, hv ▸ v.isLt⟩

theorem Shows.getVar {m : TwinsMemory} {xs : List Entry} (h : Shows m xs) {id : UInt32} {v : UInt8}
    (hid : id.toNat < maxTwins) (hv : v.toNat < maxVarsPerTwins) :
    twinsMemoryGetVar id v m = some (lastValue id.toNat v.toNat xs) := by
  rw [twinsMemoryGetVar_eq m hid hv]
  exact congrArg some (h _ _)

theorem Shows.get_reply {m : TwinsMemory} {xs : List Entry} (h : Shows m xs) (type : ItemType) (item : ItemAs)
    {req : Pointer} {id : UInt32} (hid : id.toNat < maxTwins) (hreq : TwinRequest opGet id req) :
    ∃ reply status, handleRequest type item req req.bytes.length m = some (reply, m) ∧
      itemsOf reply = TwinReport.items ⟨id.toNat, status, fun v => lastValue id.toNat v.val xs⟩ := by
  obtain ⟨status, hstatus⟩ := twinsMemoryGetStatus_some id m
  have hbyte (i : Fin maxVarsPerTwins) : (UInt8.ofNat i.val).toNat = i.val :=
    UInt8.toNat_ofNat_of_lt' (i.isLt.trans (by decide))
  have hf : Faithful m id status fun v => lastValue id.toNat v.val xs := by
    refine ⟨hstatus, ?_⟩
    intro i
    rw [h.getVar hid (by rw [hbyte]; exact i.isLt), hbyte]
  obtain ⟨g, hg, bytes, he, ha⟩ := packTwin_report hf
  refine ⟨bytes, (UInt64.ofInt status).toNat, ?_, ?_⟩
  · rw [hreq.execute type item (.inl rfl), execute, if_neg (by decide), if_pos rfl, hg, Option.map_some,
      (ha.init (by decide)).2.1]
  · rw [UInt32.toNat_toUInt64] at he
    exact itemsOf_complete he

namespace EngineThreads

variable {Socket : Type} {connectors : Connectors Socket} {acts : List ThreadAct} {a : ThreadAct}
  {t t' : EngineThreads Socket} {s : Engine Socket}

def storedEntries (t : EngineThreads Socket) : List Entry :=
  (t.engine.dispatched.map (·.1)).flatMap Event.entries ++
    match t.processor with
    | .popping _ => []
    | .storing i => (t.engine.processing.toList.flatMap Event.entries).take i
    | .pushing .. => t.engine.processing.toList.flatMap Event.entries

inductive StoreStep (a : ThreadAct) (t t' : EngineThreads Socket) : Prop
  | stays (memory : t'.engine.dispatcher.memory = t.engine.dispatcher.memory)
      (entries : t'.storedEntries = t.storedEntries)
  | stores (now : UInt64) (x : Entry)
      (memory : t'.engine.dispatcher.memory =
        updateVar now x.twinId x.update.varId.toUInt8 x.update.value t.engine.dispatcher.memory)
      (entries : t'.storedEntries = t.storedEntries ++ [x])
  | requests {type : ItemType} {item : ItemAs} {req : Pointer} (act : a = .request type item req)
      (vars : ∀ i, (t'.engine.dispatcher.memory i).vars = (t.engine.dispatcher.memory i).vars)
      (entries : t'.storedEntries = t.storedEntries)

theorem StoreStep.same (t : EngineThreads Socket) : StoreStep a t t := .stays rfl rfl

theorem StoreStep.shows (h : StoreStep a t t') (hs : Shows t.engine.dispatcher.memory t.storedEntries) :
    Shows t'.engine.dispatcher.memory t'.storedEntries := by
  cases h with
  | stays memory entries => rwa [memory, entries]
  | stores now x memory entries =>
    rw [memory, entries]
    exact hs.update now x
  | requests act vars entries =>
    rw [entries]
    intro i v
    rw [vars]
    exact hs i v

theorem storedEntries_storing {i : ℕ} {e : Event} (hp : t.processor = .storing i)
    (he : t.engine.processing = some e) :
    t.storedEntries = (t.engine.dispatched.map (·.1)).flatMap Event.entries ++ e.entries.take i := by
  rw [storedEntries, hp, he]
  simp

theorem finish_stays {e : Event} {engine : Engine Socket} (room : Bool)
    (hm : engine.dispatcher.memory = t.engine.dispatcher.memory) (hd : engine.dispatched = t.engine.dispatched)
    (ht : t.storedEntries = (t.engine.dispatched.map (·.1)).flatMap Event.entries ++ e.entries) :
    StoreStep a t (finish e room { t with engine }) := by
  apply StoreStep.stays
  · exact hm
  · rw [ht]
    simp [storedEntries, finish, hd]

theorem entries_take_succ (header : EventHeader) {u : UpdateEvent} {i : ℕ} (hi : i < u.count.toNat)
    (hi8 : i < maxVarsPerEvent) : (Event.entries ⟨header, .update u⟩).take (i + 1) =
      (Event.entries ⟨header, .update u⟩).take i ++
        [⟨header.timestamp, header.twinId, u.updates ⟨i, hi8⟩⟩] := by
  have htake (k : ℕ) (hk : k ≤ u.count.toNat) : u.entries.take k = u.updates.prefixList k := by
    rw [UpdateEvent.entries, prefixList, prefixList, List.take_take, min_eq_left hk]
  rw [entries_update, ← List.map_take, ← List.map_take, htake i hi.le, htake (i + 1) hi, prefixList_succ _ hi8,
    List.map_append]
  rfl

theorem storeNext_storeStep {now : UInt64} {i : ℕ} {e : Event} (hwe : WellFormed e)
    (hp : t.processor = .storing i) (he : t.engine.processing = some e) (hs : Stores now i e t t') :
    StoreStep a t t' := by
  cases hs with
  | waits => exact .same t
  | @stores u p memory hu hi hread hm =>
    obtain ⟨header, payload⟩ := e
    subst hu
    have hi8 : i < maxVarsPerEvent := hi.trans_le (WellFormed.count_le hwe rfl)
    rw [twinsMemoryUpdateVar_eq, Option.some.injEq] at hm
    rw [read_of_lt _ hi8, Option.some.injEq] at hread
    apply StoreStep.stores now ⟨header.timestamp, header.twinId, p⟩ hm.symm
    rw [storedEntries_storing hp he, List.append_assoc, ← hread, ← entries_take_succ header hi hi8]
    simp [storedEntries, he]

theorem Batched.whole {i : ℕ} {e : Event} {u : UpdateEvent} {b : RuleBatches} (h : Batched i e t u b)
    (hwe : WellFormed e) (hp : t.processor = .storing i) (he : t.engine.processing = some e) :
    t.storedEntries = (t.engine.dispatched.map (·.1)).flatMap Event.entries ++ e.entries := by
  rw [storedEntries_storing hp he, List.take_of_length_le]
  have hle := WellFormed.count_le hwe h.payload
  have hi := not_lt.mp h.stored
  obtain ⟨header, payload⟩ := e
  obtain rfl : payload = .update u := h.payload
  rwa [entries_update, List.length_map, UpdateEvent.entries_length hle]

theorem route_storeStep {i : ℕ} {e : Event} (hwe : WellFormed e) (hp : t.processor = .storing i)
    (he : t.engine.processing = some e) (hs : Routes i e t t') : StoreStep a t t' := by
  cases hs with
  | waits => exact .same t
  | pushes hb =>
    apply StoreStep.stays
    · rfl
    · rw [hb.whole hwe hp he]
      simp [storedEntries, he]
  | finishes hb => exact finish_stays _ rfl rfl (hb.whole hwe hp he)
  | passes ht =>
    cases hwe with
    | update ht' => exact absurd ht' ht
    | error =>
      refine finish_stays _ rfl rfl ?_
      rw [storedEntries_storing hp he, List.take_of_length_le (Nat.zero_le i)]

theorem publishNotify_storeStep {p : Producer Event queueSize} {userAction : UpdateEvent} {next : Fin queueSize}
    {e : Event} (hp : t.processor = .pushing p userAction) (he : t.engine.processing = some e) (q : EventQueue) :
    StoreStep a t
      (((t.setNotify (publishIndex t.engine.dispatcher.notifyQueue next)).setUserActions q).finish e true) := by
  refine finish_stays (t := t) (e := e) true rfl rfl ?_
  rw [storedEntries, hp, he]
  simp

theorem request_vars {type : ItemType} {item : ItemAs} {req : Pointer} {m : TwinsMemory}
    {r : List UInt8 × TwinsMemory} (h : handleRequest type item req req.bytes.length m = some r)
    (i : Fin maxTwins) : (r.2 i).vars = (m i).vars := by
  obtain ⟨reply, m', hr, htaken, hnot⟩ := handleRequest_memory type item req m
  obtain rfl : r = (reply, m') := Option.some.inj (h.symm.trans hr)
  by_cases ht : ∃ k, TakenForDelete req k
  · obtain ⟨k, hk⟩ := ht
    rw [htaken k hk]
    simp only [disconnect]
    split_ifs <;> rfl
  · rw [hnot fun k hk => ht ⟨k, hk⟩]

theorem step_storeStep (hr : Refines connectors acts t s) (hsafe : s.Safe)
    (hs : step connectors a t = some t') : StoreStep a t t' := by
  have hwell : ∀ {e}, t.engine.processing = some e → WellFormed e :=
    fun he => hsafe.processing _ (hr.outside.processing.trans he)
  cases step_steps hs with
  | waits => exact .same t
  | receive hr hn hdone =>
    obtain ⟨d, -, rfl⟩ := Option.map_eq_some_iff.mp hdone
    cases d <;> exact .stays rfl rfl
  | batch hr hn hdone =>
    unfold batch at hdone
    split_ifs at hdone
    · obtain ⟨r, -, rfl⟩ := Option.map_eq_some_iff.mp hdone
      exact .stays rfl rfl
    · cases hdone
      exact .stays rfl rfl
  | lookIn hp | copyIn hp | releaseIn hp | fillNotify hp =>
    apply StoreStep.stays
    · rfl
    · simp [storedEntries, hp]
  | store hp he hstores => exact storeNext_storeStep (hwell he) hp he hstores
  | route hp he hroutes => exact route_storeStep (hwell he) hp he hroutes
  | publishNotify hp he => exact publishNotify_storeStep hp he _
  | send he hsent =>
    obtain ⟨publisher, -, hsent⟩ := Option.bind_eq_some_iff.mp hsent
    obtain ⟨r, -, rfl⟩ := Option.map_eq_some_iff.mp hsent
    exact .stays rfl rfl
  | request hdone => exact .requests rfl (request_vars hdone) rfl
  | _ => exact .stays rfl rfl

theorem run_storeSteps {P : EngineThreads Socket → Prop}
    (hstep : ∀ a t t', a ∈ acts → StoreStep a t t' → P t → P t') {as : List ThreadAct} (has : ∀ a ∈ as, a ∈ acts)
    (hr : Refines connectors acts t s) (hsafe : s.Safe) (hp : P t)
    (h : Runs.run (step connectors) as t = some t') : P t' := by
  induction as generalizing t s with
  | nil =>
    cases h
    exact hp
  | cons a as ih =>
    obtain ⟨t1, h1, h⟩ := Option.bind_eq_some_iff.mp h
    have ha := has a List.mem_cons_self
    obtain ⟨bs, s1, hrun, -, hr1⟩ := step_matched ha hr hsafe h1
    exact ih (fun b hb => has b (List.mem_cons_of_mem _ hb)) hr1 (run_keeps_safe hsafe hrun)
      (hstep a t t1 ha (step_storeStep hr hsafe h1) hp) h

theorem start_shows (rules : Rules) (history sentHistory : History)
    (queueIn notifyQueue userActionsQueue : EventQueue) :
    Shows (fun _ => initialTwin) (start rules history sentHistory (fun _ => initialTwin) queueIn notifyQueue
      userActionsQueue : EngineThreads Socket).storedEntries := by
  intro t v
  simp [storedEntries, start, Engine.start, lastValue, readings, initialTwin]

theorem storedEntries_accepted (hr : Refines connectors acts t s)
    (hs : s.accepted = s.dispatched.map (·.1) ++ (s.processing.toList ++ s.queueIn.contents)) :
    t.storedEntries <+: t.engine.accepted.flatMap Event.entries := by
  rw [← hr.outside.accepted, hs, hr.outside.dispatched, hr.outside.processing, List.flatMap_append,
    List.flatMap_append, storedEntries, List.prefix_append_right_inj]
  split
  · exact List.nil_prefix
  · exact (List.take_prefix _ _).trans (List.prefix_append _ _)
  · exact List.prefix_append _ _

/-- Whatever arrives, whatever is requested, and in every interleaving: a GET reports for each
variable the last value that went into the store, and the values go in as the queue accepted them. -/
theorem threads_store {memory m₀ : TwinsMemory} (hm : twinsMemoryInit memory = some m₀) (rules : Rules)
    (history sentHistory : History) (queueIn notifyQueue userActionsQueue : EventQueue)
    (h : Runs.run (step connectors) acts
      (start rules history sentHistory m₀ queueIn notifyQueue userActionsQueue) = some t) :
    t.storedEntries <+: t.engine.accepted.flatMap Event.entries ∧
    ∀ id : UInt32, id.toNat < maxTwins → ∀ type item req, TwinRequest opGet id req →
      ∃ reply status, handleRequest type item req req.bytes.length t.engine.dispatcher.memory =
          some (reply, t.engine.dispatcher.memory) ∧
        itemsOf reply =
          TwinReport.items ⟨id.toNat, status, fun v => lastValue id.toNat v.val t.storedEntries⟩ := by
  rw [twinsMemoryInit_eq, Option.some.injEq] at hm
  subst hm
  have hr : Refines connectors acts _ _ := start_refines rules history sentHistory (fun _ => initialTwin) queueIn
    notifyQueue userActionsQueue
  have hsafe : (Engine.start rules history sentHistory (fun _ => initialTwin) queueIn notifyQueue
      userActionsQueue : Engine Socket).Safe := Engine.start_safe rules history sentHistory
    (fun _ => initialTwin) queueIn notifyQueue userActionsQueue
  have hshows := run_storeSteps (P := fun t => Shows t.engine.dispatcher.memory t.storedEntries)
    (fun _ _ _ _ hs => hs.shows) (fun _ ha => ha) hr hsafe
    (start_shows rules history sentHistory queueIn notifyQueue userActionsQueue) h
  obtain ⟨as, s, hrun, -, hr'⟩ := run_matched (fun _ ha => ha) hr hsafe h
  refine ⟨storedEntries_accepted hr' ?_, ?_⟩
  · exact Engine.run_effect (fun a s t hs h => Engine.effect_order h hs) (by simp [Engine.start]) hrun
  · intro id hid type item req hreq
    exact hshows.get_reply type item hid hreq

theorem threads_store_overlapping :
    ∃ t : EngineThreads Unit, Runs.run (step fun _ => some ()) overlappingActs
        (start ⟨fun _ => .ignore, fun _ _ => .notifyUpwards⟩ zeroedHistory zeroedHistory (fun _ => initialTwin)
          zeroedQueue zeroedQueue zeroedQueue) = some t ∧
      t.storedEntries <+: t.engine.accepted.flatMap Event.entries := by
  obtain ⟨t, ht, -⟩ := run_safe unit_connected ⟨fun _ => .ignore, fun _ _ => .notifyUpwards⟩ zeroedHistory
    zeroedHistory (fun _ => initialTwin) zeroedQueue zeroedQueue zeroedQueue overlappingActs
  exact ⟨t, ht, (threads_store (twinsMemoryInit_eq connectedStore) _ _ _ _ _ _ ht).1⟩

end EngineThreads

end OpenTwins
