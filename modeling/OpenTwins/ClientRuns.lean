import OpenTwins.Clients
import OpenTwins.SentMessages
import OpenTwins.ThreadRuns

namespace OpenTwins

open MessagePack FixedArray

variable {Socket : Type}

def toPeer [DecidableEq Socket] (publisher : Socket) (sent : List (Sent Socket)) : List (List UInt8) :=
  (sent.filter fun x => x.publisher = publisher).map (·.bytes)

def Entry.reading (y : Entry) : Reading := ⟨y.timestamp, y.twinId, y.update.value⟩

def Mensaje.reading (m : Mensaje) : Reading := ⟨m.sendingTs, m.twinId, m.messageId⟩

theorem Reading.entry_reading (r : Reading) : r.entry.reading = r := rfl

theorem parseMensaje_relayed {a : Arrival} {m : UpdateMessage} (h : Relayed a.message m) :
    ∃ r y ys, parseMensaje a = some (some r) ∧ wireEntries a.message = y :: ys ∧ r.reading = y.reading ∧
      r.receivingTs = a.receivingTs := by
  obtain ⟨x, xs, hx⟩ := List.exists_cons_of_ne_nil h.nonempty
  refine ⟨_, m.entry x, xs.map m.entry, parseMensaje_message h.fits h.items hx, ?_, rfl, rfl⟩
  rw [wireEntries_message h.items h.floats, hx]
  rfl

theorem parse_all {as : List Arrival} (h : ∀ a ∈ as, ∃ m, Relayed a.message m) :
    ∃ rows, List.Forall₂ (fun a r => parseMensaje a = some (some r)) as rows ∧
      (rows.map Mensaje.reading).Sublist
        (((as.map (·.message)).flatMap wireEntries).map Entry.reading) ∧
      rows.map (·.receivingTs) = as.map (·.receivingTs) := by
  induction as with
  | nil => exact ⟨[], .nil, by simp, rfl⟩
  | cons a as ih =>
    obtain ⟨m, hm⟩ := h a (by simp)
    obtain ⟨r, y, ys, hr, hy, hread, htime⟩ := parseMensaje_relayed hm
    obtain ⟨rows, hrows, hsub, htimes⟩ := ih fun b hb => h b (by simp [hb])
    refine ⟨r :: rows, .cons hr hrows, ?_, ?_⟩
    · rw [List.map_cons, List.map_cons, List.flatMap_cons, hy, List.map_append, List.map_cons, hread,
        List.cons_append]
      exact (hsub.trans (List.sublist_append_right _ _)).cons_cons _
    · rw [List.map_cons, List.map_cons, htime, htimes]

theorem toPeer_entries [DecidableEq Socket] {connectors : Connectors Socket} {sent : List (Sent Socket)}
    (h : ∀ x ∈ sent, ∃ i, connectors.read i = some (some x.publisher) ∧
      ∀ y ∈ wireEntries x.bytes, y.twinId.toNat = i) (publisher : Socket) :
    (toPeer publisher sent).flatMap wireEntries = (sent.flatMap fun x => wireEntries x.bytes).filter
      fun y => connectors.read y.twinId.toNat = some (some publisher) := by
  induction sent with
  | nil => rfl
  | cons x sent ih =>
    have ih := ih fun y hy => h y (by simp [hy])
    obtain ⟨i, hi, hy⟩ := h x (by simp)
    have hconn : ∀ y ∈ wireEntries x.bytes, (connectors.read y.twinId.toNat = some (some publisher) ↔
        x.publisher = publisher) := by
      intro y hmem
      rw [hy y hmem, hi]
      simp
    have hfilter : (wireEntries x.bytes).filter (fun y => connectors.read y.twinId.toNat = some (some publisher)) =
        if x.publisher = publisher then wireEntries x.bytes else [] := by
      split_ifs with hp
      · rw [List.filter_eq_self]
        intro y hmem
        simpa using (hconn y hmem).mpr hp
      · rw [List.filter_eq_nil_iff]
        intro y hmem
        simpa using fun hc => hp ((hconn y hmem).mp hc)
    rw [List.flatMap_cons, List.filter_append, ← ih, hfilter]
    by_cases hp : x.publisher = publisher
    · simp [toPeer, hp]
    · simp [toPeer, hp]

namespace EngineThreads

def FromClient : ThreadAct → Prop
  | .receive _ _ buffer => ∃ overflow r, buffer.bytes = Reading.bytes overflow r
  | _ => True

theorem FromClient.orderly {a : ThreadAct} (h : FromClient a) : Orderly a := by
  cases a with
  | receive frame startTime buffer =>
    obtain ⟨overflow, r, hb⟩ := h
    refine ⟨r.message overflow, ?_, ?_⟩
    · rw [hb]
      exact r.bytes_encode overflow
    · simp [Reading.message, FloatPair]
  | _ => trivial

variable {connectors : Connectors Socket} {acts : List ThreadAct} {rules : Rules}

theorem received_readings {bss : List (List UInt8)} (h : ∀ bs ∈ bss, ∃ overflow r, bs = Reading.bytes overflow r) :
    ∃ readings : List Reading, bss.flatMap wireEntries = readings.map Reading.entry := by
  induction bss with
  | nil => exact ⟨[], rfl⟩
  | cons bs bss ih =>
    obtain ⟨overflow, r, rfl⟩ := h bs (by simp)
    obtain ⟨readings, hr⟩ := ih fun b hb => h b (by simp [hb])
    refine ⟨r :: readings, ?_⟩
    rw [List.flatMap_cons, hr, r.wireEntries_bytes overflow]
    rfl

theorem run_received {t t' : EngineThreads Socket} {P : List UInt8 → Prop}
    (hacts : ∀ a ∈ acts, ∀ frame startTime buffer, a = .receive frame startTime buffer → P buffer.bytes)
    (ht : ∀ bs ∈ t.engine.received, P bs) (h : Runs.run (step connectors) acts t = some t') :
    ∀ bs ∈ t'.engine.received, P bs := by
  induction acts generalizing t with
  | nil =>
    cases h
    exact ht
  | cons a acts ih =>
    obtain ⟨t1, h1, h⟩ := Option.bind_eq_some_iff.mp h
    refine ih (fun b hb => hacts b (by simp [hb])) ?_ h
    rcases step_received h1 with hsame | ⟨frame, startTime, buffer, ha, hmore⟩
    · rwa [hsame]
    · rw [hmore]
      intro bs hbs
      rcases List.mem_append.mp hbs with hbs | hbs
      · exact ht bs hbs
      · rw [List.mem_singleton.mp hbs]
        exact hacts a (by simp) frame startTime buffer ha

theorem Refines.sent_sublist {t : EngineThreads Socket} {s : Engine Socket} (hr : Refines connectors acts t s)
    (h : s.Accounts connectors rules) : (t.engine.sent.flatMap fun x => wireEntries x.bytes).Sublist
      ((t.engine.received.flatMap wireEntries).filter fun x =>
        rules.action x.twinId x.update.varId = .notifyUpwards) := by
  obtain ⟨us, -, hincoming⟩ := h.incoming
  have hpassed : s.passed.Sublist (s.forwardable rules) := by
    rw [h.passed_eq, h.forwardable_eq]
    exact ((List.filter_sublist.map _).flatMap _).trans (List.sublist_append_left _ _)
  obtain ⟨rest, hrest⟩ := hr.received
  rw [← hr.outside.sent, ← hrest, List.flatMap_append, List.filter_append]
  refine ((List.sublist_append_left _ _).trans hpassed).trans (.trans ?_ (List.sublist_append_left _ _))
  exact List.Sublist.filter _ ((List.sublist_append_left _ _).trans hincoming)

theorem arrived_sublist [DecidableEq Socket] {t : EngineThreads Socket} {s : Engine Socket}
    (hr : Refines connectors acts t s) (h : s.Accounts connectors rules) {readings : List Reading}
    (hreadings : t.engine.received.flatMap wireEntries = readings.map Reading.entry) {publisher : Socket}
    {messages : List (List UInt8)} (harrived : messages <+: toPeer publisher t.engine.sent) :
    ((messages.flatMap wireEntries).map Entry.reading).Sublist (readings.filter fun r =>
      connectors.read r.twinId.toNat = some (some publisher) ∧ rules.action r.twinId 0 = .notifyUpwards) := by
  have hdelivered : ∀ x ∈ t.engine.sent, ∃ i, connectors.read i = some (some x.publisher) ∧
      ∀ y ∈ wireEntries x.bytes, y.twinId.toNat = i := by
    rw [← hr.outside.sent]
    exact h.delivered
  have hsent := (harrived.sublist.flatMap wireEntries).map Entry.reading
  rw [toPeer_entries hdelivered] at hsent
  have hpassed := ((hr.sent_sublist h).filter fun y =>
    decide (connectors.read y.twinId.toNat = some (some publisher))).map Entry.reading
  rw [hreadings, List.filter_filter, List.filter_map, List.map_map] at hpassed
  have hreading : (Entry.reading ∘ Reading.entry) = id := funext Reading.entry_reading
  rw [hreading, List.map_id] at hpassed
  simp only [Bool.decide_and]
  exact hsent.trans hpassed

/-- Whatever a client keeps was sent by another: with its time, its twin and its value, in order and
none twice, of the twins whose connector leads to the client and whose rule passes the reading on.
The messages come over a link that keeps their order, and the last of them may be on their way. -/
theorem clients_end_to_end [DecidableEq Socket] (hconn : ∀ t v, rules.action t v = .notifyUpwards →
    ∃ publisher, connectors.read t.toNat = some (some publisher)) (history : History) {sentHistory : History}
    (h0 : sentHistory.logIndex = 0) (memory : TwinsMemory) (queueIn notifyQueue userActionsQueue : EventQueue)
    (hacts : ∀ a ∈ acts, FromClient a) :
    ∃ t, ∃ readings : List Reading, Runs.run (step connectors) acts
        (start rules history sentHistory memory queueIn notifyQueue userActionsQueue) = some t ∧
      t.engine.received.flatMap wireEntries = readings.map Reading.entry ∧
      ∀ (publisher : Socket) (arrivals : List Arrival),
        arrivals.map (·.message) <+: toPeer publisher t.engine.sent → arrivals.length ≤ maxMsgs →
        ∃ client rows, Runs.run ReceivingClient.round arrivals (some ReceivingClient.start) = some (some client) ∧
          client.csvRows = some rows ∧ rows.map (·.receivingTs) = arrivals.map (·.receivingTs) ∧
          (rows.map Mensaje.reading).Sublist (readings.filter fun r =>
            connectors.read r.twinId.toNat = some (some publisher) ∧ rules.action r.twinId 0 = .notifyUpwards) := by
  obtain ⟨t, ht, s, ⟨as, has⟩, hr, h⟩ := run_accounted hconn history sentHistory memory queueIn notifyQueue
    userActionsQueue fun a ha => (hacts a ha).orderly
  have hclients := run_received (P := fun bs => ∃ overflow r, bs = Reading.bytes overflow r) (by
    intro a ha frame startTime buffer he
    subst he
    exact hacts _ ha) (by simp [start, Engine.start]) ht
  obtain ⟨readings, hreadings⟩ := received_readings hclients
  refine ⟨t, readings, ht, hreadings, ?_⟩
  intro publisher arrivals harrived hmax
  have hwell := Engine.run_sendsWell (Engine.start_sendsWell rules history h0 memory queueIn notifyQueue
    userActionsQueue) has
  have hrelayed : ∀ a ∈ arrivals, ∃ m, Relayed a.message m := by
    intro a ha
    have hmem := harrived.subset (List.mem_map_of_mem ha)
    obtain ⟨x, hx, hxa⟩ := List.mem_map.mp hmem
    rw [← hr.outside.sent] at hx
    rw [← hxa]
    exact hwell.relayed x (List.mem_filter.mp hx).1
  obtain ⟨rows, hrows, hsub, htimes⟩ := parse_all hrelayed
  have hlen : rows.length = arrivals.length := hrows.length_eq.symm
  have hstart : ReceivingClient.Kept ReceivingClient.start [] := ⟨rfl, CappedLog.rows_nil _⟩
  obtain ⟨client, hclient, hkept⟩ := ReceivingClient.run_kept hstart hrows
  rw [List.nil_append] at hkept
  refine ⟨client, rows, hclient, ?_, htimes, ?_⟩
  · have hmax' : rows.length ≤ maxMsgs := hlen ▸ hmax
    rw [hkept.csvRows (hmax'.trans (by decide)), List.take_of_length_le hmax', Nat.sub_eq_zero_of_le hmax']
    simp
  · exact hsub.trans (arrived_sublist hr h hreadings harrived)

def oneReading : Reading := ⟨1, 0, 0x3f800000⟩

def relayActs : List ThreadAct :=
  [.receive zeroedFrame 0 ⟨0, oneReading.bytes 0⟩, .lookIn, .batch, .fillIn, .lookIn, .publishIn, .batch, .lookIn,
    .copyIn, .lookNotify, .releaseIn, .store 0, .route, .fillNotify, .publishNotify, .lookNotify, .copyNotify,
    .releaseNotify, .send 0 0]

def relayArrival : Arrival := ⟨.nil, ⟨0, 0, []⟩, 0, [0x97, 0, 1, 0, 0, 1, 0, 0xca, 0x3f, 0x80, 0, 0], 9⟩

theorem clients_end_to_end_relayed : ∃ (t : EngineThreads Unit) (readings : List Reading) (client : ReceivingClient)
    (row : Mensaje),
    Runs.run (step fun _ => some ()) relayActs (start ⟨fun _ => .ignore, fun _ _ => .notifyUpwards⟩ zeroedHistory
      zeroedHistory (fun _ => initialTwin) zeroedQueue zeroedQueue zeroedQueue) = some t ∧
    t.engine.received.flatMap wireEntries = readings.map Reading.entry ∧
    Runs.run ReceivingClient.round [relayArrival] (some ReceivingClient.start) = some (some client) ∧
      client.csvRows = some [row] ∧ row.receivingTs = 9 ∧ row.reading ∈ readings := by
  have hacts : ∀ a ∈ relayActs, FromClient a := by
    simp only [relayActs, List.forall_mem_cons, FromClient, true_and]
    exact ⟨⟨0, oneReading, rfl⟩, by simp⟩
  have hsent : (Runs.run (step fun _ => some ()) relayActs (start ⟨fun _ => .ignore, fun _ _ => .notifyUpwards⟩
      zeroedHistory zeroedHistory (fun _ => initialTwin) zeroedQueue zeroedQueue zeroedQueue)).map
        (fun t => toPeer () t.engine.sent) = some [relayArrival.message] := by
    decide
  obtain ⟨t, readings, ht, hreadings, hclient⟩ := clients_end_to_end (fun _ _ => routed_connected unit_connected)
    zeroedHistory (show zeroedHistory.logIndex = 0 from rfl) (fun _ => initialTwin) zeroedQueue zeroedQueue
    zeroedQueue hacts
  rw [ht, Option.map_some, Option.some.injEq] at hsent
  obtain ⟨client, rows, hrun, hrows, htimes, hsub⟩ := hclient () [relayArrival]
    (by rw [hsent]; exact List.prefix_refl _) (by decide)
  obtain ⟨row, rfl⟩ : ∃ row, rows = [row] := List.length_eq_one_iff.mp (by simpa using congrArg List.length htimes)
  refine ⟨t, readings, client, row, ht, hreadings, hrun, hrows, by simpa [relayArrival] using htimes, ?_⟩
  exact (List.mem_filter.mp (hsub.subset (List.mem_singleton.mpr rfl))).1

end EngineThreads

end OpenTwins
