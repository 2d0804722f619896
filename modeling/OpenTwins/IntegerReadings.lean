import OpenTwins.Entries
import OpenTwins.Pipeline
import OpenTwins.Routing
import OpenTwins.StoreRuns

namespace OpenTwins

open MessagePack

def popTimes (garbage : Event) : ℕ → EventQueue → Option EventQueue
  | 0, q => some q
  | k + 1, q => (popEvent q garbage).bind fun r => popTimes garbage k r.2.2

theorem popTimes_contents (garbage : Event) {k : ℕ} {q : EventQueue} (h : k ≤ q.contents.length) :
    ∃ q', popTimes garbage k q = some q' ∧ q'.contents = q.contents.drop k := by
  induction k generalizing q with
  | zero => exact ⟨q, rfl, rfl⟩
  | succ k ih =>
    have hne : ¬ q.Empty := by
      rw [← q.contents_eq_nil, ← List.length_eq_zero_iff]
      omega
    have hc := q.contents_advanceTail hne
    obtain ⟨q', hq', hc'⟩ := ih (q := q.advanceTail) (by rw [hc, List.length_cons] at h; omega)
    refine ⟨q', ?_, ?_⟩
    · rw [popTimes, popEvent_eq, if_neg hne, Option.bind_some, hq']
    · rw [hc', hc, List.drop_succ_cons]

theorem popTimes_front (garbage : Event) {k : ℕ} {q : EventQueue} (h : k < q.contents.length) :
    ∃ q', popTimes garbage k q = some q' ∧ ¬ q'.Empty ∧ q'.front = q.contents[k] := by
  obtain ⟨q', hq', hc⟩ := popTimes_contents garbage h.le
  have hdrop := List.drop_eq_getElem_cons h
  have hne : ¬ q'.Empty := by
    rw [← q'.contents_eq_nil, hc, hdrop]
    exact List.cons_ne_nil _ _
  rw [q'.contents_advanceTail hne, hdrop, List.cons.injEq] at hc
  exact ⟨q', hq', hne, hc.1⟩

def lastStored (v : UInt8) (us : List (UInt16 × Value)) : Option Value :=
  ((us.filter fun p => p.1.toUInt8 = v).map Prod.snd).getLast?

def lastSaid (twinId : UInt32) (varId : UInt16) (bs : List UInt8) : Option UInt32 :=
  (((wireEntries bs).filter fun x => x.twinId = twinId ∧ x.update.varId = varId).map
    fun x => x.update.value).getLast?

structure IntegerReading (m : UpdateMessage) (j : ℕ) (v : UInt8) (n : ℤ) (post : List (UInt16 × Value)) : Prop where
  twin : m.twinId.toNat < maxTwins
  var : v.toNat < maxVarsPerTwins
  small : n.natAbs ≤ 2 ^ 24
  event : ∃ pre, (m.updates.drop (maxVarsPerEvent * j)).take maxVarsPerEvent =
    pre ++ (v.toUInt16, .int n) :: post
  last : ∀ p ∈ post, p.1 ≠ v.toUInt16

def KeepsReading (rules : Rules) (overflow : UInt64) (twinId : UInt32) (v : UInt8) (n : ℤ) (d d' : Dispatcher) :
    Prop :=
  (∃ x, twinsMemoryGetVar twinId v d'.memory = some x ∧ Binary32.IsInt x n) ∧
  (getUpdateRule rules twinId v.toUInt16 = some .notifyUpwards → ¬ d.notifyQueue.Full →
    ∃ f pc x, d'.notifyQueue.contents = d.notifyQueue.contents ++ [f] ∧
      serializeEvent overflow f = some pc ∧ lastSaid twinId v.toUInt16 pc.written = some x ∧
      Binary32.IsInt x n)

theorem getLast_filter {α : Type} {c : α → Prop} [DecidablePred c] {a : α} {post : List α} (pre : List α)
    (ha : c a) (hpost : ∀ p ∈ post, ¬ c p) : ((pre ++ a :: post).filter fun p => c p).getLast? = some a := by
  have hnil : post.filter (fun p => c p) = [] := by
    rw [List.filter_eq_nil_iff]
    intro p hp
    simpa using hpost p hp
  rw [List.filter_append, List.filter_cons, if_pos (by simpa using ha), hnil, List.getLast?_append]
  rfl

theorem isInt_stored_iff {n : ℤ} (h : n.natAbs ≤ 2 ^ 24) : Binary32.IsInt (Value.int n).stored n ↔ n = 0 := by
  apply Binary32.isInt_pattern_iff _ h
  rw [Value.stored, UInt64.toNat_toUInt32, toNat_ofInt]
  omega

section event

variable {v : UInt8} {n : ℤ} {pre post : List (UInt16 × Value)}

theorem stored_reading {clock : ℕ → UInt64} {twinId : UInt32} {ps : List PropertyUpdate} {m m' : TwinsMemory}
    (hs : Stored clock twinId ps m m') (hps : ps = (pre ++ (v.toUInt16, .int n) :: post).map PropertyUpdate.of)
    (ht : twinId.toNat < maxTwins) (hv : v.toNat < maxVarsPerTwins) :
    twinsMemoryGetVar twinId v m' = some ((lastStored v post).getD (.int n)).stored := by
  have hc : (fun p : PropertyUpdate => decide (twinId.toNat = twinId.toNat ∧ v.toNat = p.varId.toUInt8.toNat)) ∘
      PropertyUpdate.of = fun p => decide (p.1.toUInt8 = v) := by
    funext p
    apply decide_eq_decide.mpr
    rw [← UInt8.toNat_inj]
    exact (and_iff_right rfl).trans eq_comm
  have hv8 : v.toUInt16.toUInt8 = v := UInt8.toUInt8_toUInt16 v
  rw [twinsMemoryGetVar_eq m' ht hv, (hs ⟨twinId.toNat, ht⟩).1 ⟨v.toNat, hv⟩, StoreRuns.foldl_last, hps,
    List.filter_map, hc, List.map_map, List.filter_append, List.filter_cons, if_pos (decide_eq_true hv8),
    List.map_append, StoreRuns.getLast_append_getD, List.map_cons, List.getLast?_cons, Option.getD_some, lastStored,
    ← Option.getD_map Value.stored, ← List.getLast?_map, List.map_map]
  rfl

theorem lastSaid_relay (overflow : UInt64) {f : Event} {u : UpdateEvent} (h : u.count.toNat ≤ maxVarsPerEvent)
    (varId : UInt16) {bs : List UInt8} (he : EncodesAll (relayMessage overflow f u h).items bs) :
    lastSaid f.header.twinId varId bs =
      ((u.entries.filter fun p => p.varId = varId).map PropertyUpdate.value).getLast? := by
  have hfloat : ∀ x ∈ (relayMessage overflow f u h).updates, FloatPair x := by
    intro x hx
    obtain ⟨p, -, rfl⟩ := List.mem_map.mp hx
    exact ⟨p.value, rfl⟩
  have hentries : (relayMessage overflow f u h).updates.map (relayMessage overflow f u h).entry =
      u.entries.map (Entry.mk f.header.timestamp f.header.twinId) := by
    rw [relayMessage, List.map_map]
    rfl
  rw [lastSaid, wireEntries_message he hfloat, hentries, List.filter_map, List.map_map]
  simp [Function.comp_def]

theorem said_reading {rules : Rules} {twinId : UInt32} {ps : List PropertyUpdate}
    (hps : ps = (pre ++ (v.toUInt16, .int n) :: post).map PropertyUpdate.of)
    (hr : rules.action twinId v.toUInt16 = .notifyUpwards) (hlast : ∀ p ∈ post, p.1 ≠ v.toUInt16) :
    (((ps.filter fun p => rules.action twinId p.varId = .notifyUpwards).filter fun p => p.varId = v.toUInt16).map
      PropertyUpdate.value).getLast? = some (Value.int n).stored := by
  rw [hps, List.map_append, List.map_cons, List.filter_filter, List.getLast?_map]
  have hpost : ∀ p ∈ post.map PropertyUpdate.of, ¬ (p.varId = v.toUInt16 ∧
      rules.action twinId p.varId = .notifyUpwards) := by
    rintro p hp ⟨hc, -⟩
    obtain ⟨y, hy, rfl⟩ := List.mem_map.mp hp
    exact hlast y hy hc
  have hpair := getLast_filter (a := PropertyUpdate.of (v.toUInt16, .int n)) (pre.map PropertyUpdate.of)
    ⟨rfl, hr⟩ hpost
  simp only [Bool.decide_and] at hpair
  rw [hpair]
  rfl

theorem notified_reading (overflow : UInt64) {header : EventHeader} {ps : List PropertyUpdate}
    (hlen : ps.length ≤ maxVarsPerEvent) {q q' : EventQueue} (h : Forwards header ps q q') (hfull : ¬ q.Full)
    {varId : UInt16} {x : UInt32}
    (hx : ((ps.filter fun p => p.varId = varId).map PropertyUpdate.value).getLast? = some x) :
    ∃ f pc, q'.contents = q.contents ++ [f] ∧ serializeEvent overflow f = some pc ∧
      lastSaid header.twinId varId pc.written = some x := by
  rcases h with ⟨hnil, -⟩ | ⟨-, b, hb, hcount, hq⟩
  · rw [hnil] at hx
    cases hx
  · have hb8 : b.count.toNat ≤ maxVarsPerEvent := hcount.trans_le hlen
    have hf : (Event.mk header (.update b)).payload = .update b := rfl
    obtain ⟨pc, hpc, -, hm⟩ := serializeEvent_message overflow hf hb8
    refine ⟨⟨header, .update b⟩, pc, ?_, hpc, ?_⟩
    · rw [hq, contents_offer, if_neg hfull]
    · have hlast := lastSaid_relay overflow hb8 varId hm
      rw [hb] at hlast
      exact hlast.trans hx

end event

theorem keepsReading_dispatched (rules : Rules) (clock : ℕ → UInt64) (overflow : UInt64) {m : UpdateMessage}
    {j : ℕ} {v : UInt8} {n : ℤ} {post : List (UInt16 × Value)} (h : IntegerReading m j v n post) {u : UpdateEvent}
    (hu : u.count.toNat ≤ maxVarsPerEvent)
    (he : u.entries = ((m.updates.drop (maxVarsPerEvent * j)).take maxVarsPerEvent).map PropertyUpdate.of)
    (d : Dispatcher) :
    ∃ d', dispatchEvent rules clock ⟨m.header, .update u⟩ d = some d' ∧
      (KeepsReading rules overflow m.twinId v n d d' ↔
        Binary32.IsInt ((lastStored v post).getD (.int n)).stored n ∧
        (getUpdateRule rules m.twinId v.toUInt16 = some .notifyUpwards → ¬ d.notifyQueue.Full → n = 0)) := by
  obtain ⟨pre, hpre⟩ := h.event
  rw [hpre] at he
  obtain ⟨d', hd, hs, hn, -⟩ := handleEventUpdate_spec rules clock m.header hu d
  have hcount := (List.length_filter_le (fun p => rules.action m.header.twinId p.varId = .notifyUpwards)
    u.entries).trans (UpdateEvent.entries_length hu).le
  refine ⟨d', (dispatchEvent_update rules clock rfl u d).trans hd, ?_⟩
  have hget : twinsMemoryGetVar m.twinId v d'.memory = _ := stored_reading hs he h.twin h.var
  unfold KeepsReading
  apply and_congr
  · rw [hget]
    simp
  · rw [getUpdateRule_eq, Option.some.injEq]
    apply imp_congr_right
    intro hr
    apply imp_congr_right
    intro hfull
    have hsaid := said_reading he (show rules.action m.header.twinId v.toUInt16 = _ from hr) h.last
    obtain ⟨f, pc, hq, hpc, hlast⟩ := notified_reading overflow (hcount.trans hu) hn hfull hsaid
    change lastSaid m.twinId v.toUInt16 pc.written = _ at hlast
    rw [hq]
    constructor
    · rintro ⟨f', pc', x, hf, hpc', hx, hi⟩
      obtain rfl : f = f' := by simpa using hf
      obtain rfl : pc = pc' := Option.some.inj (hpc.symm.trans hpc')
      rw [hlast, Option.some.injEq] at hx
      subst hx
      exact (isInt_stored_iff h.small).mp hi
    · intro hzero
      exact ⟨f, pc, _, rfl, hpc, hlast, (isInt_stored_iff h.small).mpr hzero⟩

theorem batch_reached {m : UpdateMessage} {es : List Event} (h : Batches m.header m.updates es) {j : ℕ}
    {v : UInt8} {n : ℤ} {post : List (UInt16 × Value)} (hr : IntegerReading m j v n post) : j < es.length := by
  obtain ⟨pre, hpre⟩ := hr.event
  have hlen := congrArg List.length hpre
  rw [List.length_take, List.length_drop, List.length_append, List.length_cons] at hlen
  rw [h.length, batchesOf]
  unfold maxVarsPerEvent at hlen ⊢
  omega

/-- Once its event has been processed, an integer reading is kept in two cases only: it is zero, or
a later entry, whose identifier ends in the same byte, stores that very number. -/
theorem keepsReading_iff (rules : Rules) (clock : ℕ → UInt64) (overflow : UInt64) (frame : Frame)
    (startTime : UInt64) (history : History) (garbage : Event) (d : Dispatcher) {q : EventQueue}
    {m : UpdateMessage} {buffer : Pointer} (h : EncodesAll m.items buffer.bytes) {j : ℕ} {v : UInt8} {n : ℤ}
    {post : List (UInt16 × Value)} (hr : IntegerReading m j v n post) (hj : j < q.free) :
    ∃ history' q' waiting rest d',
      deserializeEvent frame startTime history q buffer buffer.bytes.length = some (0, history', q') ∧
      popTimes garbage (q.contents.length + j) q' = some waiting ∧
      eventProcessorProcessNext rules clock garbage waiting d = some (0, rest, d') ∧
      (KeepsReading rules overflow m.twinId v n d d' ↔
        (match lastStored v post with
          | none => n = 0
          | some y => Binary32.IsInt y.stored n) ∧
        (getUpdateRule rules m.twinId v.toUInt16 = some .notifyUpwards → ¬ d.notifyQueue.Full → n = 0)) := by
  obtain ⟨history', es, hd, hb⟩ := deserializeEvent_update frame startTime history q h
  have hes := batch_reached hb hr
  have hc := contents_offers q es
  have hlt : q.contents.length + j < (offers q es).contents.length := by
    rw [hc, List.length_append, List.length_take]
    omega
  obtain ⟨waiting, hw, hne, hfront⟩ := popTimes_front garbage hlt
  have hfront : waiting.front = es[j] := by
    rw [hfront]
    simp only [hc, List.getElem_append_right (Nat.le_add_right _ j), Nat.add_sub_cancel_left, List.getElem_take]
  obtain ⟨u, he, hcount, hentries⟩ := hb.get j hes
  obtain ⟨d', hd', hk⟩ := keepsReading_dispatched rules clock overflow hr
    (hcount.trans_le (Nat.min_le_left _ _)) hentries d
  refine ⟨history', _, waiting, waiting.advanceTail, d', hd, hw, ?_, ?_⟩
  · simp only [eventProcessorProcessNext, popEvent_eq, if_neg hne, hfront, he, hd', Option.bind_eq_bind,
      Option.bind_some]
    rfl
  · rw [hk]
    apply and_congr_left
    intro _
    cases lastStored v post with
    | none => exact isInt_stored_iff hr.small
    | some y => rfl

def oneInteger (n : ℤ) : UpdateMessage := { oneUpdate with updates := [(5, .int n)] }

theorem oneInteger_reading {n : ℤ} (h : n.natAbs ≤ 2 ^ 24) : IntegerReading (oneInteger n) 0 5 n [] where
  twin := Nat.succ_pos _
  var := by decide
  small := h
  event := ⟨[], rfl⟩
  last := by simp

theorem keepsReading_iff_zero : ∃ d', KeepsReading allNotify 0 0 5 0 idleDispatcher d' := by
  have he : EncodesAll (oneInteger 0).items (Pointer.mk 0 [0x97, 0, 1, 0, 0, 1, 5, 0]).bytes :=
    onePair_encoded (a := [5]) (b := [0]) rfl rfl
  have hroom : 0 < zeroedQueue.free := Nat.pos_of_ne_zero (mt zeroedQueue.full_iff_free.mpr (by decide))
  obtain ⟨-, -, -, -, d', -, -, -, hk⟩ := keepsReading_iff allNotify (fun _ => 0) 0 zeroedFrame 0 zeroedHistory
    zeroedEvent idleDispatcher he (oneInteger_reading (by decide)) hroom
  exact ⟨d', hk.mpr ⟨rfl, fun _ _ => rfl⟩⟩

theorem oneInteger_lost :
    EncodesAll (oneInteger 1).items [0x97, 0, 1, 0, 0, 1, 5, 1] ∧ IntegerReading (oneInteger 1) 0 5 1 [] ∧
    ((deserializeEvent zeroedFrame 0 zeroedHistory zeroedQueue ⟨0, [0x97, 0, 1, 0, 0, 1, 5, 1]⟩ 8).bind fun r =>
      (eventProcessorProcessNext allNotify (fun _ => 0) zeroedEvent r.2.2 idleDispatcher).bind fun r =>
        twinsMemoryGetVar 0 5 r.2.2.memory) = some 1 ∧
    ¬ Binary32.IsInt 1 1 := by
  refine ⟨onePair_encoded (a := [5]) (b := [1]) rfl rfl, oneInteger_reading (by decide), by decide, ?_⟩
  intro h
  exact absurd ((Binary32.isInt_pattern_iff rfl (by decide)).mp h) (by decide)

end OpenTwins
