import OpenTwins.EventSender
import Mathlib.Logic.Relation

namespace OpenTwins

open MessagePack

structure Relayable (e : Event) (u : UpdateEvent) (d : ℕ) : Prop where
  payload : e.payload = .update u
  type : e.header.type = eventUpdate
  pos : 1 ≤ u.count.toNat
  le : u.count.toNat ≤ maxVarsPerEvent
  deviation : Binary32.IsNat e.header.deviation d
  small : d < 2 ^ 64

structure SameUpdate (e e' : Event) : Prop where
  type : e'.header.type = e.header.type
  timestamp : e'.header.timestamp = e.header.timestamp
  deviation : Binary32.toRat e'.header.deviation = Binary32.toRat e.header.deviation
  twinId : e'.header.twinId = e.header.twinId
  updates : ∃ u u', e.payload = .update u ∧ e'.payload = .update u' ∧ u'.count = u.count ∧
    u'.entries = u.entries

def Hop (overflow : UInt64) (e e' : Event) : Prop :=
  ∃ pc frame startTime history q address history', serializeEvent overflow e = some pc ∧ ¬ q.Full ∧
    deserializeEvent frame startTime history q ⟨address, pc.written⟩ pc.written.length =
      some (0, history', q.push e')

theorem SameUpdate.refl {e : Event} {u : UpdateEvent} (hu : e.payload = .update u) : SameUpdate e e :=
  ⟨rfl, rfl, rfl, rfl, u, u, hu, hu, rfl, rfl⟩

theorem SameUpdate.trans {e e' e'' : Event} (h : SameUpdate e e') (h' : SameUpdate e' e'') :
    SameUpdate e e'' := by
  obtain ⟨u, u', hu, hu', hc, he⟩ := h.updates
  obtain ⟨v, v', hv, hv', hc', he'⟩ := h'.updates
  obtain rfl : u' = v := by
    rw [hu'] at hv
    exact Payload.update.inj hv
  exact ⟨h'.type.trans h.type, h'.timestamp.trans h.timestamp, h'.deviation.trans h.deviation,
    h'.twinId.trans h.twinId, u, v', hu, hv', hc'.trans hc, he'.trans he⟩

theorem serializeEvent_congr (overflow : UInt64) {e e' : Event} {u u' : UpdateEvent} {d : ℕ}
    (h : Relayable e u d) (h' : Relayable e' u' d) (hs : SameUpdate e e') :
    serializeEvent overflow e' = serializeEvent overflow e := by
  obtain ⟨v, v', hv, hv', hc, he⟩ := hs.updates
  obtain rfl : u = v := Payload.update.inj (h.payload.symm.trans hv)
  obtain rfl : u' = v' := Payload.update.inj (h'.payload.symm.trans hv')
  have hle : u'.count.toNat ≤ maxVarsPerEvent := h'.le
  simp only [serializeEvent, h.payload, h'.payload, Payload.asUpdate, Option.bind_eq_bind,
    Option.bind_some, packUpdates_eq h.le, packUpdates_eq hle, he]
  simp only [hc, hs.timestamp, hs.twinId, Binary32.toUInt64_isNat overflow h.deviation h.small,
    Binary32.toUInt64_isNat overflow h'.deviation h'.small]

theorem batches_single {header : EventHeader} {us : List (UInt16 × Value)} {es : List Event}
    (h : Batches header us es) (hne : us ≠ []) (hle : us.length ≤ maxVarsPerEvent) :
    ∃ u, es = [⟨header, .update u⟩] ∧ u.entries = us.map PropertyUpdate.of ∧ u.count.toNat = us.length := by
  cases h with
  | nil => exact absurd rfl hne
  | cons _ entries count rest =>
    rw [List.drop_of_length_le hle] at rest
    rw [List.take_of_length_le hle] at entries
    rw [Nat.min_eq_right hle] at count
    cases rest with
    | nil => exact ⟨_, rfl, entries, count⟩
    | cons ne => exact absurd rfl ne

theorem hop_same (overflow : UInt64) {e : Event} {u : UpdateEvent} {d : ℕ} (h : Relayable e u d)
    {pc : PackContext} (hpc : serializeEvent overflow e = some pc) (frame : Frame) (startTime : UInt64)
    (history : History) {q : EventQueue} (hq : ¬ q.Full) (address : UInt64) :
    ∃ history' e' u', deserializeEvent frame startTime history q ⟨address, pc.written⟩ pc.written.length =
      some (0, history', q.push e') ∧ SameUpdate e e' ∧ Relayable e' u' d := by
  obtain ⟨pc', hpc', -, hm⟩ := serializeEvent_message overflow h.payload h.le
  obtain rfl : pc = pc' := Option.some.inj (hpc.symm.trans hpc')
  obtain ⟨history', es, hd, hb⟩ := deserializeEvent_update frame startTime history q
    (show EncodesAll _ (⟨address, pc.written⟩ : Pointer).bytes from hm)
  have hlen := UpdateEvent.entries_length h.le
  have hupdates : (relayMessage overflow e u h.le).updates.length = u.count.toNat := by
    rw [relayMessage, List.length_map, hlen]
  obtain ⟨u', rfl, hentries, hcount⟩ := batches_single hb
    (List.length_pos_iff.mp (by rw [hupdates]; exact h.pos)) (by rw [hupdates]; exact h.le)
  have hcount' : u'.count = u.count := UInt8.toNat_inj.mp (hcount.trans hupdates)
  have hdev : Binary32.IsNat (relayMessage overflow e u h.le).header.deviation d := by
    rw [relayMessage_deviation]
    exact Binary32.ofUInt64_toUInt64 overflow h.deviation h.small
  refine ⟨history', ⟨(relayMessage overflow e u h.le).header, .update u'⟩, u', hd.trans ?_,
    ⟨h.type.symm, rfl, hdev.2.trans h.deviation.2.symm, rfl, u, u', h.payload, rfl, hcount', ?_⟩,
    ⟨rfl, rfl, ?_, ?_, hdev, h.small⟩⟩
  · rw [offers, List.foldl_cons, List.foldl_nil, offer, if_neg hq]
  · rw [hentries, relayMessage, List.map_map]
    exact List.map_id _
  · rw [hcount']
    exact h.pos
  · rw [hcount']
    exact h.le

theorem Hop.same {overflow : UInt64} {e e' : Event} {u : UpdateEvent} {d : ℕ} (h : Relayable e u d)
    (hop : Hop overflow e e') : SameUpdate e e' ∧ ∃ u', Relayable e' u' d := by
  obtain ⟨pc, frame, startTime, history, q, address, history', hpc, hq, hd⟩ := hop
  obtain ⟨history'', e'', u'', hd', hs, hr⟩ := hop_same overflow h hpc frame startTime history hq address
  have hpush : q.push e' = q.push e'' := by
    rw [hd, Option.some.injEq, Prod.mk.injEq, Prod.mk.injEq] at hd'
    exact hd'.2.2
  have hcontents := congrArg RingBuffer.contents hpush
  rw [q.contents_push hq, q.contents_push hq, List.append_cancel_left_eq] at hcontents
  obtain rfl : e' = e'' := by simpa using hcontents
  exact ⟨hs, u'', hr⟩

theorem relay_lossless (overflow : UInt64) {e : Event} {u : UpdateEvent} {d : ℕ} (h : Relayable e u d) :
    ∃ pc, serializeEvent overflow e = some pc ∧ pc.returnCode = .ok ∧
      (∀ (frame : Frame) (startTime : UInt64) (history : History) (q : EventQueue) (address : UInt64),
        ¬ q.Full → ∃ history' e', deserializeEvent frame startTime history q ⟨address, pc.written⟩
          pc.written.length = some (0, history', q.push e') ∧ SameUpdate e e') ∧
      ∀ e', Relation.ReflTransGen (Hop overflow) e e' →
        SameUpdate e e' ∧ serializeEvent overflow e' = some pc := by
  obtain ⟨pc, hpc, hok, -⟩ := serializeEvent_message overflow h.payload h.le
  refine ⟨pc, hpc, hok, ?_, ?_⟩
  · intro frame startTime history q address hq
    obtain ⟨history', e', -, hd, hs, -⟩ := hop_same overflow h hpc frame startTime history hq address
    exact ⟨history', e', hd, hs⟩
  · intro e' hops
    suffices hr : SameUpdate e e' ∧ ∃ u', Relayable e' u' d by
      obtain ⟨hs, u', h'⟩ := hr
      exact ⟨hs, (serializeEvent_congr overflow h h' hs).trans hpc⟩
    induction hops with
    | refl => exact ⟨.refl h.payload, u, h⟩
    | tail _ hop ih =>
      obtain ⟨hs, u', h'⟩ := ih
      obtain ⟨hs', hr⟩ := hop.same h'
      exact ⟨hs.trans hs', hr⟩

def oneEvent : Event := ⟨⟨eventUpdate, 300, 0x40400000, 7⟩, .update ⟨1, fun _ => ⟨5, 0x3f800000⟩⟩⟩

theorem relay_lossless_oneEvent : ∃ pc, serializeEvent 0 oneEvent = some pc ∧ pc.returnCode = .ok := by
  obtain ⟨pc, hpc, hok, -⟩ := relay_lossless 0 (e := oneEvent) (u := ⟨1, fun _ => ⟨5, 0x3f800000⟩⟩) (d := 3)
    ⟨rfl, rfl, by decide, by decide, (Binary32.isNat_iff _ _).mpr (by decide), by decide⟩
  exact ⟨pc, hpc, hok⟩

end OpenTwins
