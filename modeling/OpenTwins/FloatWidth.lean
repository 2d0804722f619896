import OpenTwins.Batching
import OpenTwins.Binary64

namespace OpenTwins

open MessagePack

structure SameEvent (e e' : Event) : Prop where
  header : e'.header = e.header
  payload : ∃ u u', e.payload = .update u ∧ e'.payload = .update u' ∧ u'.count = u.count ∧ u'.entries = u.entries

theorem SameEvent.updates {e e' : Event} (h : SameEvent e e') : e'.updates = e.updates := by
  obtain ⟨u, u', hu, hu', -, he⟩ := h.payload
  rw [Event.updates, Event.updates, hu, hu']
  exact he

theorem updates_of_same {es es' : List Event} (h : List.Forall₂ SameEvent es es') :
    es'.flatMap Event.updates = es.flatMap Event.updates := by
  induction h with
  | nil => rfl
  | cons he _ ih => rw [List.flatMap_cons, List.flatMap_cons, he.updates, ih]

theorem Batches.same {header : EventHeader} {us us' : List (UInt16 × Value)} {es es' : List Event}
    (h : Batches header us es) (h' : Batches header us' es') (hlen : us'.length = us.length) (k : ℕ) :
    List.Forall₂ SameEvent (es.take k) (es'.take k) ↔
      (us'.take (maxVarsPerEvent * k)).map PropertyUpdate.of =
        (us.take (maxVarsPerEvent * k)).map PropertyUpdate.of := by
  constructor
  · intro hs
    rw [← h.flatMap_take, ← h'.flatMap_take]
    exact updates_of_same hs
  · intro hu
    have hes : es'.length = es.length := by rw [h.length, h'.length, hlen]
    rw [List.forall₂_iff_get]
    refine ⟨by rw [List.length_take, List.length_take, hes], ?_⟩
    intro i hi hi'
    rw [List.length_take] at hi
    simp only [List.get_eq_getElem, List.getElem_take]
    obtain ⟨u, he, hc, hv⟩ := h.get i (by omega)
    obtain ⟨u', he', hc', hv'⟩ := h'.get i (by omega)
    rw [he, he']
    refine ⟨rfl, u, u', rfl, rfl, UInt8.toNat_inj.mp (by rw [hc, hc', hlen]), ?_⟩
    have hrange : maxVarsPerEvent ≤ maxVarsPerEvent * k - maxVarsPerEvent * i := by
      rw [← Nat.mul_sub]
      exact Nat.le_mul_of_pos_right _ (by omega)
    have hdrop (ws : List (UInt16 × Value)) : (ws.drop (maxVarsPerEvent * i)).take maxVarsPerEvent =
        ((ws.take (maxVarsPerEvent * k)).drop (maxVarsPerEvent * i)).take maxVarsPerEvent := by
      rw [List.drop_take, List.take_take, Nat.min_eq_left hrange]
    rw [hv, hv', hdrop us, hdrop us', List.map_take, List.map_take, List.map_drop, List.map_drop, hu]

def UpdateMessage.reading (m : UpdateMessage) (i : Fin m.updates.length) (y : Value) : UpdateMessage :=
  { m with
    updates := m.updates.set i (m.updates[i].1, y)
    fits := by rw [List.length_set]; exact m.fits }

def SameOutcome (frame : Frame) (startTime : UInt64) (history : History) (q : EventQueue) (b b' : Pointer) : Prop :=
  ∃ rc h h' r r' es es', deserializeEvent frame startTime history q b b.bytes.length = some (rc, h, r) ∧
    deserializeEvent frame startTime history q b' b'.bytes.length = some (rc, h', r') ∧
    r.contents = q.contents ++ es ∧ r'.contents = q.contents ++ es' ∧ List.Forall₂ SameEvent es es'

theorem set_take_map {α β : Type} {f : α → β} {l : List α} {i n : ℕ} (hi : i < l.length) (a a' : α) :
    ((l.set i a').take n).map f = ((l.set i a).take n).map f ↔ n ≤ i ∨ f a' = f a := by
  rw [List.take_set, List.take_set, List.map_set, List.map_set]
  constructor
  · intro h
    by_contra hn
    obtain ⟨hlt, hne⟩ := not_or.mp hn
    have hget := congrArg (fun l => l[i]?) h
    rw [List.getElem?_set_self (by simp; omega), List.getElem?_set_self (by simp; omega)] at hget
    exact hne (Option.some.inj hget)
  · rintro (h | h)
    · rw [List.set_eq_of_length_le (by simp; omega), List.set_eq_of_length_le (by simp; omega)]
    · rw [h]

theorem sameOutcome_iff (frame : Frame) (startTime : UInt64) (history : History) (q : EventQueue)
    (m : UpdateMessage) (i : Fin m.updates.length) {x : UInt32} {d : UInt64} (hd : Binary64.SameNumber x d)
    {b b' : Pointer} (hb : EncodesAll (m.reading i (.float x)).items b.bytes)
    (hb' : EncodesAll (m.reading i (.double d)).items b'.bytes) :
    SameOutcome frame startTime history q b b' ↔ x = 0 ∨ maxVarsPerEvent * q.free ≤ i := by
  obtain ⟨h, es, hr, hes⟩ := deserializeEvent_update frame startTime history q hb
  obtain ⟨h', es', hr', hes'⟩ := deserializeEvent_update frame startTime history q hb'
  have hlen : (m.reading i (.double d)).updates.length = (m.reading i (.float x)).updates.length := by
    simp [UpdateMessage.reading]
  have hsame := Batches.same hes hes' hlen q.free
  have hof : PropertyUpdate.of (m.updates[i].1, .double d) = PropertyUpdate.of (m.updates[i].1, .float x) ↔ x = 0 := by
    rw [← Binary64.low_eq_iff hd]
    simp [PropertyUpdate.of, Value.stored]
  simp only [UpdateMessage.reading] at hsame
  rw [set_take_map i.isLt, hof, or_comm] at hsame
  rw [← hsame]
  constructor
  · rintro ⟨rc, g, g', r, r', fs, fs', hg, hg', hc, hc', hf⟩
    rw [hr] at hg
    rw [hr'] at hg'
    cases hg
    cases hg'
    rw [contents_offers, List.append_cancel_left_eq] at hc hc'
    rwa [hc, hc']
  · intro hf
    exact ⟨0, h, h', _, _, _, _, hr, hr', contents_offers q es, contents_offers q es', hf⟩

theorem sameOutcome_iff_zero :
    SameOutcome zeroedFrame 0 zeroedHistory zeroedQueue ⟨0, [0x97, 0, 1, 0, 0, 1, 5, 0xca, 0, 0, 0, 0]⟩
      ⟨0, [0x97, 0, 1, 0, 0, 1, 5, 0xcb, 0, 0, 0, 0, 0, 0, 0, 0]⟩ := by
  refine (sameOutcome_iff zeroedFrame 0 zeroedHistory zeroedQueue oneUpdate ⟨0, by decide⟩
    Binary64.sameNumber_zero ?_ ?_).mpr (.inl rfl)
  · exact onePair_encoded (a := [5]) (b := [0xca, 0, 0, 0, 0]) rfl rfl
  · exact onePair_encoded (a := [5]) (b := [0xcb, 0, 0, 0, 0, 0, 0, 0, 0]) rfl rfl

theorem wide_reading_differs :
    Binary64.SameNumber 0x3f800000 0x3ff0000000000000 ∧
    EncodesAll (oneUpdate.reading ⟨0, by decide⟩ (.float 0x3f800000)).items
      [0x97, 0, 1, 0, 0, 1, 5, 0xca, 0x3f, 0x80, 0, 0] ∧
    EncodesAll (oneUpdate.reading ⟨0, by decide⟩ (.double 0x3ff0000000000000)).items
      [0x97, 0, 1, 0, 0, 1, 5, 0xcb, 0x3f, 0xf0, 0, 0, 0, 0, 0, 0] ∧
    ¬ SameOutcome zeroedFrame 0 zeroedHistory zeroedQueue ⟨0, [0x97, 0, 1, 0, 0, 1, 5, 0xca, 0x3f, 0x80, 0, 0]⟩
      ⟨0, [0x97, 0, 1, 0, 0, 1, 5, 0xcb, 0x3f, 0xf0, 0, 0, 0, 0, 0, 0]⟩ := by
  refine ⟨Binary64.sameNumber_of_fields rfl rfl rfl (by decide) (by decide), oneUpdate_encoded, ?_, ?_⟩
  · exact onePair_encoded (a := [5]) (b := [0xcb, 0x3f, 0xf0, 0, 0, 0, 0, 0, 0]) rfl rfl
  · rintro ⟨rc, h, h', r, r', es, es', hr, hr', hc, hc', hs⟩
    have hfloat : (deserializeEvent zeroedFrame 0 zeroedHistory zeroedQueue
        ⟨0, [0x97, 0, 1, 0, 0, 1, 5, 0xca, 0x3f, 0x80, 0, 0]⟩ 12).map
        (fun r => r.2.2.contents.flatMap Event.updates) = some [⟨5, 0x3f800000⟩] := by decide
    have hdouble : (deserializeEvent zeroedFrame 0 zeroedHistory zeroedQueue
        ⟨0, [0x97, 0, 1, 0, 0, 1, 5, 0xcb, 0x3f, 0xf0, 0, 0, 0, 0, 0, 0]⟩ 16).map
        (fun r => r.2.2.contents.flatMap Event.updates) = some [⟨5, 0⟩] := by decide
    have hnil : zeroedQueue.contents = [] := rfl
    rw [hnil, List.nil_append] at hc hc'
    simp only [List.length_cons, List.length_nil] at hr hr'
    rw [hr, Option.map_some, hc] at hfloat
    rw [hr', Option.map_some, hc', updates_of_same hs] at hdouble
    exact absurd (hfloat.symm.trans hdouble) (by decide)

end OpenTwins
