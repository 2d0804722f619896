import OpenTwins.Batching
import OpenTwins.Receive
import OpenTwins.Truncation

namespace OpenTwins

open MessagePack

inductive WireBody
  | update (updates : List (UInt64 × Value))
  | error (errorCode : UInt64) (text : List UInt8)

def WireBody.pairs : WireBody → List (UInt64 × Value)
  | .update updates => updates
  | .error .. => []

/-- An event message with any integers that the wire can carry. What follows the header is that of
an UPDATE or of an ERROR, where the type is one of these. -/
structure WireMessage where
  type : UInt64
  timestamp : UInt64
  deviation : Value
  twinId : UInt64
  body : WireBody
  fits : 5 + 2 * body.pairs.length < 2 ^ 32
  update : type = 0 → ∃ updates, body = .update updates
  error : type = 1 → ∃ errorCode text, body = .error errorCode text

def wide (w : UInt64 × Value) : ℤ × Value := (w.1.toNat, w.2)

namespace WireMessage

def size (m : WireMessage) : UInt32 :=
  match m.body with
  | .update updates => UInt32.ofNat (5 + 2 * updates.length)
  | .error .. => 6

def bodyItems (m : WireMessage) : List Item :=
  match m.body with
  | .update updates => .int updates.length :: (updates.map wide).flatMap wireItems
  | .error errorCode text => [.int errorCode.toNat, .str text]

def items (m : WireMessage) : List Item :=
  .array m.size :: .int m.type.toNat :: .int m.timestamp.toNat :: m.deviation.item ::
    .int m.twinId.toNat :: m.bodyItems

def header (m : WireMessage) : EventHeader where
  type := m.type.toUInt32
  timestamp := m.timestamp
  deviation := Binary32.ofUInt64 (m.deviation.word m.timestamp)
  twinId := m.twinId.toUInt32

end WireMessage

structure NamesCarried (m : WireMessage) (room : ℕ) (es : List Event) : Prop where
  type : ∀ e ∈ es, e.header.type.toNat = m.type.toNat
  twinId : ∀ e ∈ es, e.header.twinId.toNat = m.twinId.toNat
  varIds : es ≠ [] → ((es.flatMap Event.updates).map fun p => p.varId.toNat) =
    (m.body.pairs.take (maxVarsPerEvent * room)).map fun w => w.1.toNat
  errorCode : ∀ e ∈ es, ∀ code text, m.body = .error code text →
    ∃ x, e.payload = .error x ∧ x.errorCode.toNat = code.toNat

def Enqueues (m : WireMessage) : Prop :=
  (m.type.toUInt32 = eventUpdate ∧ m.body.pairs ≠ []) ∨ m.type.toUInt32 = eventError

structure IntegersFit (m : WireMessage) (room : ℕ) : Prop where
  type : m.type.toNat < 2 ^ 32
  twinId : m.twinId.toNat < 2 ^ 32
  varIds : ∀ w ∈ m.body.pairs.take (maxVarsPerEvent * room), w.1.toNat < 2 ^ 16
  errorCode : ∀ code text, m.body = .error code text → code.toNat < 2 ^ 32

theorem toUInt32_eq_iff (x : UInt64) : x.toUInt32.toNat = x.toNat ↔ x.toNat < 2 ^ 32 := by
  rw [UInt64.toNat_toUInt32]
  have := Nat.mod_lt x.toNat (show 0 < 2 ^ 32 by decide)
  omega

theorem toUInt16_eq_iff (x : UInt64) : x.toUInt16.toNat = x.toNat ↔ x.toNat < 2 ^ 16 := by
  rw [UInt64.toNat_toUInt16]
  omega

theorem wide_narrow (w : UInt64 × Value) : narrow (wide w) = (w.1.toUInt16, w.2) := by
  rw [narrow, wide, ofInt_toNat]

theorem Batches.header {header : EventHeader} {us : List (UInt16 × Value)} {es : List Event}
    (h : Batches header us es) : ∀ e ∈ es, e.header = header := by
  induction h with
  | nil => simp
  | cons _ _ _ _ ih => exact List.forall_mem_cons.mpr ⟨rfl, ih⟩

theorem Batches.ne_nil {header : EventHeader} {us : List (UInt16 × Value)} {es : List Event}
    (h : Batches header us es) (hu : us ≠ []) : es ≠ [] := by
  cases h with
  | nil => exact absurd rfl hu
  | cons => exact List.cons_ne_nil _ _

section parsing

variable {m : WireMessage} {ctx : UnpackContext} (frame : Frame) (startTime : UInt64) (idx : UInt32)

theorem decodeHead_wire {buffer : Pointer} (h : EncodesAll m.items buffer.bytes) :
    ∃ ctx, decodeHead frame startTime idx buffer buffer.bytes.length =
      decodePayload frame startTime idx m.size m.header ctx ∧ Feeds ctx m.bodyItems := by
  have hsize : 4 ≤ m.size := by
    have hfits := m.fits
    unfold WireMessage.size
    cases hb : m.body with
    | update updates =>
      rw [hb] at hfits
      exact four_le_size hfits
    | error => exact (by decide : (4 : UInt32) ≤ 6)
  obtain ⟨ctx, hd, hf⟩ := decodeHead_items frame startTime idx hsize (wordAfter_item m.deviation _)
    (itemsOf_complete h)
  simp only [ofInt_toNat] at hd
  exact ⟨ctx, hd, hf⟩

theorem decodePayload_other {arraySize : UInt32} {header : EventHeader} (hu : header.type ≠ eventUpdate)
    (he : header.type ≠ eventError) :
    decodePayload frame startTime idx arraySize header ctx = some .rejected := by
  rw [decodePayload, if_neg hu, if_neg he]

theorem decodePayload_wireUpdate (hu : m.type.toUInt32 = eventUpdate) {updates : List (UInt64 × Value)}
    (hb : m.body = .update updates) (hf : Feeds ctx m.bodyItems) :
    ∃ v, decodePayload frame startTime idx m.size m.header ctx = some (.updates {
        ctx := v, header := m.header, varCount := updates.length, varsProcessed := 0, idx, startTime }) ∧
      Feeds v ((updates.map wide).flatMap wireItems) := by
  have hfits := m.fits
  rw [hb] at hfits
  unfold WireMessage.bodyItems at hf
  rw [hb] at hf
  simp only [WireMessage.size, hb]
  exact decodePayload_count frame startTime idx (show m.header.type = eventUpdate from hu) hfits hf

theorem decodePayload_mismatch (hu : m.type.toUInt32 = eventUpdate) {code : UInt64} {text : List UInt8}
    (hb : m.body = .error code text) (hf : Feeds ctx m.bodyItems) :
    decodePayload frame startTime idx m.size m.header ctx = some .rejected := by
  unfold WireMessage.bodyItems at hf
  rw [hb] at hf
  obtain ⟨v, hv, -, -⟩ := hf.next_int
  simp only [WireMessage.size, hb]
  rw [decodePayload_update frame startTime idx 6 (show m.header.type = eventUpdate from hu) hv, if_pos]
  intro h6
  have hodd := congrArg UInt32.toNat h6
  rw [UInt32.toNat_add, UInt32.toNat_mul] at hodd
  simp only [UInt32.reduceToNat] at hodd
  omega

theorem decodePayload_wireError (he : m.type.toUInt32 = eventError) (hf : Feeds ctx m.bodyItems) :
    ∃ e x, decodePayload frame startTime idx m.size m.header ctx = some (.error e) ∧ e.header = m.header ∧
      e.payload = .error x ∧ ∀ code text, m.body = .error code text → x.errorCode = code.toUInt32 := by
  have hne : m.header.type ≠ eventUpdate := by
    rw [show m.header.type = eventError from he]
    decide
  obtain ⟨z, its, hz, hcode⟩ : ∃ z its, m.bodyItems = .int z :: its ∧
      ∀ code text, m.body = .error code text → z = code.toNat := by
    unfold WireMessage.bodyItems
    cases hb : m.body with
    | update updates => exact ⟨_, _, rfl, by simp⟩
    | error code text =>
      refine ⟨_, _, rfl, ?_⟩
      intro code' text' h
      cases h
      rfl
  rw [hz] at hf
  obtain ⟨u1, h1, f1, w1⟩ := hf.next_int
  obtain ⟨u2, h2, -, htext⟩ := cwUnpackNext_sound f1.sound
  obtain ⟨message, hm, -⟩ := storeMessage_terminated htext frame.message
  refine ⟨⟨m.header, .error ⟨u1.as.word.toUInt32, message⟩⟩, _, ?_, rfl, rfl, ?_⟩
  · rw [decodePayload, if_neg hne, if_pos (show m.header.type = eventError from he), readError_eq h1 h2 hm]
    rfl
  · intro code text hb
    rw [w1, hcode code text hb, ofInt_toNat]

end parsing

theorem deserializeEvent_wire (frame : Frame) (startTime : UInt64) (history : History) (q : EventQueue)
    {m : WireMessage} {buffer : Pointer} (h : EncodesAll m.items buffer.bytes) :
    ∃ rc history' es, deserializeEvent frame startTime history q buffer buffer.bytes.length =
        some (rc, history', offers q es) ∧
      ((¬ Enqueues m ∧ es = []) ∨
        (m.type.toUInt32 = eventUpdate ∧ m.body.pairs ≠ [] ∧ (∃ updates, m.body = .update updates) ∧
          Batches m.header (m.body.pairs.map fun w => (w.1.toUInt16, w.2)) es) ∨
        (m.type.toUInt32 = eventError ∧ ∃ e x, es = [e] ∧ e.header = m.header ∧ e.payload = .error x ∧
          ∀ code text, m.body = .error code text → x.errorCode = code.toUInt32)) := by
  obtain ⟨ctx, hd, hf⟩ := decodeHead_wire frame startTime history.logIndex h
  rw [deserializeEvent_finish, hd]
  unfold Enqueues
  by_cases hup : m.type.toUInt32 = eventUpdate
  · have hne : m.type.toUInt32 ≠ eventError := by
      rw [hup]
      decide
    cases hb : m.body with
    | update updates =>
      obtain ⟨v, hv, fv⟩ := decodePayload_wireUpdate frame startTime history.logIndex hup hb hf
      rw [hv, Option.bind_some, finishEvent]
      obtain ⟨log, es, hp, hes⟩ := pushBatches_wire frame history.log q (p := {
        ctx := v, header := m.header, varCount := updates.length, varsProcessed := 0
        idx := history.logIndex, startTime }) fv (by simp) (by rw [List.length_map])
      refine ⟨0, _, es, by rw [hp]; rfl, ?_⟩
      rw [List.map_map, show narrow ∘ wide = _ from funext wide_narrow] at hes
      by_cases hnil : updates = []
      · subst hnil
        cases hes with
        | nil => exact .inl ⟨by simp [hne, WireBody.pairs], rfl⟩
        | cons ne => exact absurd rfl ne
      · exact .inr (.inl ⟨hup, hnil, ⟨updates, rfl⟩, hes⟩)
    | error code text =>
      rw [decodePayload_mismatch frame startTime history.logIndex hup hb hf]
      exact ⟨-1, _, [], rfl, .inl ⟨by simp [hne, WireBody.pairs], rfl⟩⟩
  by_cases herr : m.type.toUInt32 = eventError
  · obtain ⟨e, x, he, hh, hx, hcode⟩ := decodePayload_wireError frame startTime history.logIndex herr hf
    rw [he, Option.bind_some, finishEvent, pushEvent_offer]
    exact ⟨0, _, [e], rfl, .inr (.inr ⟨herr, e, x, rfl, hh, hx, hcode⟩)⟩
  · rw [decodePayload_other frame startTime history.logIndex (show m.header.type ≠ eventUpdate from hup) herr]
    exact ⟨-1, _, [], rfl, .inl ⟨by simp [hup, herr], rfl⟩⟩

theorem forall_header {es : List Event} {header : EventHeader} (hne : es ≠ []) (h : ∀ e ∈ es, e.header = header)
    (P : EventHeader → Prop) : (∀ e ∈ es, P e.header) ↔ P header := by
  constructor
  · intro hall
    obtain ⟨e, he⟩ := List.exists_mem_of_ne_nil es hne
    exact h e he ▸ hall e he
  · intro hp e he
    exact (h e he).symm ▸ hp

theorem varIds_carried_iff (ws : List (UInt64 × Value)) :
    ((ws.map fun w => PropertyUpdate.of (w.1.toUInt16, w.2)).map fun p => p.varId.toNat) =
      (ws.map fun w => w.1.toNat) ↔ ∀ w ∈ ws, w.1.toNat < 2 ^ 16 := by
  rw [List.map_map, List.map_inj_left]
  exact forall₂_congr fun w _ => toUInt16_eq_iff w.1

theorem namesCarried_of_batches {m : WireMessage} {es : List Event} {room : ℕ} (hroom : room ≠ 0)
    (hpairs : m.body.pairs ≠ []) (hb : ∃ updates, m.body = .update updates)
    (h : Batches m.header (m.body.pairs.map fun w => (w.1.toUInt16, w.2)) es) :
    NamesCarried m room (es.take room) ↔ IntegersFit m room := by
  have hne : es.take room ≠ [] := by
    rw [ne_eq, List.take_eq_nil_iff, not_or]
    exact ⟨hroom, h.ne_nil (by simpa using hpairs)⟩
  have hheader : ∀ e ∈ es.take room, e.header = m.header := fun e he => h.header e (List.mem_of_mem_take he)
  have hids := varIds_carried_iff (m.body.pairs.take (maxVarsPerEvent * room))
  have herror (code : UInt64) (text : List UInt8) : m.body ≠ .error code text := by
    obtain ⟨updates, hu⟩ := hb
    simp [hu]
  have hflat := h.flatMap_take room
  rw [← List.map_take, List.map_map] at hflat
  constructor
  · rintro ⟨type, twinId, varIds, -⟩
    refine ⟨(toUInt32_eq_iff _).mp ?_, (toUInt32_eq_iff _).mp ?_, hids.mp ?_,
      fun code text hc => absurd hc (herror code text)⟩
    · exact (forall_header hne hheader fun x => x.type.toNat = m.type.toNat).mp type
    · exact (forall_header hne hheader fun x => x.twinId.toNat = m.twinId.toNat).mp twinId
    · rw [← varIds hne, hflat]
      rfl
  · rintro ⟨type, twinId, varIds, -⟩
    refine ⟨?_, ?_, ?_, fun e he code text hc => absurd hc (herror code text)⟩
    · exact (forall_header hne hheader fun x => x.type.toNat = m.type.toNat).mpr ((toUInt32_eq_iff _).mpr type)
    · exact (forall_header hne hheader fun x => x.twinId.toNat = m.twinId.toNat).mpr ((toUInt32_eq_iff _).mpr twinId)
    · intro _
      rw [hflat, ← hids.mpr varIds]
      rfl

theorem namesCarried_error {m : WireMessage} (he : m.type.toUInt32 = eventError) {e : Event} {x : ErrorEvent}
    (hh : e.header = m.header) (hx : e.payload = .error x)
    (hcode : ∀ code text, m.body = .error code text → x.errorCode = code.toUInt32) (room : ℕ) :
    NamesCarried m room [e] ↔ IntegersFit m room := by
  have htype : e.header.type.toNat = m.type.toNat ↔ m.type.toNat < 2 ^ 32 := by
    rw [hh]
    exact toUInt32_eq_iff m.type
  have htwin : e.header.twinId.toNat = m.twinId.toNat ↔ m.twinId.toNat < 2 ^ 32 := by
    rw [hh]
    exact toUInt32_eq_iff m.twinId
  have hbody (hsmall : m.type.toNat < 2 ^ 32) : ∃ code text, m.body = .error code text := by
    apply m.error
    apply UInt64.toNat_inj.mp
    rw [← (toUInt32_eq_iff m.type).mpr hsmall, he]
    rfl
  constructor
  · rintro ⟨type, twinId, -, errorCode⟩
    have hsmall := htype.mp (type e (by simp))
    obtain ⟨code, text, hb⟩ := hbody hsmall
    refine ⟨hsmall, htwin.mp (twinId e (by simp)), by simp [hb, WireBody.pairs], ?_⟩
    intro code' text' hb'
    obtain ⟨x', hx', hc⟩ := errorCode e (by simp) code' text' hb'
    obtain rfl : x = x' := Payload.error.inj (hx.symm.trans hx')
    rw [hcode code' text' hb'] at hc
    exact (toUInt32_eq_iff code').mp hc
  · rintro ⟨type, twinId, -, errorCode⟩
    obtain ⟨code, text, hb⟩ := hbody type
    refine ⟨by simpa using htype.mpr type, by simpa using htwin.mpr twinId, ?_, ?_⟩
    · intro _
      simp [hb, WireBody.pairs, Event.updates, hx]
    · intro e' he' code' text' hb'
      obtain rfl := List.mem_singleton.mp he'
      refine ⟨x, hx, ?_⟩
      rw [hcode code' text' hb']
      exact (toUInt32_eq_iff code').mpr (errorCode code' text' hb')

theorem namesCarried_iff (frame : Frame) (startTime : UInt64) (history : History) (q : EventQueue)
    {m : WireMessage} {buffer : Pointer} (h : EncodesAll m.items buffer.bytes) :
    ∃ rc history' q' es, deserializeEvent frame startTime history q buffer buffer.bytes.length =
        some (rc, history', q') ∧ q'.contents = q.contents ++ es ∧
      (NamesCarried m q.free es ↔ (q.Full ∨ ¬ Enqueues m) ∨ IntegersFit m q.free) := by
  have hnone : NamesCarried m q.free [] := ⟨by simp, by simp, by simp, by simp⟩
  obtain ⟨rc, history', es, hd, hes⟩ := deserializeEvent_wire frame startTime history q h
  refine ⟨rc, history', _, es.take q.free, hd, contents_offers q es, ?_⟩
  by_cases hfull : q.Full
  · rw [q.full_iff_free.mp hfull, List.take_zero, ← q.full_iff_free.mp hfull]
    exact iff_of_true hnone (.inl (.inl hfull))
  have hroom : q.free ≠ 0 := mt q.full_iff_free.mpr hfull
  rcases hes with ⟨hno, rfl⟩ | ⟨hup, hpairs, hb, hes⟩ | ⟨herr, e, x, rfl, hh, hx, hcode⟩
  · rw [List.take_nil]
    exact iff_of_true hnone (.inl (.inr hno))
  · rw [namesCarried_of_batches hroom hpairs hb hes]
    have hyes : Enqueues m := .inl ⟨hup, hpairs⟩
    tauto
  · rw [List.take_of_length_le (by rw [List.length_singleton]; omega), namesCarried_error herr hh hx hcode]
    have hyes : Enqueues m := .inr herr
    tauto

def oneVariable (id : UInt64) : WireMessage where
  type := 0
  timestamp := 1
  deviation := .int 0
  twinId := 0
  body := .update [(id, .float 0x3f800000)]
  fits := (by decide : 7 < 2 ^ 32)
  update := fun _ => ⟨_, rfl⟩
  error := fun h => absurd h (by decide)

theorem namesCarried_iff_small : ∃ es, NamesCarried (oneVariable 5) zeroedQueue.free es ∧ es ≠ [] := by
  have he : EncodesAll (oneVariable 5).items (Pointer.mk 0 [0x97, 0, 1, 0, 0, 1, 5, 0xca, 0x3f, 0x80, 0, 0]).bytes :=
    onePair_encoded (a := [5]) (b := [0xca, 0x3f, 0x80, 0, 0]) rfl rfl
  obtain ⟨rc, history', q', es, hd, hc, hn⟩ := namesCarried_iff zeroedFrame 0 zeroedHistory zeroedQueue he
  have hevents : (deserializeEvent zeroedFrame 0 zeroedHistory zeroedQueue
      ⟨0, [0x97, 0, 1, 0, 0, 1, 5, 0xca, 0x3f, 0x80, 0, 0]⟩ 12).map (fun r => r.2.2.contents.length) = some 1 := by
    decide
  refine ⟨es, hn.mpr (.inr ⟨by decide, by decide, ?_, ?_⟩), ?_⟩
  · intro w hw
    obtain rfl := List.mem_singleton.mp (List.mem_of_mem_take hw)
    exact (by decide : 5 < 2 ^ 16)
  · intro code text h
    cases h
  · rintro rfl
    simp only [List.length_cons, List.length_nil] at hd
    rw [hd, Option.map_some, hc] at hevents
    cases hevents

theorem wideIdentifier_aliases :
    EncodesAll (oneVariable 65541).items [0x97, 0, 1, 0, 0, 1, 0xce, 0, 1, 0, 5, 0xca, 0x3f, 0x80, 0, 0] ∧
    ∀ rc history' q' es, deserializeEvent zeroedFrame 0 zeroedHistory zeroedQueue
        ⟨0, [0x97, 0, 1, 0, 0, 1, 0xce, 0, 1, 0, 5, 0xca, 0x3f, 0x80, 0, 0]⟩ 16 = some (rc, history', q') →
      q'.contents = zeroedQueue.contents ++ es → ¬ NamesCarried (oneVariable 65541) zeroedQueue.free es := by
  refine ⟨onePair_encoded (a := [0xce, 0, 1, 0, 5]) (b := [0xca, 0x3f, 0x80, 0, 0]) rfl rfl, ?_⟩
  intro rc history' q' es hd hc hn
  have hevents : (deserializeEvent zeroedFrame 0 zeroedHistory zeroedQueue
      ⟨0, [0x97, 0, 1, 0, 0, 1, 0xce, 0, 1, 0, 5, 0xca, 0x3f, 0x80, 0, 0]⟩ 16).map
      (fun r => r.2.2.contents.flatMap Event.updates) = some [⟨5, 0x3f800000⟩] := by decide
  rw [hd, Option.map_some, hc, show zeroedQueue.contents = [] from rfl, List.nil_append, Option.some.injEq] at hevents
  have hroom : zeroedQueue.free ≠ 0 := mt zeroedQueue.full_iff_free.mpr (by decide)
  have hids := hn.varIds (by rintro rfl; cases hevents)
  rw [hevents, List.take_of_length_le (show 1 ≤ maxVarsPerEvent * zeroedQueue.free by unfold maxVarsPerEvent; omega)]
    at hids
  exact absurd hids (by decide)

end OpenTwins
