import OpenTwins.Messages
import OpenTwins.EventDispatcher

namespace OpenTwins

open MessagePack

structure Entry where
  timestamp : UInt64
  twinId : UInt32
  update : PropertyUpdate
deriving DecidableEq

def Event.entries (e : Event) : List Entry :=
  match e.payload with
  | .update u => u.entries.map (Entry.mk e.header.timestamp e.header.twinId)
  | .error _ => []

def queueEntries (q : EventQueue) : List Entry := q.contents.flatMap Event.entries

def readPairs : List Item → List PropertyUpdate
  | .int z :: .float b :: its => ⟨(UInt64.ofInt z).toUInt16, b⟩ :: readPairs its
  | _ => []

def readEntries : List Item → List Entry
  | .array _ :: .int 0 :: .int ts :: _ :: .int twinId :: .int _ :: its =>
    (readPairs its).map (Entry.mk (UInt64.ofInt ts) (UInt64.ofInt twinId).toUInt32)
  | _ => []

def wireEntries (bs : List UInt8) : List Entry := readEntries (itemsOf bs)

def FloatPair (x : UInt16 × Value) : Prop := ∃ b, x.2 = .float b

def UpdateMessage.entry (m : UpdateMessage) (x : UInt16 × Value) : Entry :=
  ⟨m.timestamp, m.twinId, PropertyUpdate.of x⟩

theorem readPairs_items {us : List (UInt16 × Value)} (h : ∀ x ∈ us, FloatPair x) :
    readPairs (us.flatMap pairItems) = us.map PropertyUpdate.of := by
  induction us with
  | nil => rfl
  | cons x us ih =>
    obtain ⟨b, hb⟩ := h x (by simp)
    obtain ⟨v, y⟩ := x
    subst hb
    have ih := ih fun y hy => h y (by simp [hy])
    simp only [List.flatMap_cons, pairItems, Value.item, List.cons_append, List.nil_append, readPairs,
      List.map_cons, ih, ofInt_toUInt16]
    rfl

theorem wireEntries_message {m : UpdateMessage} {bs : List UInt8} (h : EncodesAll m.items bs)
    (hf : ∀ x ∈ m.updates, FloatPair x) : wireEntries bs = m.updates.map m.entry := by
  rw [wireEntries, itemsOf_complete h]
  simp only [UpdateMessage.items, UpdateMessage.headItems, List.cons_append, List.nil_append, readEntries,
    readPairs_items hf, List.map_map, ofInt_toNat, ofInt_toUInt32, UInt32.ofNat_toNat]
  rfl

def notified (rules : Rules) (e : Event) : List Entry :=
  e.entries.filter fun x => rules.action x.twinId x.update.varId = .notifyUpwards

theorem entries_update (header : EventHeader) (u : UpdateEvent) :
    Event.entries ⟨header, .update u⟩ = u.entries.map (Entry.mk header.timestamp header.twinId) := rfl

theorem notified_update (rules : Rules) (header : EventHeader) (u : UpdateEvent) :
    notified rules ⟨header, .update u⟩ =
      (u.entries.filter fun p => rules.action header.twinId p.varId = .notifyUpwards).map
        (Entry.mk header.timestamp header.twinId) := by
  rw [notified, entries_update, List.filter_map]
  rfl

theorem queueEntries_offer (q : EventQueue) (e : Event) :
    queueEntries (offer q e) = queueEntries q ++ if q.Full then [] else e.entries := by
  rw [queueEntries, contents_offer]
  split_ifs <;> simp [queueEntries]

theorem queueEntries_pop {q : EventQueue} (h : ¬ q.Empty) :
    queueEntries q = q.front.entries ++ queueEntries q.advanceTail := by
  rw [queueEntries, q.contents_advanceTail h]
  rfl

theorem queueEntries_forwards {rules : Rules} {header : EventHeader} {u : UpdateEvent} {q q' : EventQueue}
    (hf : Forwards header (u.entries.filter fun p => rules.action header.twinId p.varId = .notifyUpwards)
      q q') : queueEntries q' =
        queueEntries q ++ if q.Full then [] else notified rules ⟨header, .update u⟩ := by
  rw [notified_update]
  rcases hf with ⟨hnil, rfl⟩ | ⟨-, b, hb, -, rfl⟩
  · rw [hnil]
    simp
  · rw [queueEntries_offer, ← hb]
    rfl

end OpenTwins
