import OpenTwins.EventTypes
import OpenTwins.RingBuffer

namespace OpenTwins

abbrev EventQueue := RingBuffer Event queueSize

def initQueue (q : EventQueue) : EventQueue :=
  { q with head := 0, tail := 0, head_lt := by decide, tail_lt := by decide }

def pushEvent (q : EventQueue) (event : Event) : Option (ℤ × EventQueue) :=
  let nextHead := (q.head + 1) % queueSize
  if nextHead = q.tail then some (-1, q)
  else do
    let buffer ← q.buffer.write q.head event
    return (0, { q with buffer, head := nextHead, head_lt := Nat.mod_lt _ (by decide) })

/-- The event stored at `event` beforehand is returned where none is popped. -/
def popEvent (q : EventQueue) (event : Event) : Option (ℤ × Event × EventQueue) :=
  if q.head = q.tail then some (-1, event, q)
  else do
    let event ← q.buffer.read q.tail
    return (0, event, { q with
      tail := (q.tail + 1) % queueSize, tail_lt := Nat.mod_lt _ (by decide) })

def zeroedEvent : Event := ⟨⟨0, 0, 0, 0⟩, .update ⟨0, fun _ => ⟨0, 0⟩⟩⟩

def zeroedQueue : EventQueue where
  buffer := fun _ => zeroedEvent
  head := 0
  tail := 0
  head_lt := by decide
  tail_lt := by decide

theorem initQueue_empty (q : EventQueue) : (initQueue q).Empty := rfl

theorem initQueue_not_full (q : EventQueue) : ¬ (initQueue q).Full := by
  change ¬ (0 + 1) % queueSize = 0
  decide

@[simp] theorem contents_initQueue (q : EventQueue) : (initQueue q).contents = [] :=
  (RingBuffer.contents_eq_nil _).mpr (initQueue_empty q)

theorem pushEvent_eq (q : EventQueue) (e : Event) :
    pushEvent q e = some (if q.Full then (-1, q) else (0, q.push e)) := by
  by_cases h : q.Full
  · rw [pushEvent, if_pos h]
    exact if_pos h
  · rw [pushEvent, if_neg h, FixedArray.write_of_lt _ q.head_lt]
    exact if_neg h

theorem popEvent_eq (q : EventQueue) (e : Event) :
    popEvent q e = some (if q.Empty then (-1, e, q) else (0, q.front, q.advanceTail)) := by
  by_cases h : q.Empty
  · rw [popEvent, if_pos h]
    exact if_pos h
  · rw [popEvent, if_neg h, FixedArray.read_of_lt _ q.tail_lt]
    exact if_neg h

def offer (q : EventQueue) (e : Event) : EventQueue := if q.Full then q else q.push e

theorem contents_offer (q : EventQueue) (e : Event) :
    (offer q e).contents = if q.Full then q.contents else q.contents ++ [e] := by
  unfold offer
  split_ifs with h
  · rfl
  · exact q.contents_push h e

def offers (q : EventQueue) (es : List Event) : EventQueue := es.foldl offer q

theorem contents_offers (q : EventQueue) (es : List Event) :
    (offers q es).contents = q.contents ++ es.take q.free := by
  induction es generalizing q with
  | nil => simp [offers]
  | cons e es ih =>
    rw [offers, List.foldl_cons, ← offers, ih, offer]
    split_ifs with h
    · rw [q.full_iff_free.mp h, List.take_zero, List.take_zero]
    · rw [q.contents_push h, ← q.free_push h e, List.take_succ_cons, List.append_assoc]
      rfl

theorem forall_mem_offer {P : Event → Prop} {q : EventQueue} {e : Event} (h : ∀ e' ∈ q.contents, P e')
    (he : P e) : ∀ e' ∈ (offer q e).contents, P e' := by
  rw [contents_offer]
  split_ifs
  · exact h
  · simpa [or_imp, forall_and] using ⟨h, he⟩

theorem forall_mem_pop {P : Event → Prop} {q : EventQueue} (hq : ¬ q.Empty) (h : ∀ e ∈ q.contents, P e) :
    P q.front ∧ ∀ e ∈ q.advanceTail.contents, P e := by
  rw [q.contents_advanceTail hq] at h
  exact List.forall_mem_cons.mp h

theorem pushEvent_offer (q : EventQueue) (e : Event) :
    pushEvent q e = some (if q.Full then -1 else 0, offer q e) := by
  rw [pushEvent_eq, offer]
  split_ifs <;> rfl

end OpenTwins
