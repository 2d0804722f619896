import OpenTwins.EventQueue
import OpenTwins.RingThreads

namespace OpenTwins.QueueThreads

open RingThreads

theorem pushEvent_alone (q : EventQueue) (e : Event) (s : Threads Event queueSize)
    (hr : s.ring = q) (hp : s.producer = .idle) :
    (q.Full → step (.beginPush e) s = some (s, some (-1)) ∧ pushEvent q e = some (-1, q)) ∧
    (¬ q.Full → Runs.run next [.beginPush e, .fill, .publish] s =
        some { s with ring := q.push e, pushed := s.pushed ++ [e] } ∧
      pushEvent q e = some (0, q.push e)) := by
  obtain ⟨q', p, c, pushed, popped⟩ := s
  subst hr hp
  rw [pushEvent_eq]
  refine ⟨fun h => ⟨by simp [step, h], by simp [h]⟩, fun h => ⟨?_, by simp [h]⟩⟩
  simp only [Runs.run, next, step, h, if_false, Option.map_some, Option.bind_some]
  rfl

theorem popEvent_alone (q : EventQueue) (e : Event) (s : Threads Event queueSize)
    (hr : s.ring = q) (hc : s.consumer = .idle) :
    (q.Empty → step .beginPop s = some (s, some (-1)) ∧ popEvent q e = some (-1, e, q)) ∧
    (¬ q.Empty → Runs.run next [.beginPop, .copy, .release] s =
        some { s with ring := q.advanceTail, popped := s.popped ++ [q.front] } ∧
      popEvent q e = some (0, q.front, q.advanceTail)) := by
  obtain ⟨q', p, c, pushed, popped⟩ := s
  subst hr hc
  rw [popEvent_eq]
  refine ⟨fun h => ⟨by simp [step, h], by simp [h]⟩, fun h => ⟨?_, by simp [h]⟩⟩
  simp only [Runs.run, next, step, h, if_false, Option.map_some, Option.bind_some]

/-- Whatever the two threads have done since the queue was initialised: what has been popped
is the front of what has been pushed, the slot being written is not the one being copied, one
slot stays free, and a call fails, changing nothing, exactly when it finds the queue full or empty. -/
theorem threads_correct (q : EventQueue) (acts : List (Act Event)) (s : Threads Event queueSize)
    (h : Runs.run next acts (start (initQueue q)) = some s) :
    s.popped <+: s.pushed ∧
    (∀ x i, s.producer = .filling x i → s.consumer ≠ .idle → s.ring.head ≠ s.ring.tail) ∧
    s.pushed.length - s.popped.length ≤ queueSize - 1 ∧
    ∀ a t r, step a s = some (t, r) →
      (r = some (-1) ↔
        (∃ x, a = .beginPush x ∧ s.pushed.length - s.popped.length = queueSize - 1) ∨
        (a = .beginPop ∧ s.pushed.length - s.popped.length = 0)) ∧
      (r = some (-1) → t = s) := by
  have hi : Inv s := run_inv (initQueue_empty q) h
  have hl := s.ring.held_lt
  have he : s.pushed.length - s.popped.length = s.ring.held := by
    rw [hi.held_eq, Nat.add_sub_cancel_left]
  refine ⟨⟨s.ring.contents, hi.order.symm⟩, fun _ _ _ hc => hi.slots_differ hc, by omega, ?_⟩
  intro a t r hs
  rw [he]
  exact step_fails hs

def overlappingActs : List (Act Event) :=
  [.beginPush (zeroedEvent), .fill, .beginPop, .publish, .beginPop,
    .beginPush (zeroedEvent), .copy, .fill, .release]

theorem threads_correct_overlapping :
    ∃ s, Runs.run next overlappingActs (start (initQueue zeroedQueue)) = some s ∧
      s.popped <+: s.pushed ∧ s.pushed.length = 1 ∧ s.popped.length = 1 := by
  refine ⟨_, rfl, (threads_correct zeroedQueue overlappingActs _ rfl).1, rfl, rfl⟩

end OpenTwins.QueueThreads
