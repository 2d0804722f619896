import OpenTwins.RingBuffer
import OpenTwins.Runs

/-!
One producer thread and one consumer thread on a ring buffer, step by step. A call reads
both indices, touches one slot and then moves its own index; the other thread may act
between any two of these steps.
-/

namespace RingThreads

inductive Producer (α : Type) (n : ℕ)
  | idle
  | filling (x : α) (next : Fin n)
  | publishing (x : α) (next : Fin n)

inductive Consumer (α : Type)
  | idle
  | copying
  | releasing (x : α)

structure Threads (α : Type) (n : ℕ) where
  ring : RingBuffer α n
  producer : Producer α n
  consumer : Consumer α
  pushed : List α
  popped : List α

inductive Act (α : Type)
  | beginPush (x : α)
  | fill
  | publish
  | beginPop
  | copy
  | release

variable {α : Type} {n : ℕ}

def publishIndex (q : RingBuffer α n) (next : Fin n) : RingBuffer α n :=
  { q with head := next, head_lt := next.isLt }

def step (a : Act α) (s : Threads α n) : Option (Threads α n × Option ℤ) :=
  match a, s.producer, s.consumer with
  | .beginPush x, .idle, _ =>
    if s.ring.Full then some (s, some (-1))
    else some ({ s with
      producer := .filling x ⟨(s.ring.head + 1) % n, Nat.mod_lt _ s.ring.size_pos⟩ }, none)
  | .fill, .filling x next, _ =>
    some ({ s with ring := s.ring.fill x, producer := .publishing x next }, none)
  | .publish, .publishing x next, _ =>
    some ({ s with
      ring := publishIndex s.ring next, producer := .idle, pushed := s.pushed ++ [x] }, some 0)
  | .beginPop, _, .idle =>
    if s.ring.Empty then some (s, some (-1)) else some ({ s with consumer := .copying }, none)
  | .copy, _, .copying => some ({ s with consumer := .releasing s.ring.front }, none)
  | .release, _, .releasing x =>
    some ({ s with
      ring := s.ring.advanceTail, consumer := .idle, popped := s.popped ++ [x] }, some 0)
  | _, _, _ => none

def next (a : Act α) (s : Threads α n) : Option (Threads α n) := (step a s).map Prod.fst

def start (q : RingBuffer α n) : Threads α n := ⟨q, .idle, .idle, [], []⟩

def ProducerOk (q : RingBuffer α n) : Producer α n → Prop
  | .idle => True
  | .filling _ next => ¬ q.Full ∧ next.val = (q.head + 1) % n
  | .publishing x next => ¬ q.Full ∧ next.val = (q.head + 1) % n ∧ q.buffer ⟨q.head, q.head_lt⟩ = x

def ConsumerOk (q : RingBuffer α n) : Consumer α → Prop
  | .idle => True
  | .copying => ¬ q.Empty
  | .releasing x => ¬ q.Empty ∧ q.front = x

structure Inv (s : Threads α n) : Prop where
  order : s.pushed = s.popped ++ s.ring.contents
  producer : ProducerOk s.ring s.producer
  consumer : ConsumerOk s.ring s.consumer

theorem inv_start {q : RingBuffer α n} (h : q.Empty) : Inv (start q) := by
  refine ⟨?_, trivial, trivial⟩
  simp [start, q.contents_eq_nil.mpr h]

theorem publishIndex_eq {q : RingBuffer α n} {i : Fin n} (h : i.val = (q.head + 1) % n) :
    publishIndex q i = q.advanceHead := by
  simp only [publishIndex, RingBuffer.advanceHead, h]

theorem front_fill {q : RingBuffer α n} (h : ¬ q.Empty) (x : α) : (q.fill x).front = q.front := by
  refine Function.update_of_ne ?_ _ _
  simp only [RingBuffer.fill, ne_eq, Fin.mk.injEq]
  exact fun he => h he.symm

theorem consumerOk_fill {q : RingBuffer α n} {c : Consumer α} (h : ConsumerOk q c) (x : α) :
    ConsumerOk (q.fill x) c := by
  cases c with
  | idle => trivial
  | copying => exact h
  | releasing y => exact ⟨h.1, (front_fill h.1 x).trans h.2⟩

theorem not_empty_advanceHead {q : RingBuffer α n} (h : ¬ q.Full) : ¬ q.advanceHead.Empty := by
  rw [RingBuffer.empty_iff, q.held_advanceHead h]
  omega

theorem consumerOk_advanceHead {q : RingBuffer α n} {c : Consumer α} (hf : ¬ q.Full)
    (h : ConsumerOk q c) : ConsumerOk q.advanceHead c := by
  cases c with
  | idle => trivial
  | copying => exact not_empty_advanceHead hf
  | releasing y => exact ⟨not_empty_advanceHead hf, h.2⟩

theorem not_full_advanceTail {q : RingBuffer α n} (h : ¬ q.Empty) : ¬ q.advanceTail.Full := by
  have hh := q.held_advanceTail h
  have hl := q.held_lt
  rw [RingBuffer.full_iff]
  omega

theorem producerOk_advanceTail {q : RingBuffer α n} {p : Producer α n} (he : ¬ q.Empty)
    (h : ProducerOk q p) : ProducerOk q.advanceTail p := by
  cases p with
  | idle => trivial
  | filling x i => exact ⟨not_full_advanceTail he, h.2⟩
  | publishing x i => exact ⟨not_full_advanceTail he, h.2⟩

theorem step_inv {a : Act α} {s t : Threads α n} {r : Option ℤ} (hi : Inv s)
    (h : step a s = some (t, r)) : Inv t := by
  obtain ⟨q, p, c, pushed, popped⟩ := s
  obtain ⟨ho, hp, hc⟩ := hi
  simp only at ho hp hc
  cases a with
  | beginPush x =>
    cases p <;> simp only [step, reduceCtorEq] at h
    split_ifs at h with hf
    · cases h; exact ⟨ho, hp, hc⟩
    · cases h; exact ⟨ho, ⟨hf, rfl⟩, hc⟩
  | fill =>
    cases p <;> simp only [step, reduceCtorEq] at h
    cases h
    refine ⟨?_, ⟨hp.1, hp.2, ?_⟩, consumerOk_fill hc _⟩
    · simpa only [RingBuffer.contents_fill] using ho
    · simp [RingBuffer.fill]
  | publish =>
    cases p with
    | publishing x i =>
      simp only [step, Option.some.injEq, Prod.mk.injEq] at h
      obtain ⟨rfl, -⟩ := h
      obtain ⟨hf, hi, hx⟩ := hp
      simp only [publishIndex_eq hi]
      refine ⟨?_, trivial, consumerOk_advanceHead hf hc⟩
      simp only [q.contents_advanceHead hf, hx, ho, List.append_assoc]
    | _ => simp only [step, reduceCtorEq] at h
  | beginPop =>
    cases c with
    | idle =>
      simp only [step] at h
      split_ifs at h with he
      · cases h; exact ⟨ho, hp, hc⟩
      · cases h; exact ⟨ho, hp, he⟩
    | _ => simp only [step, reduceCtorEq] at h
  | copy =>
    cases c with
    | copying =>
      simp only [step] at h
      cases h
      exact ⟨ho, hp, hc, rfl⟩
    | _ => simp only [step, reduceCtorEq] at h
  | release =>
    cases c with
    | releasing x =>
      simp only [step, Option.some.injEq, Prod.mk.injEq] at h
      obtain ⟨rfl, -⟩ := h
      obtain ⟨he, hx⟩ := hc
      refine ⟨?_, producerOk_advanceTail he hp, trivial⟩
      simp only [ho, q.contents_advanceTail he, hx, List.append_assoc, List.singleton_append]
    | _ => simp only [step, reduceCtorEq] at h

theorem run_inv {acts : List (Act α)} {q : RingBuffer α n} {s : Threads α n} (hq : q.Empty)
    (h : Runs.run next acts (start q) = some s) : Inv s := by
  apply Runs.run_preserves _ (inv_start hq) h
  intro a u t hu ht
  obtain ⟨⟨t', r⟩, hr, rfl⟩ := Option.map_eq_some_iff.mp ht
  exact step_inv hu hr

theorem step_fails {a : Act α} {s t : Threads α n} {r : Option ℤ} (h : step a s = some (t, r)) :
    (r = some (-1) ↔ (∃ x, a = .beginPush x ∧ s.ring.held = n - 1) ∨
      (a = .beginPop ∧ s.ring.held = 0)) ∧ (r = some (-1) → t = s) := by
  obtain ⟨q, p, c, pushed, popped⟩ := s
  have hn := q.size_pos
  have hl := q.held_lt
  cases a with
  | beginPush x =>
    cases p <;> simp only [step, reduceCtorEq] at h
    split_ifs at h with hf <;> cases h <;> rw [q.full_iff] at hf <;> simp [hf]
  | beginPop =>
    cases c with
    | idle =>
      simp only [step] at h
      split_ifs at h with he <;> cases h <;> rw [q.empty_iff] at he <;> simp [he]
    | _ => simp only [step, reduceCtorEq] at h
  | fill | publish =>
    cases p <;> simp only [step, reduceCtorEq] at h
    cases h
    simp
  | copy =>
    cases c with
    | copying => simp only [step] at h; cases h; simp
    | _ => simp only [step, reduceCtorEq] at h
  | release =>
    cases c with
    | releasing x => simp only [step] at h; cases h; simp
    | _ => simp only [step, reduceCtorEq] at h

theorem Inv.held_eq {s : Threads α n} (h : Inv s) :
    s.pushed.length = s.popped.length + s.ring.held := by
  rw [h.order, List.length_append, RingBuffer.length_contents]

theorem Inv.slots_differ {s : Threads α n} (h : Inv s) (hc : s.consumer ≠ .idle) :
    s.ring.head ≠ s.ring.tail := by
  obtain ⟨q, p, c, pushed, popped⟩ := s
  have hc' : ConsumerOk q c := h.consumer
  cases c with
  | idle => exact absurd rfl hc
  | copying => exact hc'
  | releasing x => exact hc'.1

end RingThreads
