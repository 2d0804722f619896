import OpenTwins.ItemsTaken

namespace OpenTwins

open MessagePack

def IsNatural (it : Option Item) : Prop := ∃ n : ℕ, it = some (.int n)

def IsNumber (it : Option Item) : Prop :=
  (∃ z, it = some (.int z)) ∨ (∃ b, it = some (.float b)) ∨ ∃ b, it = some (.double b)

structure Disciplined (s : Position) : Prop where
  top : ∃ n, (itemsOf s.2.bytes)[0]? = some (.array n)
  type : IsNatural (itemsOf s.2.bytes)[1]?
  timestamp : IsNatural (itemsOf s.2.bytes)[2]?
  twinId : IsNatural (itemsOf s.2.bytes)[4]?
  update : (s.after 2).1 = eventUpdate → IsNatural (itemsOf s.2.bytes)[5]? ∧
    ∀ i < (s.after 6).1.toNat,
      IsNatural (itemsOf s.2.bytes)[6 + 2 * i]? ∧ IsNumber (itemsOf s.2.bytes)[7 + 2 * i]?
  error : (s.after 2).1 = eventError → IsNatural (itemsOf s.2.bytes)[5]?

def TagsChecked (frame : Frame) (startTime : UInt64) (history : History) (q : EventQueue) (buffer : Pointer) : Prop :=
  ∃ rc history' q', deserializeEvent frame startTime history q buffer buffer.bytes.length = some (rc, history', q') ∧
    (q'.contents ≠ q.contents → Disciplined (frame.start buffer)) ∧
    (¬ Disciplined (frame.start buffer) → rc = -1 ∧ q' = q)

theorem tagsChecked_iff (frame : Frame) (startTime : UInt64) (history : History) (q : EventQueue)
    (buffer : Pointer) : TagsChecked frame startTime history q buffer ↔
      Disciplined (frame.start buffer) ∨ Refused (frame.start buffer) := by
  obtain ⟨rc, history', es, ctx, hto, hspec⟩ := deserializeEventTo_spec frame startTime history q buffer
  have hd : deserializeEvent frame startTime history q buffer buffer.bytes.length =
      some (rc, history', offers q es) := by rw [← deserializeEventTo_eq, hto, Option.map_some]
  unfold TagsChecked
  simp only [hd, Option.some.injEq, Prod.mk.injEq]
  constructor
  · rintro ⟨_, _, _, ⟨rfl, rfl, rfl⟩, -, hrejected⟩
    by_cases hdis : Disciplined (frame.start buffer)
    · exact .inl hdis
    · right
      rcases hspec with ⟨-, href, -⟩ | ⟨hrc, -, -, -⟩
      · exact href
      · have hminus := (hrejected hdis).1
        rw [hrc] at hminus
        cases hminus
  · intro hcond
    refine ⟨rc, history', _, ⟨rfl, rfl, rfl⟩, ?_⟩
    rcases hspec with ⟨hrc, -, rfl⟩ | ⟨-, ha, -, -⟩
    · exact ⟨fun hne => absurd rfl hne, fun _ => ⟨hrc, rfl⟩⟩
    · have hdis := hcond.resolve_right ha
      exact ⟨fun _ => hdis, fun hn => absurd hdis hn⟩

theorem map_enqueued :
    ((deserializeEvent zeroedFrame 0 zeroedHistory zeroedQueue ⟨0, [0x84, 1, 0xc0, 0xc0, 0xa1, 0x61, 0xc3, 0xc0]⟩ 8).map
      fun r => (r.1, r.2.2.contents.length)) = some (0, 1) ∧
    ¬ TagsChecked zeroedFrame 0 zeroedHistory zeroedQueue ⟨0, [0x84, 1, 0xc0, 0xc0, 0xa1, 0x61, 0xc3, 0xc0]⟩ := by
  have hd : ((deserializeEvent zeroedFrame 0 zeroedHistory zeroedQueue
      ⟨0, [0x84, 1, 0xc0, 0xc0, 0xa1, 0x61, 0xc3, 0xc0]⟩ 8).map fun r => (r.1, r.2.2.contents.length)) =
        some (0, 1) := by decide
  refine ⟨hd, ?_⟩
  rintro ⟨rc, history', q', h, -, hrejected⟩
  have hdis : ¬ Disciplined (zeroedFrame.start ⟨0, [0x84, 1, 0xc0, 0xc0, 0xa1, 0x61, 0xc3, 0xc0]⟩) := by
    rintro ⟨⟨n, hn⟩, -⟩
    have hmap : some (Item.map 4) = some (.array n) := hn
    cases hmap
  obtain ⟨hrc, -⟩ := hrejected hdis
  simp only [List.length_cons, List.length_nil] at h
  rw [h, hrc] at hd
  cases hd

end OpenTwins
