import OpenTwins.Reports

namespace OpenTwins

open MessagePack FixedArray

def SaysDeleted (bytes : List UInt8) (id : UInt32) : Prop := itemsOf bytes = (Reply.deleted id.toNat).items

def SaysError (bytes : List UInt8) : Prop := ∃ msg, itemsOf bytes = (Reply.error msg).items

def ReportsStatus (bytes : List UInt8) (id : UInt32) (status : ℕ) : Prop :=
  ∃ vars, itemsOf bytes = TwinReport.items ⟨id.toNat, status, vars⟩

theorem ReportsStatus.unique {bytes : List UInt8} {id : UInt32} {s s' : ℕ} (h : ReportsStatus bytes id s)
    (h' : ReportsStatus bytes id s') : s = s' := by
  obtain ⟨vars, h⟩ := h
  obtain ⟨vars', h'⟩ := h'
  have heq := h.symm.trans h'
  simp only [TwinReport.items, List.cons_append, List.cons.injEq, Item.int.injEq] at heq
  exact_mod_cast heq.2.2.2.2.1

theorem ReportsStatus.not_error {bytes : List UInt8} {id : UInt32} {s : ℕ} (h : ReportsStatus bytes id s) :
    ¬ SaysError bytes := by
  rintro ⟨msg, hmsg⟩
  obtain ⟨vars, h⟩ := h
  have heq := h.symm.trans hmsg
  simp only [TwinReport.items, Reply.items, List.cons_append, List.cons.injEq, Item.map.injEq] at heq
  exact absurd heq.1 (by decide)

theorem SaysDeleted.not_error {bytes : List UInt8} {id : UInt32} (h : SaysDeleted bytes id) : ¬ SaysError bytes := by
  rintro ⟨msg, hmsg⟩
  have heq := Eq.trans (Eq.symm h) hmsg
  simp only [Reply.items, List.cons.injEq, Item.str.injEq] at heq
  exact absurd heq.2.2.1 (by decide)

section replies

variable (type : ItemType) (item : ItemAs) {req : Pointer} {id : UInt32} (m : TwinsMemory)

theorem delete_reply (h : TwinRequest opDelete id req) :
    ∃ bytes, handleRequest type item req req.bytes.length m = some (bytes, disconnect id.toNat m) ∧
      SaysDeleted bytes id := by
  obtain ⟨bytes, he, ha⟩ := packDeleted_emits id
  refine ⟨bytes, ?_, ?_⟩
  · rw [h.execute type item (.inr rfl), execute, if_neg (by decide), if_neg (by decide), if_pos rfl,
      twinsMemorySetStatus_eq, Option.map_some, ← (ha.init le_rfl).2.1]
    rfl
  · rw [UInt32.toNat_toUInt64] at he
    exact itemsOf_complete he

theorem get_reply (h : TwinRequest opGet id req) {status : ℤ} {vars : FixedArray UInt32 maxVarsPerTwins}
    (hr : Faithful m id status vars) :
    ∃ bytes, handleRequest type item req req.bytes.length m = some (bytes, m) ∧
      ReportsStatus bytes id (UInt64.ofInt status).toNat := by
  obtain ⟨g, hg, bytes, he, ha⟩ := packTwin_report hr
  refine ⟨bytes, ?_, vars, ?_⟩
  · rw [h.execute type item (.inl rfl), execute, if_neg (by decide), if_pos rfl, hg, Option.map_some,
      (ha.init (by decide)).2.1]
  · rw [UInt32.toNat_toUInt64] at he
    exact itemsOf_complete he

end replies

def statusAfterDelete (id : UInt32) : ℕ := if id.toNat < maxTwins then 2 else 2 ^ 64 - 1

theorem status_disconnect (id : UInt32) (m : TwinsMemory) :
    ∃ status, twinsMemoryGetStatus id (disconnect id.toNat m) = some status ∧
      (UInt64.ofInt status).toNat = statusAfterDelete id := by
  unfold statusAfterDelete
  by_cases hid : id.toNat < maxTwins
  · refine ⟨_, twinsMemoryGetStatus_eq _ hid, ?_⟩
    rw [disconnect, if_pos rfl, if_pos hid]
    rfl
  · rw [if_neg hid]
    exact ⟨-1, if_pos (not_lt.mp hid), rfl⟩

theorem delete_get_replies (type : ItemType) (item : ItemAs) {del get : Pointer} {id : UInt32}
    (hdel : TwinRequest opDelete id del) (hget : TwinRequest opGet id get) (m : TwinsMemory) :
    ∃ deleted report m', handleRequest type item del del.bytes.length m = some (deleted, m') ∧
      handleRequest type item get get.bytes.length m' = some (report, m') ∧
      SaysDeleted deleted id ∧ ReportsStatus report id (statusAfterDelete id) := by
  obtain ⟨deleted, hd, hsays⟩ := delete_reply type item m hdel
  obtain ⟨status, vars, hr⟩ := exists_faithful (disconnect id.toNat m) id
  obtain ⟨status', hs, hnumber⟩ := status_disconnect id m
  obtain rfl : status = status' := by
    have := hr.status
    rw [hs, Option.some.injEq] at this
    exact this.symm
  obtain ⟨report, hg, hreport⟩ := get_reply type item _ hget hr
  exact ⟨deleted, report, _, hd, hg, hsays, hnumber ▸ hreport⟩

theorem replies_truthful_iff (type : ItemType) (item : ItemAs) {del get : Pointer} {id : UInt32}
    (hdel : TwinRequest opDelete id del) (hget : TwinRequest opGet id get) (m : TwinsMemory) :
    ∃ deleted report m', handleRequest type item del del.bytes.length m = some (deleted, m') ∧
      handleRequest type item get get.bytes.length m' = some (report, m') ∧
      (((SaysDeleted deleted id ↔ ReportsStatus report id 2) ∧
        (maxTwins ≤ id.toNat → SaysError deleted ∧ SaysError report)) ↔ id.toNat < maxTwins) := by
  obtain ⟨deleted, report, m', hd, hg, hsays, hreport⟩ := delete_get_replies type item hdel hget m
  refine ⟨deleted, report, m', hd, hg, ?_⟩
  constructor
  · rintro ⟨-, herror⟩
    by_contra hid
    exact hsays.not_error (herror (not_lt.mp hid)).1
  · intro hid
    rw [statusAfterDelete, if_pos hid] at hreport
    exact ⟨iff_of_true hsays hreport, fun h => absurd hid (not_lt.mpr h)⟩

theorem twinRequest_small {op : UInt8} (hop : op = opGet ∨ op = opDelete) (id : UInt8) (hid : id.toNat < 128)
    (address : UInt64) : TwinRequest op id.toUInt32 ⟨address, [0x92, op, id]⟩ := by
  refine ⟨2, [], itemsOf_complete (.cons (e := [0x92]) rfl (.cons (e := [op]) ?_ (.cons (e := [id]) ?_ .nil))), by decide⟩
  · rcases hop with rfl | rfl <;> rfl
  · have h : Encodes (.int id.toNat) [UInt8.ofNat id.toNat] := encodes_single (by omega) (if_pos hid)
    rwa [UInt8.ofNat_toNat] at h

theorem replies_truthful_iff_three : ∃ deleted report m',
    handleRequest .nil ⟨0, 0, []⟩ ⟨0, [0x92, 2, 3]⟩ 3 connectedStore = some (deleted, m') ∧
    handleRequest .nil ⟨0, 0, []⟩ ⟨0, [0x92, 1, 3]⟩ 3 m' = some (report, m') ∧
    (SaysDeleted deleted 3 ↔ ReportsStatus report 3 2) := by
  obtain ⟨deleted, report, m', hd, hg, h⟩ := replies_truthful_iff .nil ⟨0, 0, []⟩
    (twinRequest_small (.inr rfl) 3 (by decide) 0) (twinRequest_small (.inl rfl) 3 (by decide) 0) connectedStore
  exact ⟨deleted, report, m', hd, hg, (h.mpr (by decide)).1⟩

theorem unknown_twin_deleted : ∃ deleted report m',
    handleRequest .nil ⟨0, 0, []⟩ ⟨0, [0x92, 2, 10]⟩ 3 connectedStore = some (deleted, m') ∧
    handleRequest .nil ⟨0, 0, []⟩ ⟨0, [0x92, 1, 10]⟩ 3 m' = some (report, m') ∧
    SaysDeleted deleted 10 ∧ ReportsStatus report 10 18446744073709551615 ∧ ¬ ReportsStatus report 10 2 ∧
    ¬ SaysError deleted ∧ ¬ SaysError report := by
  obtain ⟨deleted, report, m', hd, hg, hsays, hreport⟩ := delete_get_replies .nil ⟨0, 0, []⟩
    (twinRequest_small (.inr rfl) 10 (by decide) 0) (twinRequest_small (.inl rfl) 10 (by decide) 0) connectedStore
  refine ⟨deleted, report, m', hd, hg, hsays, hreport, ?_, hsays.not_error, hreport.not_error⟩
  intro h
  exact absurd (hreport.unique h) (by decide)

end OpenTwins
