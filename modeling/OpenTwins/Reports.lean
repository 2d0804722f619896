import OpenTwins.Messages
import OpenTwins.Replies

namespace OpenTwins

open MessagePack FixedArray

section requests

variable {n : UInt32} {more : List Item}

theorem handleRequest_array (type : ItemType) (item : ItemAs) {req : Pointer}
    (h : itemsOf req.bytes = .array n :: more) (hn : n ≠ 0) :
    ∃ u, Feeds u more ∧ ∀ m, handleRequest type item req req.bytes.length m = handleElements n u m := by
  have hf := feeds_init type item req
  rw [h] at hf
  obtain ⟨u, hu, fu, hok, htype, hword⟩ := hf.next
  refine ⟨u, fu, ?_⟩
  intro m
  obtain ⟨b, hload⟩ := exists_load (p := req) fun hb => by
    rw [hb] at h
    cases h
  have hsize : u.as.word.toUInt32 = n := by
    rw [hword]
    exact withLow32_low _ _
  simp only [handleRequest, hu, Option.bind_some, hload, hsize]
  rw [if_neg (not_not.mpr hok), if_neg]
  rw [htype, not_or]
  exact ⟨not_not.mpr rfl, hn⟩

theorem handleElements_all {u : UnpackContext} (hf : Feeds u (.int 0 :: more)) (m : TwinsMemory) :
    handleElements n u m = execute opGetAll 0 m := by
  obtain ⟨v, hv, -, hw⟩ := hf.next_int
  have hop : v.as.word.toUInt8 = opGetAll := by
    rw [hw]
    rfl
  rw [handleElements, hv, Option.bind_some, hop]
  exact if_neg (by decide)

theorem handleElements_target {op : UInt8} (hop : op = opGet ∨ op = opDelete) {t : UInt32} {u : UnpackContext}
    (hf : Feeds u (.int op.toNat :: .int t.toNat :: more)) (hn : 2 ≤ n.toNat) (m : TwinsMemory) :
    handleElements n u m = execute op t m := by
  obtain ⟨v, hv, fv, hw⟩ := hf.next_int
  obtain ⟨w, hw', -, ht⟩ := fv.next_int
  have hopcode : v.as.word.toUInt8 = op := by
    rw [hw]
    rcases hop with rfl | rfl <;> rfl
  have htarget : w.as.word.toUInt32 = t := by rw [ht, ofInt_toUInt32, UInt32.ofNat_toNat]
  have hsize : ¬ n < 2 := by
    rw [UInt32.lt_iff_toNat_lt]
    exact not_lt.mpr hn
  rw [handleElements, hv, Option.bind_some, hopcode]
  simp only [if_pos hop, if_neg hsize, hw', Option.bind_some, htarget]

def GetAllRequest (req : Pointer) : Prop :=
  ∃ n more, itemsOf req.bytes = .array n :: .int 0 :: more ∧ n ≠ 0

def TwinRequest (op : UInt8) (t : UInt32) (req : Pointer) : Prop :=
  ∃ n more, itemsOf req.bytes = .array n :: .int op.toNat :: .int t.toNat :: more ∧ 2 ≤ n.toNat

variable (type : ItemType) (item : ItemAs) {req : Pointer}

theorem GetAllRequest.execute (h : GetAllRequest req) (m : TwinsMemory) :
    handleRequest type item req req.bytes.length m = OpenTwins.execute opGetAll 0 m := by
  obtain ⟨n, more, h, hn⟩ := h
  obtain ⟨u, hf, he⟩ := handleRequest_array type item h hn
  rw [he]
  exact handleElements_all hf m

theorem TwinRequest.execute {op : UInt8} {t : UInt32} (hop : op = opGet ∨ op = opDelete)
    (h : TwinRequest op t req) (m : TwinsMemory) :
    handleRequest type item req req.bytes.length m = OpenTwins.execute op t m := by
  obtain ⟨n, more, h, hn⟩ := h
  have hn0 : n ≠ 0 := by
    rintro rfl
    exact absurd hn (by decide)
  obtain ⟨u, hf, he⟩ := handleRequest_array type item h hn0
  rw [he]
  exact handleElements_target hop hf hn m

end requests

structure ReportBytes (m : TwinsMemory) (t : UInt32) (bytes : List UInt8) : Prop where
  complete : Complete 1 bytes
  faithful : ∃ (status : ℕ) (vars : FixedArray UInt32 maxVarsPerTwins), Faithful m t status vars ∧
    itemsOf bytes = TwinReport.items ⟨t.toNat, status, vars⟩

theorem faithful_status {m : TwinsMemory} {t : UInt32} {status : ℤ} {vars : FixedArray UInt32 maxVarsPerTwins}
    (h : Faithful m t status vars) (ht : t.toNat < maxTwins)
    (hm : (m ⟨t.toNat, ht⟩).status.toNat < 2 ^ 31) : status = (m ⟨t.toNat, ht⟩).status.toNat := by
  have hs := h.status
  rw [twinsMemoryGetStatus_eq m ht, Option.some.injEq] at hs
  rw [← hs, BitVec.toInt_eq_toNat_of_lt]
  · rfl
  · change 2 * (m ⟨t.toNat, ht⟩).status.toNat < 2 ^ 32
    omega

theorem packTwin_bytes {m : TwinsMemory} {t : UInt32} (ht : t.toNat < maxTwins)
    (hm : (m ⟨t.toNat, ht⟩).status.toNat < 2 ^ 31) :
    ∃ bytes g, (∀ pc, packTwin m t pc = some (g pc)) ∧ Appends g bytes 155 ∧ ReportBytes m t bytes := by
  obtain ⟨status, vars, h⟩ := exists_faithful m t
  obtain rfl := faithful_status h ht hm
  obtain ⟨g, hg, bytes, he, ha⟩ := packTwin_report h
  have hnumber : (UInt64.ofInt (m ⟨t.toNat, ht⟩).status.toNat).toNat = (m ⟨t.toNat, ht⟩).status.toNat := by
    rw [ofInt_natCast, UInt64.toNat_ofNat_of_lt' (by simp only [UInt64.size]; omega)]
  rw [hnumber, UInt32.toNat_toUInt64] at he
  exact ⟨bytes, g, hg, ha, he.complete (TwinReport.closed _), _, vars, h, itemsOf_complete he⟩

theorem getAll_concatenates_get {m : TwinsMemory} (hm : ∀ t, (m t).status.toNat < 2 ^ 31) :
    ∃ (header : List UInt8) (elements : FixedArray (List UInt8) maxTwins),
      Encodes (.array (UInt32.ofNat maxTwins)) header ∧
      (∀ (type : ItemType) (item : ItemAs) (req : Pointer), GetAllRequest req →
        handleRequest type item req req.bytes.length m =
          some (header ++ (elements.prefixList maxTwins).flatten, m)) ∧
      ∀ t : Fin maxTwins, ReportBytes m (UInt32.ofNat t) (elements t) ∧
        ∀ (type : ItemType) (item : ItemAs) (req : Pointer), TwinRequest opGet (UInt32.ofNat t) req →
          handleRequest type item req req.bytes.length m = some (elements t, m) := by
  have hid (t : Fin maxTwins) : (UInt32.ofNat t).toNat = t :=
    toNat_ofNat_of_lt (k := 1) (by decide) (lt_trans t.isLt (by decide))
  have hlt (t : Fin maxTwins) : (UInt32.ofNat t).toNat < maxTwins := (hid t).symm ▸ t.isLt
  choose elements g hg ha hr using fun t : Fin maxTwins => packTwin_bytes (hlt t) (hm _)
  obtain ⟨header, hheader, hah⟩ := cwPackArraySize_emits (UInt32.ofNat maxTwins)
  obtain ⟨gall, hgall, hall⟩ := forLoop_appends 155 elements
    (f := fun t pc => packTwin m (UInt32.ofNat t) pc) (fun t ht => ⟨g ⟨t, ht⟩, hg ⟨t, ht⟩, ha ⟨t, ht⟩⟩) le_rfl
  refine ⟨header, elements, ?_, ?_, ?_⟩
  · cases hheader with
    | cons he hnil =>
      cases hnil
      rwa [List.append_nil]
  · intro type item req h
    rw [h.execute, execute, if_pos rfl, hgall, Option.map_some, ((hah.comp hall).init (by decide)).2.1]
  · intro t
    refine ⟨hr t, ?_⟩
    intro type item req h
    rw [h.execute type item (.inl rfl), execute, if_neg (by decide), if_pos rfl, hg, Option.map_some,
      ((ha t).init (by decide)).2.1]

theorem getAll_concatenates_get_connected : ∃ header elements,
    handleRequest .nil ⟨0, 0, []⟩ ⟨0, [0x91, 0]⟩ 2 connectedStore =
      some (header ++ (FixedArray.prefixList (n := maxTwins) elements maxTwins).flatten, connectedStore) ∧
    ReportBytes connectedStore 3 (elements 3) := by
  obtain ⟨header, elements, -, hall, hget⟩ := getAll_concatenates_get (m := connectedStore) fun t => by
    change (0 : UInt32).toNat < 2 ^ 31
    decide
  refine ⟨header, elements, hall _ _ _ ⟨1, [], ?_, by decide⟩, (hget 3).1⟩
  exact itemsOf_complete (.cons (e := [0x91]) rfl (.cons (e := [0]) rfl .nil))

end OpenTwins
