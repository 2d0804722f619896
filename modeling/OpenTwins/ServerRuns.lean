import OpenTwins.EventDispatcher
import OpenTwins.ParserBounds
import OpenTwins.Positions
import OpenTwins.Runs
import OpenTwins.TruthfulReplies
import OpenTwins.TwinService

namespace OpenTwins

open MessagePack FixedArray

def Represents (m : TwinsMemory) (s : TwinService) : Prop :=
  ∀ t, (m t).vars = (s t).vars ∧ (m t).status = if (s t).connected then statusOk else statusDisconnected

section represents

variable {m : TwinsMemory} {s : TwinService}

theorem start_represents : Represents (fun _ => initialTwin) .start := fun _ => ⟨rfl, rfl⟩

theorem Represents.report (h : Represents m s) (id : UInt32) : ∃ status vars, Faithful m id status vars ∧
    s.report id = ⟨id.toUInt64.toNat, (UInt64.ofInt status).toNat, vars⟩ := by
  have hvar (i : Fin maxVarsPerTwins) : (UInt8.ofNat i).toNat = i.val :=
    UInt8.toNat_ofNat_of_lt' (i.isLt.trans (by decide))
  by_cases hid : id.toNat < maxTwins
  · obtain ⟨hvars, hstatus⟩ := h ⟨id.toNat, hid⟩
    refine ⟨_, (s ⟨id.toNat, hid⟩).vars, ⟨twinsMemoryGetStatus_eq m hid, ?_⟩, ?_⟩
    · intro i
      rw [twinsMemoryGetVar_eq m hid (by rw [hvar]; exact i.isLt), hvars]
      simp only [hvar]
    · rw [TwinService.report, dif_pos hid, hstatus, UInt32.toNat_toUInt64]
      cases (s ⟨id.toNat, hid⟩).connected <;> rfl
  · refine ⟨-1, fun _ => floatMinusOne, ⟨if_pos (not_lt.mp hid), ?_⟩, ?_⟩
    · intro i
      exact if_pos (.inl (not_lt.mp hid))
    · rw [TwinService.report, dif_neg hid, UInt32.toNat_toUInt64]
      rfl

theorem Represents.packTwin (h : Represents m s) (id : UInt32) :
    ∃ g : PackContext → PackContext, (∀ pc, OpenTwins.packTwin m id pc = some (g pc)) ∧
      Emits g (s.report id).items 155 := by
  obtain ⟨status, vars, hf, hr⟩ := h.report id
  rw [hr]
  exact packTwin_report hf

theorem Represents.packAll (h : Represents m s) : ∃ g : PackContext → PackContext,
    (∀ pc, forLoop (fun t pc => OpenTwins.packTwin m (UInt32.ofNat t) pc) maxTwins
      (cwPackArraySize (UInt32.ofNat maxTwins) pc) = some (g pc)) ∧ Emits g (s.answer .getAll).items resBufSize := by
  choose g hg hge using fun t : Fin maxTwins => h.packTwin (UInt32.ofNat t)
  obtain ⟨g', hg', hge'⟩ := forLoop_emits TwinReport.items 155
    (f := fun t pc => OpenTwins.packTwin m (UInt32.ofNat t) pc) (fun t => s.report (UInt32.ofNat t))
    (fun t ht => ⟨g ⟨t, ht⟩, hg ⟨t, ht⟩, hge ⟨t, ht⟩⟩) le_rfl
  exact ⟨_, fun pc => hg' _, ((cwPackArraySize_emits _).comp hge').mono (by decide)⟩

theorem Represents.disconnect (h : Represents m s) (id : UInt32) :
    Represents (OpenTwins.disconnect id.toNat m) (s.apply (.delete id)) := by
  intro t
  by_cases ht : t.val = id.toNat
  · simp only [OpenTwins.disconnect, TwinService.apply, if_pos ht]
    exact ⟨(h t).1, rfl⟩
  · simp only [OpenTwins.disconnect, TwinService.apply, if_neg ht]
    exact h t

end represents

def Query.handle (q : Query) (m : TwinsMemory) (sent : List PackContext) :
    Option (List PackContext × TwinsMemory) :=
  match q with
  | .refused refusal => some (sendErrorTo refusal.message sent, m)
  | .getAll => switchOpcode opGetAll 0 m sent
  | .get id => switchOpcode opGet id m sent
  | .delete id => switchOpcode opDelete id m sent

theorem Refusal.message_length (refusal : Refusal) : (text refusal.message).length ≤ 64 := by
  cases refusal <;> decide

structure AnswersWith (reply : Reply) (pc : PackContext) : Prop where
  ok : pc.returnCode = .ok
  encoded : EncodesAll reply.items pc.written

theorem Emits.answersWith {g : PackContext → PackContext} {reply : Reply} {n : ℕ} (h : Emits g reply.items n) :
    AnswersWith reply (g (cwPackContextInit n)) := by
  obtain ⟨bs, he, ha⟩ := h
  obtain ⟨hok, hw, -⟩ := ha.init le_rfl
  exact ⟨hok, by rwa [hw]⟩

theorem Represents.handle {m : TwinsMemory} {s : TwinService} (h : Represents m s) (q : Query)
    (sent : List PackContext) : ∃ pc m', q.handle m sent = some (sent ++ [pc], m') ∧
      AnswersWith (s.answer q) pc ∧ Represents m' (s.apply q) := by
  cases q with
  | refused refusal => exact ⟨_, m, rfl, (packError_emits refusal.message_length).answersWith, h⟩
  | getAll =>
    obtain ⟨g, hg, hge⟩ := h.packAll
    refine ⟨_, m, ?_, hge.answersWith, h⟩
    rw [Query.handle, switchOpcode, if_pos rfl, hg]
    rfl
  | get id =>
    obtain ⟨g, hg, hge⟩ := h.packTwin id
    have htwin : Emits g (s.answer (.get id)).items resBufSize := hge.mono (by decide)
    refine ⟨_, m, ?_, htwin.answersWith, h⟩
    rw [Query.handle, switchOpcode, if_neg (by decide), if_pos rfl, hg]
    rfl
  | delete id =>
    have hdeleted : Emits (packDeleted id) (s.answer (.delete id)).items resBufSize := by
      have he := packDeleted_emits id
      rwa [UInt32.toNat_toUInt64] at he
    refine ⟨_, _, ?_, hdeleted.answersWith, h.disconnect id⟩
    rw [Query.handle, switchOpcode, if_neg (by decide), if_neg (by decide), if_pos rfl, twinsMemorySetStatus_eq]
    rfl

theorem switchOpcode_unknown {opcode : UInt8} (h0 : opcode ≠ opGetAll) (h1 : opcode ≠ opGet) (h2 : opcode ≠ opDelete)
    (targetId : UInt32) (m : TwinsMemory) (sent : List PackContext) :
    switchOpcode opcode targetId m sent = (Query.refused .unknownOpcode).handle m sent := by
  rw [switchOpcode, if_neg h0, if_neg h1, if_neg h2]
  rfl

theorem queryFor_handle (n : UInt32) (opcode : UInt8) (id : UInt32) (m : TwinsMemory) (sent : List PackContext) :
    (if opcode = opGet ∨ opcode = opDelete then
      if n < 2 then some (sendErrorTo "Not enough arguments for this opcode" sent, m)
      else switchOpcode opcode id m sent
    else switchOpcode opcode 0 m sent) = (queryFor n opcode id).handle m sent := by
  unfold queryFor
  by_cases h : opcode = opGet ∨ opcode = opDelete
  · have h0 : opcode ≠ opGetAll := by
      rcases h with rfl | rfl <;> decide
    rw [if_pos h, if_neg h0, if_pos h]
    by_cases hn : n < 2
    · rw [if_pos hn, if_pos hn]
      rfl
    rw [if_neg hn, if_neg hn]
    rcases h with rfl | rfl <;> rfl
  · obtain ⟨h1, h2⟩ := not_or.mp h
    rw [if_neg h]
    by_cases h0 : opcode = opGetAll
    · rw [if_pos h0, h0]
      rfl
    · rw [if_neg h0, if_neg h, switchOpcode_unknown h0 h1 h2]

theorem low_opcode (w : UInt64) : w.toUInt8 = w.toUInt32.toUInt8 := by
  apply UInt8.toNat_inj.mp
  simp only [UInt64.toNat_toUInt8, UInt32.toNat_toUInt8, UInt64.toNat_toUInt32]
  omega

theorem apiServerRound_query (type : ItemType) (item : ItemAs) (req : Pointer) (m : TwinsMemory)
    (sent : List PackContext) :
    apiServerRound type item req req.bytes.length m sent = (queryOf req).handle m sent := by
  obtain ⟨u, hu, su⟩ := (stands_init type item req).next
  simp only [apiServerRound, hu, Option.bind_some]
  cases hd : decode req.bytes with
  | none =>
    obtain ⟨u', hu', hf⟩ := cwUnpackNext_failed (u := cwUnpackContextInit type item req req.bytes.length) rfl rfl hd
    obtain rfl : u = u' := Option.some.inj (hu.symm.trans hu')
    rw [if_pos hf.code, queryOf, hd]
    rfl
  | some q =>
    obtain ⟨it, r⟩ := q
    obtain ⟨u', hu', ht⟩ := cwUnpackNext_took (u := cwUnpackContextInit type item req req.bytes.length) rfl le_rfl hd
    obtain rfl : u = u' := Option.some.inj (hu.symm.trans hu')
    obtain ⟨b, hload⟩ := exists_load (p := req) fun hb => by
      rw [hb] at hd
      cases hd
    rw [if_neg (not_not.mpr ht.ok), hload, Option.bind_some]
    by_cases harr : u.type = .array
    · obtain ⟨n, rfl⟩ := itemType_array (ht.type.symm.trans harr)
      simp only [readLow, hd, lowAfter] at su
      rw [su.word, queryOf, hd]
      by_cases h0 : n = 0
      · rw [if_pos (.inr h0)]
        simp only [if_pos h0]
        rfl
      obtain ⟨v, hv, sv⟩ := su.next
      obtain ⟨w, hw, sw⟩ := sv.next
      rw [if_neg (not_or.mpr ⟨not_not.mpr harr, h0⟩), hv, Option.bind_some, low_opcode, sv.word, hw,
        Option.bind_some, sw.word]
      simp only [if_neg h0]
      exact queryFor_handle ..
    · rw [if_pos (.inl harr), queryOf, hd]
      cases it with
      | array n => exact absurd ht.type harr
      | _ => rfl

section queries

variable {req : Pointer} {n : UInt32} {op : ℤ} {more : List Item}

theorem queryOf_ints (h : itemsOf req.bytes = .array n :: .int op :: more) (hn : n ≠ 0) :
    ∃ id, queryOf req = queryFor n (UInt64.ofInt op).toUInt32.toUInt8 id ∧
      ∀ t rest, more = .int t :: rest → id = (UInt64.ofInt t).toUInt32 := by
  obtain ⟨r, hd⟩ := decode_of_items (show (itemsOf req.bytes)[0]? = some (.array n) by rw [h]; rfl)
  let s : Position := (n, req.advance (req.bytes.length - r.length))
  have hitems : itemsOf s.2.bytes = .int op :: more := by
    obtain ⟨e, he, -⟩ := decode_split hd
    rw [show s.2.bytes = r from advance_rest he]
    rw [itemsOf_cons hd, List.cons.injEq] at h
    exact h.2
  have hop : (s.after 1).1 = (UInt64.ofInt op).toUInt32 :=
    Position.low_int (show (itemsOf s.2.bytes)[0]? = some (.int op) by rw [hitems]; rfl)
  refine ⟨(s.after 2).1, ?_, ?_⟩
  · rw [← hop, queryOf, hd]
    simp only [if_neg hn]
    rfl
  · rintro t rest rfl
    exact Position.low_int (show (itemsOf s.2.bytes)[1]? = some (.int t) by rw [hitems]; rfl)

theorem GetAllRequest.query (h : GetAllRequest req) : queryOf req = .getAll := by
  obtain ⟨n, more, h, hn⟩ := h
  obtain ⟨id, hq, -⟩ := queryOf_ints h hn
  rw [hq]
  rfl

theorem TwinRequest.query {op : UInt8} (hop : op = opGet ∨ op = opDelete) {id : UInt32} (h : TwinRequest op id req) :
    queryOf req = if op = opGet then .get id else .delete id := by
  obtain ⟨n, more, h, hn⟩ := h
  have hn0 : n ≠ 0 := by
    rintro rfl
    exact absurd hn (by decide)
  have hn2 : ¬ n < 2 := by
    rw [UInt32.lt_iff_toNat_lt]
    exact not_lt.mpr hn
  obtain ⟨t, hq, ht⟩ := queryOf_ints h hn0
  obtain rfl : t = id := by
    rw [ht _ _ rfl, ofInt_toUInt32, UInt32.ofNat_toNat]
  rw [hq, queryFor]
  rcases hop with rfl | rfl
  · rw [if_neg (by decide), if_pos (by decide), if_neg hn2]
    rfl
  · rw [if_neg (by decide), if_pos (by decide), if_neg hn2]
    rfl

end queries

namespace TwinService

theorem set_vars (id : UInt32) (s : TwinService) (p : PropertyUpdate) (t : Fin maxTwins) (v : Fin maxVarsPerTwins) :
    (set id s p t).vars v =
      if t.val = id.toNat ∧ v.val = p.varId.toUInt8.toNat then p.value else (s t).vars v := by
  unfold set
  by_cases h : t.val = id.toNat ∧ p.varId.toUInt8.toNat < maxVarsPerTwins
  · rw [dif_pos h]
    by_cases hv : v.val = p.varId.toUInt8.toNat
    · obtain rfl : v = ⟨p.varId.toUInt8.toNat, h.2⟩ := Fin.ext hv
      rw [if_pos ⟨h.1, rfl⟩]
      exact Function.update_self ..
    · rw [if_neg fun hc => hv hc.2]
      exact Function.update_of_ne (fun he => hv (congrArg Fin.val he)) ..
  · rw [dif_neg h, if_neg]
    rintro ⟨ht, hv⟩
    exact h ⟨ht, hv ▸ v.isLt⟩

theorem set_connected (id : UInt32) (s : TwinService) (p : PropertyUpdate) (t : Fin maxTwins) :
    (set id s p t).connected = true ↔
      (s t).connected = true ∨ t.val = id.toNat ∧ p.varId.toUInt8.toNat < maxVarsPerTwins := by
  unfold set
  split_ifs with h
  · exact iff_of_true rfl (.inr h)
  · rw [or_iff_left h]

theorem hear_vars (id : UInt32) (ps : List PropertyUpdate) (s : TwinService) (t : Fin maxTwins)
    (v : Fin maxVarsPerTwins) : (s.hear id ps t).vars v = ps.foldl (fun x p =>
      if t.val = id.toNat ∧ v.val = p.varId.toUInt8.toNat then p.value else x) ((s t).vars v) := by
  induction ps generalizing s with
  | nil => rfl
  | cons p ps ih => rw [hear, List.foldl_cons, ← hear, ih, set_vars, List.foldl_cons]

theorem hear_connected (id : UInt32) (ps : List PropertyUpdate) (s : TwinService) (t : Fin maxTwins) :
    (s.hear id ps t).connected = true ↔
      (s t).connected = true ∨ t.val = id.toNat ∧ ∃ p ∈ ps, p.varId.toUInt8.toNat < maxVarsPerTwins := by
  induction ps generalizing s with
  | nil => simp [hear]
  | cons p ps ih =>
    rw [hear, List.foldl_cons, ← hear, ih, set_connected, List.exists_mem_cons_iff, and_or_left, or_assoc]

end TwinService

theorem Represents.hear {m m' : TwinsMemory} {s : TwinService} (h : Represents m s) {clock : ℕ → UInt64}
    {id : UInt32} {ps : List PropertyUpdate} (hs : Stored clock id ps m m') : Represents m' (s.hear id ps) := by
  intro t
  obtain ⟨hvars, hstatus, -⟩ := hs t
  constructor
  · funext v
    rw [hvars, TwinService.hear_vars, (h t).1]
  · rw [hstatus, (h t).2]
    have hc := TwinService.hear_connected id ps s t
    by_cases hin : t.val = id.toNat ∧ ∃ p ∈ ps, p.varId.toUInt8.toNat < maxVarsPerTwins
    · rw [if_pos hin, if_pos (hc.mpr (.inr hin))]
    · rw [if_neg hin]
      exact if_congr (by rw [hc, or_iff_left hin]) rfl rfl

structure ApiServer where
  dispatcher : Dispatcher
  sent : List PackContext

/-- `nothing` is a receive that gives -1. -/
inductive ServerAct
  | request (type : ItemType) (item : ItemAs) (address : UInt64) (message : List UInt8)
  | nothing
  | dispatch (rules : Rules) (clock : ℕ → UInt64) (event : Event)

def ApiServer.step : ServerAct → ApiServer → Option ApiServer
  | .request type item address message, c =>
    (serveRequest type item address message c.dispatcher.memory c.sent).map fun r =>
      { dispatcher := { c.dispatcher with memory := r.2 }, sent := r.1 }
  | .nothing, c => some c
  | .dispatch rules clock event, c =>
    (dispatchEvent rules clock event c.dispatcher).map fun dispatcher => { c with dispatcher }

structure Session where
  twins : TwinService
  replies : List Reply

def Session.step (s : Session) : ServerAct → Session
  | .request _ _ address message =>
    ⟨s.twins.apply (queryOf ⟨address, message⟩), s.replies ++ [s.twins.answer (queryOf ⟨address, message⟩)]⟩
  | .dispatch _ _ ⟨header, .update u⟩ => { s with twins := s.twins.hear header.twinId u.entries }
  | _ => s

def session (acts : List ServerAct) : Session := acts.foldl Session.step ⟨.start, []⟩

def ServerAct.Valid : ServerAct → Prop
  | .request _ _ _ message => message.length ≤ requestBufferSize
  | .nothing => True
  | .dispatch _ _ event => WellFormed event

structure Implements (c : ApiServer) (s : Session) : Prop where
  store : Represents c.dispatcher.memory s.twins
  replies : List.Forall₂ AnswersWith s.replies c.sent

theorem step_implements {a : ServerAct} (ha : a.Valid) {c : ApiServer} {s : Session} (h : Implements c s) :
    ∃ c', ApiServer.step a c = some c' ∧ Implements c' (s.step a) := by
  cases a with
  | request type item address message =>
    have hround : serveRequest type item address message c.dispatcher.memory c.sent =
        apiServerRound type item ⟨address, message⟩ message.length c.dispatcher.memory c.sent := by
      simp only [serveRequest, zmqRecv, List.take_of_length_le ha]
    obtain ⟨pc, m', hq, ha, hm⟩ := h.store.handle (queryOf ⟨address, message⟩) c.sent
    refine ⟨⟨{ c.dispatcher with memory := m' }, c.sent ++ [pc]⟩, ?_, hm, ?_⟩
    · rw [ApiServer.step, hround, apiServerRound_query type item ⟨address, message⟩, hq]
      rfl
    · exact List.rel_append h.replies (.cons ha .nil)
  | nothing => exact ⟨c, rfl, h⟩
  | dispatch rules clock event =>
    cases ha with
    | @update header u type pos le =>
      obtain ⟨d, hd, hs, -⟩ := handleEventUpdate_spec rules clock header le c.dispatcher
      refine ⟨{ c with dispatcher := d }, ?_, h.store.hear hs, h.replies⟩
      rw [ApiServer.step, dispatchEvent_update rules clock type, hd]
      rfl
    | @error header e type nul =>
      refine ⟨c, ?_, h⟩
      rw [ApiServer.step, dispatchEvent_error rules clock type]
      rfl

theorem run_implements {acts : List ServerAct} (ha : ∀ a ∈ acts, a.Valid) {c : ApiServer} {s : Session}
    (h : Implements c s) : ∃ c', Runs.run ApiServer.step acts c = some c' ∧ Implements c' (acts.foldl Session.step s) := by
  induction acts generalizing c s with
  | nil => exact ⟨c, rfl, h⟩
  | cons a acts ih =>
    obtain ⟨hfirst, hrest⟩ := List.forall_mem_cons.mp ha
    obtain ⟨c1, h1, hi⟩ := step_implements hfirst h
    obtain ⟨c2, h2, hi⟩ := ih hrest hi
    refine ⟨c2, ?_, hi⟩
    rw [Runs.run, h1, Option.bind_some, h2]

/-- Whatever is requested and however updates come in between, the server sends for each request the
answer of the service, in order, and the store stays the service's. -/
theorem server_refines {acts : List ServerAct} (ha : ∀ a ∈ acts, a.Valid) (memory : TwinsMemory)
    (notifyQueue userActionsQueue : EventQueue) :
    ∃ m₀ c, twinsMemoryInit memory = some m₀ ∧
      Runs.run ApiServer.step acts ⟨⟨m₀, notifyQueue, userActionsQueue⟩, []⟩ = some c ∧
      List.Forall₂ AnswersWith (session acts).replies c.sent ∧
      Represents c.dispatcher.memory (session acts).twins := by
  obtain ⟨c, hc, hi⟩ := run_implements ha (s := ⟨.start, []⟩)
    (c := ⟨⟨fun _ => initialTwin, notifyQueue, userActionsQueue⟩, []⟩) ⟨start_represents, .nil⟩
  exact ⟨_, c, twinsMemoryInit_eq memory, hc, hi.replies, hi.store⟩

def deleteThenGet : List ServerAct :=
  [.dispatch ⟨fun _ => .ignore, fun _ _ => .ignore⟩ (fun _ => 0)
      ⟨⟨eventUpdate, 1, 0, 3⟩, .update ⟨1, fun _ => ⟨5, 1⟩⟩⟩,
    .nothing, .request .nil ⟨0, 0, []⟩ 0 [0x92, 2, 3], .request .nil ⟨0, 0, []⟩ 0 [0x92, 1, 3]]

theorem server_refines_deleteThenGet : ∃ c, ∃ report : TwinReport,
    Runs.run ApiServer.step deleteThenGet ⟨⟨fun _ => initialTwin, zeroedQueue, zeroedQueue⟩, []⟩ = some c ∧
    List.Forall₂ AnswersWith [.deleted 3, .twin report] c.sent ∧ report.id = 3 ∧ report.status = 2 := by
  have ha : ∀ a ∈ deleteThenGet, a.Valid := by
    simp only [deleteThenGet, List.forall_mem_cons, List.not_mem_nil, IsEmpty.forall_iff, implies_true, and_true]
    refine ⟨.update rfl (by decide) (by decide), trivial, ?_, ?_⟩
    · exact show 3 ≤ requestBufferSize by decide
    · exact show 3 ≤ requestBufferSize by decide
  obtain ⟨m₀, c, hm, hc, hr, -⟩ := server_refines ha (fun _ => initialTwin) zeroedQueue zeroedQueue
  rw [twinsMemoryInit_eq, Option.some.injEq] at hm
  subst hm
  exact ⟨c, _, hc, hr, rfl, rfl⟩

end OpenTwins
