import OpenTwins.EventTypes

/-!
The store of `twins_memory.c`: the last value of every variable of every twin. Each access
is one atomic load or store.
-/

namespace OpenTwins

open FixedArray

structure TwinState where
  vars : FixedArray UInt32 maxVarsPerTwins
  status : UInt32
  lastUpdateMs : UInt64

abbrev TwinsMemory := FixedArray TwinState maxTwins

def statusOk : UInt32 := 0
def statusDisconnected : UInt32 := 2

def floatZero : UInt32 := 0
def floatMinusOne : UInt32 := 0xbf800000

def storeVar (t v : ℕ) (value : UInt32) (m : TwinsMemory) : Option TwinsMemory :=
  (m.read t).bind fun s => (s.vars.write v value).bind fun vars => m.write t { s with vars }

def storeStatus (t : ℕ) (status : UInt32) (m : TwinsMemory) : Option TwinsMemory :=
  (m.read t).bind fun s => m.write t { s with status }

def storeLastUpdateMs (t : ℕ) (lastUpdateMs : UInt64) (m : TwinsMemory) : Option TwinsMemory :=
  (m.read t).bind fun s => m.write t { s with lastUpdateMs }

def twinsMemoryInit (m : TwinsMemory) : Option TwinsMemory :=
  forLoop (fun i m => do
    let m ← forLoop (fun j m => storeVar i j floatZero m) maxVarsPerTwins m
    let m ← storeStatus i statusDisconnected m
    storeLastUpdateMs i 0 m) maxTwins m

/-- `now` is what `time` returns. -/
def twinsMemoryUpdateVar (now : UInt64) (twinId : UInt32) (varId : UInt8) (value : UInt32)
    (m : TwinsMemory) : Option TwinsMemory :=
  if maxTwins ≤ twinId.toNat ∨ maxVarsPerTwins ≤ varId.toNat then some m
  else do
    let m ← storeVar twinId.toNat varId.toNat value m
    let m ← storeStatus twinId.toNat statusOk m
    storeLastUpdateMs twinId.toNat (now * 1000) m

def twinsMemoryGetVar (twinId : UInt32) (varId : UInt8) (m : TwinsMemory) : Option UInt32 :=
  if maxTwins ≤ twinId.toNat ∨ maxVarsPerTwins ≤ varId.toNat then some floatMinusOne
  else (m.read twinId.toNat).bind fun s => s.vars.read varId.toNat

def twinsMemorySetStatus (targetId status : UInt32) (m : TwinsMemory) : Option (ℤ × TwinsMemory) :=
  if maxTwins ≤ targetId.toNat then some (-1, m)
  else (storeStatus targetId.toNat status m).map fun m => (0, m)

def twinsMemoryGetStatus (targetId : UInt32) (m : TwinsMemory) : Option ℤ :=
  if maxTwins ≤ targetId.toNat then some (-1)
  else (m.read targetId.toNat).map fun s => s.status.toBitVec.toInt

section stores

variable (m : TwinsMemory) {t : ℕ} (ht : t < maxTwins)

theorem storeVar_eq {v : ℕ} (hv : v < maxVarsPerTwins) (value : UInt32) :
    storeVar t v value m = some (Function.update m ⟨t, ht⟩
      { m ⟨t, ht⟩ with vars := Function.update (m ⟨t, ht⟩).vars ⟨v, hv⟩ value }) := by
  simp [storeVar, read_of_lt _ ht, write_of_lt _ ht, write_of_lt _ hv]

theorem storeStatus_eq (status : UInt32) :
    storeStatus t status m = some (Function.update m ⟨t, ht⟩ { m ⟨t, ht⟩ with status }) := by
  simp [storeStatus, read_of_lt _ ht, write_of_lt _ ht]

theorem storeLastUpdateMs_eq (lastUpdateMs : UInt64) :
    storeLastUpdateMs t lastUpdateMs m =
      some (Function.update m ⟨t, ht⟩ { m ⟨t, ht⟩ with lastUpdateMs }) := by
  simp [storeLastUpdateMs, read_of_lt _ ht, write_of_lt _ ht]

end stores

def initialTwin : TwinState := ⟨fun _ => floatZero, statusDisconnected, 0⟩

theorem clearVars_eq (m : TwinsMemory) {t : ℕ} (ht : t < maxTwins) :
    forLoop (fun j m => storeVar t j floatZero m) maxVarsPerTwins m =
      some (Function.update m ⟨t, ht⟩ { m ⟨t, ht⟩ with vars := fun _ => floatZero }) := by
  obtain ⟨m', hm', rfl⟩ := forLoop_invariant (k := maxVarsPerTwins) (s := m)
    (f := fun j m => storeVar t j floatZero m)
    (P := fun k m' => m' = Function.update m ⟨t, ht⟩
      { m ⟨t, ht⟩ with vars := fun v => if v.val < k then floatZero else (m ⟨t, ht⟩).vars v })
    (fun i hi m' hp => by
      subst hp
      refine ⟨_, storeVar_eq _ ht hi floatZero, ?_⟩
      rw [Function.update_idem, Function.update_self]
      simp only [update_lt hi]) (by simp)
  simp [hm']

theorem twinsMemoryInit_eq (m : TwinsMemory) : twinsMemoryInit m = some fun _ => initialTwin := by
  unfold twinsMemoryInit
  obtain ⟨m', hm', rfl⟩ := forLoop_invariant (k := maxTwins) (s := m)
    (f := fun i m => do
      let m ← forLoop (fun j m => storeVar i j floatZero m) maxVarsPerTwins m
      let m ← storeStatus i statusDisconnected m
      storeLastUpdateMs i 0 m)
    (P := fun k m' => m' = fun t => if t.val < k then initialTwin else m t)
    (fun i hi m' hp => by
      subst hp
      simp only [clearVars_eq _ hi, storeStatus_eq _ hi, storeLastUpdateMs_eq _ hi,
        Option.bind_eq_bind, Option.bind_some, Function.update_idem, Function.update_self]
      exact ⟨_, rfl, update_lt hi initialTwin m⟩) (by simp)
  rw [hm']
  simp

def updateVar (now : UInt64) (twinId : UInt32) (varId : UInt8) (value : UInt32) (m : TwinsMemory) : TwinsMemory :=
  fun t =>
    if t.val = twinId.toNat ∧ varId.toNat < maxVarsPerTwins then
      { vars := fun v => if v.val = varId.toNat then value else (m t).vars v
        status := statusOk
        lastUpdateMs := now * 1000 }
    else m t

theorem twinsMemoryUpdateVar_eq (now : UInt64) (twinId : UInt32) (varId : UInt8) (value : UInt32)
    (m : TwinsMemory) :
    twinsMemoryUpdateVar now twinId varId value m = some (updateVar now twinId varId value m) := by
  unfold twinsMemoryUpdateVar
  split_ifs with h
  · congr 1
    funext t
    rw [updateVar, if_neg]
    have := t.isLt
    omega
  · obtain ⟨ht, hv⟩ := not_or.mp h
    rw [not_le] at ht hv
    simp only [storeVar_eq m ht hv, storeStatus_eq _ ht, storeLastUpdateMs_eq _ ht, Option.bind_eq_bind,
      Option.bind_some, Function.update_idem, Function.update_self]
    congr 1
    funext t
    rw [Function.update_apply, updateVar]
    simp only [Fin.ext_iff, hv, and_true]
    split_ifs with h
    · obtain rfl : t = ⟨twinId.toNat, ht⟩ := Fin.ext h
      congr 1
      funext v
      simp only [Function.update_apply, Fin.ext_iff]
    · rfl

theorem twinsMemorySetStatus_eq (targetId status : UInt32) (m : TwinsMemory) :
    twinsMemorySetStatus targetId status m =
      some (if maxTwins ≤ targetId.toNat then -1 else 0,
        fun t => if t.val = targetId.toNat then { m t with status } else m t) := by
  unfold twinsMemorySetStatus
  split_ifs with h
  · congr 2
    funext t
    rw [if_neg]
    have := t.isLt
    omega
  · rw [not_le] at h
    rw [storeStatus_eq m h, Option.map_some]
    congr 2
    funext t
    simp only [Function.update_apply, Fin.ext_iff]
    split_ifs with ht
    · obtain rfl : t = ⟨targetId.toNat, h⟩ := Fin.ext ht
      rfl
    · rfl

theorem twinsMemoryGetVar_eq (m : TwinsMemory) {twinId : UInt32} {varId : UInt8}
    (ht : twinId.toNat < maxTwins) (hv : varId.toNat < maxVarsPerTwins) :
    twinsMemoryGetVar twinId varId m = some ((m ⟨twinId.toNat, ht⟩).vars ⟨varId.toNat, hv⟩) := by
  rw [twinsMemoryGetVar, if_neg (by omega), read_of_lt m ht, Option.bind_some, read_of_lt _ hv]

theorem twinsMemoryGetStatus_eq (m : TwinsMemory) {targetId : UInt32} (ht : targetId.toNat < maxTwins) :
    twinsMemoryGetStatus targetId m = some (m ⟨targetId.toNat, ht⟩).status.toBitVec.toInt := by
  rw [twinsMemoryGetStatus, if_neg (by omega), read_of_lt m ht, Option.map_some]

theorem twinsMemoryGetVar_some (twinId : UInt32) (varId : UInt8) (m : TwinsMemory) :
    ∃ x, twinsMemoryGetVar twinId varId m = some x := by
  by_cases h : maxTwins ≤ twinId.toNat ∨ maxVarsPerTwins ≤ varId.toNat
  · exact ⟨_, if_pos h⟩
  · obtain ⟨ht, hv⟩ := not_or.mp h
    exact ⟨_, twinsMemoryGetVar_eq m (not_le.mp ht) (not_le.mp hv)⟩

theorem twinsMemoryGetStatus_some (targetId : UInt32) (m : TwinsMemory) :
    ∃ x, twinsMemoryGetStatus targetId m = some x := by
  by_cases h : maxTwins ≤ targetId.toNat
  · exact ⟨_, if_pos h⟩
  · exact ⟨_, twinsMemoryGetStatus_eq m (not_le.mp h)⟩

end OpenTwins
