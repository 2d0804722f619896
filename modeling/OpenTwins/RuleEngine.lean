import OpenTwins.EventTypes

namespace OpenTwins

open FixedArray

/-- A rule may hold a value outside the enumeration. -/
inductive RuleAction
  | ignore
  | notifyUpwards
  | haltEngine
  | setTwinAlarm
  | callUserService
  | other (value : UInt32)
deriving DecidableEq

def errorDeviation : ErrorType := 0
def errorSensorFailure : ErrorType := 1
def errorCommunication : ErrorType := 2
def errorUnknown : ErrorType := 3
def errorMax : ℕ := errorUnknown.toNat + 1

structure Rules where
  errorRules : FixedArray RuleAction errorMax
  updateRules : FixedArray (FixedArray RuleAction maxVarsPerTwins) maxTwins

def storeErrorRule (e : ErrorType) (action : RuleAction) (r : Rules) : Option Rules :=
  (r.errorRules.write e.toNat action).map fun errorRules => { r with errorRules }

def storeUpdateRule (t v : ℕ) (action : RuleAction) (r : Rules) : Option Rules :=
  (r.updateRules.read t).bind fun row => (row.write v action).bind fun row =>
    (r.updateRules.write t row).map fun updateRules => { r with updateRules }

def ruleEngineInit (r : Rules) : Option Rules := do
  let r ← storeErrorRule errorDeviation .setTwinAlarm r
  let r ← storeErrorRule errorSensorFailure .haltEngine r
  let r ← storeErrorRule errorCommunication .notifyUpwards r
  let r ← storeErrorRule errorUnknown .ignore r
  forLoop (fun t r => forLoop (fun v r => storeUpdateRule t v .ignore r) maxVarsPerTwins r) maxTwins r

def setErrorRule (errorCode : ErrorType) (action : RuleAction) (r : Rules) : Option Rules :=
  if errorCode.toNat < errorMax then storeErrorRule errorCode action r else some r

def setUpdateRule (twinId : UInt32) (varId : UInt16) (action : RuleAction) (r : Rules) : Option Rules :=
  if twinId.toNat < maxTwins ∧ varId.toNat < maxVarsPerTwins then
    storeUpdateRule twinId.toNat varId.toNat action r
  else some r

def ruleEngineGetActionForError (r : Rules) (errorCode : ErrorType) : Option RuleAction :=
  if errorCode.toNat < errorMax then r.errorRules.read errorCode.toNat else some .ignore

def getUpdateRule (r : Rules) (twinId : UInt32) (varId : UInt16) : Option RuleAction :=
  if twinId.toNat < maxTwins ∧ varId.toNat < maxVarsPerTwins then
    (r.updateRules.read twinId.toNat).bind fun row => row.read varId.toNat
  else some .ignore

def Rules.action (r : Rules) (twinId : UInt32) (varId : UInt16) : RuleAction :=
  if h : twinId.toNat < maxTwins ∧ varId.toNat < maxVarsPerTwins then
    r.updateRules ⟨twinId.toNat, h.1⟩ ⟨varId.toNat, h.2⟩
  else .ignore

theorem getUpdateRule_eq (r : Rules) (twinId : UInt32) (varId : UInt16) :
    getUpdateRule r twinId varId = some (r.action twinId varId) := by
  unfold getUpdateRule Rules.action
  by_cases h : twinId.toNat < maxTwins ∧ varId.toNat < maxVarsPerTwins
  · rw [if_pos h, dif_pos h, read_of_lt _ h.1, Option.bind_some, read_of_lt _ h.2]
  · rw [if_neg h, dif_neg h]

theorem ruleEngineGetActionForError_some (r : Rules) (errorCode : ErrorType) :
    ∃ action, ruleEngineGetActionForError r errorCode = some action := by
  unfold ruleEngineGetActionForError
  split_ifs with h
  · exact ⟨_, read_of_lt _ h⟩
  · exact ⟨_, rfl⟩

theorem Rules.action_bounds {r : Rules} {twinId : UInt32} {varId : UInt16}
    (h : r.action twinId varId ≠ .ignore) :
    twinId.toNat < maxTwins ∧ varId.toNat < maxVarsPerTwins := by
  by_contra hn
  exact h (dif_neg hn)

theorem storeUpdateRule_eq (r : Rules) {t v : ℕ} (ht : t < maxTwins) (hv : v < maxVarsPerTwins)
    (action : RuleAction) : storeUpdateRule t v action r = some { r with
      updateRules := Function.update r.updateRules ⟨t, ht⟩
        (Function.update (r.updateRules ⟨t, ht⟩) ⟨v, hv⟩ action) } := by
  simp [storeUpdateRule, read_of_lt _ ht, write_of_lt _ ht, write_of_lt _ hv]

theorem setUpdateRule_action (r : Rules) (twinId : UInt32) (varId : UInt16) (action : RuleAction) :
    ∃ r', setUpdateRule twinId varId action r = some r' ∧ ∀ t v, r'.action t v =
      if t = twinId ∧ v = varId ∧ twinId.toNat < maxTwins ∧ varId.toNat < maxVarsPerTwins then action
      else r.action t v := by
  unfold setUpdateRule
  by_cases h : twinId.toNat < maxTwins ∧ varId.toNat < maxVarsPerTwins
  · rw [if_pos h, storeUpdateRule_eq r h.1 h.2]
    refine ⟨_, rfl, ?_⟩
    intro t v
    by_cases hk : t = twinId ∧ v = varId
    · obtain ⟨rfl, rfl⟩ := hk
      rw [if_pos ⟨rfl, rfl, h⟩, Rules.action, dif_pos h]
      simp
    · rw [if_neg (by tauto)]
      unfold Rules.action
      split_ifs with hb
      · by_cases ht : t = twinId
        · subst ht
          have hv : (⟨v.toNat, hb.2⟩ : Fin maxVarsPerTwins) ≠ ⟨varId.toNat, h.2⟩ :=
            fun he => hk ⟨rfl, UInt16.toNat_inj.mp (Fin.mk.inj he)⟩
          simp only [Function.update_self, Function.update_of_ne hv]
        · have hne : (⟨t.toNat, hb.1⟩ : Fin maxTwins) ≠ ⟨twinId.toNat, h.1⟩ :=
            fun he => ht (UInt32.toNat_inj.mp (Fin.mk.inj he))
          simp only [Function.update_of_ne hne]
      · rfl
  · rw [if_neg h]
    refine ⟨r, rfl, ?_⟩
    intro t v
    rw [if_neg (by tauto)]

theorem clearRow_eq (r : Rules) {t : ℕ} (ht : t < maxTwins) :
    forLoop (fun v r => storeUpdateRule t v .ignore r) maxVarsPerTwins r =
      some { r with updateRules := Function.update r.updateRules ⟨t, ht⟩ (fun _ => .ignore) } := by
  obtain ⟨r', hr', rfl⟩ := forLoop_invariant (k := maxVarsPerTwins) (s := r)
    (f := fun v r => storeUpdateRule t v .ignore r)
    (P := fun k r' => r' = { r with
      updateRules := Function.update r.updateRules ⟨t, ht⟩
        (fun v => if v.val < k then .ignore else r.updateRules ⟨t, ht⟩ v) })
    (fun i hi r' hp => by
      subst hp
      refine ⟨_, storeUpdateRule_eq _ ht hi .ignore, ?_⟩
      simp only [Function.update_idem, Function.update_self, update_lt hi]) (by simp)
  simp [hr']

theorem storeErrorRule_some (r : Rules) {e : ErrorType} (he : e.toNat < errorMax) (action : RuleAction) :
    ∃ r', storeErrorRule e action r = some r' ∧ r'.updateRules = r.updateRules := by
  rw [storeErrorRule, write_of_lt _ he, Option.map_some]
  exact ⟨_, rfl, rfl⟩

theorem setErrorRule_some (r : Rules) (e : ErrorType) (action : RuleAction) :
    ∃ r', setErrorRule e action r = some r' ∧ r'.updateRules = r.updateRules := by
  unfold setErrorRule
  split_ifs with h
  · exact storeErrorRule_some r h action
  · exact ⟨r, rfl, rfl⟩

theorem clearRules_eq (r : Rules) :
    ∃ r', forLoop (fun t r => forLoop (fun v r => storeUpdateRule t v .ignore r) maxVarsPerTwins r)
      maxTwins r = some r' ∧ r'.updateRules = fun _ _ => .ignore := by
  obtain ⟨r', hr', h⟩ := forLoop_invariant (k := maxTwins) (s := r)
    (f := fun t r => forLoop (fun v r => storeUpdateRule t v .ignore r) maxVarsPerTwins r)
    (P := fun k r' => r'.updateRules = fun t => if t.val < k then (fun _ => .ignore) else r.updateRules t)
    (fun i hi r' hp => by
      refine ⟨_, clearRow_eq r' hi, ?_⟩
      simp only [hp]
      exact update_lt hi _ r.updateRules) (by simp)
  refine ⟨r', hr', ?_⟩
  rw [h]
  funext t
  exact if_pos t.isLt

theorem ruleEngineInit_ignores (r : Rules) :
    ∃ r', ruleEngineInit r = some r' ∧ ∀ t v, r'.action t v = .ignore := by
  obtain ⟨r1, h1, -⟩ := storeErrorRule_some r (e := errorDeviation) (by decide) .setTwinAlarm
  obtain ⟨r2, h2, -⟩ := storeErrorRule_some r1 (e := errorSensorFailure) (by decide) .haltEngine
  obtain ⟨r3, h3, -⟩ := storeErrorRule_some r2 (e := errorCommunication) (by decide) .notifyUpwards
  obtain ⟨r4, h4, -⟩ := storeErrorRule_some r3 (e := errorUnknown) (by decide) .ignore
  obtain ⟨r', hr', h⟩ := clearRules_eq r4
  refine ⟨r', ?_, ?_⟩
  · rw [ruleEngineInit, h1, Option.bind_eq_bind, Option.bind_some, h2, Option.bind_some,
      h3, Option.bind_some, h4, Option.bind_some, hr']
  · intro t v
    unfold Rules.action
    split_ifs
    · rw [h]
    · rfl

def ignoringRules : Rules := ⟨fun _ => .ignore, fun _ _ => .ignore⟩

end OpenTwins
