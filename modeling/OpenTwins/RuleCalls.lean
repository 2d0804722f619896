import OpenTwins.LastWrite
import OpenTwins.Pipeline

namespace OpenTwins

open FixedArray LastWrite

inductive TableCall
  | init
  | set (call : RuleCall)

def TableCall.run : TableCall → Rules → Option Rules
  | .init => ruleEngineInit
  | .set call => call.apply

def initialErrorAction (errorCode : ErrorType) : RuleAction :=
  if errorCode = errorDeviation then .setTwinAlarm
  else if errorCode = errorSensorFailure then .haltEngine
  else if errorCode = errorCommunication then .notifyUpwards
  else .ignore

def Rules.errorAction (r : Rules) (errorCode : ErrorType) : RuleAction :=
  if h : errorCode.toNat < errorMax then r.errorRules ⟨errorCode.toNat, h⟩ else .ignore

namespace TableCall

def forError (errorCode : ErrorType) : TableCall → Option RuleAction
  | .init => some (initialErrorAction errorCode)
  | .set (.setErrorRule e action) => if e = errorCode ∧ errorCode.toNat < errorMax then some action else none
  | .set (.setUpdateRule ..) => none

def forUpdate (twinId : UInt32) (varId : UInt16) : TableCall → Option RuleAction
  | .init => some .ignore
  | .set (.setErrorRule ..) => none
  | .set (.setUpdateRule t v action) =>
    if twinId = t ∧ varId = v ∧ t.toNat < maxTwins ∧ v.toNat < maxVarsPerTwins then some action else none

end TableCall

theorem ruleEngineGetActionForError_eq (r : Rules) (errorCode : ErrorType) :
    ruleEngineGetActionForError r errorCode = some (r.errorAction errorCode) := by
  unfold ruleEngineGetActionForError Rules.errorAction
  by_cases h : errorCode.toNat < errorMax
  · rw [if_pos h, dif_pos h, read_of_lt _ h]
  · rw [if_neg h, dif_neg h]

theorem storeErrorRule_eq (r : Rules) {e : ErrorType} (he : e.toNat < errorMax) (action : RuleAction) :
    storeErrorRule e action r = some { r with errorRules := Function.update r.errorRules ⟨e.toNat, he⟩ action } := by
  rw [storeErrorRule, write_of_lt _ he, Option.map_some]

theorem setErrorRule_errorAction (r : Rules) (e : ErrorType) (action : RuleAction) :
    ∃ r', setErrorRule e action r = some r' ∧ r'.updateRules = r.updateRules ∧
      ∀ errorCode, r'.errorAction errorCode =
        if e = errorCode ∧ errorCode.toNat < errorMax then action else r.errorAction errorCode := by
  unfold setErrorRule
  by_cases h : e.toNat < errorMax
  · rw [if_pos h, storeErrorRule_eq r h]
    refine ⟨_, rfl, rfl, ?_⟩
    intro errorCode
    by_cases he : e = errorCode
    · subst he
      rw [if_pos ⟨rfl, h⟩, Rules.errorAction, dif_pos h]
      exact Function.update_self ..
    · rw [if_neg (by tauto)]
      unfold Rules.errorAction
      split_ifs with hc
      · apply Function.update_of_ne
        intro heq
        exact he (UInt32.toNat_inj.mp (Fin.mk.inj heq).symm)
      · rfl
  · rw [if_neg h]
    refine ⟨r, rfl, rfl, ?_⟩
    intro errorCode
    rw [if_neg]
    rintro ⟨rfl, hc⟩
    exact h hc

theorem storeErrorRule_errorAction (r : Rules) {e : ErrorType} (he : e.toNat < errorMax) (action : RuleAction) :
    ∃ r', storeErrorRule e action r = some r' ∧
      ∀ errorCode, r'.errorAction errorCode = if e = errorCode then action else r.errorAction errorCode := by
  obtain ⟨r', hr, -, ha⟩ := setErrorRule_errorAction r e action
  rw [setErrorRule, if_pos he] at hr
  refine ⟨r', hr, ?_⟩
  intro errorCode
  rw [ha]
  apply if_congr _ rfl rfl
  constructor
  · exact fun h => h.1
  · rintro rfl
    exact ⟨rfl, he⟩

theorem clearRules_errorRules (r : Rules) :
    ∃ r', forLoop (fun t r => forLoop (fun v r => storeUpdateRule t v .ignore r) maxVarsPerTwins r)
      maxTwins r = some r' ∧ r'.errorRules = r.errorRules := by
  obtain ⟨r', hr', h⟩ := forLoop_invariant (k := maxTwins) (s := r)
    (f := fun t r => forLoop (fun v r => storeUpdateRule t v .ignore r) maxVarsPerTwins r)
    (P := fun _ r' => r'.errorRules = r.errorRules)
    (fun i hi r' hp => by
      rw [clearRow_eq r' hi]
      exact ⟨_, rfl, hp⟩) rfl
  exact ⟨r', hr', h⟩

theorem ruleEngineInit_errorAction (r : Rules) :
    ∃ r', ruleEngineInit r = some r' ∧ ∀ errorCode, r'.errorAction errorCode = initialErrorAction errorCode := by
  obtain ⟨r1, h1, a1⟩ := storeErrorRule_errorAction r (show errorDeviation.toNat < errorMax by decide) .setTwinAlarm
  obtain ⟨r2, h2, a2⟩ :=
    storeErrorRule_errorAction r1 (show errorSensorFailure.toNat < errorMax by decide) .haltEngine
  obtain ⟨r3, h3, a3⟩ :=
    storeErrorRule_errorAction r2 (show errorCommunication.toNat < errorMax by decide) .notifyUpwards
  obtain ⟨r4, h4, a4⟩ := storeErrorRule_errorAction r3 (show errorUnknown.toNat < errorMax by decide) .ignore
  obtain ⟨r', hr', h⟩ := clearRules_errorRules r4
  refine ⟨r', ?_, ?_⟩
  · rw [ruleEngineInit, h1, Option.bind_eq_bind, Option.bind_some, h2, Option.bind_some,
      h3, Option.bind_some, h4, Option.bind_some, hr']
  · intro errorCode
    have hsame : r'.errorAction errorCode = r4.errorAction errorCode := by
      rw [Rules.errorAction, h]
      rfl
    rw [hsame, a4, a3, a2, a1]
    by_cases he : errorCode.toNat < errorMax
    · have hcases : errorCode = errorDeviation ∨ errorCode = errorSensorFailure ∨ errorCode = errorCommunication ∨
          errorCode = errorUnknown := by
        have hlt : errorCode.toNat < 4 := he
        simp only [← UInt32.toNat_inj]
        change errorCode.toNat = 0 ∨ errorCode.toNat = 1 ∨ errorCode.toNat = 2 ∨ errorCode.toNat = 3
        omega
      rcases hcases with rfl | rfl | rfl | rfl <;> rfl
    · have hne : ∀ e : ErrorType, e.toNat < errorMax → e ≠ errorCode := by
        rintro e hlt rfl
        exact he hlt
      rw [if_neg (hne _ (by decide)), if_neg (hne _ (by decide)), if_neg (hne _ (by decide)),
        if_neg (hne _ (by decide)), Rules.errorAction, dif_neg he, initialErrorAction,
        if_neg (hne _ (by decide)).symm, if_neg (hne _ (by decide)).symm, if_neg (hne _ (by decide)).symm]

theorem setUpdateRule_errorRules {r r' : Rules} {twinId : UInt32} {varId : UInt16} {action : RuleAction}
    (h : setUpdateRule twinId varId action r = some r') : r'.errorRules = r.errorRules := by
  unfold setUpdateRule at h
  split_ifs at h with hc
  · rw [storeUpdateRule_eq r hc.1 hc.2] at h
    cases h
    rfl
  · cases h
    rfl

theorem call_some (c : TableCall) (r : Rules) : ∃ r', c.run r = some r' ∧
    (∀ errorCode, r'.errorAction errorCode = (c.forError errorCode).getD (r.errorAction errorCode)) ∧
    ∀ twinId varId, r'.action twinId varId = (c.forUpdate twinId varId).getD (r.action twinId varId) := by
  rcases c with _ | (⟨e, action⟩ | ⟨t, v, action⟩)
  · obtain ⟨r', hr, he⟩ := ruleEngineInit_errorAction r
    obtain ⟨r'', hr', hu⟩ := ruleEngineInit_ignores r
    obtain rfl : r' = r'' := Option.some.inj (hr.symm.trans hr')
    exact ⟨r', hr, he, hu⟩
  · obtain ⟨r', hr, hu, he⟩ := setErrorRule_errorAction r e action
    refine ⟨r', hr, ?_, ?_⟩
    · intro errorCode
      rw [he, TableCall.forError]
      split_ifs <;> rfl
    · intro twinId varId
      rw [Rules.action, hu]
      rfl
  · obtain ⟨r', hr, he⟩ := setUpdateRule_action r t v action
    refine ⟨r', hr, ?_, ?_⟩
    · intro errorCode
      rw [Rules.errorAction, setUpdateRule_errorRules hr]
      rfl
    · intro twinId varId
      rw [he, TableCall.forUpdate]
      split_ifs <;> rfl

theorem run_calls {get : Rules → RuleAction} {writes : TableCall → Option RuleAction}
    (hget : ∀ c r, ∃ r', TableCall.run c r = some r' ∧ get r' = (writes c).getD (get r)) {calls : List TableCall}
    {r r' : Rules} (h : Runs.run TableCall.run calls r = some r') :
    get r' = (lastOf writes calls).getD (get r) := by
  apply run_last _ h
  intro c r t ht
  obtain ⟨t', ht', he⟩ := hget c r
  obtain rfl : t = t' := Option.some.inj (ht.symm.trans ht')
  exact he

theorem rules_last_call (calls : List TableCall) (r : Rules) :
    ∃ r', Runs.run TableCall.run calls r = some r' ∧
      (∀ errorCode, ruleEngineGetActionForError r' errorCode =
        some ((lastOf (TableCall.forError errorCode) calls).getD (r.errorAction errorCode))) ∧
      (∀ twinId varId, getUpdateRule r' twinId varId =
        some ((lastOf (TableCall.forUpdate twinId varId) calls).getD (r.action twinId varId))) ∧
      (∀ errorCode : ErrorType, errorMax ≤ errorCode.toNat →
        ruleEngineGetActionForError r' errorCode = some .ignore) ∧
      ∀ (twinId : UInt32) (varId : UInt16), maxTwins ≤ twinId.toNat ∨ maxVarsPerTwins ≤ varId.toNat →
        getUpdateRule r' twinId varId = some .ignore := by
  obtain ⟨r', hr, -⟩ := Runs.run_total (P := fun _ => True) (Q := fun _ => True)
    (fun c r _ _ => (call_some c r).imp fun r' h => ⟨h.1, trivial⟩) (fun c (_ : c ∈ calls) => trivial)
    (show True from trivial)
  refine ⟨r', hr, ?_, ?_, ?_, ?_⟩
  · intro errorCode
    have hget : ∀ c r, ∃ r', TableCall.run c r = some r' ∧
        r'.errorAction errorCode = (c.forError errorCode).getD (r.errorAction errorCode) := by
      intro c r
      obtain ⟨t, ht, he, -⟩ := call_some c r
      exact ⟨t, ht, he errorCode⟩
    rw [ruleEngineGetActionForError_eq, run_calls hget hr]
  · intro twinId varId
    have hget : ∀ c r, ∃ r', TableCall.run c r = some r' ∧
        r'.action twinId varId = (c.forUpdate twinId varId).getD (r.action twinId varId) := by
      intro c r
      obtain ⟨t, ht, -, hu⟩ := call_some c r
      exact ⟨t, ht, hu twinId varId⟩
    rw [getUpdateRule_eq, run_calls hget hr]
  · intro errorCode h
    rw [ruleEngineGetActionForError, if_neg (by omega)]
  · intro twinId varId h
    rw [getUpdateRule, if_neg (by omega)]

end OpenTwins
