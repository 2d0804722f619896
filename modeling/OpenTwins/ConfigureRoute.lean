import OpenTwins.Settings

/-!
The handler of `PATCH /configure`, from the loaded body to the status code. The two containers are
looked at only by their type.
-/

namespace OpenTwins

open Lines

inductive JsonValue
  | null
  | bool (b : Bool)
  | number (literal : List UInt8)
  | string (s : List UInt8)
  | list
  | object

inductive JsonBody
  | invalid
  | notObject
  | object (members : List UInt8 → Option JsonValue)

structure Response where
  code : ℕ
  body : String

def stringMember (members : List UInt8 → Option JsonValue) (key : List UInt8) : Option (List UInt8) :=
  match members key with
  | some (.string s) => some s
  | _ => none

/-- `i` reads a literal as a 64-bit integer, of which an `int` keeps the low half. -/
def numberMember (i : List UInt8 → Int64) (members : List UInt8 → Option JsonValue) (key : List UInt8) :
    Option Int32 :=
  match members key with
  | some (.number literal) => some (i literal).toInt32
  | _ => none

def requestedConfig (i : List UInt8 → Int64) (members : List UInt8 → Option JsonValue) : ChronyConfigDTO where
  server := stringMember members (text "server")
  pollingInterval := numberMember i members (text "polling_interval")
  minpoll := numberMember i members (text "minpoll")
  maxpoll := numberMember i members (text "maxpoll")

def configure (i : List UInt8 → Int64) (body : JsonBody) (file : ConfigFile) : Response × ConfigFile :=
  match body with
  | .invalid => (⟨400, "Invalid JSON"⟩, file)
  | .notObject => (⟨400, "Expected a JSON object"⟩, file)
  | .object members =>
    match updateConfiguration (requestedConfig i members) file with
    | .error error => (⟨500, "Failed to update configuration: " ++ error⟩, file)
    | .ok file' => (⟨200, "Configuration updated successfully"⟩, file')

def isDigit (c : UInt8) : Bool := decide (48 ≤ c ∧ c ≤ 57)

def naturalOf (digits : List UInt8) : Option ℕ :=
  if digits ≠ [] ∧ digits.all isDigit then some (digits.foldl (fun n c => 10 * n + (c.toNat - 48)) 0) else none

def integerOf : List UInt8 → Option ℤ
  | 45 :: digits => (naturalOf digits).map fun n => -(n : ℤ)
  | digits => (naturalOf digits).map fun n => (n : ℤ)

def ExactOn (i : List UInt8 → Int64) : Prop :=
  ∀ literal z, integerOf literal = some z → -2 ^ 63 ≤ z → z < 2 ^ 63 → (i literal).toInt = z

def Acceptable (key : List UInt8) : JsonValue → Prop
  | .string _ => key = text "server"
  | .number literal => key ≠ text "server" ∧ ∃ z, integerOf literal = some z ∧ -2 ^ 31 ≤ z ∧ z < 2 ^ 31
  | _ => False

def exactLine (key : List UInt8) : JsonValue → Option (List UInt8)
  | .string s => if key = text "server" then some (serverDirective s).line else none
  | .number literal =>
    if key = text "server" then none
    else (integerOf literal).map fun z => key ++ text " " ++ stdToString z
  | _ => none

def WrittenAs (key line : List UInt8) (ls : List (List UInt8)) : Prop :=
  startingWith key ls ≠ [] ∧ ∀ l ∈ startingWith key ls, l = line

structure Applied (members : List UInt8 → Option JsonValue) (file : ConfigFile) (r : Response × ConfigFile) :
    Prop where
  success : r.1.code = 200 → ∀ key ∈ keywords, ∀ v, members key = some v →
    ∃ line, exactLine key v = some line ∧ WrittenAs key line (linesOf newline r.2.content)
  refusal : (∃ key ∈ keywords, ∃ v, members key = some v ∧ ¬ Acceptable key v) →
    400 ≤ r.1.code ∧ r.1.code < 500 ∧ r.2 = file

section configure

variable {i : List UInt8 → Int64} {members : List UInt8 → Option JsonValue}

theorem configure_object (i : List UInt8 → Int64) (members : List UInt8 → Option JsonValue) (file : ConfigFile) :
    configure i (.object members) file =
      if file.readable ∧ file.writable then (⟨200, "Configuration updated successfully"⟩, { file with
        content := written newline (newLines (requestedConfig i members) (linesOf newline file.content)) })
      else (⟨500, "Failed to update configuration: " ++
        if file.readable then "Cant open new config file." else "Cant open old config file."⟩, file) := by
  rw [configure, updateConfiguration_eq]
  cases hr : file.readable <;> cases hw : file.writable <;> simp

theorem configure_code (i : List UInt8 → Int64) (members : List UInt8 → Option JsonValue) (file : ConfigFile) :
    (configure i (.object members) file).1.code = if file.readable ∧ file.writable then 200 else 500 := by
  rw [configure_object]
  split_ifs <;> rfl

theorem toInt32_exact (hi : ExactOn i) {literal : List UInt8} {z : ℤ} (hz : integerOf literal = some z)
    (hlow : -2 ^ 31 ≤ z) (hhigh : z < 2 ^ 31) : (i literal).toInt32.toInt = z := by
  have h64 := hi literal z hz (by omega) (by omega)
  rw [Int64.toInt_toInt32, h64]
  exact Int.bmod_eq_of_le (by omega) (by omega)

theorem setting_exact (hi : ExactOn i) : ∀ key ∈ keywords, ∀ v, members key = some v → Acceptable key v →
    setting (requestedConfig i members) key = exactLine key v := by
  have hnumber {key : List UInt8} {v : JsonValue} (hk : key ≠ text "server") (hv : members key = some v)
      (ha : Acceptable key v) {d : Int32 → Directive}
      (hd : ∀ z, (d z).line = key ++ text " " ++ stdToString z.toInt) :
      ((numberMember i members key).map fun z => (d z).line) = exactLine key v := by
    cases v with
    | number literal =>
      obtain ⟨-, z, hz, hlow, hhigh⟩ := ha
      simp only [numberMember, hv, exactLine, if_neg hk, hz, Option.map_some, hd,
        toInt32_exact hi hz hlow hhigh]
    | string s => exact absurd ha hk
    | _ => exact ha.elim
  rw [forall_keywords]
  refine ⟨?_, ?_, ?_, ?_⟩
  · intro v hv ha
    rw [setting_server]
    cases v with
    | string s =>
      simp only [requestedConfig, stringMember, hv, exactLine]
      rfl
    | number literal => exact absurd rfl ha.1
    | _ => exact ha.elim
  · intro v hv ha
    rw [setting_pollingInterval]
    exact hnumber (by decide) hv ha fun _ => rfl
  · intro v hv ha
    rw [setting_minpoll]
    exact hnumber (by decide) hv ha fun _ => rfl
  · intro v hv ha
    rw [setting_maxpoll]
    exact hnumber (by decide) hv ha fun _ => rfl

theorem exactLine_of_acceptable {key : List UInt8} {v : JsonValue} (h : Acceptable key v) :
    ∃ line, exactLine key v = some line := by
  cases v with
  | string s => exact ⟨_, if_pos h⟩
  | number literal =>
    obtain ⟨hk, z, hz, -⟩ := h
    exact ⟨_, by rw [exactLine, if_neg hk, hz, Option.map_some]⟩
  | _ => exact h.elim

theorem WrittenAs.notMem {key line content : List UInt8} (h : WrittenAs key line (linesOf newline content)) :
    newline ∉ line := by
  obtain ⟨l, hl⟩ := List.exists_mem_of_ne_nil _ h.1
  rw [← h.2 l hl]
  exact notMem_of_mem_linesOf (List.mem_filter.mp hl).1

theorem newLines_writtenAs {config : ChronyConfigDTO} {key line : List UInt8} (hk : key ∈ keywords)
    (hs : setting config key = some line) (ls : List (List UInt8)) : WrittenAs key line (newLines config ls) := by
  rw [WrittenAs, startingWith_newLines hk, hs]
  constructor
  · simp only [ne_eq, List.replicate_eq_nil_iff]
    omega
  · intro l hl
    exact List.eq_of_mem_replicate hl

def OneLineBody (members : List UInt8 → Option JsonValue) : Prop :=
  ∀ s, members (text "server") = some (.string s) → newline ∉ s

theorem requestedConfig_oneLine (i : List UInt8 → Int64) (h : OneLineBody members) :
    OneLineServer (requestedConfig i members) := by
  intro s hs
  simp only [requestedConfig, stringMember, Option.mem_def] at hs
  split at hs
  · rename_i s' hm
    rw [← Option.some.inj hs]
    exact h s' hm
  · cases hs

theorem Applied.acceptable {file : ConfigFile} (h : Applied members file (configure i (.object members) file)) :
    ∀ key ∈ keywords, ∀ v, members key = some v → Acceptable key v := by
  intro key hk v hv
  by_contra ha
  obtain ⟨hlow, hhigh, -⟩ := h.refusal ⟨key, hk, v, hv, ha⟩
  rw [configure_code] at hlow hhigh
  split_ifs at hlow hhigh <;> omega

theorem Applied.oneLine {file : ConfigFile} (h : Applied members file (configure i (.object members) file))
    (hfile : file.readable ∧ file.writable) : OneLineBody members := by
  intro s hs hmem
  have h200 : (configure i (.object members) file).1.code = 200 := by rw [configure_code, if_pos hfile]
  obtain ⟨line, hline, hwritten⟩ := h.success h200 (text "server") (by decide) (.string s) hs
  rw [exactLine, if_pos rfl, Option.some.injEq] at hline
  apply hwritten.notMem
  rw [← hline]
  exact List.mem_append_right _ (List.mem_append_left _ hmem)

theorem applied_of_acceptable (hi : ExactOn i) {file : ConfigFile}
    (hfits : ∀ key ∈ keywords, ∀ v, members key = some v → Acceptable key v)
    (hone : file.readable ∧ file.writable → OneLineBody members) :
    Applied members file (configure i (.object members) file) := by
  constructor
  · intro h200 key hk v hv
    have hok : file.readable ∧ file.writable := by
      by_contra hno
      rw [configure_code, if_neg hno] at h200
      omega
    obtain ⟨line, hline⟩ := exactLine_of_acceptable (hfits key hk v hv)
    refine ⟨line, hline, ?_⟩
    rw [configure_object, if_pos hok]
    simp only
    rw [(requestedConfig_oneLine i (hone hok)).linesOf_written]
    exact newLines_writtenAs hk ((setting_exact hi key hk v hv (hfits key hk v hv)).trans hline) _
  · rintro ⟨key, hk, v, hv, ha⟩
    exact absurd (hfits key hk v hv) ha

theorem configure_applied_iff (hi : ExactOn i) (members : List UInt8 → Option JsonValue) (file : ConfigFile) :
    Applied members file (configure i (.object members) file) ↔
      (∀ key ∈ keywords, ∀ v, members key = some v → Acceptable key v) ∧
        (OneLineBody members ∨ ¬ (file.readable ∧ file.writable)) := by
  constructor
  · intro h
    exact ⟨h.acceptable, or_not_of_imp h.oneLine⟩
  · rintro ⟨hfits, hone⟩
    exact applied_of_acceptable hi hfits fun hfile => hone.resolve_right (not_not.mpr hfile)

def readExactly (literal : List UInt8) : Int64 := Int64.ofInt ((integerOf literal).getD 0)

theorem readExactly_exact : ExactOn readExactly := by
  intro literal z hz hlow hhigh
  rw [readExactly, hz, Option.getD_some]
  exact Int64.toInt_ofInt_of_le hlow hhigh

def oneMember (key : List UInt8) (v : JsonValue) (k : List UInt8) : Option JsonValue := if k = key then some v else none

theorem configure_applied_iff_minpoll :
    ∃ line, exactLine (text "minpoll") (.number (text "-3")) = some line ∧ WrittenAs (text "minpoll") line
      (linesOf newline (configure readExactly (.object (oneMember (text "minpoll") (.number (text "-3"))))
        ⟨text "minpoll 5\n", true, true⟩).2.content) := by
  refine ((configure_applied_iff readExactly_exact _ _).mpr ⟨?_, .inl ?_⟩).success rfl _ (by decide) _ rfl
  · intro key hk v hv
    rw [oneMember] at hv
    split_ifs at hv with h
    subst h
    cases hv
    exact ⟨by decide, -3, by decide, by decide, by decide⟩
  · intro s hs
    exact absurd hs (by simp [oneMember, text])

def wideMinpoll : List UInt8 → Option JsonValue := oneMember (text "minpoll") (.number (text "4294967299"))

theorem wide_minpoll_narrowed :
    configure readExactly (.object wideMinpoll) ⟨text "minpoll 5\n", true, true⟩ =
      (⟨200, "Configuration updated successfully"⟩, ⟨text "minpoll 3\n", true, true⟩) ∧
    integerOf (text "4294967299") = some 4294967299 ∧
    ¬ Applied wideMinpoll ⟨text "minpoll 5\n", true, true⟩
      (configure readExactly (.object wideMinpoll) ⟨text "minpoll 5\n", true, true⟩) := by
  have hrun : configure readExactly (.object wideMinpoll) ⟨text "minpoll 5\n", true, true⟩ =
    (⟨200, "Configuration updated successfully"⟩, ⟨text "minpoll 3\n", true, true⟩) := rfl
  have hvalue : integerOf (text "4294967299") = some 4294967299 := by decide
  have hunfit : ¬ Acceptable (text "minpoll") (.number (text "4294967299")) := by
    rintro ⟨-, z, hz, -, hhigh⟩
    rw [hvalue, Option.some.injEq] at hz
    omega
  refine ⟨hrun, hvalue, ?_⟩
  intro h
  rw [hrun] at h
  obtain ⟨hlow, -⟩ := h.refusal ⟨text "minpoll", by decide, _, rfl, hunfit⟩
  exact absurd hlow (by decide)

end configure

end OpenTwins
