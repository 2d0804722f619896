import OpenTwins.PartialWrites
import OpenTwins.Settings

namespace OpenTwins

open Lines PartialWrites

structure Update where
  returned : Bool
  errorMessage : String
  file : ConfigFile

def insertLine (device : Device) (output : Stream UInt8) (l : List UInt8) : Stream UInt8 :=
  (output.insert device l).insert device [newline]

/-- `updateConfiguration` where the device decides what each insertion and the closing get through. -/
def updateConfigurationOn (device : Device) (config : ChronyConfigDTO) (file : ConfigFile) : Update :=
  if !file.readable then ⟨false, "Cant open old config file.", file⟩
  else
    let r := (linesOf newline file.content).foldl (rewriteLine config.directives) ⟨[], []⟩
    let r := config.directives.foldl appendMissing r
    if !file.writable then ⟨false, "Cant open new config file.", file⟩
    else
      let output := r.configLines.foldl (insertLine device) opened
      ⟨true, "", { file with content := output.close device }⟩

def newContent (config : ChronyConfigDTO) (file : ConfigFile) : List UInt8 :=
  written newline (newLines config (linesOf newline file.content))

def insertions (config : ChronyConfigDTO) (file : ConfigFile) : List (List UInt8) :=
  (newLines config (linesOf newline file.content)).flatMap fun l => [l, [newline]]

structure Reported (config : ChronyConfigDTO) (file : ConfigFile) (u : Update) : Prop where
  failure : u.file.content ≠ newContent config file →
    u.returned = false ∧ u.errorMessage ≠ "" ∧ u.file.content = file.content
  success : u.returned = true → u.file.content = newContent config file

structure TakesAll (device : Device) (config : ChronyConfigDTO) (file : ConfigFile) : Prop where
  insertions : AllFit device 0 (insertions config file)
  close : Fits device.close (newContent config file).length

variable (device : Device) (config : ChronyConfigDTO) (file : ConfigFile)

theorem flatten_insertions : (insertions config file).flatten = newContent config file := by
  rw [insertions, newContent, written]
  induction newLines config (linesOf newline file.content) with
  | nil => rfl
  | cons l ls ih =>
    rw [List.flatMap_cons, List.flatMap_cons, List.flatten_append, ih]
    rfl

theorem updateConfigurationOn_eq : updateConfigurationOn device config file =
    if !file.readable then ⟨false, "Cant open old config file.", file⟩
    else if !file.writable then ⟨false, "Cant open new config file.", file⟩
    else ⟨true, "", { file with
      content := ((insertions config file).foldl (Stream.insert device) opened).close device }⟩ := by
  simp only [updateConfigurationOn, configLines_eq, insertions, List.foldl_flatMap]
  rfl

theorem updateConfigurationOn_unlimited : updateConfigurationOn ⟨fun _ => none, none⟩ config file =
    match updateConfiguration config file with
    | .ok file' => ⟨true, "", file'⟩
    | .error message => ⟨false, message, file⟩ := by
  have hfit (i : ℕ) (parts : List (List UInt8)) : AllFit ⟨fun _ => none, none⟩ i parts := by
    induction parts generalizing i with
    | nil => trivial
    | cons xs parts ih => exact ⟨fits_none _, ih (i + 1)⟩
  rw [updateConfigurationOn_eq, updateConfiguration_eq, (closed_eq_iff _ _).mpr ⟨hfit 0 _, fits_none _⟩,
    flatten_insertions]
  cases file.readable <;> cases file.writable <;> rfl

theorem reported_refusal {message : String} (h : message ≠ "") : Reported config file ⟨false, message, file⟩ := by
  constructor
  · intro _
    exact ⟨rfl, h, rfl⟩
  · intro hr
    cases hr

theorem reported_iff : Reported config file (updateConfigurationOn device config file) ↔
    file.readable = false ∨ file.writable = false ∨ TakesAll device config file := by
  rw [updateConfigurationOn_eq]
  cases hr : file.readable with
  | false => exact iff_of_true (reported_refusal config file (by decide)) (.inl rfl)
  | true =>
    cases hw : file.writable with
    | false => exact iff_of_true (reported_refusal config file (by decide)) (.inr (.inl rfl))
    | true =>
      have hclosed := closed_eq_iff device (insertions config file)
      rw [flatten_insertions] at hclosed
      simp only [Bool.not_true, Bool.false_eq_true, if_false, Bool.true_eq_false, false_or]
      constructor
      · intro h
        obtain ⟨hi, hc⟩ := hclosed.mp (h.success rfl)
        exact ⟨hi, hc⟩
      · rintro ⟨hi, hc⟩
        have hcomplete := hclosed.mpr ⟨hi, hc⟩
        exact ⟨fun h => absurd hcomplete h, fun _ => hcomplete⟩

theorem full_disk_unreported :
    updateConfigurationOn ⟨fun _ => some 0, none⟩ (minpollOnly 4) ⟨text "pool p\n", true, true⟩ =
      ⟨true, "", ⟨[], true, true⟩⟩ ∧
    newContent (minpollOnly 4) ⟨text "pool p\n", true, true⟩ = text "pool p\n\nminpoll 4\n" ∧
    ¬ Reported (minpollOnly 4) ⟨text "pool p\n", true, true⟩
      (updateConfigurationOn ⟨fun _ => some 0, none⟩ (minpollOnly 4) ⟨text "pool p\n", true, true⟩) := by
  have hrun : updateConfigurationOn ⟨fun _ => some 0, none⟩ (minpollOnly 4) ⟨text "pool p\n", true, true⟩ =
    ⟨true, "", ⟨[], true, true⟩⟩ := rfl
  have hnew : newContent (minpollOnly 4) ⟨text "pool p\n", true, true⟩ = text "pool p\n\nminpoll 4\n" := by decide
  refine ⟨hrun, hnew, ?_⟩
  intro h
  rw [hrun] at h
  have hcontent := h.success rfl
  rw [hnew] at hcontent
  exact absurd hcontent (by decide)

end OpenTwins
