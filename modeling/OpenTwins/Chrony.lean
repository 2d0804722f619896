import OpenTwins.ApiServer
import OpenTwins.Lines
import Mathlib.Data.List.Flatten

namespace OpenTwins

open Lines

def newline : UInt8 := 10

def isSpace (c : UInt8) : Bool := decide (c = 32 ∨ 9 ≤ c ∧ c ≤ 13)

def stdToString (z : ℤ) : List UInt8 :=
  (if z < 0 then text "-" else []) ++ (Nat.toDigits 10 z.natAbs).map fun c => UInt8.ofNat c.toNat

structure ChronyConfigDTO where
  server : Option (List UInt8)
  pollingInterval : Option Int32
  minpoll : Option Int32
  maxpoll : Option Int32

structure Directive where
  keyword : List UInt8
  value : List UInt8
  ne : keyword ≠ []
  word : keyword.any isSpace = false

def Directive.line (d : Directive) : List UInt8 := d.keyword ++ text " " ++ d.value

def serverDirective (value : List UInt8) : Directive :=
  ⟨text "server", value ++ text " iburst", by decide, rfl⟩

def pollingIntervalDirective (value : Int32) : Directive :=
  ⟨text "polling_interval", stdToString value.toInt, by decide, rfl⟩

def minpollDirective (value : Int32) : Directive :=
  ⟨text "minpoll", stdToString value.toInt, by decide, rfl⟩

def maxpollDirective (value : Int32) : Directive :=
  ⟨text "maxpoll", stdToString value.toInt, by decide, rfl⟩

def ChronyConfigDTO.directives (config : ChronyConfigDTO) : List Directive :=
  (config.server.map serverDirective).toList ++ (config.pollingInterval.map pollingIntervalDirective).toList ++
    (config.minpoll.map minpollDirective).toList ++ (config.maxpoll.map maxpollDirective).toList

structure Rewriting where
  configLines : List (List UInt8)
  updatedFields : List (List UInt8)

/-- The branches test one supplied field after the other, and the first keyword that the line
begins with decides. -/
def matching (ds : List Directive) (line : List UInt8) : Option Directive :=
  ds.find? fun d => d.keyword.isPrefixOf line

def rewriteLine (ds : List Directive) (r : Rewriting) (line : List UInt8) : Rewriting :=
  match matching ds line with
  | some d => ⟨r.configLines ++ [d.line], r.updatedFields ++ [d.keyword]⟩
  | none => { r with configLines := r.configLines ++ [line] }

def appendMissing (r : Rewriting) (d : Directive) : Rewriting :=
  if d.keyword ∈ r.updatedFields then r else { r with configLines := r.configLines ++ [[], d.line] }

structure ConfigFile where
  content : List UInt8
  readable : Bool
  writable : Bool

def updateConfiguration (config : ChronyConfigDTO) (file : ConfigFile) : Except String ConfigFile :=
  if !file.readable then .error "Cant open old config file."
  else
    let r := (linesOf newline file.content).foldl (rewriteLine config.directives) ⟨[], []⟩
    let r := config.directives.foldl appendMissing r
    if !file.writable then .error "Cant open new config file."
    else .ok { file with content := written newline r.configLines }

def firstWord (line : List UInt8) : List UInt8 := Lines.firstWord isSpace line

def Other (config : ChronyConfigDTO) (line : List UInt8) : Prop :=
  firstWord line ≠ [] ∧ firstWord line ∉ config.directives.map Directive.keyword

instance (config : ChronyConfigDTO) (line : List UInt8) : Decidable (Other config line) :=
  inferInstanceAs (Decidable (_ ∧ _))

def otherLines (config : ChronyConfigDTO) (content : List UInt8) : List (List UInt8) :=
  (linesOf newline content).filter fun l => Other config l

theorem notMem_stdToString (z : ℤ) : newline ∉ stdToString z := by
  intro h
  rcases List.mem_append.mp h with h | h
  · split_ifs at h
    · exact absurd h (by decide)
    · cases h
  · obtain ⟨c, hc, hn⟩ := List.mem_map.mp h
    have hd := Char.isDigit_iff_toNat.mp (Nat.isDigit_of_mem_toDigits (by decide) (by decide) hc)
    have h0 : '0'.toNat = 48 := rfl
    have h9 : '9'.toNat = 57 := rfl
    have hten := congrArg UInt8.toNat hn
    rw [UInt8.toNat_ofNat', show newline.toNat = 10 from rfl] at hten
    omega

def Directive.later (d : Directive) : List (List UInt8) := (linesOf newline (d.value ++ [newline])).tail

theorem Directive.no_space (d : Directive) : ∀ c ∈ d.keyword, isSpace c = false := by
  simpa using d.word

theorem Directive.linesOf_line (d : Directive) :
    ∃ first, linesOf newline (d.line ++ [newline]) = first :: d.later ∧ firstWord first = d.keyword := by
  have hread : newline ∉ d.keyword ++ text " " := by
    rw [List.mem_append, not_or]
    refine ⟨?_, by decide⟩
    intro h
    exact absurd (d.no_space newline h) (by decide)
  obtain ⟨first, hf⟩ : ∃ first, readLines newline (d.keyword ++ text " ") (d.value ++ [newline]) = _ :: _ :=
    readLines_first _ d.value
  refine ⟨d.keyword ++ text " " ++ first, ?_, ?_⟩
  · rw [linesOf, line, List.append_assoc, readLines_read hread, List.nil_append, hf]
    rfl
  · rw [List.append_assoc]
    exact firstWord_append d.ne d.no_space (by decide) first

theorem rewriteLines_eq (ds : List Directive) (ls : List (List UInt8)) (r : Rewriting) :
    ls.foldl (rewriteLine ds) r =
      ⟨r.configLines ++ ls.map fun l => ((matching ds l).map Directive.line).getD l,
        r.updatedFields ++ ls.filterMap fun l => (matching ds l).map Directive.keyword⟩ := by
  induction ls generalizing r with
  | nil => simp
  | cons l ls ih =>
    rw [List.foldl_cons, ih, rewriteLine]
    cases h : matching ds l <;> simp [h]

theorem appendMissing_eq (ds : List Directive) (r : Rewriting) :
    ds.foldl appendMissing r =
      { r with configLines := r.configLines ++
          (ds.filter fun d => d.keyword ∉ r.updatedFields).flatMap fun d => [[], d.line] } := by
  induction ds generalizing r with
  | nil => simp
  | cons d ds ih =>
    rw [List.foldl_cons, ih, appendMissing]
    by_cases h : d.keyword ∈ r.updatedFields <;> simp [h]

def addedLines (config : ChronyConfigDTO) : List (List UInt8) :=
  (config.server.map fun s => (serverDirective s).later).getD []

theorem later_eq_nil {d : Directive} (h : newline ∉ d.value) : d.later = [] := by
  rw [Directive.later, linesOf_line h]
  rfl

theorem directives_split (config : ChronyConfigDTO) :
    ∃ numbers, config.directives = (config.server.map serverDirective).toList ++ numbers ∧
      ∀ d ∈ numbers, d.keyword ≠ text "server" ∧ d.later = [] := by
  refine ⟨(config.pollingInterval.map pollingIntervalDirective).toList ++ (config.minpoll.map minpollDirective).toList ++
    (config.maxpoll.map maxpollDirective).toList, by simp [ChronyConfigDTO.directives], ?_⟩
  intro d hd
  have hnumber {z : ℤ} (hv : d.value = stdToString z) (hk : d.keyword ≠ text "server") :
      d.keyword ≠ text "server" ∧ d.later = [] := ⟨hk, later_eq_nil (hv ▸ notMem_stdToString z)⟩
  simp only [List.mem_append, Option.mem_toList, Option.map_eq_some_iff] at hd
  rcases hd with (⟨z, -, rfl⟩ | ⟨z, -, rfl⟩) | ⟨z, -, rfl⟩
  · exact hnumber rfl (show text "polling_interval" ≠ text "server" by decide)
  · exact hnumber rfl (show text "minpoll" ≠ text "server" by decide)
  · exact hnumber rfl (show text "maxpoll" ≠ text "server" by decide)

theorem later_of_mem {config : ChronyConfigDTO} {d : Directive} (h : d ∈ config.directives) :
    d.later = if d.keyword = text "server" then addedLines config else [] := by
  obtain ⟨numbers, hn, hnumbers⟩ := directives_split config
  rw [hn, List.mem_append, Option.mem_toList, Option.map_eq_some_iff] at h
  rcases h with ⟨s, hs, rfl⟩ | h
  · rw [addedLines, hs]
    exact (if_pos rfl).symm
  · obtain ⟨hk, hl⟩ := hnumbers d h
    rw [if_neg hk, hl]

theorem exists_later {config : ChronyConfigDTO} (h : addedLines config ≠ []) :
    ∃ d ∈ config.directives, d.later = addedLines config := by
  cases hs : config.server with
  | none =>
    rw [addedLines, hs] at h
    exact absurd rfl h
  | some s =>
    refine ⟨serverDirective s, ?_, ?_⟩
    · simp [ChronyConfigDTO.directives, hs]
    · rw [addedLines, hs]
      rfl

def kept (config : ChronyConfigDTO) (ls : List (List UInt8)) : List (List UInt8) := ls.filter fun l => Other config l

/-- The old lines, with those taken for a supplied field exchanged for what its value begins. -/
def exchanged (config : ChronyConfigDTO) (ls : List (List UInt8)) : List (List UInt8) :=
  (ls.flatMap fun l => ((matching config.directives l).map Directive.later).getD [l]) ++
    (config.directives.filter fun d => d.keyword ∉
      ls.filterMap fun l => (matching config.directives l).map Directive.keyword).flatMap Directive.later

theorem kept_line {config : ChronyConfigDTO} {d : Directive} (h : d ∈ config.directives) :
    kept config (linesOf newline (d.line ++ [newline])) = kept config d.later := by
  obtain ⟨first, hl, hf⟩ := d.linesOf_line
  rw [hl, kept, List.filter_cons_of_neg]
  · rfl
  · simp only [Other, hf, decide_eq_true_eq, not_and, not_not]
    intro _
    exact List.mem_map_of_mem h

theorem kept_flatMap {α : Type} (config : ChronyConfigDTO) (f : α → List (List UInt8)) (xs : List α) :
    kept config (xs.flatMap f) = xs.flatMap fun x => kept config (f x) := List.filter_flatMap ..

theorem kept_append (config : ChronyConfigDTO) (xs ys : List (List UInt8)) :
    kept config (xs ++ ys) = kept config xs ++ kept config ys := List.filter_append ..

theorem otherLines_updated {config : ChronyConfigDTO} {file file' : ConfigFile}
    (h : updateConfiguration config file = .ok file') :
    otherLines config file'.content = kept config (exchanged config (linesOf newline file.content)) := by
  simp only [updateConfiguration, rewriteLines_eq, appendMissing_eq, List.nil_append] at h
  split_ifs at h
  cases h
  change kept config (linesOf newline (written newline _)) = _
  rw [linesOf_written, List.flatMap_append, List.flatMap_map, List.flatMap_assoc,
    exchanged, kept_append, kept_append, kept_flatMap, kept_flatMap, kept_flatMap, kept_flatMap]
  congr 1
  · apply List.flatMap_congr
    intro l hl
    cases hm : matching config.directives l with
    | none => rw [Option.map_none, Option.getD_none, linesOf_line (notMem_of_mem_linesOf hl)]; rfl
    | some d => exact kept_line (List.mem_of_find?_eq_some hm)
  · apply List.flatMap_congr
    intro d hd
    rw [List.flatMap_cons, List.flatMap_singleton, kept_append, kept_line (List.mem_filter.mp hd).1]
    rfl

def KeywordsWhole (config : ChronyConfigDTO) (ls : List (List UInt8)) : Prop :=
  ∀ l ∈ ls, matching config.directives l ≠ none → ¬ Other config l

def NothingAdded (config : ChronyConfigDTO) : Prop := ∀ l ∈ addedLines config, ¬ Other config l

theorem kept_eq_nil {config : ChronyConfigDTO} {ls : List (List UInt8)} :
    kept config ls = [] ↔ ∀ l ∈ ls, ¬ Other config l := by
  simp [kept, List.filter_eq_nil_iff]

theorem kept_singleton {config : ChronyConfigDTO} {l : List UInt8} : kept config [l] = [] ↔ ¬ Other config l := by
  rw [kept_eq_nil, List.forall_mem_singleton]

theorem kept_lines (config : ChronyConfigDTO) (ls : List (List UInt8)) :
    kept config ls = ls.flatMap fun l => kept config [l] := by
  rw [← kept_flatMap, List.flatMap_singleton']

def leftOf (config : ChronyConfigDTO) (l : List UInt8) : List (List UInt8) :=
  kept config (((matching config.directives l).map Directive.later).getD [l])

theorem leftOf_none {config : ChronyConfigDTO} {l : List UInt8} (h : matching config.directives l = none) :
    leftOf config l = kept config [l] := by
  rw [leftOf, h]
  rfl

theorem leftOf_some {config : ChronyConfigDTO} {l : List UInt8} {d : Directive}
    (h : matching config.directives l = some d) : leftOf config l = kept config d.later := by
  rw [leftOf, h]
  rfl

theorem kept_exchanged (config : ChronyConfigDTO) (ls : List (List UInt8)) :
    kept config (exchanged config ls) = ls.flatMap (leftOf config) ++
      (config.directives.filter fun d => d.keyword ∉
        ls.filterMap fun l => (matching config.directives l).map Directive.keyword).flatMap fun d =>
          kept config d.later := by
  rw [exchanged, kept_append, kept_flatMap, kept_flatMap]
  rfl

theorem kept_later {config : ChronyConfigDTO} (h : NothingAdded config) {d : Directive}
    (hd : d ∈ config.directives) : kept config d.later = [] := by
  rw [later_of_mem hd]
  split_ifs
  · exact kept_eq_nil.mpr h
  · rfl

theorem leftOf_matched {config : ChronyConfigDTO} (h : NothingAdded config) {l : List UInt8}
    (hm : matching config.directives l ≠ none) : leftOf config l = [] := by
  obtain ⟨d, hd⟩ := Option.ne_none_iff_exists'.mp hm
  rw [leftOf_some hd]
  exact kept_later h (List.mem_of_find?_eq_some hd)

theorem kept_exchanged_quiet {config : ChronyConfigDTO} (h : NothingAdded config) (ls : List (List UInt8)) :
    kept config (exchanged config ls) = kept config ls ↔ KeywordsWhole config ls := by
  have hmissing (ds : List Directive) (hds : ∀ d ∈ ds, d ∈ config.directives) :
      ds.flatMap (fun d => kept config d.later) = [] :=
    List.flatMap_eq_nil_iff.mpr fun d hd => kept_later h (hds d hd)
  rw [kept_exchanged, kept_lines config ls, hmissing _ (fun d hd => (List.mem_filter.mp hd).1), List.append_nil]
  constructor
  · intro he l hl hm
    have hle : ∀ l ∈ ls, (leftOf config l).length ≤ (kept config [l]).length := by
      intro l _
      by_cases hm : matching config.directives l = none
      · rw [leftOf_none hm]
      · rw [leftOf_matched h hm]
        exact Nat.zero_le _
    obtain ⟨-, hlen⟩ := Lines.flatMap_lengths hle (k := 0) (congrArg List.length he.symm)
    have hl := hlen l hl
    rw [leftOf_matched h hm, List.length_nil, List.length_eq_zero_iff] at hl
    exact kept_singleton.mp hl
  · intro hw
    apply List.flatMap_congr
    intro l hl
    by_cases hm : matching config.directives l = none
    · exact leftOf_none hm
    · rw [leftOf_matched h hm, kept_singleton.mpr (hw l hl hm)]

theorem kept_exchanged_whole {config : ChronyConfigDTO} {ls : List (List UInt8)} (h : KeywordsWhole config ls)
    (he : kept config (exchanged config ls) = kept config ls) : NothingAdded config := by
  have hle : ∀ l ∈ ls, (kept config [l]).length ≤ (leftOf config l).length := by
    intro l hl
    by_cases hm : matching config.directives l = none
    · rw [leftOf_none hm]
    · rw [kept_singleton.mpr (h l hl hm)]
      exact Nat.zero_le _
  rw [kept_exchanged, kept_lines config ls] at he
  have hlength := congrArg List.length he
  rw [List.length_append] at hlength
  obtain ⟨hk, hlen⟩ := Lines.flatMap_lengths hle hlength
  by_cases ha : addedLines config = []
  · intro l hl
    rw [ha] at hl
    cases hl
  obtain ⟨d, hd, hlater⟩ := exists_later ha
  apply kept_eq_nil.mp
  rw [← hlater]
  by_cases hm : d.keyword ∈ ls.filterMap fun l => (matching config.directives l).map Directive.keyword
  · obtain ⟨l, hl, hkey⟩ := List.mem_filterMap.mp hm
    obtain ⟨d', hd', hsame⟩ := Option.map_eq_some_iff.mp hkey
    have hleft := hlen l hl
    rw [leftOf_some hd', kept_singleton.mpr (h l hl (by simp [hd'])), List.length_nil,
      List.length_eq_zero_iff] at hleft
    rwa [later_of_mem hd, ← hsame, ← later_of_mem (List.mem_of_find?_eq_some hd')]
  · have hnil := List.flatMap_eq_nil_iff.mp (List.length_eq_zero_iff.mp hk)
    exact hnil d (List.mem_filter.mpr ⟨hd, by simpa using hm⟩)

def TakenForServer (config : ChronyConfigDTO) (l : List UInt8) : Prop :=
  (matching config.directives l).map Directive.keyword = some (text "server")

instance (config : ChronyConfigDTO) (l : List UInt8) : Decidable (TakenForServer config l) :=
  inferInstanceAs (Decidable (_ = _))

/-- Where no line is taken for the server, it goes to the end. -/
def withServer (config : ChronyConfigDTO) (ls : List (List UInt8)) : List (List UInt8) :=
  if ∃ l ∈ ls, TakenForServer config l then ls else ls ++ [text "server"]

def stays (config : ChronyConfigDTO) (l : List UInt8) : Bool :=
  decide (matching config.directives l = none ∧ Other config l)

def lostLines (config : ChronyConfigDTO) (ls : List (List UInt8)) : List (List UInt8) :=
  ls.filter fun l => matching config.directives l ≠ none ∧ Other config l

def begunLines (config : ChronyConfigDTO) (ls : List (List UInt8)) : List (List UInt8) :=
  ls.flatMap fun l => if TakenForServer config l then kept config (addedLines config) else []

theorem begun_stretch {config : ChronyConfigDTO} {st : List (List UInt8)} (h : ∀ l ∈ st, stays config l = false) :
    st.flatMap (leftOf config) = begunLines config st := by
  apply List.flatMap_congr
  intro l hl
  cases hm : matching config.directives l with
  | none =>
    have ho : ¬ Other config l := by simpa [stays, hm] using h l hl
    rw [leftOf_none hm, kept_singleton.mpr ho, if_neg (by simp [TakenForServer, hm])]
  | some d =>
    rw [leftOf_some hm, later_of_mem (List.mem_of_find?_eq_some hm)]
    by_cases hk : d.keyword = text "server"
    · rw [if_pos hk, if_pos (by simp [TakenForServer, hm, hk])]
    · rw [if_neg hk, if_neg (by simp [TakenForServer, hm, hk])]
      rfl

theorem lost_stretch {config : ChronyConfigDTO} {st : List (List UInt8)} (h : ∀ l ∈ st, stays config l = false) :
    kept config st = lostLines config st := by
  apply List.filter_congr
  intro l hl
  have hm : ¬ (matching config.directives l = none ∧ Other config l) := of_decide_eq_false (h l hl)
  by_cases ho : Other config l
  · simpa [ho] using fun hn => hm ⟨hn, ho⟩
  · simp [ho]

section server

variable {config : ChronyConfigDTO} {server : List UInt8} (hs : config.server = some server)

include hs

theorem directives_server : ∃ others, config.directives = serverDirective server :: others ∧
    ∀ d ∈ others, d.later = [] := by
  obtain ⟨numbers, hn, hnumbers⟩ := directives_split config
  rw [hs] at hn
  exact ⟨numbers, hn, fun d hd => (hnumbers d hd).2⟩

theorem matching_server : matching config.directives (text "server") = some (serverDirective server) := by
  obtain ⟨others, ho, -⟩ := directives_server hs
  rw [matching, ho, List.find?_cons_of_pos]
  rfl

theorem kept_withServer (ls : List (List UInt8)) : kept config (withServer config ls) = kept config ls := by
  obtain ⟨others, ho, -⟩ := directives_server hs
  rw [withServer]
  split_ifs
  · rfl
  · rw [kept_append, kept_singleton.mpr, List.append_nil]
    intro h
    refine h.2 ?_
    rw [ho, List.map_cons]
    exact List.mem_cons_self

theorem missing_server (p : Directive → Bool) : (config.directives.filter p).flatMap (fun d => kept config d.later) =
    if p (serverDirective server) then kept config (serverDirective server).later else [] := by
  obtain ⟨others, ho, hothers⟩ := directives_server hs
  have hquiet : (others.filter p).flatMap (fun d => kept config d.later) = [] :=
    List.flatMap_eq_nil_iff.mpr fun d hd => by rw [hothers d (List.mem_filter.mp hd).1]; rfl
  rw [ho, List.filter_cons]
  split_ifs
  · rw [List.flatMap_cons, hquiet, List.append_nil]
  · exact hquiet

theorem kept_exchanged_server (ls : List (List UInt8)) :
    kept config (exchanged config ls) = (withServer config ls).flatMap (leftOf config) := by
  have htaken : text "server" ∈ ls.filterMap (fun l => (matching config.directives l).map Directive.keyword) ↔
      ∃ l ∈ ls, TakenForServer config l := List.mem_filterMap
  rw [kept_exchanged, missing_server hs, withServer]
  split_ifs with hm ht ht
  · exact absurd (htaken.mpr ht) (of_decide_eq_true hm)
  · rw [List.flatMap_append, List.flatMap_singleton, leftOf_some (matching_server hs)]
  · exact List.append_nil _
  · exact absurd (decide_eq_true (mt htaken.mp ht)) hm

theorem kept_exchanged_both (ls : List (List UInt8)) :
    kept config (exchanged config ls) = kept config ls ↔
      ∀ st ∈ (withServer config ls).splitOnP (stays config), lostLines config st = begunLines config st := by
  have hstays (l : List UInt8) (hl : stays config l = true) : ∃ b, (matching config.directives b).isNone = true ∧
      leftOf config l = [b] ∧ kept config [l] = [b] := by
    obtain ⟨hm, ho⟩ := of_decide_eq_true hl
    have hk : kept config [l] = [l] := by simp [kept, ho]
    exact ⟨l, by rw [hm]; rfl, (leftOf_none hm).trans hk, hk⟩
  have hlost (l : List UInt8) (hl : stays config l = false) :
      ∀ b ∈ kept config [l], (matching config.directives b).isNone = false := by
    intro b hb
    obtain ⟨hb, ho⟩ := List.mem_filter.mp hb
    obtain rfl := List.mem_singleton.mp hb
    have hm : ¬ (matching config.directives b = none ∧ Other config b) := of_decide_eq_false hl
    exact Option.isNone_eq_false_iff.mpr (Option.isSome_iff_ne_none.mpr fun hn => hm ⟨hn, of_decide_eq_true ho⟩)
  rw [kept_exchanged_server hs, ← kept_withServer hs ls, kept_lines, flatMap_eq_iff_stretches hstays hlost]
  apply forall₂_congr
  intro st hst
  rw [begun_stretch (of_mem_splitOnP hst), ← kept_lines, lost_stretch (of_mem_splitOnP hst), eq_comm]

end server

theorem exists_server {config : ChronyConfigDTO} (h : ¬ NothingAdded config) : ∃ server, config.server = some server := by
  cases hs : config.server with
  | none =>
    refine absurd ?_ h
    rw [NothingAdded, addedLines, hs]
    intro l hl
    cases hl
  | some server => exact ⟨server, rfl⟩

/-- Lines of other fields survive as they are exactly where none is taken for a supplied field and
the server string begins none. Where both fail, between two lines that stay, the lines lost must be
those that the server string begins. -/
theorem otherLines_updated_iff {config : ChronyConfigDTO} {file file' : ConfigFile}
    (h : updateConfiguration config file = .ok file') :
    otherLines config file'.content = otherLines config file.content ↔
      (KeywordsWhole config (linesOf newline file.content) ∧ NothingAdded config) ∨
      (¬ KeywordsWhole config (linesOf newline file.content) ∧ ¬ NothingAdded config ∧
        ∀ st ∈ (withServer config (linesOf newline file.content)).splitOnP (stays config),
          lostLines config st = begunLines config st) := by
  rw [otherLines_updated h]
  change kept config _ = kept config (linesOf newline file.content) ↔ _
  have hboth (ha : ¬ NothingAdded config) :=
    have ⟨_, hs⟩ := exists_server ha
    kept_exchanged_both hs (linesOf newline file.content)
  constructor
  · intro he
    by_cases hw : KeywordsWhole config (linesOf newline file.content)
    · exact .inl ⟨hw, kept_exchanged_whole hw he⟩
    · have ha : ¬ NothingAdded config := fun hn => hw ((kept_exchanged_quiet hn _).mp he)
      exact .inr ⟨hw, ha, (hboth ha).mp he⟩
  · rintro (⟨hw, hn⟩ | ⟨-, ha, hst⟩)
    · exact (kept_exchanged_quiet hn _).mpr hw
    · exact (hboth ha).mpr hst

def serverOnly (server : String) : ChronyConfigDTO := ⟨some (text server), none, none, none⟩

theorem otherLines_updated_iff_oneServer :
    ∃ file', updateConfiguration (serverOnly "a") ⟨text "pool p\nserver b\n", true, true⟩ = .ok file' ∧
      otherLines (serverOnly "a") file'.content = [text "pool p"] := by
  obtain ⟨file', h⟩ : ∃ file', updateConfiguration (serverOnly "a") ⟨text "pool p\nserver b\n", true, true⟩ =
    .ok file' := ⟨_, rfl⟩
  refine ⟨file', h, ((otherLines_updated_iff h).mpr (.inl ⟨?_, ?_⟩)).trans (by decide)⟩
  · unfold KeywordsWhole
    decide
  · unfold NothingAdded
    decide

theorem server_touches_others :
    (∃ file', updateConfiguration (serverOnly "a\nallow all") ⟨text "pool p\n", true, true⟩ = .ok file' ∧
      otherLines (serverOnly "a\nallow all") file'.content ≠ otherLines (serverOnly "a\nallow all") (text "pool p\n")) ∧
    ∃ file', updateConfiguration (serverOnly "a") ⟨text "serverstats 1\n", true, true⟩ = .ok file' ∧
      otherLines (serverOnly "a") file'.content ≠ otherLines (serverOnly "a") (text "serverstats 1\n") :=
  ⟨⟨_, rfl, by decide⟩, ⟨_, rfl, by decide⟩⟩

end OpenTwins
