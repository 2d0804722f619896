import OpenTwins.Chrony
import Mathlib.Data.List.Find

namespace OpenTwins

open Lines

def keywords : List (List UInt8) := [text "server", text "polling_interval", text "minpoll", text "maxpoll"]

def setting (config : ChronyConfigDTO) (k : List UInt8) : Option (List UInt8) :=
  (config.directives.find? fun d => d.keyword = k).map Directive.line

def startingWith (k : List UInt8) (ls : List (List UInt8)) : List (List UInt8) := ls.filter fun l => k.isPrefixOf l

def remaining (ls : List (List UInt8)) : List (List UInt8) := ls.filter fun l => ∀ k ∈ keywords, ¬ k.isPrefixOf l

def mergeConfigs (earlier later : ChronyConfigDTO) : ChronyConfigDTO where
  server := later.server.or earlier.server
  pollingInterval := later.pollingInterval.or earlier.pollingInterval
  minpoll := later.minpoll.or earlier.minpoll
  maxpoll := later.maxpoll.or earlier.maxpoll

def configured (config : ChronyConfigDTO) (file : ConfigFile) : ConfigFile :=
  match updateConfiguration config file with
  | .ok file' => file'
  | .error _ => file

def OneLineServer (config : ChronyConfigDTO) : Prop := ∀ s ∈ config.server, newline ∉ s

theorem keyword_unique {k k' l : List UInt8} (hk : k ∈ keywords) (hk' : k' ∈ keywords)
    (h : k.isPrefixOf l = true) (h' : k'.isPrefixOf l = true) : k = k' := by
  have hseparate : ∀ k ∈ keywords, ∀ k' ∈ keywords, k <+: k' → k = k' := by decide
  rw [List.isPrefixOf_iff_prefix] at h h'
  rcases List.prefix_or_prefix_of_prefix h h' with hp | hp
  · exact hseparate k hk k' hk' hp
  · exact (hseparate k' hk' k hk hp).symm

theorem setting_server (config : ChronyConfigDTO) :
    setting config (text "server") = config.server.map fun s => (serverDirective s).line := by
  rcases config with ⟨_ | _, _ | _, _ | _, _ | _⟩ <;> rfl

theorem setting_pollingInterval (config : ChronyConfigDTO) : setting config (text "polling_interval") =
    config.pollingInterval.map fun z => (pollingIntervalDirective z).line := by
  rcases config with ⟨_ | _, _ | _, _ | _, _ | _⟩ <;> rfl

theorem setting_minpoll (config : ChronyConfigDTO) :
    setting config (text "minpoll") = config.minpoll.map fun z => (minpollDirective z).line := by
  rcases config with ⟨_ | _, _ | _, _ | _, _ | _⟩ <;> rfl

theorem setting_maxpoll (config : ChronyConfigDTO) :
    setting config (text "maxpoll") = config.maxpoll.map fun z => (maxpollDirective z).line := by
  rcases config with ⟨_ | _, _ | _, _ | _, _ | _⟩ <;> rfl

theorem forall_keywords {P : List UInt8 → Prop} : (∀ k ∈ keywords, P k) ↔
    P (text "server") ∧ P (text "polling_interval") ∧ P (text "minpoll") ∧ P (text "maxpoll") := by
  simp [keywords]

theorem setting_merge (earlier later : ChronyConfigDTO) : ∀ k ∈ keywords,
    setting (mergeConfigs earlier later) k = (setting later k).or (setting earlier k) := by
  rw [forall_keywords]
  simp only [setting_server, setting_pollingInterval, setting_minpoll, setting_maxpoll, mergeConfigs, Option.map_or,
    and_self]

theorem map_keyword (config : ChronyConfigDTO) :
    config.directives.map Directive.keyword = keywords.filter fun k => (setting config k).isSome := by
  rcases config with ⟨_ | _, _ | _, _ | _, _ | _⟩ <;> rfl

theorem filter_key {α κ : Type} [DecidableEq κ] {key : α → κ} {l : List α} (hn : (l.map key).Nodup) {a : α}
    (ha : a ∈ l) : l.filter (fun x => key x = key a) = [a] := by
  induction l with
  | nil => cases ha
  | cons b l ih =>
    rw [List.map_cons, List.nodup_cons] at hn
    rcases List.mem_cons.mp ha with rfl | ha
    · rw [List.filter_cons_of_pos (by simp), List.filter_eq_nil_iff.mpr]
      intro x hx
      rw [decide_eq_true_eq]
      intro h
      exact hn.1 (h ▸ List.mem_map_of_mem hx)
    · rw [List.filter_cons_of_neg, ih hn.2 ha]
      rw [decide_eq_true_eq]
      intro h
      exact hn.1 (h ▸ List.mem_map_of_mem ha)

theorem flatMap_ite {α β : Type} (p : α → Prop) [DecidablePred p] (f : α → β) (l : List α) :
    (l.flatMap fun a => if p a then [f a] else []) = (l.filter fun a => p a).map f := by
  induction l with
  | nil => rfl
  | cons a l ih =>
    rw [List.flatMap_cons, ih]
    by_cases h : p a <;> simp [h]

theorem countP_split {α : Type} {p q r : α → Bool} {l : List α}
    (h : ∀ a ∈ l, (r a = true ↔ p a = true ∨ q a = true) ∧ ¬ (p a = true ∧ q a = true)) :
    l.countP p + l.countP q = l.countP r := by
  induction l with
  | nil => rfl
  | cons a l ih =>
    obtain ⟨ha, hl⟩ := List.forall_mem_cons.mp h
    rw [List.countP_cons, List.countP_cons, List.countP_cons, ← ih hl]
    by_cases hp : p a = true <;> by_cases hq : q a = true <;> simp_all <;> omega

section update

variable {config : ChronyConfigDTO}

theorem keyword_mem {d : Directive} (h : d ∈ config.directives) : d.keyword ∈ keywords := by
  have hk : d.keyword ∈ config.directives.map Directive.keyword := List.mem_map_of_mem h
  rw [map_keyword] at hk
  exact (List.mem_filter.mp hk).1

theorem keyword_prefix_line (d : Directive) : d.keyword.isPrefixOf d.line = true := by
  rw [List.isPrefixOf_iff_prefix, Directive.line, List.append_assoc]
  exact List.prefix_append _ _

theorem nodup_keyword (config : ChronyConfigDTO) : (config.directives.map Directive.keyword).Nodup := by
  rw [map_keyword]
  exact (show keywords.Nodup by decide).filter _

theorem find_keyword_iff {k : List UInt8} {d : Directive} :
    config.directives.find? (fun d => d.keyword = k) = some d ↔ d ∈ config.directives ∧ d.keyword = k := by
  constructor
  · intro h
    have hk := List.find?_some h
    exact ⟨List.mem_of_find?_eq_some h, by simpa using hk⟩
  · rintro ⟨hd, rfl⟩
    have hsome : (config.directives.find? fun d' => d'.keyword = d.keyword).isSome := by
      rw [List.find?_isSome]
      exact ⟨d, hd, by simp⟩
    obtain ⟨d', hd'⟩ := Option.isSome_iff_exists.mp hsome
    have hk := List.find?_some hd'
    rw [hd', List.inj_on_of_nodup_map (nodup_keyword config) (List.mem_of_find?_eq_some hd') hd (by simpa using hk)]

theorem setting_eq_some {k line : List UInt8} :
    setting config k = some line ↔ ∃ d ∈ config.directives, d.keyword = k ∧ d.line = line := by
  simp only [setting, Option.map_eq_some_iff, find_keyword_iff, and_assoc]

theorem matching_prefixed {k l : List UInt8} (hk : k ∈ keywords) (hl : k.isPrefixOf l = true) :
    matching config.directives l = config.directives.find? fun d => d.keyword = k := by
  apply List.find?_congr
  intro d hd
  rw [Bool.eq_iff_iff, decide_eq_true_eq]
  constructor
  · intro h
    exact keyword_unique (keyword_mem hd) hk h hl
  · rintro rfl
    exact hl

theorem matching_of_remaining {l : List UInt8} (hl : ∀ k ∈ keywords, ¬ k.isPrefixOf l = true) :
    matching config.directives l = none := by
  rw [matching, List.find?_eq_none]
  intro d hd
  exact hl d.keyword (keyword_mem hd)

def rewritten (config : ChronyConfigDTO) (l : List UInt8) : List UInt8 :=
  ((matching config.directives l).map Directive.line).getD l

theorem rewritten_prefixed {k l : List UInt8} (hk : k ∈ keywords) (hl : k.isPrefixOf l = true) :
    rewritten config l = (setting config k).getD l := by
  rw [rewritten, matching_prefixed hk hl, setting]

theorem rewritten_of_remaining {l : List UInt8} (hl : ∀ k ∈ keywords, ¬ k.isPrefixOf l = true) :
    rewritten config l = l := by
  rw [rewritten, matching_of_remaining hl]
  rfl

theorem setting_of_mem {d : Directive} (hd : d ∈ config.directives) : setting config d.keyword = some d.line :=
  setting_eq_some.mpr ⟨d, hd, rfl, rfl⟩

theorem prefix_rewritten {k : List UInt8} (hk : k ∈ keywords) (l : List UInt8) :
    k.isPrefixOf (rewritten config l) = k.isPrefixOf l := by
  by_cases hl : ∀ k ∈ keywords, ¬ k.isPrefixOf l = true
  · rw [rewritten_of_remaining hl]
  · push Not at hl
    obtain ⟨k', hk', hl'⟩ := hl
    rw [rewritten_prefixed hk' hl']
    cases hs : setting config k' with
    | none => rfl
    | some line =>
      obtain ⟨d, -, rfl, rfl⟩ := setting_eq_some.mp hs
      rw [Option.getD_some, Bool.eq_iff_iff]
      constructor
      · intro h
        rwa [keyword_unique hk hk' h (keyword_prefix_line d)]
      · intro h
        rw [keyword_unique hk hk' h hl']
        exact keyword_prefix_line d

theorem startingWith_rewritten {k : List UInt8} (hk : k ∈ keywords) (ls : List (List UInt8)) :
    startingWith k (ls.map (rewritten config)) = (startingWith k ls).map fun l => (setting config k).getD l := by
  rw [startingWith, List.filter_map, startingWith]
  have hsame : ((fun l => k.isPrefixOf l) ∘ rewritten config) = fun l => k.isPrefixOf l :=
    funext fun l => prefix_rewritten hk l
  rw [hsame]
  apply List.map_congr_left
  intro l hl
  exact rewritten_prefixed hk (List.mem_filter.mp hl).2

theorem remaining_rewritten (ls : List (List UInt8)) :
    remaining (ls.map (rewritten config)) = remaining ls := by
  rw [remaining, List.filter_map, remaining]
  have hsame : ((fun l => decide (∀ k ∈ keywords, ¬ k.isPrefixOf l = true)) ∘ rewritten config) =
      fun l => decide (∀ k ∈ keywords, ¬ k.isPrefixOf l = true) := by
    funext l
    apply decide_eq_decide.mpr
    exact forall₂_congr fun k hk => by rw [prefix_rewritten hk]
  rw [hsame]
  apply (List.map_congr_left fun l hl => ?_).trans (List.map_id _)
  exact rewritten_of_remaining (of_decide_eq_true (List.mem_filter.mp hl).2)

def unplaced (config : ChronyConfigDTO) (ls : List (List UInt8)) : List Directive :=
  config.directives.filter fun d => startingWith d.keyword ls = []

def newLines (config : ChronyConfigDTO) (ls : List (List UInt8)) : List (List UInt8) :=
  ls.map (rewritten config) ++ (unplaced config ls).flatMap fun d => [[], d.line]

theorem mem_updatedFields {d : Directive} (hd : d ∈ config.directives) (ls : List (List UInt8)) :
    d.keyword ∈ (ls.filterMap fun l => (matching config.directives l).map Directive.keyword) ↔
      startingWith d.keyword ls ≠ [] := by
  rw [List.mem_filterMap, startingWith, ne_eq, List.filter_eq_nil_iff]
  push Not
  apply exists_congr
  intro l
  apply and_congr_right
  intro _
  rw [Option.map_eq_some_iff]
  constructor
  · rintro ⟨d', hd', hk⟩
    rw [← hk]
    exact List.find?_some (p := fun d : Directive => d.keyword.isPrefixOf l) hd'
  · intro hl
    exact ⟨d, by rw [matching_prefixed (keyword_mem hd) hl, find_keyword_iff.mpr ⟨hd, rfl⟩], rfl⟩

theorem configLines_eq (config : ChronyConfigDTO) (ls : List (List UInt8)) :
    (config.directives.foldl appendMissing (ls.foldl (rewriteLine config.directives) ⟨[], []⟩)).configLines =
      newLines config ls := by
  have hunplaced : (config.directives.filter fun d => d.keyword ∉ ls.filterMap fun l =>
      (matching config.directives l).map Directive.keyword) = unplaced config ls := by
    apply List.filter_congr
    intro d hd
    rw [decide_eq_decide, mem_updatedFields hd, not_not]
  simp only [rewriteLines_eq, appendMissing_eq, List.nil_append, hunplaced]
  rfl

theorem updateConfiguration_eq (file : ConfigFile) : updateConfiguration config file =
    if !file.readable then .error "Cant open old config file."
    else if !file.writable then .error "Cant open new config file."
    else .ok { file with content := written newline (newLines config (linesOf newline file.content)) } := by
  simp only [updateConfiguration, configLines_eq]

theorem startingWith_pair {k : List UInt8} (hk : k ∈ keywords) {d : Directive} (hd : d ∈ config.directives) :
    startingWith k [[], d.line] = if d.keyword = k then [d.line] else [] := by
  have hnil : ¬ k.isPrefixOf [] = true := by
    revert k
    decide
  rw [startingWith, List.filter_cons_of_neg hnil]
  split_ifs with h
  · subst h
    rw [List.filter_cons_of_pos (keyword_prefix_line d), List.filter_nil]
  · rw [List.filter_cons_of_neg, List.filter_nil]
    intro hp
    exact h (keyword_unique (keyword_mem hd) hk (keyword_prefix_line d) hp)

theorem startingWith_append (k : List UInt8) (xs ys : List (List UInt8)) :
    startingWith k (xs ++ ys) = startingWith k xs ++ startingWith k ys := List.filter_append ..

theorem startingWith_unplaced {k : List UInt8} (hk : k ∈ keywords) (ls : List (List UInt8)) :
    startingWith k ((unplaced config ls).flatMap fun d => [[], d.line]) =
      ((unplaced config ls).filter fun d => d.keyword = k).map Directive.line := by
  rw [startingWith, List.filter_flatMap, ← flatMap_ite]
  apply List.flatMap_congr
  intro d hd
  exact startingWith_pair hk (List.mem_filter.mp hd).1

theorem startingWith_newLines {k : List UInt8} (hk : k ∈ keywords) (ls : List (List UInt8)) :
    startingWith k (newLines config ls) = match setting config k with
      | none => startingWith k ls
      | some line => List.replicate (max 1 (startingWith k ls).length) line := by
  rw [newLines, startingWith_append, startingWith_rewritten hk, startingWith_unplaced hk]
  cases hs : setting config k with
  | none =>
    have hnone : ∀ d ∈ config.directives, ¬ d.keyword = k := by
      intro d hd h
      rw [← h, setting_eq_some.mpr ⟨d, hd, rfl, rfl⟩] at hs
      cases hs
    rw [List.filter_eq_nil_iff.mpr fun d hd => by simpa using hnone d (List.mem_filter.mp hd).1]
    simp
  | some line =>
    obtain ⟨d, hd, rfl, rfl⟩ := setting_eq_some.mp hs
    by_cases hl : startingWith d.keyword ls = []
    · have hunplaced : d ∈ unplaced config ls := List.mem_filter.mpr ⟨hd, decide_eq_true hl⟩
      have hnodup : ((unplaced config ls).map Directive.keyword).Nodup :=
        (nodup_keyword config).sublist (List.filter_sublist.map _)
      rw [hl, filter_key hnodup hunplaced]
      rfl
    · rw [List.filter_eq_nil_iff.mpr, List.map_nil, List.append_nil]
      · have hpos := List.length_pos_iff.mpr hl
        simp only [Option.getD_some, List.map_const']
        rw [Nat.max_eq_right hpos]
      · intro d' hd' h
        rw [decide_eq_true_eq] at h
        exact hl (h ▸ of_decide_eq_true (List.mem_filter.mp hd').2)

theorem startingWith_supplied {d : Directive} (hd : d ∈ config.directives) (ls : List (List UInt8)) :
    startingWith d.keyword (newLines config ls) = List.replicate (max 1 (startingWith d.keyword ls).length) d.line := by
  rw [startingWith_newLines (keyword_mem hd), setting_of_mem hd]

theorem remaining_newLines (ls : List (List UInt8)) :
    remaining (newLines config ls) = remaining ls ++ List.replicate (unplaced config ls).length [] := by
  rw [newLines, remaining, List.filter_append, ← remaining, remaining_rewritten, List.filter_flatMap,
    ← List.map_const', List.map_eq_flatMap]
  congr 1
  apply List.flatMap_congr
  intro d hd
  rw [List.filter_cons_of_pos (by decide), List.filter_cons_of_neg, List.filter_nil]
  rw [decide_eq_true_eq]
  intro h
  exact h d.keyword (keyword_mem (List.mem_filter.mp hd).1) (keyword_prefix_line d)

theorem length_unplaced (ls : List (List UInt8)) : (unplaced config ls).length =
    keywords.countP fun k => (setting config k).isSome ∧ startingWith k ls = [] := by
  have hmap : (unplaced config ls).length =
      ((config.directives.map Directive.keyword).filter fun k => startingWith k ls = []).length := by
    rw [List.filter_map, List.length_map]
    rfl
  rw [hmap, map_keyword, List.filter_filter, ← List.countP_eq_length_filter]
  apply List.countP_congr
  intro k _
  simp [and_comm]

theorem unplaced_newLines (ls : List (List UInt8)) : unplaced config (newLines config ls) = [] := by
  rw [unplaced, List.filter_eq_nil_iff]
  intro d hd h
  rw [decide_eq_true_eq, startingWith_supplied hd, List.replicate_eq_nil_iff] at h
  omega

theorem rewritten_line {d : Directive} (hd : d ∈ config.directives) : rewritten config d.line = d.line := by
  rw [rewritten_prefixed (keyword_mem hd) (keyword_prefix_line d), setting_of_mem hd]
  rfl

theorem mem_newLines {l : List UInt8} {ls : List (List UInt8)} (h : l ∈ newLines config ls) :
    l ∈ ls ∧ rewritten config l = l ∨ l = [] ∨ ∃ d ∈ config.directives, l = d.line := by
  rcases List.mem_append.mp h with h | h
  · obtain ⟨l, hl, rfl⟩ := List.mem_map.mp h
    cases hm : matching config.directives l with
    | none =>
      have hsame : rewritten config l = l := by
        rw [rewritten, hm]
        rfl
      rw [hsame]
      exact .inl ⟨hl, hsame⟩
    | some d =>
      refine .inr (.inr ⟨d, List.mem_of_find?_eq_some hm, ?_⟩)
      rw [rewritten, hm]
      rfl
  · obtain ⟨d, hd, hl⟩ := List.mem_flatMap.mp h
    rcases List.mem_pair.mp hl with rfl | rfl
    · exact .inr (.inl rfl)
    · exact .inr (.inr ⟨d, (List.mem_filter.mp hd).1, rfl⟩)

theorem newLines_newLines (ls : List (List UInt8)) :
    newLines config (newLines config ls) = newLines config ls := by
  rw [newLines, unplaced_newLines, List.flatMap_nil, List.append_nil]
  apply (List.map_congr_left fun l hl => ?_).trans (List.map_id _)
  rcases mem_newLines hl with ⟨-, hl⟩ | rfl | ⟨d, hd, rfl⟩
  · exact hl
  · exact rewritten_of_remaining (by decide)
  · exact rewritten_line hd

theorem OneLineServer.line (h : OneLineServer config) {d : Directive} (hd : d ∈ config.directives) :
    newline ∉ d.line := by
  have hvalue : newline ∉ d.value := by
    simp only [ChronyConfigDTO.directives, List.mem_append, Option.mem_toList, Option.map_eq_some_iff] at hd
    rcases hd with ((⟨s, hs, rfl⟩ | ⟨z, -, rfl⟩) | ⟨z, -, rfl⟩) | ⟨z, -, rfl⟩
    · simp only [serverDirective, List.mem_append, not_or]
      exact ⟨h s hs, by decide⟩
    all_goals exact notMem_stdToString _
  have hkeyword : newline ∉ d.keyword := by
    intro hk
    exact absurd (d.no_space newline hk) (by decide)
  simp only [Directive.line, List.mem_append, not_or]
  exact ⟨⟨hkeyword, by decide⟩, hvalue⟩

theorem OneLineServer.notMem (h : OneLineServer config) {ls : List (List UInt8)} (hls : ∀ l ∈ ls, newline ∉ l) :
    ∀ l ∈ newLines config ls, newline ∉ l := by
  intro l hl
  rcases mem_newLines hl with ⟨hl, -⟩ | rfl | ⟨d, hd, rfl⟩
  · exact hls l hl
  · exact List.not_mem_nil
  · exact h.line hd

theorem OneLineServer.linesOf_written (h : OneLineServer config) (content : List UInt8) :
    linesOf newline (written newline (newLines config (linesOf newline content))) =
      newLines config (linesOf newline content) :=
  linesOf_written_of_notMem (h.notMem fun _ => notMem_of_mem_linesOf)

theorem configured_eq (file : ConfigFile) : configured config file =
    if file.readable ∧ file.writable then
      { file with content := written newline (newLines config (linesOf newline file.content)) }
    else file := by
  rw [configured, updateConfiguration_eq]
  cases hr : file.readable <;> cases hw : file.writable <;> simp

end update

section merge

variable {earlier later : ChronyConfigDTO}

theorem OneLineServer.merge (h : OneLineServer earlier) (h' : OneLineServer later) :
    OneLineServer (mergeConfigs earlier later) := by
  intro s hs
  rcases Option.or_eq_some_iff.mp hs with hs | ⟨-, hs⟩
  · exact h' s hs
  · exact h s hs

theorem startingWith_merge {k : List UInt8} (hk : k ∈ keywords) (ls : List (List UInt8)) :
    startingWith k (newLines later (newLines earlier ls)) =
      startingWith k (newLines (mergeConfigs earlier later) ls) := by
  rw [startingWith_newLines hk, startingWith_newLines hk, startingWith_newLines hk, setting_merge _ _ k hk]
  cases setting later k with
  | none => cases setting earlier k <;> rfl
  | some line =>
    cases setting earlier k with
    | none => rfl
    | some line' => simp

theorem length_unplaced_merge (ls : List (List UInt8)) :
    (unplaced earlier ls).length + (unplaced later (newLines earlier ls)).length =
      (unplaced (mergeConfigs earlier later) ls).length := by
  rw [length_unplaced, length_unplaced, length_unplaced]
  apply countP_split
  intro k hk
  rw [startingWith_newLines hk, setting_merge _ _ k hk]
  cases setting later k <;> cases setting earlier k <;> simp

theorem remaining_merge (ls : List (List UInt8)) :
    remaining (newLines later (newLines earlier ls)) =
      remaining (newLines (mergeConfigs earlier later) ls) := by
  rw [remaining_newLines, remaining_newLines, remaining_newLines, List.append_assoc,
    List.replicate_append_replicate, length_unplaced_merge]

end merge

theorem configured_twice {config earlier later : ChronyConfigDTO} (hc : OneLineServer config)
    (he : OneLineServer earlier) (hl : OneLineServer later) (file : ConfigFile) :
    configured config (configured config file) = configured config file ∧
    (∀ k ∈ keywords,
      startingWith k (linesOf newline (configured later (configured earlier file)).content) =
        startingWith k (linesOf newline (configured (mergeConfigs earlier later) file).content)) ∧
    remaining (linesOf newline (configured later (configured earlier file)).content) =
      remaining (linesOf newline (configured (mergeConfigs earlier later) file).content) := by
  simp only [configured_eq]
  by_cases h : file.readable ∧ file.writable
  · simp only [if_pos h]
    rw [hc.linesOf_written, hl.linesOf_written, he.linesOf_written, (he.merge hl).linesOf_written,
      newLines_newLines]
    exact ⟨rfl, fun k hk => startingWith_merge hk _, remaining_merge _⟩
  · simp only [if_neg h]
    exact ⟨trivial, fun _ _ => trivial, trivial⟩

def minpollOnly (value : Int32) : ChronyConfigDTO := ⟨none, none, some value, none⟩

theorem serverOnly_oneLine (server : String) (h : newline ∉ text server) : OneLineServer (serverOnly server) := by
  intro s hs
  rwa [← Option.mem_some.mp hs]

theorem configured_twice_sample :
    remaining (linesOf newline (configured (minpollOnly 4) (configured (serverOnly "a")
      ⟨text "pool p\nserver b", true, true⟩)).content) = [text "pool p", []] := by
  have hserver := serverOnly_oneLine "a" (by decide)
  have hminpoll : OneLineServer (minpollOnly 4) := fun s hs => nomatch hs
  obtain ⟨-, -, h⟩ := configured_twice hserver hserver hminpoll ⟨text "pool p\nserver b", true, true⟩
  exact h.trans (by decide)

end OpenTwins
