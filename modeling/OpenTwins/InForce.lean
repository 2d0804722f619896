import OpenTwins.Settings

/-!
Which lines of the updated file set a supplied field. The time service skips blanks before the
keyword and reads it as a whole word; the update looks at how a line begins.
-/

namespace OpenTwins

open Lines

def activeLines (k : List UInt8) (ls : List (List UInt8)) : List (List UInt8) := ls.filter fun l => firstWord l = k

structure Plain (k : List UInt8) (ls : List (List UInt8)) : Prop where
  single : (startingWith k ls).length ≤ 1
  unindented : ∀ l ∈ ls, firstWord l = k → k.isPrefixOf l = true

theorem firstWord_line (d : Directive) : firstWord d.line = d.keyword := by
  rw [Directive.line, List.append_assoc]
  exact firstWord_append d.ne d.no_space (by decide) d.value

theorem prefix_firstWord {k l : List UInt8} (hk : k ∈ keywords) (h : k.isPrefixOf l = true) :
    k.isPrefixOf (firstWord l) = true := by
  have hnonempty : ∀ k ∈ keywords, k ≠ [] := by decide
  have hne := hnonempty k hk
  have hwords : keywords.all (fun k => k.all fun c => !isSpace c) = true := by decide
  have hw : ∀ c ∈ k, isSpace c = false := by
    simpa using List.all_eq_true.mp hwords k hk
  obtain ⟨rest, rfl⟩ := List.isPrefixOf_iff_prefix.mp h
  rw [List.isPrefixOf_iff_prefix, firstWord, Lines.firstWord, dropWhile_word hne hw,
    List.takeWhile_append_of_pos fun c hc => by simp [hw c hc]]
  exact List.prefix_append _ _

section plain

variable {config : ChronyConfigDTO} {d : Directive} (hd : d ∈ config.directives) {ls : List (List UInt8)}
include hd

theorem startingWith_active : startingWith d.keyword (newLines config ls) =
    (startingWith d.keyword (newLines config ls)).filter fun l => firstWord l = d.keyword := by
  rw [startingWith_supplied hd]
  symm
  rw [List.filter_eq_self]
  intro l hl
  rw [List.eq_of_mem_replicate hl, decide_eq_true_eq]
  exact firstWord_line d

theorem rewritten_of_stray {l : List UInt8} (hw : firstWord l = d.keyword) (hl : ¬ d.keyword.isPrefixOf l = true) :
    rewritten config l = l := by
  apply rewritten_of_remaining
  intro k hk hp
  have hself : d.keyword.isPrefixOf d.keyword = true := List.isPrefixOf_iff_prefix.mpr (List.prefix_refl _)
  have hword := prefix_firstWord hk hp
  rw [hw] at hword
  exact hl (keyword_unique hk (keyword_mem hd) hword hself ▸ hp)

theorem active_newLines (h : Plain d.keyword ls) : activeLines d.keyword (newLines config ls) = [d.line] := by
  have hsame : activeLines d.keyword (newLines config ls) = startingWith d.keyword (newLines config ls) := by
    apply List.filter_congr
    intro l hl
    rw [Bool.eq_iff_iff, decide_eq_true_eq]
    constructor
    · intro hw
      rcases mem_newLines hl with ⟨hl, -⟩ | rfl | ⟨d', -, rfl⟩
      · exact h.unindented l hl hw
      · exact absurd hw.symm d.ne
      · rw [← hw, firstWord_line]
        exact keyword_prefix_line d'
    · intro hp
      have hmem : l ∈ startingWith d.keyword (newLines config ls) := List.mem_filter.mpr ⟨hl, hp⟩
      rw [startingWith_supplied hd] at hmem
      rw [List.eq_of_mem_replicate hmem]
      exact firstWord_line d
  rw [hsame, startingWith_supplied hd, Nat.max_eq_left h.single, List.replicate_one]

theorem plain_of_active (h : activeLines d.keyword (newLines config ls) = [d.line]) : Plain d.keyword ls := by
  constructor
  · have hsub : (startingWith d.keyword (newLines config ls)).Sublist (activeLines d.keyword (newLines config ls)) := by
      rw [startingWith_active hd]
      exact List.filter_sublist.filter _
    have hle := hsub.length_le
    rw [h, startingWith_supplied hd, List.length_replicate] at hle
    exact (le_max_right _ _).trans hle
  · intro l hl hw
    by_contra hp
    have hmem : l ∈ activeLines d.keyword (newLines config ls) := by
      apply List.mem_filter.mpr
      refine ⟨List.mem_append_left _ (List.mem_map.mpr ⟨l, hl, rewritten_of_stray hd hw hp⟩), decide_eq_true hw⟩
    rw [h, List.mem_singleton] at hmem
    exact hp (hmem ▸ keyword_prefix_line d)

end plain

/-- After an update that succeeds each supplied field is set by its one line, exactly where the old
file had at most one line beginning with the keyword and none that sets it otherwise. -/
theorem inForce_iff {config : ChronyConfigDTO} (hs : OneLineServer config) {file file' : ConfigFile}
    (h : updateConfiguration config file = .ok file') :
    (∀ d ∈ config.directives, activeLines d.keyword (linesOf newline file'.content) = [d.line]) ↔
      ∀ d ∈ config.directives, Plain d.keyword (linesOf newline file.content) := by
  rw [updateConfiguration_eq] at h
  split_ifs at h
  cases h
  simp only
  rw [hs.linesOf_written]
  apply forall₂_congr
  intro d hd
  exact ⟨plain_of_active hd, active_newLines hd⟩

theorem inForce_iff_oneServer :
    ∃ file', updateConfiguration (serverOnly "c") ⟨text "server a\nminpoll 3", true, true⟩ = .ok file' ∧
      ∀ d ∈ (serverOnly "c").directives, activeLines d.keyword (linesOf newline file'.content) = [d.line] := by
  obtain ⟨file', h⟩ : ∃ file', updateConfiguration (serverOnly "c") ⟨text "server a\nminpoll 3", true, true⟩ =
    .ok file' := ⟨_, rfl⟩
  refine ⟨file', h, (inForce_iff (serverOnly_oneLine "c" (by decide)) h).mpr ?_⟩
  intro d hd
  rw [List.mem_singleton.mp hd]
  exact ⟨by decide, by decide⟩

theorem competing_lines :
    (∃ file', updateConfiguration (serverOnly "c") ⟨text "server a\nserver b\n", true, true⟩ = .ok file' ∧
      activeLines (text "server") (linesOf newline file'.content) =
        [text "server c iburst", text "server c iburst"]) ∧
    ∃ file', updateConfiguration (minpollOnly 4) ⟨text "  minpoll 5\n", true, true⟩ = .ok file' ∧
      activeLines (text "minpoll") (linesOf newline file'.content) = [text "  minpoll 5", text "minpoll 4"] :=
  ⟨⟨_, rfl, by decide⟩, ⟨_, rfl, by decide⟩⟩

end OpenTwins
