import OpenTwins.ConfigureRoute
import OpenTwins.LastWrite

namespace OpenTwins

open Lines LastWrite

structure PatchRequest where
  body : JsonBody
  readable : Bool
  writable : Bool

def serve (i : List UInt8 → Int64) : List PatchRequest → List UInt8 → List Response × List UInt8
  | [], content => ([], content)
  | r :: requests, content =>
    let (response, file) := configure i r.body ⟨content, r.readable, r.writable⟩
    let (responses, content) := serve i requests file.content
    (response :: responses, content)

def PatchRequest.config (i : List UInt8 → Int64) (r : PatchRequest) : Option ChronyConfigDTO :=
  match r.body with
  | .object members => if r.readable ∧ r.writable then some (requestedConfig i members) else none
  | _ => none

def settled (line : Option (List UInt8)) (ls : List (List UInt8)) : List (List UInt8) :=
  match line with
  | none => ls
  | some line => List.replicate (max 1 ls.length) line

def lastSetting (configs : List ChronyConfigDTO) (k : List UInt8) : Option (List UInt8) :=
  lastOf (fun config => setting config k) configs

theorem settled_settled (line line' : Option (List UInt8)) (ls : List (List UInt8)) :
    settled line' (settled line ls) = settled (line'.or line) ls := by
  cases line' with
  | none => rfl
  | some l' =>
    cases line with
    | none => rfl
    | some l => simp [settled]

theorem settled_eq_nil {line : Option (List UInt8)} {ls : List (List UInt8)} :
    settled line ls = [] ↔ line = none ∧ ls = [] := by
  cases line with
  | none => simp [settled]
  | some l =>
    simp only [settled, List.replicate_eq_nil_iff, reduceCtorEq, false_and, iff_false]
    omega

def updatedLines (configs : List ChronyConfigDTO) (ls : List (List UInt8)) : List (List UInt8) :=
  configs.foldl (fun ls config => newLines config ls) ls

theorem startingWith_settled {k : List UInt8} (hk : k ∈ keywords) (config : ChronyConfigDTO)
    (ls : List (List UInt8)) : startingWith k (newLines config ls) = settled (setting config k) (startingWith k ls) :=
  startingWith_newLines hk ls

theorem startingWith_updated {k : List UInt8} (hk : k ∈ keywords) (configs : List ChronyConfigDTO)
    (ls : List (List UInt8)) :
    startingWith k (updatedLines configs ls) = settled (lastSetting configs k) (startingWith k ls) := by
  induction configs generalizing ls with
  | nil => rfl
  | cons config configs ih =>
    rw [updatedLines, List.foldl_cons, ← updatedLines, ih, startingWith_settled hk, settled_settled, lastSetting,
      lastSetting, lastOf_cons]

def blanks (configs : List ChronyConfigDTO) (ls : List (List UInt8)) : ℕ :=
  keywords.countP fun k => (lastSetting configs k).isSome ∧ startingWith k ls = []

theorem blanks_nil (ls : List (List UInt8)) : blanks [] ls = 0 :=
  List.countP_eq_zero.mpr fun k _ => by simp [lastSetting, lastOf_nil]

theorem blanks_cons (config : ChronyConfigDTO) (configs : List ChronyConfigDTO) (ls : List (List UInt8)) :
    (unplaced config ls).length + blanks configs (newLines config ls) = blanks (config :: configs) ls := by
  rw [length_unplaced]
  apply countP_split
  intro k hk
  simp only [startingWith_settled hk, settled_eq_nil, lastSetting, lastOf_cons, decide_eq_true_eq]
  cases lastOf (fun config => setting config k) configs <;> cases setting config k <;> simp

theorem remaining_updated (configs : List ChronyConfigDTO) (ls : List (List UInt8)) :
    remaining (updatedLines configs ls) = remaining ls ++ List.replicate (blanks configs ls) [] := by
  induction configs generalizing ls with
  | nil =>
    rw [blanks_nil, List.replicate_zero, List.append_nil]
    rfl
  | cons config configs ih =>
    rw [updatedLines, List.foldl_cons, ← updatedLines, ih, remaining_newLines, List.append_assoc,
      List.replicate_append_replicate, blanks_cons]

theorem length_newLines (config : ChronyConfigDTO) (ls : List (List UInt8)) :
    (newLines config ls).length = ls.length + 2 * (unplaced config ls).length := by
  rw [newLines, List.length_append, List.length_map, List.length_flatMap]
  simp [mul_comm]

theorem length_updated (configs : List ChronyConfigDTO) (ls : List (List UInt8)) :
    (updatedLines configs ls).length = ls.length + 2 * blanks configs ls := by
  induction configs generalizing ls with
  | nil =>
    rw [blanks_nil]
    rfl
  | cons config configs ih =>
    rw [updatedLines, List.foldl_cons, ← updatedLines, ih, length_newLines, ← blanks_cons, add_assoc, ← mul_add]

theorem blanks_le (configs : List ChronyConfigDTO) (ls : List (List UInt8)) : blanks configs ls ≤ 4 :=
  List.countP_le_length

theorem configure_config (i : List UInt8 → Int64) (r : PatchRequest) (content : List UInt8) :
    ((configure i r.body ⟨content, r.readable, r.writable⟩).1.code = 200 ↔ (r.config i).isSome) ∧
      (configure i r.body ⟨content, r.readable, r.writable⟩).2.content =
        match r.config i with
        | none => content
        | some config => written newline (newLines config (linesOf newline content)) := by
  rcases r with ⟨_ | _ | members, readable, writable⟩
  · exact ⟨by simp [configure, PatchRequest.config], rfl⟩
  · exact ⟨by simp [configure, PatchRequest.config], rfl⟩
  · simp only [configure_object, PatchRequest.config]
    split_ifs <;> simp

def accepted (i : List UInt8 → Int64) (requests : List PatchRequest) : List ChronyConfigDTO :=
  requests.filterMap (PatchRequest.config i)

theorem serve_lines {i : List UInt8 → Int64} {requests : List PatchRequest}
    (hone : ∀ config ∈ accepted i requests, OneLineServer config) (content : List UInt8) :
    List.Forall₂ (fun r response => response.code = 200 ↔ (r.config i).isSome) requests
        (serve i requests content).1 ∧
      linesOf newline (serve i requests content).2 = updatedLines (accepted i requests) (linesOf newline content) ∧
      (accepted i requests = [] → (serve i requests content).2 = content) := by
  induction requests generalizing content with
  | nil => exact ⟨.nil, rfl, fun _ => rfl⟩
  | cons r requests ih =>
    obtain ⟨hcode, hcontent⟩ := configure_config i r content
    cases hc : r.config i with
    | none =>
      rw [accepted, List.filterMap_cons_none hc] at hone ⊢
      obtain ⟨hcodes, hlines, hsame⟩ := ih hone content
      rw [hc] at hcontent
      simp only [serve, hcontent]
      exact ⟨.cons hcode hcodes, hlines, hsame⟩
    | some config =>
      rw [accepted, List.filterMap_cons_some hc] at hone ⊢
      obtain ⟨hfirst, hrest⟩ := List.forall_mem_cons.mp hone
      obtain ⟨hcodes, hlines, -⟩ := ih hrest (written newline (newLines config (linesOf newline content)))
      rw [hc] at hcontent
      simp only [serve, hcontent]
      refine ⟨.cons hcode hcodes, ?_, fun h => by cases h⟩
      rw [hlines, hfirst.linesOf_written]
      rfl

/-- A request is answered 200 exactly where it is carried out. After all of them every keyword is set
as the last of those that named it asked, on each of its lines or on a new one, and the lines of no
keyword are the old ones, with a blank line for each new one. So the file never grows by more than
eight lines, however many requests there are. -/
theorem configure_session {i : List UInt8 → Int64} {requests : List PatchRequest}
    (hone : ∀ config ∈ accepted i requests, OneLineServer config) (content : List UInt8) :
    ∃ responses content', serve i requests content = (responses, content') ∧
      List.Forall₂ (fun r response => response.code = 200 ↔ (r.config i).isSome) requests responses ∧
      (accepted i requests = [] → content' = content) ∧
      (∀ k ∈ keywords, startingWith k (linesOf newline content') =
        settled (lastSetting (accepted i requests) k) (startingWith k (linesOf newline content))) ∧
      remaining (linesOf newline content') = remaining (linesOf newline content) ++
        List.replicate (blanks (accepted i requests) (linesOf newline content)) [] ∧
      (linesOf newline content').length ≤ (linesOf newline content).length + 8 := by
  obtain ⟨hcodes, hlines, hsame⟩ := serve_lines hone content
  refine ⟨_, _, rfl, hcodes, hsame, ?_, ?_, ?_⟩
  · intro k hk
    rw [hlines, startingWith_updated hk]
  · rw [hlines, remaining_updated]
  · have hle := blanks_le (accepted i requests) (linesOf newline content)
    rw [hlines, length_updated]
    omega

def twoServers : List PatchRequest :=
  [⟨.object (oneMember (text "server") (.string (text "a"))), true, true⟩, ⟨.notObject, true, true⟩,
    ⟨.object (oneMember (text "server") (.string (text "b"))), true, false⟩]

theorem configure_session_twoServers : ∃ responses content',
    serve readExactly twoServers (text "pool p\nserver c\nserver d") = (responses, content') ∧
    startingWith (text "server") (linesOf newline content') = [text "server a iburst", text "server a iburst"] := by
  have hone : ∀ config ∈ accepted readExactly twoServers, OneLineServer config := by
    have haccepted : accepted readExactly twoServers = [serverOnly "a"] := rfl
    rw [haccepted, List.forall_mem_singleton]
    exact serverOnly_oneLine "a" (by decide)
  obtain ⟨responses, content', hserve, -, -, hset, -, -⟩ :=
    configure_session hone (text "pool p\nserver c\nserver d")
  refine ⟨responses, content', hserve, ?_⟩
  rw [hset _ (by decide)]
  decide

end OpenTwins
