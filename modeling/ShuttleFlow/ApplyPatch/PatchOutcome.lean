import ShuttleFlow.ApplyPatch.PatchAtomicity

/-! # The files after a patch

Each section of a patch asks for the content of a file, and of two when it moves one. The changes
are made in the order of the sections, whatever files these share.
-/

namespace ShuttleFlow

/-! ## What a patch asks for -/

namespace FileChange

/-- The file that a section moves is the one that it moves it to. -/
def movesToItself (host : PatchHost) (path : List Char) : FileChange → Bool
  | update _ _ movePath => movePath ≠ [] && host.resolve movePath = host.resolve path
  | _ => false

/-- The files of a section, and the content that each should have. -/
def asks (host : PatchHost) (path : List Char) : FileChange → List (List Char × Option (List Char))
  | add newContent => [(host.resolve path, some newContent)]
  | delete _ => [(host.resolve path, none)]
  | update oldContent newContent movePath =>
      if movePath = [] then [(host.resolve path, some newContent)]
      else if movesToItself host path (update oldContent newContent movePath) then
        [(host.resolve movePath, some newContent)]
      else [(host.resolve movePath, some newContent), (host.resolve path, none)]

/-- What a section leaves at a path. -/
def leaves (host : PatchHost) (file : List Char) (path : List Char) (change : FileChange)
    (content : Option (List Char)) : Option (List Char) :=
  (change.operations path).foldl (PatchOperation.leaves host file) content

end FileChange

namespace Commit

/-- What the sections ask for, one after another. -/
def asks (commit : Commit) (host : PatchHost) : List (List Char × Option (List Char)) :=
  commit.changes.entries.flatMap fun entry => entry.2.asks host entry.1

/-- Every section has what it asks for, and no other file has changed. -/
def LeavesAsAsked (commit : Commit) (host : PatchHost) (before after : FileSystem) : Prop :=
  (∀ asked ∈ commit.asks host, after.contentAt asked.1 = asked.2) ∧
  ∀ file, (∀ asked ∈ commit.asks host, asked.1 ≠ file) →
    after.contentAt file = before.contentAt file

/-- Sections that share a file ask for the same content of it, and one that moves a file to itself
is not the last one about it. -/
def SectionsAgree (commit : Commit) (host : PatchHost) : Prop :=
  (∀ asked ∈ commit.asks host, ∀ other ∈ commit.asks host,
    asked.1 = other.1 → asked.2 = other.2) ∧
  ∀ earlier path change later, commit.changes.entries = earlier ++ (path, change) :: later →
    change.movesToItself host path →
    ∃ entry ∈ later, ∃ asked ∈ entry.2.asks host entry.1, asked.1 = host.resolve path

end Commit

namespace FileChange

variable {host : PatchHost} {path file : List Char} {change : FileChange}
  {content : Option (List Char)}

theorem movesToItself_update {oldContent newContent movePath : List Char} :
    movesToItself host path (update oldContent newContent movePath) = true ↔
      movePath ≠ [] ∧ host.resolve movePath = host.resolve path := by
  simp [movesToItself]

theorem leaves_of_notMem (hother : ∀ asked ∈ change.asks host path, asked.1 ≠ file) :
    change.leaves host file path content = content := by
  cases change with
  | add newContent =>
      have hne := hother _ List.mem_cons_self
      exact if_neg hne.symm
  | delete oldContent =>
      have hne := hother _ List.mem_cons_self
      exact if_neg hne.symm
  | update oldContent newContent movePath =>
      by_cases hmove : movePath = []
      · simp only [asks, if_pos hmove] at hother
        have hne := hother _ List.mem_cons_self
        simp only [leaves, operations, if_pos hmove]
        exact if_neg hne.symm
      · have hne : file ≠ host.resolve movePath ∧ file ≠ host.resolve path := by
          by_cases hself : movesToItself host path (update oldContent newContent movePath)
          · simp only [asks, if_neg hmove, if_pos hself] at hother
            have hmoved := (hother _ List.mem_cons_self).symm
            exact ⟨hmoved, (movesToItself_update.mp hself).2 ▸ hmoved⟩
          · simp only [asks, if_neg hmove, if_neg hself] at hother
            exact ⟨(hother _ List.mem_cons_self).symm,
              (hother _ (.tail _ List.mem_cons_self)).symm⟩
        simp only [leaves, operations, if_neg hmove, List.foldl_cons, List.foldl_nil,
          PatchOperation.leaves, if_neg hne.1, if_neg hne.2]

/-- A section that moves no file to itself leaves what it asks for. -/
theorem leaves_of_mem (hplain : change.movesToItself host path = false)
    {asked : List Char × Option (List Char)} (hasked : asked ∈ change.asks host path) :
    change.leaves host asked.1 path content = asked.2 := by
  cases change with
  | add newContent =>
      rw [List.mem_singleton.mp hasked]
      exact if_pos rfl
  | delete oldContent =>
      rw [List.mem_singleton.mp hasked]
      exact if_pos rfl
  | update oldContent newContent movePath =>
      by_cases hmove : movePath = []
      · simp only [asks, if_pos hmove] at hasked
        simp only [leaves, operations, if_pos hmove]
        rw [List.mem_singleton.mp hasked]
        exact if_pos rfl
      · have hne : host.resolve movePath ≠ host.resolve path := by
          intro hsame
          rw [movesToItself_update.mpr ⟨hmove, hsame⟩] at hplain
          cases hplain
        simp only [asks, if_neg hmove, hplain, Bool.false_eq_true, if_false] at hasked
        simp only [leaves, operations, if_neg hmove, List.foldl_cons, List.foldl_nil,
          PatchOperation.leaves]
        rcases List.mem_cons.mp hasked with rfl | hasked
        · rw [if_neg hne, if_pos rfl]
        · rw [List.mem_singleton.mp hasked, if_pos rfl]

/-- What is moved to itself is removed. -/
theorem leaves_of_movesToItself (hself : change.movesToItself host path) :
    change.leaves host (host.resolve path) path content = none ∧
      ∃ newContent, change.asks host path = [(host.resolve path, some newContent)] := by
  cases change with
  | add newContent => cases hself
  | delete oldContent => cases hself
  | update oldContent newContent movePath =>
      obtain ⟨hmove, hsame⟩ := movesToItself_update.mp hself
      refine ⟨?_, newContent, ?_⟩
      · simp only [leaves, operations, if_neg hmove, List.foldl_cons, List.foldl_nil,
          PatchOperation.leaves, if_true]
      · simp only [asks, if_neg hmove, if_pos hself, hsame]

end FileChange

/-! ## One section after another -/

namespace Commit

variable {host : PatchHost} {commit : Commit} {file : List Char}
  {content : Option (List Char)}

/-- What the sections leave at a path. -/
def leavesAll (host : PatchHost) (file : List Char) (entries : List (List Char × FileChange))
    (content : Option (List Char)) : Option (List Char) :=
  entries.foldl (fun content entry => entry.2.leaves host file entry.1 content) content

theorem contentAt_apply {before after : FileSystem}
    (happly : commit.apply host before = (.ok (), after)) (file : List Char) :
    after.contentAt file = leavesAll host file commit.changes.entries (before.contentAt file) := by
  rw [PatchOperation.contentAt_runAll happly, operations, List.foldl_flatMap]
  rfl

theorem leavesAll_of_notMem {entries : List (List Char × FileChange)}
    (hother : ∀ entry ∈ entries, ∀ asked ∈ entry.2.asks host entry.1, asked.1 ≠ file) :
    leavesAll host file entries content = content := by
  induction entries generalizing content with
  | nil => rfl
  | cons entry rest ih =>
      have hfirst := @FileChange.leaves_of_notMem host entry.1 file entry.2 content
        (hother entry List.mem_cons_self)
      unfold leavesAll at ih ⊢
      rw [List.foldl_cons, hfirst]
      exact ih fun later hmem => hother later (.tail _ hmem)

/-- The last section about a file decides. -/
theorem leavesAll_of_agree {entries : List (List Char × FileChange)} {wanted : Option (List Char)}
    (hagree : ∀ entry ∈ entries, ∀ asked ∈ entry.2.asks host entry.1,
      asked.1 = file → asked.2 = wanted)
    (hself : ∀ earlier path change later, entries = earlier ++ (path, change) :: later →
      change.movesToItself host path → host.resolve path = file →
      ∃ entry ∈ later, ∃ asked ∈ entry.2.asks host entry.1, asked.1 = file)
    (hasked : ∃ entry ∈ entries, ∃ asked ∈ entry.2.asks host entry.1, asked.1 = file) :
    leavesAll host file entries content = wanted := by
  induction entries using List.reverseRecOn with
  | nil =>
      obtain ⟨entry, hmem, -⟩ := hasked
      cases hmem
  | append_singleton entries last ih =>
      have hlast : leavesAll host file (entries ++ [last]) content =
          last.2.leaves host file last.1 (leavesAll host file entries content) := by
        unfold leavesAll
        rw [List.foldl_concat]
      rw [hlast]
      by_cases hmem : ∃ asked ∈ last.2.asks host last.1, asked.1 = file
      · obtain ⟨wish, hwish, rfl⟩ := hmem
        have hplain : last.2.movesToItself host last.1 = false := by
          by_contra hmoves
          rw [Bool.not_eq_false] at hmoves
          obtain ⟨newContent, hasks⟩ := (@FileChange.leaves_of_movesToItself host last.1 last.2
            content hmoves).2
          rw [hasks, List.mem_singleton] at hwish
          obtain ⟨entry, hnone, -⟩ := hself entries last.1 last.2 [] rfl hmoves
            (congrArg Prod.fst hwish).symm
          cases hnone
        rw [FileChange.leaves_of_mem hplain hwish]
        exact hagree last (List.mem_append_right _ List.mem_cons_self) wish hwish rfl
      · have hother : ∀ asked ∈ last.2.asks host last.1, asked.1 ≠ file :=
          fun asked hasked hsame => hmem ⟨asked, hasked, hsame⟩
        rw [FileChange.leaves_of_notMem hother]
        apply ih
        · exact fun entry hentry => hagree entry (List.mem_append_left _ hentry)
        · intro earlier path change later hsplit hmoves hfile
          have hmore : entries ++ [last] = earlier ++ (path, change) :: (later ++ [last]) := by
            rw [hsplit, List.append_assoc, List.cons_append]
          obtain ⟨entry, hentry, hlater⟩ := hself earlier path change _ hmore hmoves hfile
          rcases List.mem_append.mp hentry with hentry | hentry
          · exact ⟨entry, hentry, hlater⟩
          · rw [List.mem_singleton.mp hentry] at hlater
            exact absurd hlater hmem
        · obtain ⟨entry, hentry, hfile⟩ := hasked
          rcases List.mem_append.mp hentry with hentry | hentry
          · exact ⟨entry, hentry, hfile⟩
          · rw [List.mem_singleton.mp hentry] at hfile
            exact absurd hfile hmem

theorem mem_asks {asked : List Char × Option (List Char)} :
    asked ∈ commit.asks host ↔
      ∃ entry ∈ commit.changes.entries, asked ∈ entry.2.asks host entry.1 :=
  List.mem_flatMap

theorem outcome_iff {before after : FileSystem}
    (happly : commit.apply host before = (.ok (), after)) :
    commit.LeavesAsAsked host before after ↔ commit.SectionsAgree host := by
  have hcontent := contentAt_apply happly
  constructor
  · rintro ⟨hasked, -⟩
    refine ⟨fun asked hmem other hother hsame => ?_,
      fun earlier path change later hsplit hmoves => ?_⟩
    · rw [← hasked asked hmem, ← hasked other hother, hsame]
    · obtain ⟨hgone, newContent, hasks⟩ := @FileChange.leaves_of_movesToItself host path change
        (leavesAll host (host.resolve path) earlier (before.contentAt (host.resolve path))) hmoves
      by_contra hnone
      have hlater : ∀ entry ∈ later, ∀ asked ∈ entry.2.asks host entry.1,
          asked.1 ≠ host.resolve path :=
        fun entry hentry asked hmem hsame => hnone ⟨entry, hentry, asked, hmem, hsame⟩
      have hwanted := hasked (host.resolve path, some newContent) (mem_asks.mpr
        ⟨(path, change), by rw [hsplit]; exact List.mem_append_right _ List.mem_cons_self,
          by rw [hasks]; exact List.mem_cons_self⟩)
      have hleft : leavesAll host (host.resolve path) commit.changes.entries
          (before.contentAt (host.resolve path)) = none := by
        rw [hsplit, leavesAll, List.foldl_append, List.foldl_cons]
        change leavesAll host (host.resolve path) later (change.leaves host (host.resolve path) path
          (leavesAll host (host.resolve path) earlier _)) = none
        rw [leavesAll_of_notMem hlater, hgone]
      rw [hcontent, hleft] at hwanted
      cases hwanted
  · rintro ⟨hagree, hself⟩
    refine ⟨fun asked hmem => ?_, fun file hother => ?_⟩
    · rw [hcontent]
      obtain ⟨entry, hentry, hasked⟩ := mem_asks.mp hmem
      apply leavesAll_of_agree
      · intro other hotherEntry otherAsked hotherMem hsame
        exact hagree _ (mem_asks.mpr ⟨other, hotherEntry, hotherMem⟩) _ hmem hsame
      · intro earlier path change later hsplit hmoves hfile
        rw [← hfile]
        exact hself earlier path change later hsplit hmoves
      · exact ⟨entry, hentry, asked, hasked, rfl⟩
    · rw [hcontent]
      apply leavesAll_of_notMem
      intro entry hentry asked hasked
      exact hother asked (mem_asks.mpr ⟨entry, hentry, hasked⟩)

end Commit

namespace ApplyPatch

def oneFile : FileSystem :=
  Function.update noFiles "/ws/a".toList (some (.file "x".toList))

def movedPatch (target : String) : List Char :=
  patchText ["*** Update File: a", "*** Move to: " ++ target, "-x", "+y"]

end ApplyPatch

end ShuttleFlow
