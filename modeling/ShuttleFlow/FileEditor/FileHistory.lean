import Mathlib.Data.List.Nodup
import ShuttleFlow.Library.Dict

/-! # The edit history of files

Contents are kept in a cache of files, under a key with the path and a number. The numbers
of the entries of a path are kept there too. Texts, paths and keys are lists of characters;
the names of the cache files, which are hashes of the keys, are taken to be different for
different keys.
-/

namespace ShuttleFlow

/-- What a cache file holds. -/
inductive CacheValue
  | content (text : List Char)
  | metadata (entries : List Nat) (counter : Nat)
  deriving DecidableEq

/-- The cache has no limit on its size. -/
abbrev FileCache : Type := Dict (List Char) CacheValue

structure FileHistoryManager where
  maxHistoryPerFile : Nat
  cache : FileCache
  deriving DecidableEq

namespace FileHistoryManager

def init (maxHistoryPerFile : Nat) : FileHistoryManager :=
  { maxHistoryPerFile, cache := .empty }

def metadataKey (path : List Char) : List Char := path ++ '.' :: "metadata".toList

def historyKey (path : List Char) (counter : Nat) : List Char :=
  path ++ '.' :: Nat.toDigits 10 counter

/-- The entries of a path, oldest first, and the next number. -/
def getMetadata (path : List Char) (cache : FileCache) : List Nat × Nat :=
  match cache.get? (metadataKey path) with
  | some (.metadata entries counter) => (entries, counter)
  | _ => ([], 0)

/-- The oldest entries are dropped until there are few enough. -/
def trim (path : List Char) (limit : Nat) : List Nat → FileCache → List Nat × FileCache
  | [], cache => ([], cache)
  | oldest :: entries, cache =>
      if limit < (oldest :: entries).length then
        trim path limit entries (cache.erase (historyKey path oldest))
      else (oldest :: entries, cache)

def addHistory (path content : List Char) (manager : FileHistoryManager) : FileHistoryManager :=
  let metadata := getMetadata path manager.cache
  let cache := manager.cache.set (historyKey path metadata.2) (.content content)
  let trimmed := trim path manager.maxHistoryPerFile (metadata.1 ++ [metadata.2]) cache
  { manager with
    cache := trimmed.2.set (metadataKey path) (.metadata trimmed.1 (metadata.2 + 1)) }

/-- The latest entry is taken out. The numbers go on. -/
def popLastHistory (path : List Char) (manager : FileHistoryManager) :
    Option (List Char) × FileHistoryManager :=
  let metadata := getMetadata path manager.cache
  match metadata.1.getLast? with
  | none => (none, manager)
  | some last =>
      let entries := metadata.1.dropLast
      match manager.cache.get? (historyKey path last) with
      | some (.content text) =>
          (some text,
            { manager with
              cache := (manager.cache.erase (historyKey path last)).set (metadataKey path)
                (.metadata entries metadata.2) })
      | _ =>
          (none,
            { manager with
              cache := manager.cache.set (metadataKey path) (.metadata entries metadata.2) })

/-! ## Keys -/

/-- A dot and what comes behind the last dot tell two keys apart. -/
theorem append_dot_inj {path other suffix suffix' : List Char} (hsuffix : '.' ∉ suffix)
    (hsuffix' : '.' ∉ suffix') :
    path ++ '.' :: suffix = other ++ '.' :: suffix' ↔ path = other ∧ suffix = suffix' := by
  constructor
  · intro heq
    rcases List.append_eq_append_iff.mp heq with ⟨middle, rfl, hmiddle⟩ | ⟨middle, rfl, hmiddle⟩
    · cases middle with
      | nil => exact ⟨(List.append_nil _).symm, (List.cons.inj hmiddle).2⟩
      | cons first middle =>
          refine absurd ?_ hsuffix
          rw [(List.cons.inj hmiddle).2]
          exact List.mem_append_right _ List.mem_cons_self
    · cases middle with
      | nil => exact ⟨List.append_nil _, (List.cons.inj hmiddle).2.symm⟩
      | cons first middle =>
          refine absurd ?_ hsuffix'
          rw [(List.cons.inj hmiddle).2]
          exact List.mem_append_right _ List.mem_cons_self
  · rintro ⟨rfl, rfl⟩
    rfl

theorem dot_notMem_toDigits (counter : Nat) : '.' ∉ Nat.toDigits 10 counter := fun hmem => by
  cases Nat.isDigit_of_mem_toDigits (by decide) (by decide) hmem

theorem toDigits_inj {first second : Nat} :
    Nat.toDigits 10 first = Nat.toDigits 10 second ↔ first = second := by
  refine ⟨fun heq => ?_, congrArg _⟩
  rw [← @Nat.ofDigitChars_toDigits 10 first (by decide) (by decide), heq,
    Nat.ofDigitChars_toDigits (by decide) (by decide)]

theorem historyKey_inj {path other : List Char} {counter counter' : Nat} :
    historyKey path counter = historyKey other counter' ↔ path = other ∧ counter = counter' := by
  rw [historyKey, historyKey, append_dot_inj (dot_notMem_toDigits _) (dot_notMem_toDigits _),
    toDigits_inj]

theorem metadataKey_inj {path other : List Char} : metadataKey path = metadataKey other ↔
    path = other := by
  rw [metadataKey, metadataKey, append_dot_inj (by decide) (by decide)]
  exact and_iff_left rfl

theorem historyKey_ne_metadataKey (path other : List Char) (counter : Nat) :
    historyKey path counter ≠ metadataKey other := by
  intro heq
  have hdigits := ((append_dot_inj (dot_notMem_toDigits _) (by decide)).mp heq).2
  have hletter : 'm' ∈ Nat.toDigits 10 counter := by
    rw [hdigits]
    decide
  cases Nat.isDigit_of_mem_toDigits (by decide) (by decide) hletter

/-! ## What is kept -/

/-- The contents that are kept of a path, oldest first. -/
structure Keeps (manager : FileHistoryManager) (path : List Char)
    (contents : List (List Char)) : Prop where
  entries : (getMetadata path manager.cache).1.map
      (fun counter => manager.cache.get? (historyKey path counter)) =
    contents.map fun text => some (.content text)
  nodup : (getMetadata path manager.cache).1.Nodup
  lt_counter : ∀ counter ∈ (getMetadata path manager.cache).1,
    counter < (getMetadata path manager.cache).2

variable {manager : FileHistoryManager} {path other content : List Char}
  {contents : List (List Char)}

theorem keeps_init (maxHistoryPerFile : Nat) (path : List Char) :
    (init maxHistoryPerFile).Keeps path [] where
  entries := rfl
  nodup := List.nodup_nil
  lt_counter := nofun

/-- What is kept of a path depends on its own keys only. -/
theorem Keeps.congr {cache : FileCache} (hkeeps : manager.Keeps path contents)
    (hmetadata : cache.get? (metadataKey path) = manager.cache.get? (metadataKey path))
    (hhistory : ∀ counter,
      cache.get? (historyKey path counter) = manager.cache.get? (historyKey path counter)) :
    { manager with cache }.Keeps path contents := by
  have hsame : getMetadata path cache = getMetadata path manager.cache := by
    rw [getMetadata, getMetadata, hmetadata]
  exact
    { entries := by
        simp only [hsame, hhistory]
        exact hkeeps.entries
      nodup := by
        rw [hsame]
        exact hkeeps.nodup
      lt_counter := by
        rw [hsame]
        exact hkeeps.lt_counter }

theorem trim_of_length_le {limit : Nat} {entries : List Nat} {cache : FileCache}
    (hle : entries.length ≤ limit) : trim path limit entries cache = (entries, cache) := by
  cases entries with
  | nil => rfl
  | cons oldest entries => rw [trim, if_neg (Nat.not_lt.mpr hle)]

/-- Only entries of the path are dropped. -/
theorem get?_trim {limit : Nat} {entries : List Nat} {cache : FileCache} {key : List Char}
    (hkey : ∀ counter, historyKey path counter ≠ key) :
    (trim path limit entries cache).2.get? key = cache.get? key := by
  induction entries generalizing cache with
  | nil => rfl
  | cons oldest entries ih =>
      rw [trim]
      split
      next => rw [ih, Dict.get?_erase, if_neg (hkey oldest).symm]
      next => rfl

theorem getMetadata_set (cache : FileCache) (entries : List Nat) (counter : Nat) :
    getMetadata path (cache.set (metadataKey path) (.metadata entries counter)) =
      (entries, counter) := by
  rw [getMetadata, Dict.get?_set, if_pos rfl]

theorem Keeps.length_eq (hkeeps : manager.Keeps path contents) :
    (getMetadata path manager.cache).1.length = contents.length := by
  have hlength := congrArg List.length hkeeps.entries
  rwa [List.length_map, List.length_map] at hlength

/-- A new content is kept, while there are few enough. -/
theorem Keeps.addHistory (hkeeps : manager.Keeps path contents)
    (hlimit : contents.length < manager.maxHistoryPerFile) :
    (manager.addHistory path content).Keeps path (contents ++ [content]) := by
  have hlength : ((getMetadata path manager.cache).1 ++
      [(getMetadata path manager.cache).2]).length ≤ manager.maxHistoryPerFile := by
    rw [List.length_append, hkeeps.length_eq]
    exact hlimit
  have hfresh : (getMetadata path manager.cache).2 ∉ (getMetadata path manager.cache).1 :=
    fun hmem => Nat.lt_irrefl _ (hkeeps.lt_counter _ hmem)
  have hget : ∀ counter, (manager.addHistory path content).cache.get? (historyKey path counter) =
      if counter = (getMetadata path manager.cache).2 then some (.content content)
      else manager.cache.get? (historyKey path counter) := by
    intro counter
    simp only [FileHistoryManager.addHistory, trim_of_length_le hlength, Dict.get?_set,
      historyKey_ne_metadataKey, if_false, historyKey_inj, true_and]
  have hmetadata : getMetadata path (manager.addHistory path content).cache =
      ((getMetadata path manager.cache).1 ++ [(getMetadata path manager.cache).2],
        (getMetadata path manager.cache).2 + 1) := by
    simp only [FileHistoryManager.addHistory, trim_of_length_le hlength, getMetadata_set]
  exact
    { entries := by
        simp only [hmetadata, hget, List.map_append, List.map_singleton, if_true]
        refine congrArg (· ++ _) ?_
        rw [← hkeeps.entries]
        refine List.map_congr_left fun counter hmem => if_neg fun heq => hfresh ?_
        rwa [heq] at hmem
      nodup := by
        rw [hmetadata, List.nodup_append]
        refine ⟨hkeeps.nodup, List.nodup_singleton _, fun counter hmem last hlast heq => ?_⟩
        rw [List.mem_singleton.mp hlast] at heq
        rw [heq] at hmem
        exact hfresh hmem
      lt_counter := by
        rw [hmetadata]
        refine List.forall_mem_append.mpr ⟨fun counter hmem => ?_,
          List.forall_mem_singleton.mpr (Nat.lt_succ_self _)⟩
        exact Nat.lt_succ_of_lt (hkeeps.lt_counter counter hmem) }

/-- Other paths do not notice. -/
theorem Keeps.addHistory_other (hkeeps : manager.Keeps path contents) (hne : path ≠ other) :
    (manager.addHistory other content).Keeps path contents := by
  refine hkeeps.congr ?_ fun counter => ?_
  · rw [Dict.get?_set, if_neg fun heq => hne (metadataKey_inj.mp heq),
      get?_trim fun counter => historyKey_ne_metadataKey _ _ _, Dict.get?_set,
      if_neg (historyKey_ne_metadataKey _ _ _).symm]
  · rw [Dict.get?_set, if_neg (historyKey_ne_metadataKey _ _ _),
      get?_trim fun counter heq => hne (historyKey_inj.mp heq).1.symm, Dict.get?_set,
      if_neg fun heq => hne (historyKey_inj.mp heq).1]

theorem Keeps.getLast? (hkeeps : manager.Keeps path (contents ++ [content])) :
    ∃ entries last, (getMetadata path manager.cache).1 = entries ++ [last] ∧
      entries.map (fun counter => manager.cache.get? (historyKey path counter)) =
        contents.map (fun text => some (.content text)) ∧
      manager.cache.get? (historyKey path last) = some (.content content) := by
  have hentries := hkeeps.entries
  rw [List.map_append] at hentries
  obtain ⟨entries, lasts, hsplit, hfirst, hlast⟩ := List.map_eq_append_iff.mp hentries
  obtain ⟨last, rfl, hlast⟩ := List.map_eq_singleton_iff.mp hlast
  exact ⟨entries, last, hsplit, hfirst, List.singleton_inj.mp hlast⟩

/-- The latest content comes back. -/
theorem Keeps.popLastHistory (hkeeps : manager.Keeps path (contents ++ [content])) :
    (manager.popLastHistory path).1 = some content ∧
      (manager.popLastHistory path).2.Keeps path contents := by
  obtain ⟨entries, last, hmetadata, hfirst, hlast⟩ := hkeeps.getLast?
  have hpop : manager.popLastHistory path = (some content,
      { manager with
        cache := (manager.cache.erase (historyKey path last)).set (metadataKey path)
          (.metadata entries (getMetadata path manager.cache).2) }) := by
    simp only [FileHistoryManager.popLastHistory, hmetadata, List.getLast?_concat,
      List.dropLast_concat, hlast]
  have hnodup := hkeeps.nodup
  rw [hmetadata, List.nodup_append] at hnodup
  have hlt := hkeeps.lt_counter
  rw [hmetadata] at hlt
  rw [hpop]
  exact ⟨rfl,
    { entries := by
        rw [getMetadata_set, ← hfirst]
        refine List.map_congr_left fun counter hmem => ?_
        rw [Dict.get?_set, if_neg (historyKey_ne_metadataKey _ _ _), Dict.get?_erase,
          if_neg fun heq => ?_]
        exact hnodup.2.2 counter hmem last (List.mem_singleton_self _) (historyKey_inj.mp heq).2
      nodup := by
        rw [getMetadata_set]
        exact hnodup.1
      lt_counter := by
        rw [getMetadata_set]
        exact fun counter hmem => hlt counter (List.mem_append_left _ hmem) }⟩

theorem Keeps.popLastHistory_nil (hkeeps : manager.Keeps path []) :
    manager.popLastHistory path = (none, manager) := by
  have hnil : (getMetadata path manager.cache).1 = [] := List.map_eq_nil_iff.mp hkeeps.entries
  simp only [FileHistoryManager.popLastHistory, hnil, List.getLast?_nil]

theorem Keeps.popLastHistory_other (hkeeps : manager.Keeps path contents) (hne : path ≠ other) :
    (manager.popLastHistory other).2.Keeps path contents := by
  rw [FileHistoryManager.popLastHistory]
  split
  next => exact hkeeps
  next last hlast =>
    have hmetadata : metadataKey path ≠ metadataKey other := fun heq =>
      hne (metadataKey_inj.mp heq)
    have hhistory : ∀ counter, historyKey path counter ≠ historyKey other last :=
      fun counter heq => hne (historyKey_inj.mp heq).1
    split
    next =>
      refine hkeeps.congr ?_ fun counter => ?_
      · rw [Dict.get?_set, if_neg hmetadata, Dict.get?_erase,
          if_neg (historyKey_ne_metadataKey _ _ _).symm]
      · rw [Dict.get?_set, if_neg (historyKey_ne_metadataKey _ _ _), Dict.get?_erase,
          if_neg (hhistory counter)]
    next =>
      refine hkeeps.congr ?_ fun counter => ?_
      · rw [Dict.get?_set, if_neg hmetadata]
      · rw [Dict.get?_set, if_neg (historyKey_ne_metadataKey _ _ _)]

theorem maxHistoryPerFile_popLastHistory (path : List Char) (manager : FileHistoryManager) :
    (manager.popLastHistory path).2.maxHistoryPerFile = manager.maxHistoryPerFile := by
  rw [FileHistoryManager.popLastHistory]
  split
  next => rfl
  next =>
    split
    next => rfl
    next => rfl

end FileHistoryManager

end ShuttleFlow
