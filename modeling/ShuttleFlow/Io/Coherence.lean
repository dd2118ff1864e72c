import Mathlib.Data.List.Induction
import ShuttleFlow.Io.LocalFileStore

/-! # Coherence of the cache

What is cached has to be what the disk holds. A write that is not cached itself
breaks this when older text of the file is still cached.
-/

namespace ShuttleFlow

theorem FileContents.decodeText_encode {contents : FileContents} {text : String}
    (htext : contents.text? = some text) (hplain : '\r' ∉ text.toList) :
    decodeText contents.encode = some text := by
  cases contents with
  | text contents =>
      cases htext
      exact decodeText_toUTF8 hplain
  | bytes contents =>
      change String.fromUTF8? contents = some text at htext
      rw [FileContents.encode, decodeText, htext, Option.map_some,
        translateNewlines_of_notMem hplain, String.ofList_toList]

namespace LocalFileStore

variable {lru : LRUCache FullPath} {store : LocalFileStore lru}
variable {record : List String → Recorded}

/-- The cache holds what the disk holds, and the disk what has been recorded. -/
structure Coherent (store : LocalFileStore lru) (record : List String → Recorded) : Prop where
  cached : ∀ key value, store.cache.get? key = some value →
    key.doubleSlash = false ∧ store.disk.readText key.parts = .ok value
  text : ∀ path text, record path = .text text → store.disk.readText path = .ok text
  gone : ∀ path, record path = .gone →
    store.disk.files path = none ∧ store.disk.directories path = false

theorem coherent_init (root : FullPath) (disk : Disk) (cacheLimitSize cacheMemorySize : Int) :
    Coherent (init root disk cacheLimitSize cacheMemorySize : LocalFileStore lru)
      fun _ => .unknown where
  cached key value hget := by simp [init] at hget
  text path text htext := by cases htext
  gone path hgone := by cases hgone

theorem read_of_cached {path : String} {full : FullPath} {value : String}
    (hfull : getFullPath store.root path = some full)
    (hcached : store.cache.get? full = some value) : (store.read path).1 = .ok value := by
  simp only [read, hfull, hcached]

theorem Coherent.readsAsWritten (hcoherent : Coherent store record) :
    ReadsAsWritten store record := by
  have huncached : ∀ path, (store.read path).1 = store.uncachedRead path := by
    intro path
    unfold read uncachedRead
    split
    · rfl
    next full hfull =>
      split
      next value hvalue => exact (hcoherent.cached full value hvalue).2.symm
      next =>
        split
        next result hresult => exact hresult.symm
        next error herror => exact herror.symm
  refine ⟨huncached, fun path full text hfull htext => ?_, fun path full hfull hgone => ?_⟩
  · rw [huncached, uncachedRead, hfull]
    exact hcoherent.text full.parts text htext
  · obtain ⟨hfile, hdirectory⟩ := hcoherent.gone full.parts hgone
    rw [huncached, uncachedRead, hfull]
    exact Disk.readText_of_gone hfile hdirectory

/-- Keys of different files differ, as long as no key starts with two slashes. -/
theorem ne_parts {first second : FullPath} (hfirst : first.doubleSlash = false)
    (hsecond : second.doubleSlash = false) (hne : first ≠ second) : first.parts ≠ second.parts := by
  intro hparts
  cases first
  cases second
  simp_all

/-! ## Steps -/

/-- A successful write, by what it changes. -/
theorem write_ok {path : String} {contents : FileContents} {written : LocalFileStore lru}
    (hwrite : store.write path contents = .ok written) :
    ∃ full, getFullPath store.root path = some full ∧ written.root = store.root ∧
      store.disk.write full.parts contents.encode = .ok written.disk ∧
      written.cache = cacheWritten store.cache full contents := by
  unfold write at hwrite
  split at hwrite
  · cases hwrite
  next full hfull =>
    split at hwrite
    next disk hdisk =>
      cases hwrite
      exact ⟨full, hfull, rfl, hdisk, rfl⟩
    next => cases hwrite

/-- After a write, what is cached for the file is its text, or what was cached before. -/
theorem cacheWritten_spec (cache : MemoryLRUCache lru) (full : FullPath)
    (contents : FileContents) :
    (contents.cacheable cache.maxMemory →
      ∃ text, contents = .text text ∧ (cacheWritten cache full contents).get? full = some text) ∧
    (contents.cacheable cache.maxMemory = false → cacheWritten cache full contents = cache) ∧
    ∀ other, other ≠ full → ∀ value, (cacheWritten cache full contents).get? other = some value →
      cache.get? other = some value := by
  cases contents with
  | text text =>
      by_cases hlarge : MemoryLRUCache.getSize text > cache.maxMemory
      · rw [cacheWritten, MemoryLRUCache.setItem_of_large hlarge]
        exact ⟨fun hfits => by simp [FileContents.cacheable, hlarge] at hfits, fun _ => rfl,
          fun _ _ _ => id⟩
      · obtain ⟨hstored, hothers⟩ := @MemoryLRUCache.setItem_of_fits _ _ lru cache full _ hlarge
        exact ⟨fun _ => ⟨text, rfl, hstored⟩,
          fun hfits => by simp [FileContents.cacheable, hlarge] at hfits, hothers⟩
  | bytes bytes => exact ⟨fun hfits => (Bool.noConfusion hfits), fun _ => rfl, fun _ _ _ => id⟩

theorem Coherent.write (hcoherent : Coherent store record) {path : String}
    {contents : FileContents} {written : LocalFileStore lru}
    (hwrite : store.write path contents = .ok written) {full : FullPath}
    (hfull : getFullPath store.root path = some full) (hsingle : full.doubleSlash = false)
    {text : String} (htext : contents.text? = some text) (hplain : '\r' ∉ text.toList)
    (hrefreshes : store.refreshes (.write path contents)) :
    Coherent written (Recorded.written record full.parts contents) := by
  obtain ⟨found, hfound, -, hdisk, hcache⟩ := write_ok hwrite
  obtain rfl := Option.some.inj (hfull.symm.trans hfound)
  obtain ⟨hfits, hlarge, hothers⟩ := cacheWritten_spec store.cache full contents
  rw [← hcache] at hfits hlarge hothers
  obtain ⟨hfiles, hdirectories⟩ := Disk.write_spec hdisk
  have hrefreshed : contents.cacheable store.cache.maxMemory ∨
      ∀ cached, store.cache.get? full = some cached → contents.text? = some cached := by
    simpa [refreshes, hfull, hdisk, Option.all_eq_true] using hrefreshes
  have hself : written.disk.readText full.parts = .ok text :=
    Disk.readText_of_decode (by rw [hfiles, Function.update_self])
      (FileContents.decodeText_encode htext hplain)
  have hkeep : ∀ other value, other ≠ full.parts → store.disk.readText other = .ok value →
      written.disk.readText other = .ok value := fun other value hother =>
    Disk.readText_of_files (by rw [hfiles, Function.update_of_ne hother])
  refine ⟨fun key value hget => ?_, fun other found hrecord => ?_, fun other hrecord => ?_⟩
  · by_cases hkey : key = full
    · subst hkey
      refine ⟨hsingle, ?_⟩
      cases hcacheable : contents.cacheable store.cache.maxMemory with
      | true =>
          obtain ⟨stored, rfl, hstored⟩ := hfits hcacheable
          rw [hstored] at hget
          exact hself.trans (congrArg Except.ok (Option.some.inj (htext.symm.trans hget)))
      | false =>
          rw [hlarge hcacheable] at hget
          rcases hrefreshed with hfits | hsame
          · rw [hcacheable] at hfits
            cases hfits
          · exact hself.trans
              (congrArg Except.ok (Option.some.inj (htext.symm.trans (hsame value hget))))
    · obtain ⟨hone, hread⟩ := hcoherent.cached key value (hothers key hkey value hget)
      exact ⟨hone, hkeep _ _ (ne_parts hone hsingle hkey) hread⟩
  · unfold Recorded.written at hrecord
    split at hrecord
    next hsame =>
      rw [htext] at hrecord
      cases hrecord
      exact hsame ▸ hself
    next hother =>
      split at hrecord
      · cases hrecord
      · exact hkeep _ _ hother (hcoherent.text other found hrecord)
  · unfold Recorded.written at hrecord
    split at hrecord
    · rw [htext] at hrecord
      cases hrecord
    next hother =>
      split at hrecord
      · cases hrecord
      next hparent =>
        obtain ⟨hfile, hdirectory⟩ := hcoherent.gone other hrecord
        rw [hfiles, Function.update_of_ne hother, hdirectories, hdirectory]
        exact ⟨hfile, by simpa using fun hmem => hparent ⟨hmem, hrecord⟩⟩

theorem Coherent.read (hcoherent : Coherent store record) {path : String}
    (hsingle : ∀ full, getFullPath store.root path = some full → full.doubleSlash = false) :
    Coherent (store.read path).2 record := by
  unfold LocalFileStore.read
  split
  · exact hcoherent
  next full hfull =>
    split
    · exact ⟨fun key value hget => hcoherent.cached key value (by simpa using hget),
        hcoherent.text, hcoherent.gone⟩
    · split
      next result hresult =>
        refine ⟨fun key value hget => ?_, hcoherent.text, hcoherent.gone⟩
        change (cacheWritten store.cache full (.text result)).get? key = some value at hget
        obtain ⟨hfits, hlarge, hothers⟩ := cacheWritten_spec store.cache full (.text result)
        by_cases hkey : key = full
        · subst hkey
          refine ⟨hsingle key hfull, ?_⟩
          cases hcacheable : (FileContents.text result).cacheable store.cache.maxMemory with
          | true =>
              obtain ⟨stored, hstored, hfound⟩ := hfits hcacheable
              cases hstored
              rw [hfound] at hget
              exact hresult.trans (congrArg Except.ok (Option.some.inj hget))
          | false =>
              rw [hlarge hcacheable] at hget
              exact (hcoherent.cached key value hget).2
        · exact hcoherent.cached key value (hothers key hkey value hget)
      next => exact hcoherent

theorem Coherent.delete (hcoherent : Coherent store record) {path : String}
    (hsingle : ∀ full, getFullPath store.root path = some full → full.doubleSlash = false) :
    Coherent (store.delete path) (store.record record (.delete path)) := by
  cases hfull : getFullPath store.root path with
  | none => simpa only [LocalFileStore.delete, LocalFileStore.record, hfull] using hcoherent
  | some full =>
      simp only [LocalFileStore.delete, LocalFileStore.record, hfull]
      split
      next hfile =>
        have hnone : ∀ key value, ((store.cache.delItem full).getD store.cache).get? key =
            some value → key ≠ full ∧ store.cache.get? key = some value := by
          intro key value hget
          cases hdelete : store.cache.delItem full with
          | none =>
              rw [hdelete, Option.getD_none] at hget
              refine ⟨?_, hget⟩
              rintro rfl
              have hpresent : (store.cache.delItem key).isSome :=
                MemoryLRUCache.delItem_isSome.mpr (by simp [hget])
              simp [hdelete] at hpresent
          | some deleted =>
              rw [hdelete, Option.getD_some, (MemoryLRUCache.delItem_spec hdelete).2] at hget
              split at hget
              · cases hget
              next hkey => exact ⟨hkey, hget⟩
        refine ⟨fun key value hget => ?_, fun other text htext => ?_, fun other hgone => ?_⟩
        · obtain ⟨hkey, hold⟩ := hnone key value hget
          obtain ⟨hone, hread⟩ := hcoherent.cached key value hold
          refine ⟨hone, Disk.readText_of_files ?_ hread⟩
          exact Function.update_of_ne (ne_parts hone (hsingle full hfull) hkey) _ _
        · by_cases hother : other = full.parts
          · rw [hother, Function.update_self] at htext
            cases htext
          · rw [Function.update_of_ne hother] at htext
            exact Disk.readText_of_files (Function.update_of_ne hother _ _)
              (hcoherent.text other text htext)
        · by_cases hother : other = full.parts
          · rw [hother]
            exact ⟨Function.update_self _ _ _, store.disk.disjoint _ hfile⟩
          · rw [Function.update_of_ne hother] at hgone
            obtain ⟨hnofile, hdirectory⟩ := hcoherent.gone other hgone
            exact ⟨(Function.update_of_ne hother _ _).trans hnofile, hdirectory⟩
      next hnofile =>
        split
        next hdirectory =>
          refine ⟨fun key value hget => by simp at hget, fun other text htext => ?_,
            fun other hgone => ?_⟩
          · split at htext
            · cases htext
            next hother =>
              exact Disk.readText_of_files (by simp [Disk.removeTree, hother])
                (hcoherent.text other text htext)
          · by_cases hother : full.parts <+: other
            · simp [Disk.removeTree, hother]
            · rw [if_neg hother] at hgone
              simpa [Disk.removeTree, hother] using hcoherent.gone other hgone
        next => exact hcoherent

theorem apply_root (store : LocalFileStore lru) (operation : FileOperation) :
    (store.apply operation).root = store.root := by
  cases operation with
  | write path contents =>
      simp only [apply]
      split
      next written hwrite =>
        obtain ⟨_, _, hroot, _⟩ := write_ok hwrite
        exact hroot
      next => rfl
  | read path =>
      simp only [apply, LocalFileStore.read]
      split
      · rfl
      · split
        · rfl
        · split <;> rfl
  | delete path =>
      simp only [apply, LocalFileStore.delete]
      split
      · rfl
      · split
        · rfl
        · split <;> rfl

/-- Operations keep coherence when they refresh the cache. -/
theorem Coherent.apply (hcoherent : Coherent store record) {operation : FileOperation}
    (hplain : operation.plain store.root) (hrefreshes : store.refreshes operation) :
    Coherent (store.apply operation) (store.record record operation) := by
  cases operation with
  | write path contents =>
      obtain ⟨text, htext, hno⟩ := FileOperation.plain.text hplain
      cases hwrite : store.write path contents with
      | ok written =>
          obtain ⟨full, hfull, -, hdisk, -⟩ := write_ok hwrite
          have hwritten := hcoherent.write hwrite hfull
            (FileOperation.plain.singleSlash hplain hfull) htext hno hrefreshes
          simpa only [LocalFileStore.apply, LocalFileStore.record, hwrite, hfull, hdisk]
            using hwritten
      | error error =>
          have hsame : store.record record (.write path contents) = record := by
            unfold LocalFileStore.write at hwrite
            simp only [LocalFileStore.record]
            split
            · rfl
            next full hfull =>
              split
              next disk hdisk => simp [hfull, hdisk] at hwrite
              next => rfl
          rw [hsame]
          simpa only [LocalFileStore.apply, hwrite] using hcoherent
  | read path => exact hcoherent.read fun _ => FileOperation.plain.singleSlash hplain
  | delete path => exact hcoherent.delete fun _ => FileOperation.plain.singleSlash hplain

/-- A write that leaves older text in the cache is seen by the next read. -/
theorem refreshes_of_readsAsWritten {operation : FileOperation}
    (hplain : operation.plain store.root)
    (hafter : ReadsAsWritten (store.apply operation) (store.record record operation)) :
    store.refreshes operation := by
  cases operation with
  | read path => rfl
  | delete path => rfl
  | write path contents =>
      obtain ⟨text, htext, hno⟩ := FileOperation.plain.text hplain
      simp only [refreshes]
      split
      · rfl
      next full hfull =>
        split
        next disk hdisk =>
          rw [Bool.or_eq_true, Option.all_eq_true]
          cases hcacheable : contents.cacheable store.cache.maxMemory with
          | true => exact .inl rfl
          | false =>
              refine .inr fun cached hcached => decide_eq_true ?_
              have hcache := (cacheWritten_spec store.cache full contents).2.1 hcacheable
              have happly : store.apply (.write path contents) = { store with disk } := by
                simp only [LocalFileStore.apply, LocalFileStore.write, hfull, hdisk, hcache]
              have hread := hafter.uncached path
              rw [happly, @read_of_cached lru { store with disk } path full cached hfull hcached]
                at hread
              have htrue : disk.readText full.parts = .ok text :=
                Disk.readText_of_decode (by rw [(Disk.write_spec hdisk).1, Function.update_self])
                  (FileContents.decodeText_encode htext hno)
              simp only [uncachedRead, hfull, htrue] at hread
              rw [htext, Except.ok.inj hread]
        next => rfl

/-! ## Runs -/

theorem run_append (store : LocalFileStore lru) (operations : List FileOperation)
    (operation : FileOperation) :
    store.run (operations ++ [operation]) =
      ((store.run operations).1.apply operation,
        (store.run operations).1.record (store.run operations).2 operation) := by
  simp [run]

theorem run_root (store : LocalFileStore lru) (operations : List FileOperation) :
    (store.run operations).1.root = store.root := by
  induction operations using List.reverseRecOn with
  | nil => rfl
  | append_singleton operations operation ih => rw [run_append, apply_root, ih]

/-- Reads agree with the writes before them throughout a run exactly when every
write that is not cached leaves nothing else in the cache. -/
theorem run_readsAsWritten_iff (lru : LRUCache FullPath) (root : FullPath) (disk : Disk)
    (cacheLimitSize cacheMemorySize : Int) (operations : List FileOperation)
    (hplain : operations.all (·.plain root)) :
    let start : LocalFileStore lru := init root disk cacheLimitSize cacheMemorySize
    (∀ count ≤ operations.length,
      ReadsAsWritten (start.run (operations.take count)).1 (start.run (operations.take count)).2) ↔
    ∀ (index : Nat) (hindex : index < operations.length),
      (start.run (operations.take index)).1.refreshes operations[index] := by
  intro start
  have hstep : ∀ (index : Nat) (hindex : index < operations.length),
      operations[index].plain (start.run (operations.take index)).1.root := by
    intro index hindex
    rw [run_root]
    exact List.all_eq_true.mp hplain _ (List.getElem_mem hindex)
  constructor
  · intro hreads index hindex
    have hafter := hreads (index + 1) hindex
    rw [List.take_succ_eq_append_getElem hindex, run_append] at hafter
    exact refreshes_of_readsAsWritten (hstep index hindex) hafter
  · intro hrefreshes count hcount
    suffices hcoherent : Coherent (start.run (operations.take count)).1
        (start.run (operations.take count)).2 from hcoherent.readsAsWritten
    induction count with
    | zero => exact coherent_init root disk cacheLimitSize cacheMemorySize
    | succ index ih =>
        rw [List.take_succ_eq_append_getElem hcount, run_append]
        exact (ih (Nat.le_of_succ_le hcount)).apply (hstep index hcount) (hrefreshes index hcount)

end LocalFileStore

/-! ## Small runs -/

namespace Sample

/-- An empty directory, with room for three characters in the cache. -/
def fileStore : LocalFileStore (.recency FullPath) :=
  .init ⟨false, ["store"]⟩
    { files := fun _ => none
      directories := fun path => path = [] ∨ path = ["store"]
      disjoint := fun _ hfile => by cases hfile } 2 3

def overwrites : List FileOperation :=
  [.write "a" (.text "old"), .write "b" (.text "x"), .write "/a" (.text "new"), .delete "b"]

end Sample

open Sample in
theorem LocalFileStore.run_readsAsWritten_overwrites :
    ReadsAsWritten (fileStore.run overwrites).1 (fileStore.run overwrites).2 :=
  (run_readsAsWritten_iff (.recency FullPath) _ _ _ _ overwrites (by decide)).mpr (by decide)
    4 (by decide)

open Sample in
/-- Text that is too large for the cache leaves the old text in it. -/
theorem LocalFileStore.run_stale :
    let stale := fileStore.run [.write "a" (.text "old"), .write "a" (.text "newer")]
    (stale.1.read "a").1 = .ok "old" ∧ stale.2 ["store", "a"] = .text "newer" ∧
      ¬ ReadsAsWritten stale.1 stale.2 := by
  refine ⟨rfl, rfl, fun hreads => ?_⟩
  have htext := hreads.text "a" ⟨false, ["store", "a"]⟩ "newer" (by decide) rfl
  exact absurd (Except.ok.inj htext) (by decide)

end ShuttleFlow
