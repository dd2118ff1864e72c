import ShuttleFlow.Library.JsonRoundTrip
import ShuttleFlow.Library.Sums

/-! # The cache of files on disk

Each key has a file, whose name is a hash of the key. What the files hold is counted as they are
written and removed, and the files that were touched last are kept when the count gets too high.
-/

namespace ShuttleFlow

structure CacheFile where
  content : List Char
  mtime : Int
  deriving DecidableEq

/-- The bytes of a text. -/
def encodedSize (text : List Char) : Nat := (text.map Char.utf8Size).sum

def CacheFile.size (file : CacheFile) : Nat := encodedSize file.content

/-- The order in which a directory lists its files. -/
structure GlobOrder (Path : Type) where
  order : List Path → List Path
  perm : ∀ paths, (order paths).Perm paths

structure DiskCache (Path : Type) where
  sizeLimit : Option Int
  currentSize : Int
  files : Dict Path CacheFile

namespace DiskCache

variable {Path Float : Type} [DecidableEq Path]

/-- A cache over a directory without files. -/
def init (sizeLimit : Option Int) : DiskCache Path :=
  { sizeLimit, currentSize := 0, files := .empty }

/-- `len`. -/
def length (cache : DiskCache Path) : Nat := cache.files.keys.length

def totalSize (cache : DiskCache Path) : Int :=
  (cache.files.values.map fun file => (file.size : Int)).sum

/-- The file that was touched first is removed. There is none where `min` raises. -/
def evictOldest (glob : GlobOrder Path) (excludePath : Path) (cache : DiskCache Path) :
    Option (DiskCache Path) :=
  let others := (glob.order cache.files.keys).filter fun path => path ≠ excludePath
  let mtime := fun path => ((cache.files.get? path).map CacheFile.mtime).getD 0
  (others.minOn? mtime).map fun oldest =>
    let evictedSize := ((cache.files.get? oldest).map CacheFile.size).getD 0
    { cache with
      currentSize := cache.currentSize - evictedSize
      files := cache.files.erase oldest }

/-- The loop that makes room for more bytes. As many rounds as there are files are enough. -/
def makeRoom (glob : GlobOrder Path) (filePath : Path) (sizeLimit needed : Int) :
    Nat → DiskCache Path → Option (DiskCache Path)
  | rounds, cache =>
      if sizeLimit < cache.currentSize + needed ∧ 1 < cache.length then
        match rounds with
        | 0 => none
        | rounds + 1 =>
            (cache.evictOldest glob filePath).bind (makeRoom glob filePath sizeLimit needed rounds)
      else some cache

/-- What is evicted before a content is written. A file that does not grow needs no room. -/
def evictFor (glob : GlobOrder Path) (filePath : Path) (contentSize : Int)
    (cache : DiskCache Path) : Option (DiskCache Path) :=
  match cache.sizeLimit with
  | none => some cache
  | some sizeLimit =>
      match cache.files.get? filePath with
      | some old =>
          let sizeDiff := contentSize - old.size
          if 0 < sizeDiff then makeRoom glob filePath sizeLimit sizeDiff cache.length cache
          else some cache
      | none => makeRoom glob filePath sizeLimit contentSize cache.length cache

/-- A file that is written again is not counted twice. -/
def write (filePath : Path) (content : List Char) (now : Int) (cache : DiskCache Path) :
    DiskCache Path :=
  let removed := match cache.files.get? filePath with
    | some old => cache.currentSize - old.size
    | none => cache.currentSize
  { cache with
    currentSize := removed + encodedSize content
    files := cache.files.set filePath { content, mtime := now } }

def keyField : List Char := "key".toList

def valueField : List Char := "value".toList

/-- `json.dumps` of a key and a value. It raises for an object that has no JSON text. -/
def contentOf (format : FloatFormat Float) (key : List Char) (value : Option (JsonValue Float)) :
    Option (List Char) :=
  value.map fun value =>
    JsonText.dumps format (.obj [(keyField, .str key), (valueField, value)])

variable (format : FloatFormat Float) (filePath : List Char → Path)

/-- The cache after a `set`. A value without a text is refused before any file is looked at. -/
def set (glob : GlobOrder Path) (now : Int) (key : List Char) (value : Option (JsonValue Float))
    (cache : DiskCache Path) : Option (DiskCache Path) :=
  match contentOf format key value with
  | none => some cache
  | some content =>
      (cache.evictFor glob (filePath key) (encodedSize content)).map
        (write (filePath key) content now)

/-- What is read in a cache file: nothing where it has no JSON text, and no value where that has
none. -/
def valueOf (format : FloatFormat Float) (content : List Char) :
    Option (Option (JsonValue Float)) :=
  (JsonText.loads format content).map fun data =>
    match data with
    | .obj entries => (entries.find? fun entry => entry.1 = valueField).map Prod.snd
    | _ => none

/-- What a `get` gives, or an error. The file is touched before its value is looked up. -/
def get (now : Int) (key : List Char) (default : JsonValue Float) (cache : DiskCache Path) :
    Except Unit (JsonValue Float) × DiskCache Path :=
  match cache.files.get? (filePath key) with
  | none => (.ok default, cache)
  | some file =>
      match valueOf format file.content with
      | none => (.error (), cache)
      | some value =>
          (value.elim (.error ()) .ok,
            { cache with files := cache.files.set (filePath key) { file with mtime := now } })

def delete (key : List Char) (cache : DiskCache Path) : DiskCache Path :=
  match cache.files.get? (filePath key) with
  | none => cache
  | some file =>
      { cache with
        currentSize := cache.currentSize - file.size
        files := cache.files.erase (filePath key) }

def clear (cache : DiskCache Path) : DiskCache Path :=
  { cache with currentSize := 0, files := .empty }

end DiskCache

/-- A call, with the reading of the clock and the order of the directory that it meets. -/
inductive CacheCall (Path Float : Type)
  | set (glob : GlobOrder Path) (now : Int) (key : List Char) (value : Option (JsonValue Float))
  | get (now : Int) (key : List Char) (default : JsonValue Float)
  | delete (key : List Char)
  | clear

namespace DiskCache

variable {Path Float : Type} [DecidableEq Path]
variable (format : FloatFormat Float) (filePath : List Char → Path)

def call (cache : DiskCache Path) : CacheCall Path Float → Option (DiskCache Path)
  | .set glob now key value => cache.set format filePath glob now key value
  | .get now key default => some (cache.get format filePath now key default).2
  | .delete key => some (cache.delete filePath key)
  | .clear => some cache.clear

def callAll (cache : DiskCache Path) (calls : List (CacheCall Path Float)) :
    Option (DiskCache Path) :=
  calls.foldlM (call format filePath) cache

/-! ## What is counted -/

variable {cache next : DiskCache Path}

/-- The count is right, and the limit holds unless there are few files. -/
structure Accounts (cache : DiskCache Path) : Prop where
  total : cache.currentSize = cache.totalSize
  bound : ∀ limit ∈ cache.sizeLimit, cache.currentSize ≤ limit ∨ cache.length ≤ 2

omit [DecidableEq Path] in
theorem accounts_init (sizeLimit : Option Int) :
    Accounts (init sizeLimit : DiskCache Path) where
  total := rfl
  bound _ _ := .inr (Nat.zero_le 2)

theorem mem_keys_of_get? {files : Dict Path CacheFile} {path : Path} {file : CacheFile}
    (hfile : files.get? path = some file) : path ∈ files.keys := by
  rw [← Dict.isSome_get?_iff, hfile]
  rfl

theorem length_erase_lt {files : Dict Path CacheFile} {path : Path} {file : CacheFile}
    (hfile : files.get? path = some file) : (files.erase path).keys.length < files.keys.length := by
  have hkeys : (files.erase path).keys = files.keys.filter fun other => other ≠ path := by
    rw [Dict.keys, Dict.keys, Dict.erase, List.filter_map]
    rfl
  rw [hkeys, List.length_filter_lt_length_iff_exists]
  exact ⟨path, mem_keys_of_get? hfile, by simp⟩

theorem totalSize_erase {path : Path} {file : CacheFile}
    (hfile : cache.files.get? path = some file) (hfiles : next.files = cache.files.erase path) :
    next.totalSize = cache.totalSize - file.size := by
  have hsum := cache.files.sum_values_erase path fun file => (file.size : Int)
  rw [hfile, Option.map_some, Option.getD_some] at hsum
  rw [totalSize, totalSize, hfiles, hsum, add_sub_cancel_right]

/-- A file that is written counts in place of the one that was there. -/
theorem totalSize_set {path : Path} (file : CacheFile)
    (hfiles : next.files = cache.files.set path file) :
    next.totalSize + (((cache.files.get? path).map CacheFile.size).getD 0 : Nat) =
      cache.totalSize + file.size := by
  have hsum := cache.files.sum_values_set path file fun file => (file.size : Int)
  rw [totalSize, totalSize, hfiles, ← hsum]
  congr 1
  cases cache.files.get? path with
  | none => rfl
  | some old => rfl

theorem length_set_of_get? {path : Path} {old : CacheFile}
    (hold : cache.files.get? path = some old) (file : CacheFile)
    (hfiles : next.files = cache.files.set path file) : next.length = cache.length := by
  rw [length, length, hfiles, Dict.keys_set_of_mem (mem_keys_of_get? hold)]

theorem currentSize_write (path : Path) (content : List Char) (now : Int)
    (cache : DiskCache Path) :
    (cache.write path content now).currentSize +
        (((cache.files.get? path).map CacheFile.size).getD 0 : Nat) =
      cache.currentSize + encodedSize content := by
  cases hold : cache.files.get? path with
  | none => simp [write, hold]
  | some old =>
      simp only [write, hold, Option.map_some, Option.getD_some]
      rw [add_right_comm, sub_add_cancel]

theorem totalSize_write (hcount : cache.currentSize = cache.totalSize) (path : Path)
    (content : List Char) (now : Int) :
    (cache.write path content now).currentSize = (cache.write path content now).totalSize := by
  have hset : (cache.write path content now).totalSize +
      (((cache.files.get? path).map CacheFile.size).getD 0 : Nat) =
        cache.totalSize + encodedSize content :=
    totalSize_set { content, mtime := now } rfl
  apply add_right_cancel (b := (((cache.files.get? path).map CacheFile.size).getD 0 : Int))
  rw [currentSize_write, hcount, hset]

/-! ## Evictions -/

/-- Where there is another file, one of the others is removed. -/
theorem evictOldest_spec (glob : GlobOrder Path) {excludePath other : Path}
    (hother : other ∈ cache.files.keys) (hne : other ≠ excludePath) :
    ∃ oldest file, oldest ≠ excludePath ∧ cache.files.get? oldest = some file ∧
      cache.evictOldest glob excludePath = some { cache with
        currentSize := cache.currentSize - file.size
        files := cache.files.erase oldest } := by
  have hmem : other ∈ (glob.order cache.files.keys).filter fun path => path ≠ excludePath := by
    rw [List.mem_filter, (glob.perm _).mem_iff]
    exact ⟨hother, decide_eq_true hne⟩
  rw [evictOldest]
  cases holdest : ((glob.order cache.files.keys).filter fun path => path ≠ excludePath).minOn?
      fun path => ((cache.files.get? path).map CacheFile.mtime).getD 0 with
  | none =>
      have hsome := List.isSome_minOn?_of_mem
        (f := fun path => ((cache.files.get? path).map CacheFile.mtime).getD 0) hmem
      rw [holdest] at hsome
      cases hsome
  | some oldest =>
      have hlisted := List.minOn?_mem holdest
      rw [List.mem_filter, (glob.perm _).mem_iff] at hlisted
      obtain ⟨file, hfile⟩ := Option.isSome_iff_exists.mp (Dict.isSome_get?_iff.mpr hlisted.1)
      refine ⟨oldest, file, of_decide_eq_true hlisted.2, hfile, ?_⟩
      rw [Option.map_some, hfile]
      rfl

theorem exists_other_key (hlength : 1 < cache.length) (path : Path) :
    ∃ other ∈ cache.files.keys, other ≠ path := by
  by_contra hnone
  have hall : ∀ other ∈ cache.files.keys, other = path := by
    intro other hother
    by_contra hne
    exact hnone ⟨other, hother, hne⟩
  have hle : cache.files.keys.length ≤ [path].length :=
    (List.subperm_of_subset cache.files.nodup fun other hother =>
      List.mem_singleton.mpr (hall other hother)).length_le
  exact absurd hlength (not_lt.mpr hle)

/-- What evictions leave: the limit, the count and the file that is to be written. -/
structure Evicted (filePath : Path) (cache room : DiskCache Path) : Prop where
  sizeLimit : room.sizeLimit = cache.sizeLimit
  total : room.currentSize = room.totalSize
  kept : room.files.get? filePath = cache.files.get? filePath

variable {filePath : Path}

theorem Evicted.trans {room : DiskCache Path} (hfirst : Evicted filePath cache next)
    (hsecond : Evicted filePath next room) : Evicted filePath cache room where
  sizeLimit := hsecond.sizeLimit.trans hfirst.sizeLimit
  total := hsecond.total
  kept := hsecond.kept.trans hfirst.kept

theorem evicted_erase (hcount : cache.currentSize = cache.totalSize) {oldest : Path}
    (hne : oldest ≠ filePath) {file : CacheFile} (hfile : cache.files.get? oldest = some file) :
    Evicted filePath cache { cache with
      currentSize := cache.currentSize - file.size
      files := cache.files.erase oldest } where
  sizeLimit := rfl
  total := by
    rw [totalSize_erase hfile rfl, hcount]
  kept := by
    rw [Dict.get?_erase, if_neg (Ne.symm hne)]

/-- The loop ends, since each round removes a file, and no round is without one. -/
theorem makeRoom_spec (glob : GlobOrder Path) (filePath : Path) (sizeLimit needed : Int)
    {rounds : Nat} (hrounds : cache.length ≤ rounds) (hcount : cache.currentSize = cache.totalSize) :
    ∃ room, makeRoom glob filePath sizeLimit needed rounds cache = some room ∧
      Evicted filePath cache room ∧
      (room.currentSize + needed ≤ sizeLimit ∨ room.length ≤ 1) := by
  induction rounds generalizing cache with
  | zero =>
      have hdone : ¬ (sizeLimit < cache.currentSize + needed ∧ 1 < cache.length) := by omega
      rw [makeRoom, if_neg hdone]
      exact ⟨cache, rfl, ⟨rfl, hcount, rfl⟩, .inr (by omega)⟩
  | succ rounds ih =>
      rw [makeRoom]
      by_cases hmore : sizeLimit < cache.currentSize + needed ∧ 1 < cache.length
      · rw [if_pos hmore]
        obtain ⟨other, hother, hne⟩ := exists_other_key hmore.2 filePath
        obtain ⟨oldest, file, holdest, hfile, hevict⟩ := evictOldest_spec glob hother hne
        have hevicted := evicted_erase hcount holdest hfile
        have hshorter : length { cache with
            currentSize := cache.currentSize - file.size
            files := cache.files.erase oldest } ≤ rounds :=
          Nat.le_of_lt_succ ((length_erase_lt hfile).trans_le hrounds)
        obtain ⟨room, hroom, hrest, hends⟩ := ih hshorter hevicted.total
        refine ⟨room, ?_, hevicted.trans hrest, hends⟩
        rw [hevict]
        exact hroom
      · rw [if_neg hmore]
        exact ⟨cache, rfl, ⟨rfl, hcount, rfl⟩, by omega⟩

/-- The room that there is for a content. A file that is written again takes its own place. -/
def HasRoom (filePath : Path) (contentSize : Int) (room : DiskCache Path) : Prop :=
  ∀ limit ∈ room.sizeLimit,
    room.currentSize - (((room.files.get? filePath).map CacheFile.size).getD 0 : Nat) +
        contentSize ≤ limit ∨
      (room.files.keys.filter fun path => path ≠ filePath).length ≤ 1

theorem length_others_le (cache : DiskCache Path) (filePath : Path) :
    (cache.files.keys.filter fun path => path ≠ filePath).length ≤ cache.length :=
  List.length_filter_le _ _

theorem length_others_lt {file : CacheFile} (hfile : cache.files.get? filePath = some file) :
    (cache.files.keys.filter fun path => path ≠ filePath).length < cache.length := by
  rw [length, List.length_filter_lt_length_iff_exists]
  exact ⟨filePath, mem_keys_of_get? hfile, by simp⟩

theorem evictFor_spec (haccounts : Accounts cache) (glob : GlobOrder Path) (filePath : Path)
    (contentSize : Int) :
    ∃ room, cache.evictFor glob filePath contentSize = some room ∧
      Evicted filePath cache room ∧ HasRoom filePath contentSize room := by
  have hsame : Evicted filePath cache cache := ⟨rfl, haccounts.total, rfl⟩
  rw [evictFor]
  cases hlimit : cache.sizeLimit with
  | none =>
      refine ⟨cache, rfl, hsame, fun limit hmem => ?_⟩
      rw [hlimit] at hmem
      exact absurd hmem (Option.not_mem_none limit)
  | some sizeLimit =>
      cases hold : cache.files.get? filePath with
      | none =>
          obtain ⟨room, hroom, hevicted, hends⟩ := makeRoom_spec glob filePath
            sizeLimit contentSize le_rfl haccounts.total
          refine ⟨room, hroom, hevicted, fun limit hmem => ?_⟩
          rw [hevicted.sizeLimit, hlimit, Option.mem_some_iff] at hmem
          have hothers := length_others_le room filePath
          rw [hevicted.kept, hold]
          simp only [Option.map_none, Option.getD_none]
          omega
      | some old =>
          have hmap : (((some old).map CacheFile.size).getD 0 : Nat) = old.size := rfl
          by_cases hgrows : 0 < contentSize - (old.size : Int)
          · obtain ⟨room, hroom, hevicted, hends⟩ := makeRoom_spec glob filePath
              sizeLimit (contentSize - old.size) le_rfl haccounts.total
            refine ⟨room, ?_, hevicted, fun limit hmem => ?_⟩
            · simp only [if_pos hgrows]
              exact hroom
            · rw [hevicted.sizeLimit, hlimit, Option.mem_some_iff] at hmem
              have hothers := length_others_le room filePath
              rw [hevicted.kept, hold, hmap]
              omega
          · -- nothing is evicted, but the content takes no more than there was
            refine ⟨cache, by simp only [if_neg hgrows], hsame, fun limit hmem => ?_⟩
            have hbound := haccounts.bound limit hmem
            have hothers := length_others_lt hold
            rw [hold, hmap]
            omega

/-- The other files stay as they are when a file is written. -/
theorem others_set (files : Dict Path CacheFile) (filePath : Path) (file : CacheFile) :
    ((files.set filePath file).keys.filter fun path => path ≠ filePath) =
      files.keys.filter fun path => path ≠ filePath := by
  by_cases hmem : filePath ∈ files.keys
  · rw [Dict.keys_set_of_mem hmem]
  · rw [Dict.keys_set_of_notMem hmem]
    simp

theorem HasRoom.write {room : DiskCache Path} {content : List Char}
    (hroom : HasRoom filePath (encodedSize content) room) (now : Int) :
    ∀ limit ∈ room.sizeLimit,
      (room.write filePath content now).currentSize ≤ limit ∨
        ((room.write filePath content now).files.keys.filter
          fun path => path ≠ filePath).length ≤ 1 := by
  intro limit hlimit
  have hsize := currentSize_write filePath content now room
  have hothers := others_set room.files filePath { content, mtime := now }
  have hfits := hroom limit hlimit
  rw [DiskCache.write, hothers]
  rw [DiskCache.write] at hsize
  omega

/-- All files but one are the others. -/
theorem length_le_others (cache : DiskCache Path) (filePath : Path) :
    cache.length ≤ (cache.files.keys.filter fun path => path ≠ filePath).length + 1 := by
  have hcount : cache.files.keys.count filePath ≤ 1 :=
    List.nodup_iff_count_le_one.mp cache.files.nodup filePath
  have hsplit := List.length_eq_countP_add_countP (fun path => decide (path ≠ filePath))
    (l := cache.files.keys)
  rw [List.countP_eq_length_filter] at hsplit
  have hsame : cache.files.keys.countP (fun path => ¬ decide (path ≠ filePath) = true) =
      cache.files.keys.count filePath := by
    rw [List.count]
    congr 1
    funext path
    simp [Bool.beq_eq_decide_eq]
  rw [length]
  omega

/-! ## Runs -/

variable {format : FloatFormat Float} {fileOf : List Char → Path}

/-- What a `set` does: room is made among the other files, and the content is written. -/
structure Stored (fileOf : List Char → Path) (glob : GlobOrder Path) (now : Int)
    (key content : List Char) (cache after : DiskCache Path) : Prop where
  evicts : ∃ room, cache.evictFor glob (fileOf key) (encodedSize content) = some room ∧
    room.files.get? (fileOf key) = cache.files.get? (fileOf key)
  written : after.files.get? (fileOf key) = some { content, mtime := now }
  fits : ∀ limit ∈ cache.sizeLimit, after.totalSize ≤ limit ∨
    (after.files.keys.filter fun path => path ≠ fileOf key).length ≤ 1

theorem set_spec (haccounts : Accounts cache) (glob : GlobOrder Path) (now : Int)
    (key : List Char) (value : Option (JsonValue Float)) :
    ∃ after, cache.set format fileOf glob now key value = some after ∧
      after.sizeLimit = cache.sizeLimit ∧ Accounts after ∧
      ∀ content, contentOf format key value = some content →
        Stored fileOf glob now key content cache after := by
  rw [set]
  cases hcontent : contentOf format key value with
  | none =>
      refine ⟨cache, rfl, rfl, haccounts, fun content hsome => ?_⟩
      cases hsome
  | some content =>
      obtain ⟨room, hroom, hevicted, hfits⟩ :=
        evictFor_spec haccounts glob (fileOf key) (encodedSize content)
      have htotal := totalSize_write hevicted.total (fileOf key) content now
      have hwrite := hfits.write now
      refine ⟨room.write (fileOf key) content now, ?_, hevicted.sizeLimit, ?_,
        fun other hother => ?_⟩
      · simp only [hroom, Option.map_some]
      · refine ⟨htotal, fun limit hlimit => ?_⟩
        have hlength := length_le_others (room.write (fileOf key) content now) (fileOf key)
        have hbound := hwrite limit hlimit
        omega
      · obtain rfl := Option.some.inj hother
        refine ⟨⟨room, hroom, hevicted.kept⟩, ?_, fun limit hlimit => ?_⟩
        · rw [write, Dict.get?_set, if_pos rfl]
        · rw [← htotal]
          exact hwrite limit (hevicted.sizeLimit ▸ hlimit)

/-- A `get` leaves the directory as it is, or it touches a file. -/
theorem get_cases (now : Int) (key : List Char) (default : JsonValue Float)
    (cache : DiskCache Path) :
    (cache.get format fileOf now key default).2 = cache ∨
      ∃ file, cache.files.get? (fileOf key) = some file ∧
        (cache.get format fileOf now key default).2 =
          { cache with files := cache.files.set (fileOf key) { file with mtime := now } } := by
  rw [get]
  split
  next => exact .inl rfl
  next file hfile =>
    split
    next => exact .inl rfl
    next => exact .inr ⟨file, hfile, rfl⟩

/-- Only the time of the file is another one. -/
theorem Accounts.touch (haccounts : Accounts cache) {path : Path} {file : CacheFile}
    (hfile : cache.files.get? path = some file) (now : Int)
    (hfiles : next.files = cache.files.set path { file with mtime := now })
    (hsize : next.currentSize = cache.currentSize) (hlimit : next.sizeLimit = cache.sizeLimit) :
    Accounts next := by
  have htotal := totalSize_set _ hfiles
  rw [hfile] at htotal
  have hlength := length_set_of_get? hfile _ hfiles
  refine ⟨?_, fun limit hmem => ?_⟩
  · rw [hsize, haccounts.total]
    exact (add_right_cancel htotal).symm
  · rw [hlength, hsize]
    exact haccounts.bound limit (hlimit ▸ hmem)

theorem Accounts.delete (haccounts : Accounts cache) (key : List Char) :
    Accounts (cache.delete fileOf key) := by
  rw [DiskCache.delete]
  split
  next => exact haccounts
  next file hfile =>
    have hshorter := length_erase_lt hfile
    refine ⟨?_, fun limit hlimit => ?_⟩
    · rw [totalSize_erase hfile rfl, haccounts.total]
    · have hbound := haccounts.bound limit hlimit
      simp only [length] at hbound ⊢
      omega

omit [DecidableEq Path] in
theorem accounts_clear (cache : DiskCache Path) : Accounts cache.clear where
  total := rfl
  bound _ _ := .inr (Nat.zero_le 2)

theorem call_spec (haccounts : Accounts cache) (call : CacheCall Path Float) :
    ∃ after, cache.call format fileOf call = some after ∧ after.sizeLimit = cache.sizeLimit ∧
      Accounts after := by
  cases call with
  | set glob now key value =>
      obtain ⟨after, hset, hlimit, hafter, -⟩ := set_spec haccounts glob now key value
      exact ⟨after, hset, hlimit, hafter⟩
  | get now key default =>
      refine ⟨_, rfl, ?_⟩
      obtain hsame | ⟨file, hfile, htouched⟩ := get_cases now key default cache
      · rw [hsame]
        exact ⟨rfl, haccounts⟩
      · rw [htouched]
        exact ⟨rfl, haccounts.touch hfile now rfl rfl rfl⟩
  | delete key =>
      refine ⟨_, rfl, ?_, haccounts.delete key⟩
      rw [delete]
      split
      next => rfl
      next => rfl
  | clear => exact ⟨_, rfl, rfl, accounts_clear cache⟩

theorem Accounts.callAll_spec (haccounts : Accounts cache)
    (format : FloatFormat Float) (fileOf : List Char → Path) (calls : List (CacheCall Path Float)) :
    ∃ after, cache.callAll format fileOf calls = some after ∧
      after.sizeLimit = cache.sizeLimit ∧ Accounts after := by
  induction calls generalizing cache with
  | nil => exact ⟨cache, rfl, rfl, haccounts⟩
  | cons call rest ih =>
      obtain ⟨next, hnext, hlimit, hcounts⟩ := call_spec haccounts call
      obtain ⟨after, hafter, hrest, hend⟩ := ih hcounts
      refine ⟨after, ?_, hrest.trans hlimit, hend⟩
      rw [callAll, List.foldlM_cons, hnext]
      exact hafter

/-- No call meets an eviction without a file, the count is right after every run, and a `set`
keeps the file that it writes and makes room among the others. -/
theorem callAll_accounts (sizeLimit : Option Int) (calls : List (CacheCall Path Float)) :
    ∃ cache, (init sizeLimit).callAll format fileOf calls = some cache ∧
      cache.currentSize = cache.totalSize ∧
      ∀ glob now key (value : Option (JsonValue Float)),
        ∃ after, cache.set format fileOf glob now key value = some after ∧
          after.currentSize = after.totalSize ∧
          ∀ content, contentOf format key value = some content →
            Stored fileOf glob now key content cache after := by
  have hinit : Accounts (init sizeLimit : DiskCache Path) := accounts_init sizeLimit
  obtain ⟨cache, hcache, -, haccounts⟩ := hinit.callAll_spec format fileOf calls
  refine ⟨cache, hcache, haccounts.total, fun glob now key value => ?_⟩
  obtain ⟨after, hafter, -, hcounts, hstored⟩ := set_spec haccounts glob now key value
  exact ⟨after, hafter, hcounts.total, hstored⟩

end DiskCache

end ShuttleFlow
