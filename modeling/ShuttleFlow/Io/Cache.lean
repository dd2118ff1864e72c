import Mathlib.Data.List.AList

/-! # A cache bounded in entries and in memory

`cachetools.LRUCache` is a parameter: a dictionary that knows which of its keys
was used least recently. The limits and the accounting are those of the source.
-/

namespace ShuttleFlow

/-- What the bounded cache uses of `cachetools.LRUCache`. -/
structure LRUCache (κ : Type) [DecidableEq κ] where
  Entries : Type
  empty : Entries
  get? : Entries → κ → Option String
  length : Entries → Nat
  /-- Reading an entry marks it as used. -/
  touch : Entries → κ → Entries
  insert : Entries → κ → String → Entries
  erase : Entries → κ → Entries
  leastRecent : Entries → Option κ
  get?_empty : ∀ key, get? empty key = none
  get?_touch : ∀ entries key other, get? (touch entries key) other = get? entries other
  get?_insert : ∀ entries key value other,
    get? (insert entries key value) other = if other = key then some value else get? entries other
  get?_erase : ∀ entries key other,
    get? (erase entries key) other = if other = key then none else get? entries other
  length_touch : ∀ entries key, length (touch entries key) = length entries
  length_erase : ∀ entries key, (get? entries key).isSome →
    length (erase entries key) + 1 = length entries
  leastRecent_isSome : ∀ entries, 0 < length entries →
    ∃ key, leastRecent entries = some key ∧ (get? entries key).isSome

variable {κ : Type} [DecidableEq κ]

/-- Entries in the order of their use, the last one used first. -/
def LRUCache.recency (κ : Type) [DecidableEq κ] : LRUCache κ where
  Entries := AList fun _ : κ => String
  empty := ∅
  get? entries key := entries.lookup key
  length entries := entries.keys.length
  touch entries key :=
    match entries.lookup key with
    | some value => entries.insert key value
    | none => entries
  insert entries key value := entries.insert key value
  erase entries key := entries.erase key
  leastRecent entries := entries.keys.getLast?
  get?_empty _ := rfl
  get?_touch entries key other := by
    split
    next value hvalue =>
      by_cases hsame : other = key
      · rw [hsame, AList.lookup_insert, hvalue]
      · rw [AList.lookup_insert_ne hsame]
    next => rfl
  get?_insert entries key value other := by
    split
    next hsame => rw [hsame, AList.lookup_insert]
    next hother => rw [AList.lookup_insert_ne hother]
  get?_erase entries key other := by
    split
    next hsame => rw [hsame, AList.lookup_erase]
    next hother => rw [AList.lookup_erase_ne hother]
  length_touch entries key := by
    split
    next value hvalue =>
      have hmem : key ∈ entries.keys := AList.lookup_isSome.mp (by simp [hvalue])
      rw [AList.keys_insert, List.length_cons, List.length_erase_of_mem hmem]
      exact Nat.sub_add_cancel (List.length_pos_of_mem hmem)
    next => rfl
  length_erase entries key hpresent := by
    have hmem : key ∈ entries.keys := AList.lookup_isSome.mp hpresent
    rw [AList.keys_erase, List.length_erase_of_mem hmem]
    exact Nat.sub_add_cancel (List.length_pos_of_mem hmem)
  leastRecent_isSome entries hsome := by
    have hne : entries.keys ≠ [] := List.length_pos_iff.mp hsome
    exact ⟨_, List.getLast?_eq_some_getLast hne,
      AList.lookup_isSome.mpr (List.getLast_mem hne)⟩

/-- An LRU cache that can be iterated over. -/
structure ListedLRUCache (κ : Type) [DecidableEq κ] extends LRUCache κ where
  keys : Entries → List κ
  nodup_keys : ∀ entries, (keys entries).Nodup
  mem_keys : ∀ entries key, key ∈ keys entries ↔ (get? entries key).isSome
  length_keys : ∀ entries, (keys entries).length = length entries

/-- The keys in the order of their last use. -/
def ListedLRUCache.recency (κ : Type) [DecidableEq κ] : ListedLRUCache κ where
  toLRUCache := .recency κ
  keys entries := entries.keys.reverse
  nodup_keys entries := List.nodup_reverse.mpr entries.keys_nodup
  mem_keys _ _ := List.mem_reverse.trans AList.lookup_isSome.symm
  length_keys _ := List.length_reverse

structure MemoryLRUCache (lru : LRUCache κ) where
  maxMemory : Int
  maxsize : Nat
  currentMemory : Int
  entries : lru.Entries

namespace MemoryLRUCache

variable {lru : LRUCache κ}

def init (maxMemory maxSize : Int) : MemoryLRUCache lru :=
  ⟨maxMemory, (max 1 maxSize).toNat, 0, lru.empty⟩

/-- The size of a string is its length. -/
def getSize (value : String) : Int := value.length

/-- The value of a key, without marking it as used. -/
def get? (cache : MemoryLRUCache lru) (key : κ) : Option String :=
  lru.get? cache.entries key

def length (cache : MemoryLRUCache lru) : Nat := lru.length cache.entries

def touch (cache : MemoryLRUCache lru) (key : κ) : MemoryLRUCache lru :=
  { cache with entries := lru.touch cache.entries key }

/-- Delete a key. There is no result when the key is missing. -/
def delItem (cache : MemoryLRUCache lru) (key : κ) : Option (MemoryLRUCache lru) :=
  (cache.get? key).map fun oldValue =>
    { cache with
      currentMemory := cache.currentMemory - getSize oldValue
      entries := lru.erase (lru.touch cache.entries key) key }

/-- Delete the least recently used key, reading it first. -/
def popItem (cache : MemoryLRUCache lru) : Option (MemoryLRUCache lru) :=
  (lru.leastRecent cache.entries).bind fun key => (cache.touch key).delItem key

/-- Pop items as long as the cache is over a limit. -/
def evictWhile (exceeded : MemoryLRUCache lru → Bool) :
    Nat → MemoryLRUCache lru → MemoryLRUCache lru
  | 0, cache => cache
  | fuel + 1, cache =>
      if exceeded cache then
        match cache.popItem with
        | some cache => evictWhile exceeded fuel cache
        | none => cache
      else cache

def overMemory (cache : MemoryLRUCache lru) : Bool :=
  cache.currentMemory > cache.maxMemory && cache.length > 0

def full (cache : MemoryLRUCache lru) : Bool :=
  cache.length + 1 > cache.maxsize

/-- Count the new value of a key instead of its old one. -/
def account (cache : MemoryLRUCache lru) (key : κ) (value : String) : MemoryLRUCache lru :=
  match cache.get? key with
  | some oldValue =>
      { cache.touch key with
        currentMemory := cache.currentMemory - getSize oldValue + getSize value }
  | none => { cache with currentMemory := cache.currentMemory + getSize value }

/-- Evict items until a value of the key fits under both limits. -/
def makeRoom (cache : MemoryLRUCache lru) (key : κ) : MemoryLRUCache lru :=
  let cache := evictWhile overMemory cache.length cache
  if (cache.get? key).isSome then cache else evictWhile full cache.length cache

/-- Store a value. Values larger than the memory limit are not cached. -/
def setItem (cache : MemoryLRUCache lru) (key : κ) (value : String) : MemoryLRUCache lru :=
  if getSize value > cache.maxMemory then cache
  else
    let cache := (cache.account key value).makeRoom key
    { cache with entries := lru.insert cache.entries key value }

def clear (cache : MemoryLRUCache lru) : MemoryLRUCache lru :=
  evictWhile (fun _ => true) cache.length cache

/-! ## Contents -/

/-- Entries of the first cache are entries of the second one. -/
def Within (first second : MemoryLRUCache lru) : Prop :=
  ∀ key value, first.get? key = some value → second.get? key = some value

theorem Within.refl (cache : MemoryLRUCache lru) : cache.Within cache := fun _ _ => id

theorem Within.trans {first second third : MemoryLRUCache lru} (hfirst : first.Within second)
    (hsecond : second.Within third) : first.Within third :=
  fun key value hget => hsecond key value (hfirst key value hget)

@[simp] theorem get?_init (maxMemory maxSize : Int) (key : κ) :
    (init maxMemory maxSize : MemoryLRUCache lru).get? key = none :=
  lru.get?_empty key

@[simp] theorem get?_touch (cache : MemoryLRUCache lru) (key other : κ) :
    (cache.touch key).get? other = cache.get? other :=
  lru.get?_touch _ _ _

theorem delItem_spec {cache deleted : MemoryLRUCache lru} {key : κ}
    (hdelete : cache.delItem key = some deleted) :
    deleted.length + 1 = cache.length ∧
      ∀ other, deleted.get? other = if other = key then none else cache.get? other := by
  obtain ⟨oldValue, hold, rfl⟩ := Option.map_eq_some_iff.mp hdelete
  constructor
  · have hpresent : (lru.get? (lru.touch cache.entries key) key).isSome := by
      rw [lru.get?_touch]
      exact Option.isSome_iff_exists.mpr ⟨oldValue, hold⟩
    exact (lru.length_erase _ _ hpresent).trans (lru.length_touch _ _)
  · intro other
    simp only [get?, lru.get?_erase, lru.get?_touch]

theorem delItem_isSome {cache : MemoryLRUCache lru} {key : κ} :
    (cache.delItem key).isSome ↔ (cache.get? key).isSome := by
  simp [delItem]

/-- Popping removes an entry, as long as there is one. -/
theorem popItem_spec {cache : MemoryLRUCache lru} (hsome : 0 < cache.length) :
    ∃ popped, cache.popItem = some popped ∧ popped.length + 1 = cache.length ∧
      popped.Within cache := by
  obtain ⟨key, hleast, hpresent⟩ := lru.leastRecent_isSome cache.entries hsome
  have hdelete : ((cache.touch key).delItem key).isSome := by
    rw [delItem_isSome, get?_touch]
    exact hpresent
  obtain ⟨popped, hpopped⟩ := Option.isSome_iff_exists.mp hdelete
  obtain ⟨hlength, hget⟩ := delItem_spec hpopped
  refine ⟨popped, by simp [popItem, hleast, hpopped],
    hlength.trans (lru.length_touch _ _), fun other value hvalue => ?_⟩
  rw [hget] at hvalue
  split at hvalue
  · cases hvalue
  · simpa using hvalue

theorem popItem_within {cache popped : MemoryLRUCache lru} (hpop : cache.popItem = some popped) :
    popped.Within cache := by
  intro other value hvalue
  obtain ⟨key, -, hdelete⟩ := Option.bind_eq_some_iff.mp hpop
  rw [(delItem_spec hdelete).2] at hvalue
  split at hvalue
  · cases hvalue
  · simpa using hvalue

theorem evictWhile_within (exceeded : MemoryLRUCache lru → Bool) (fuel : Nat)
    (cache : MemoryLRUCache lru) : (evictWhile exceeded fuel cache).Within cache := by
  induction fuel generalizing cache with
  | zero => exact .refl cache
  | succ fuel ih =>
      unfold evictWhile
      split
      · split
        next popped hpop => exact (ih popped).trans (popItem_within hpop)
        next => exact .refl cache
      · exact .refl cache

/-- With one unit of fuel for each entry, eviction stops below the limit. -/
theorem evictWhile_spec (exceeded : MemoryLRUCache lru → Bool) {fuel : Nat}
    {cache : MemoryLRUCache lru} (hfuel : cache.length = fuel) :
    exceeded (evictWhile exceeded fuel cache) = false ∨
      (evictWhile exceeded fuel cache).length = 0 := by
  induction fuel generalizing cache with
  | zero => exact .inr hfuel
  | succ fuel ih =>
      unfold evictWhile
      split
      next =>
        have hsome : 0 < cache.length := by omega
        obtain ⟨popped, hpop, hlength, -⟩ := popItem_spec hsome
        rw [hpop]
        exact ih (by omega)
      next hbelow => exact .inl (by simpa using hbelow)

theorem get?_of_length_eq_zero {cache : MemoryLRUCache lru} (hempty : cache.length = 0) (key : κ) :
    cache.get? key = none := by
  by_contra hpresent
  have hlength := lru.length_erase cache.entries key (Option.isSome_iff_ne_none.mpr hpresent)
  have hsame : lru.length cache.entries = 0 := hempty
  omega

/-- A cleared cache is empty. -/
@[simp] theorem get?_clear (cache : MemoryLRUCache lru) (key : κ) :
    cache.clear.get? key = none := by
  refine get?_of_length_eq_zero ?_ key
  rcases @evictWhile_spec _ _ lru (fun _ => true) _ cache rfl with hover | hempty
  · cases hover
  · exact hempty

theorem account_get? (cache : MemoryLRUCache lru) (key : κ) (value : String) (other : κ) :
    (cache.account key value).get? other = cache.get? other := by
  unfold account
  split
  · exact lru.get?_touch _ _ _
  · rfl

theorem makeRoom_within (cache : MemoryLRUCache lru) (key : κ) :
    (cache.makeRoom key).Within cache := by
  have hmemory := evictWhile_within overMemory cache.length cache
  simp only [makeRoom]
  split
  · exact hmemory
  · exact (evictWhile_within full _ _).trans hmemory

theorem setItem_of_large {cache : MemoryLRUCache lru} {key : κ} {value : String}
    (hlarge : getSize value > cache.maxMemory) : cache.setItem key value = cache := by
  simp only [setItem, if_pos hlarge]

/-- A value that fits is stored, and nothing else is added. -/
theorem setItem_of_fits {cache : MemoryLRUCache lru} {key : κ} {value : String}
    (hfits : ¬ getSize value > cache.maxMemory) :
    (cache.setItem key value).get? key = some value ∧
      ∀ other, other ≠ key → ∀ found, (cache.setItem key value).get? other = some found →
        cache.get? other = some found := by
  simp only [setItem, if_neg hfits]
  refine ⟨by simp [get?, lru.get?_insert], fun other hother found hfound => ?_⟩
  simp only [get?, lru.get?_insert, if_neg hother] at hfound
  exact account_get? cache key value other ▸ makeRoom_within _ key other found hfound

/-! ## Limits -/

end MemoryLRUCache

end ShuttleFlow
