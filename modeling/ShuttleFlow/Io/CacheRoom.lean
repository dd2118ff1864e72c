import Mathlib.Algebra.Order.BigOperators.Group.List
import Mathlib.Algebra.Order.Ring.Int
import ShuttleFlow.Io.Cache

/-! # Room in the cache

Nothing is evicted as long as the values that are stored fit under both limits.
-/

namespace ShuttleFlow

namespace MemoryLRUCache

variable {κ : Type} [DecidableEq κ] {lru : ListedLRUCache κ}

def sizeAt (cache : MemoryLRUCache lru.toLRUCache) (key : κ) : Int :=
  ((cache.get? key).map getSize).getD 0

def sizeOfAll (cache : MemoryLRUCache lru.toLRUCache) (keys : List κ) : Int :=
  (keys.map cache.sizeAt).sum

def keysOtherThan (cache : MemoryLRUCache lru.toLRUCache) (key : κ) : List κ :=
  (lru.keys cache.entries).filter (· ≠ key)

/-- Nothing has to be evicted for the value. -/
def hasRoom (cache : MemoryLRUCache lru.toLRUCache) (key : κ) (value : String) : Bool :=
  cache.sizeOfAll (cache.keysOtherThan key) + getSize value ≤ cache.maxMemory &&
    ((lru.keys cache.entries).contains key ||
      (lru.keys cache.entries).length + 1 ≤ cache.maxsize)

/-- The memory counted is the memory used. -/
def Counted (cache : MemoryLRUCache lru.toLRUCache) : Prop :=
  cache.currentMemory = cache.sizeOfAll (lru.keys cache.entries)

variable {cache : MemoryLRUCache lru.toLRUCache} {key : κ} {value : String}

theorem sizeAt_nonneg (cache : MemoryLRUCache lru.toLRUCache) (key : κ) : 0 ≤ cache.sizeAt key := by
  unfold sizeAt
  cases cache.get? key with
  | none => exact le_rfl
  | some value => exact Int.natCast_nonneg _

theorem sizeOfAll_nonneg (cache : MemoryLRUCache lru.toLRUCache) (keys : List κ) :
    0 ≤ cache.sizeOfAll keys := by
  refine List.sum_nonneg fun size hsize => ?_
  obtain ⟨key, -, rfl⟩ := List.mem_map.mp hsize
  exact cache.sizeAt_nonneg key

theorem sizeOfAll_congr {other : MemoryLRUCache lru.toLRUCache} {keys : List κ}
    (hsame : ∀ key ∈ keys, other.get? key = cache.get? key) :
    other.sizeOfAll keys = cache.sizeOfAll keys := by
  refine congrArg List.sum (List.map_congr_left fun key hkey => ?_)
  rw [sizeAt, hsame key hkey, sizeAt]

theorem mem_keys_iff : key ∈ lru.keys cache.entries ↔ (cache.get? key).isSome :=
  lru.mem_keys _ _

/-- The keys, with one of them in front. -/
theorem keys_perm (hkey : (cache.get? key).isSome) :
    (lru.keys cache.entries).Perm (key :: cache.keysOtherThan key) := by
  refine (List.perm_ext_iff_of_nodup (lru.nodup_keys _) ?_).mpr fun other => ?_
  · exact List.nodup_cons.mpr ⟨by simp [keysOtherThan], (lru.nodup_keys _).filter _⟩
  · by_cases hsame : other = key
    · simpa [hsame] using mem_keys_iff.mpr hkey
    · simp [keysOtherThan, hsame]

theorem sizeOfAll_keys (cache : MemoryLRUCache lru.toLRUCache) (key : κ) :
    cache.sizeOfAll (lru.keys cache.entries) =
      cache.sizeAt key + cache.sizeOfAll (cache.keysOtherThan key) := by
  cases hkey : cache.get? key with
  | none =>
      have hall : cache.keysOtherThan key = lru.keys cache.entries := by
        refine List.filter_eq_self.mpr fun other hother => ?_
        have hsome := mem_keys_iff.mp hother
        by_contra hsame
        simp only [ne_eq, decide_eq_true_eq, not_not] at hsame
        rw [hsame, hkey] at hsome
        cases hsome
      rw [hall, sizeAt, hkey]
      exact (Int.zero_add _).symm
  | some value =>
      have hperm := @keys_perm _ _ lru cache key (by simp [hkey])
      exact (hperm.map _).sum_eq

theorem counted_init (maxMemory maxSize : Int) :
    (init maxMemory maxSize : MemoryLRUCache lru.toLRUCache).Counted := by
  have hnone : lru.keys lru.empty = [] := by
    refine List.eq_nil_iff_forall_not_mem.mpr fun key hkey => ?_
    rw [lru.mem_keys, lru.get?_empty] at hkey
    cases hkey
  simp only [Counted, init, hnone]
  rfl

/-- Only these keys are left, with the values they had. -/
theorem sizeOfAll_of_keys {other : MemoryLRUCache lru.toLRUCache} {keys : List κ}
    (hnodup : keys.Nodup) (hkeys : ∀ key, (other.get? key).isSome ↔ key ∈ keys)
    (hsame : ∀ key ∈ keys, other.get? key = cache.get? key) :
    other.sizeOfAll (lru.keys other.entries) = cache.sizeOfAll keys := by
  have hperm : (lru.keys other.entries).Perm keys :=
    (List.perm_ext_iff_of_nodup (lru.nodup_keys _) hnodup).mpr fun key =>
      mem_keys_iff.trans (hkeys key)
  exact (hperm.map _).sum_eq.trans (sizeOfAll_congr hsame)

theorem Counted.touch (hcounted : cache.Counted) (key : κ) : (cache.touch key).Counted := by
  refine hcounted.trans (sizeOfAll_of_keys (lru.nodup_keys _) (fun other => ?_) fun other _ =>
    get?_touch cache key other).symm
  rw [get?_touch]
  exact mem_keys_iff.symm

theorem nodup_keysOtherThan (cache : MemoryLRUCache lru.toLRUCache) (key : κ) :
    (cache.keysOtherThan key).Nodup := (lru.nodup_keys _).filter _

theorem mem_keysOtherThan {other : κ} :
    other ∈ cache.keysOtherThan key ↔ (cache.get? other).isSome ∧ other ≠ key := by
  simp [keysOtherThan, lru.mem_keys, get?]

theorem delItem_currentMemory {deleted : MemoryLRUCache lru.toLRUCache}
    (hdelete : cache.delItem key = some deleted) :
    deleted.currentMemory = cache.currentMemory - cache.sizeAt key := by
  obtain ⟨oldValue, hold, rfl⟩ := Option.map_eq_some_iff.mp hdelete
  simp [sizeAt, hold]

theorem Counted.delItem (hcounted : cache.Counted) {deleted : MemoryLRUCache lru.toLRUCache}
    (hdelete : cache.delItem key = some deleted) : deleted.Counted := by
  obtain ⟨-, hget⟩ := delItem_spec hdelete
  have hleft : deleted.sizeOfAll (lru.keys deleted.entries) =
      cache.sizeOfAll (cache.keysOtherThan key) := by
    refine sizeOfAll_of_keys (nodup_keysOtherThan cache key) (fun other => ?_)
      fun other hother => ?_
    · rw [hget, mem_keysOtherThan]
      split <;> simp_all
    · rw [hget, if_neg (mem_keysOtherThan.mp hother).2]
  rw [Counted, delItem_currentMemory hdelete, hleft, hcounted, cache.sizeOfAll_keys key]
  omega

theorem evictWhile_of_not {exceeded : MemoryLRUCache lru.toLRUCache → Bool}
    (hbelow : exceeded cache = false) (fuel : Nat) : evictWhile exceeded fuel cache = cache := by
  cases fuel with
  | zero => rfl
  | succ fuel => rw [evictWhile, hbelow, if_neg Bool.false_ne_true]

theorem account_length (cache : MemoryLRUCache lru.toLRUCache) (key : κ) (value : String) :
    (cache.account key value).length = cache.length := by
  unfold account
  split
  · exact lru.length_touch _ _
  · rfl

theorem account_limits (cache : MemoryLRUCache lru.toLRUCache) (key : κ) (value : String) :
    (cache.account key value).maxMemory = cache.maxMemory ∧
      (cache.account key value).maxsize = cache.maxsize := by
  unfold account
  split <;> exact ⟨rfl, rfl⟩

theorem Counted.account (hcounted : cache.Counted) (key : κ) (value : String) :
    (cache.account key value).currentMemory =
      cache.sizeOfAll (cache.keysOtherThan key) + getSize value := by
  have hall := cache.sizeOfAll_keys key
  rw [← hcounted] at hall
  unfold MemoryLRUCache.account
  cases hkey : cache.get? key <;> simp only [sizeAt, hkey, Option.map, Option.getD] at hall ⊢ <;>
    omega

/-- With room for the value nothing is evicted. -/
theorem Counted.makeRoom (hcounted : cache.Counted) (hroom : cache.hasRoom key value) :
    (cache.account key value).makeRoom key = cache.account key value := by
  obtain ⟨hmemory, hcount⟩ := Bool.and_eq_true_iff.mp hroom
  have hover : overMemory (cache.account key value) = false := by
    rw [overMemory, hcounted.account, (account_limits cache key value).1]
    have hle := of_decide_eq_true hmemory
    rw [decide_eq_false (by omega), Bool.false_and]
  unfold MemoryLRUCache.makeRoom
  simp only [evictWhile_of_not hover, account_get?]
  split
  · rfl
  next hmissing =>
    refine evictWhile_of_not ?_ _
    have hnew : (lru.keys cache.entries).contains key = false := by
      by_contra hmem
      rw [Bool.not_eq_false, List.contains_iff_mem] at hmem
      exact hmissing (mem_keys_iff.mp hmem)
    rw [hnew, Bool.false_or, decide_eq_true_eq, lru.length_keys] at hcount
    rw [full, account_length, (account_limits cache key value).2]
    exact decide_eq_false (Nat.not_lt_of_le hcount)

theorem Counted.setItem_eq (hcounted : cache.Counted) (hroom : cache.hasRoom key value) :
    cache.setItem key value = { cache.account key value with
      entries := lru.insert (cache.account key value).entries key value } := by
  have hmemory := of_decide_eq_true (Bool.and_eq_true_iff.mp hroom).1
  have hothers := cache.sizeOfAll_nonneg (cache.keysOtherThan key)
  rw [setItem, if_neg (by omega), hcounted.makeRoom hroom]

theorem Counted.get?_setItem (hcounted : cache.Counted) (hroom : cache.hasRoom key value)
    (other : κ) :
    (cache.setItem key value).get? other =
      if other = key then some value else cache.get? other := by
  rw [hcounted.setItem_eq hroom, get?, lru.get?_insert]
  split
  · rfl
  · exact account_get? cache key value other

theorem Counted.setItem (hcounted : cache.Counted) (hroom : cache.hasRoom key value) :
    (cache.setItem key value).Counted := by
  have hget := hcounted.get?_setItem hroom
  have hsame : ∀ other ∈ cache.keysOtherThan key,
      (cache.setItem key value).get? other = cache.get? other := fun other hother => by
    rw [hget, if_neg (mem_keysOtherThan.mp hother).2]
  have hperm : ((cache.setItem key value).keysOtherThan key).Perm (cache.keysOtherThan key) := by
    refine (List.perm_ext_iff_of_nodup (nodup_keysOtherThan _ key)
      (nodup_keysOtherThan _ key)).mpr fun other => ?_
    rw [mem_keysOtherThan, mem_keysOtherThan, hget]
    exact and_congr_left fun hother => by rw [if_neg hother]
  have hothers : (cache.setItem key value).sizeOfAll ((cache.setItem key value).keysOtherThan key) =
      cache.sizeOfAll (cache.keysOtherThan key) :=
    (hperm.map _).sum_eq.trans (sizeOfAll_congr hsame)
  have hsize : (cache.setItem key value).sizeAt key = getSize value := by
    rw [sizeAt, hget, if_pos rfl]
    rfl
  have hmemory : (cache.setItem key value).currentMemory =
      cache.sizeOfAll (cache.keysOtherThan key) + getSize value := by
    rw [hcounted.setItem_eq hroom]
    exact hcounted.account key value
  rw [Counted, hmemory, sizeOfAll_keys _ key, hothers, hsize]
  exact Int.add_comm _ _

end MemoryLRUCache

end ShuttleFlow
