import ShuttleFlow.Library.Pages

/-! # Pages of conversations

Conversations are listed page by page. For each request they are filtered and sorted anew, and
the page starts with the conversation that the last page named.
-/

namespace ShuttleFlow

/-- What is filtered, sorted and returned of a conversation. -/
structure ConversationInfo (Id Status Time : Type) where
  id : Id
  executionStatus : Status
  createdAt : Time
  updatedAt : Time
  deriving DecidableEq

inductive ConversationSortOrder
  | createdAt | updatedAt | createdAtDesc | updatedAtDesc

/-- The event services in the order in which they were added. -/
structure ConversationStore (Id Status Time : Type) where
  conversations : List (ConversationInfo Id Status Time)
  nodup : (conversations.map ConversationInfo.id).Nodup

structure ConversationPage (Id Status Time : Type) where
  items : List (ConversationInfo Id Status Time)
  nextPageId : Option Id

variable {Id Status Time : Type} [DecidableEq Id] [DecidableEq Status] [LinearOrder Time]

namespace ConversationSortOrder

/-- The time that conversations are sorted by. -/
def time (sortOrder : ConversationSortOrder) (info : ConversationInfo Id Status Time) : Time :=
  match sortOrder with
  | createdAt | createdAtDesc => info.createdAt
  | updatedAt | updatedAtDesc => info.updatedAt

/-- Whether something of one time may stand in front of something of another one. -/
def allows (sortOrder : ConversationSortOrder) (first second : Time) : Bool :=
  match sortOrder with
  | createdAt | updatedAt => first ≤ second
  | createdAtDesc | updatedAtDesc => second ≤ first

end ConversationSortOrder

def ConversationInfo.hasStatus (executionStatus : Option Status)
    (info : ConversationInfo Id Status Time) : Bool :=
  executionStatus.all fun status => info.executionStatus = status

namespace ConversationStore

variable (executionStatus : Option Status) (sortOrder : ConversationSortOrder) (limit : Nat)

/-- Conversations of the same time keep their order. -/
def sorted (store : ConversationStore Id Status Time) :
    List (ConversationInfo Id Status Time) :=
  (store.conversations.filter (·.hasStatus executionStatus)).insertionSort fun first second =>
    sortOrder.allows (sortOrder.time first) (sortOrder.time second)

/-- Zero where the conversation is not among the sorted ones. -/
def startIndex (conversations : List (ConversationInfo Id Status Time)) (pageId : Option Id) :
    Nat :=
  (pageId.bind fun id => conversations.findIdx? fun info => info.id = id).getD 0

def collect (items : List (ConversationInfo Id Status Time)) :
    List (ConversationInfo Id Status Time) → ConversationPage Id Status Time
  | [] => { items, nextPageId := none }
  | info :: rest =>
      if limit ≤ items.length then { items, nextPageId := some info.id }
      else collect (items ++ [info]) rest

def searchConversations (store : ConversationStore Id Status Time) (pageId : Option Id) :
    ConversationPage Id Status Time :=
  let conversations := store.sorted executionStatus sortOrder
  collect limit [] (conversations.drop (startIndex conversations pageId))

/-- The pages that follow each other, each of the store as it is then. -/
def pages (stores : Nat → ConversationStore Id Status Time) :
    Nat → Option (ConversationPage Id Status Time)
  | 0 => some ((stores 0).searchConversations executionStatus sortOrder limit none)
  | count + 1 => ((pages stores count).bind ConversationPage.nextPageId).map fun id =>
      (stores (count + 1)).searchConversations executionStatus sortOrder limit (some id)

/-- The conversations of the first pages. -/
def delivered (stores : Nat → ConversationStore Id Status Time) (count : Nat) :
    List (ConversationInfo Id Status Time) :=
  (List.range count).flatMap fun number =>
    ((pages executionStatus sortOrder limit stores number).map ConversationPage.items).getD []

/-- Conversations may be deleted, and change in all but their ids and the times at which they
were created. -/
def Changed (before after : ConversationStore Id Status Time) : Prop :=
  (after.conversations.map fun info => (info.id, info.createdAt)).Sublist
    (before.conversations.map fun info => (info.id, info.createdAt))

/-- There is a conversation with this id, and it has the status that is asked for. -/
def Matches (store : ConversationStore Id Status Time) (id : Id) : Prop :=
  ∃ info ∈ store.conversations, info.id = id ∧ info.hasStatus executionStatus = true

/-- What the pages of a search should be. -/
structure StablePages (stores : Nat → ConversationStore Id Status Time) : Prop where
  ends : ∀ count, (stores 0).conversations.length < count →
    pages executionStatus sortOrder limit stores count = none
  once : ∀ count, ((delivered executionStatus sortOrder limit stores count).map
    ConversationInfo.id).Nodup
  complete : ∀ count, pages executionStatus sortOrder limit stores count = none →
    ∀ id, (∀ number < count, Matches executionStatus (stores number) id) →
      ((delivered executionStatus sortOrder limit stores count).map
        ConversationInfo.id).count id = 1

/-- Each conversation that a page names is still there for the next request, and has the status
that is asked for. -/
def NamedStay (stores : Nat → ConversationStore Id Status Time) : Prop :=
  ∀ count page id, pages executionStatus sortOrder limit stores count = some page →
    page.nextPageId = some id → Matches executionStatus (stores (count + 1)) id

/-! ## Pages of ids -/

variable {executionStatus : Option Status} {sortOrder : ConversationSortOrder} {limit : Nat}

theorem collect_eq (limit : Nat) (items rest : List (ConversationInfo Id Status Time)) :
    collect limit items rest =
      { items := items ++ rest.take (limit - items.length)
        nextPageId := rest[limit - items.length]?.map ConversationInfo.id } := by
  induction rest generalizing items with
  | nil => simp [collect]
  | cons info rest ih =>
      rw [collect]
      split
      next hfull =>
        rw [Nat.sub_eq_zero_of_le hfull]
        simp
      next hroom =>
        obtain ⟨further, hfurther⟩ : ∃ further, limit - items.length = further + 1 :=
          Nat.exists_eq_succ_of_ne_zero (by omega)
        have hlater : limit - (items ++ [info]).length = further := by
          rw [List.length_append, List.length_singleton]
          omega
        rw [ih, hlater, hfurther, List.take_succ_cons, List.getElem?_cons_succ, List.append_assoc,
          List.singleton_append]

theorem drop_startIndex (conversations : List (ConversationInfo Id Status Time))
    (pageId : Option Id) :
    (conversations.drop (startIndex conversations pageId)).map ConversationInfo.id =
      CursorPages.startingAt (conversations.map ConversationInfo.id) pageId := by
  cases pageId with
  | none => rfl
  | some id =>
      rw [startIndex, Option.bind_some, CursorPages.startingAt]
      split
      next hmem =>
        obtain ⟨ids, later, hsplit, hnew⟩ := List.eq_append_cons_of_mem hmem
        obtain ⟨front, rest, rfl, rfl, hrest⟩ := List.map_eq_append_iff.mp hsplit
        obtain ⟨info, behind, rfl, rfl, rfl⟩ := List.map_eq_cons_iff.mp hrest
        have hfront : front.findIdx? (fun other => decide (other.id = info.id)) = none := by
          rw [List.findIdx?_eq_none_iff]
          intro other hother
          exact decide_eq_false fun heq => hnew (heq ▸ List.mem_map_of_mem hother)
        rw [List.findIdx?_append, hfront, List.findIdx?_cons, decide_eq_true rfl, if_pos rfl,
          Option.map_some, Option.none_or, Option.getD_some, Nat.zero_add, List.drop_left,
          List.map_append, List.map_cons, CursorPages.dropWhile_ne_append hnew]
      next hmem =>
        have hnone : conversations.findIdx? (fun info => decide (info.id = id)) = none := by
          rw [List.findIdx?_eq_none_iff]
          intro info hinfo
          exact decide_eq_false fun heq => hmem (heq ▸ List.mem_map_of_mem hinfo)
        rw [hnone]
        rfl

/-- The ids of the conversations that a search goes through. -/
def sortedIds (executionStatus : Option Status) (sortOrder : ConversationSortOrder)
    (store : ConversationStore Id Status Time) : List Id :=
  (store.sorted executionStatus sortOrder).map ConversationInfo.id

/-- A page is one of the list of ids. -/
theorem searchConversations_ids (store : ConversationStore Id Status Time) (pageId : Option Id) :
    (((store.searchConversations executionStatus sortOrder limit pageId).items.map
        ConversationInfo.id),
      (store.searchConversations executionStatus sortOrder limit pageId).nextPageId) =
      CursorPages.page limit (store.sortedIds executionStatus sortOrder) pageId := by
  rw [searchConversations, collect_eq, CursorPages.page, sortedIds, ← drop_startIndex]
  simp only [List.nil_append, List.length_nil, Nat.sub_zero, List.map_take, List.getElem?_map]

/-- The pages of a search are those of the lists of ids. -/
theorem pages_ids (stores : Nat → ConversationStore Id Status Time) (count : Nat) :
    (pages executionStatus sortOrder limit stores count).map
        (fun page => (page.items.map ConversationInfo.id, page.nextPageId)) =
      CursorPages.pages limit (fun number => (stores number).sortedIds executionStatus sortOrder)
        count := by
  induction count with
  | zero => exact congrArg some (searchConversations_ids (stores 0) none)
  | succ count ih =>
      rw [pages, CursorPages.pages, ← ih]
      cases pages executionStatus sortOrder limit stores count with
      | none => rfl
      | some page =>
          obtain ⟨items, next⟩ := page
          cases next with
          | none => rfl
          | some id => exact congrArg some (searchConversations_ids (stores (count + 1)) (some id))

theorem delivered_ids (stores : Nat → ConversationStore Id Status Time) (count : Nat) :
    (delivered executionStatus sortOrder limit stores count).map ConversationInfo.id =
      CursorPages.delivered limit
        (fun number => (stores number).sortedIds executionStatus sortOrder) count := by
  rw [delivered, CursorPages.delivered, List.map_flatMap]
  congr 1
  funext number
  rw [← pages_ids]
  cases pages executionStatus sortOrder limit stores number <;> rfl

/-! ## The order of all conversations -/

theorem allows_total (sortOrder : ConversationSortOrder) (first second : Time) :
    sortOrder.allows first second = true ∨ sortOrder.allows second first = true := by
  cases sortOrder <;> simp [ConversationSortOrder.allows, le_total]

theorem allows_trans {sortOrder : ConversationSortOrder} {first second third : Time}
    (hfirst : sortOrder.allows first second = true)
    (hsecond : sortOrder.allows second third = true) : sortOrder.allows first third = true := by
  cases sortOrder <;> simp only [ConversationSortOrder.allows, decide_eq_true_eq] at * <;>
    exact le_trans (by assumption) (by assumption)

/-- An id and the time of creation do not change. -/
def fixed (info : ConversationInfo Id Status Time) : Id × Time :=
  (info.id, info.createdAt)

/-- The ids of conversations, whatever their status, in the order of the search. -/
def order (sortOrder : ConversationSortOrder) (store : ConversationStore Id Status Time) :
    List Id :=
  ((store.conversations.map fixed).insertionSort fun first second =>
    sortOrder.allows first.2 second.2).map Prod.fst

theorem nodup_order (sortOrder : ConversationSortOrder)
    (store : ConversationStore Id Status Time) : (store.order sortOrder).Nodup := by
  have hperm := (List.perm_insertionSort (fun first second : Id × Time =>
    sortOrder.allows first.2 second.2 = true) (store.conversations.map fixed)).map Prod.fst
  rw [List.map_map] at hperm
  exact hperm.nodup_iff.mpr store.nodup

theorem length_order (sortOrder : ConversationSortOrder)
    (store : ConversationStore Id Status Time) :
    (store.order sortOrder).length = store.conversations.length := by
  rw [order, List.length_map, List.length_insertionSort, List.length_map]

theorem Changed.trans {first second third : ConversationStore Id Status Time}
    (hfirst : Changed first second) (hsecond : Changed second third) : Changed first third :=
  List.Sublist.trans hsecond hfirst

theorem changed_of_le {stores : Nat → ConversationStore Id Status Time}
    (hchanges : ∀ count, Changed (stores count) (stores (count + 1))) (count : Nat) :
    Changed (stores 0) (stores count) := by
  induction count with
  | zero => exact List.Sublist.refl _
  | succ count ih => exact ih.trans (hchanges count)

/-- By the time of creation, the conversations of a later store are a part of those of an earlier
one. -/
theorem sortedIds_sublist {first later : ConversationStore Id Status Time}
    (hchanged : Changed first later)
    (hcreated : sortOrder = .createdAt ∨ sortOrder = .createdAtDesc) :
    (later.sortedIds executionStatus sortOrder).Sublist (first.order sortOrder) := by
  have htime : ∀ info : ConversationInfo Id Status Time, sortOrder.time info = (fixed info).2 := by
    intro info
    rcases hcreated with rfl | rfl <;> rfl
  have hfixed : (later.sorted executionStatus sortOrder).map fixed =
      ((later.conversations.filter (·.hasStatus executionStatus)).map fixed).insertionSort
        fun first second => sortOrder.allows first.2 second.2 := by
    apply List.map_insertionSort
    intro info _ other _
    rw [htime, htime]
  have : Std.Total fun first second : Id × Time => sortOrder.allows first.2 second.2 = true :=
    ⟨fun _ _ => allows_total ..⟩
  have : IsTrans (Id × Time) fun first second => sortOrder.allows first.2 second.2 = true :=
    ⟨fun _ _ _ => allows_trans⟩
  have hsublist : ((later.sorted executionStatus sortOrder).map fixed).Sublist
      ((first.conversations.map fixed).insertionSort fun first second =>
        sortOrder.allows first.2 second.2) := by
    rw [hfixed]
    apply CursorPages.sublist_insertionSort_of_sublist
    exact (List.filter_sublist.map fixed).trans hchanged
  have hids := hsublist.map Prod.fst
  rw [List.map_map] at hids
  exact hids

theorem mem_sortedIds_iff {store : ConversationStore Id Status Time} {id : Id} :
    id ∈ store.sortedIds executionStatus sortOrder ↔ Matches executionStatus store id := by
  rw [sortedIds, List.mem_map]
  constructor
  · rintro ⟨info, hinfo, rfl⟩
    rw [sorted, List.mem_insertionSort, List.mem_filter] at hinfo
    exact ⟨info, hinfo.1, rfl, hinfo.2⟩
  · rintro ⟨info, hinfo, rfl, hstatus⟩
    refine ⟨info, ?_, rfl⟩
    rw [sorted, List.mem_insertionSort, List.mem_filter]
    exact ⟨hinfo, hstatus⟩

/-- The conversation that a page names stays in a store that does not change. -/
theorem namedStay_of_unchanged (store : ConversationStore Id Status Time) :
    NamedStay executionStatus sortOrder limit fun _ => store := by
  intro count page id hpage hid
  have hids := @pages_ids _ _ _ _ _ _ executionStatus sortOrder limit (fun _ => store) count
  rw [hpage, Option.map_some, hid] at hids
  exact mem_sortedIds_iff.mp (CursorPages.mem_of_pages hids.symm)

/-- Following the pages ends, and returns each conversation that has the status all along exactly
once, as long as the conversation that a page names stays. -/
theorem stablePages_of_namedStay {stores : Nat → ConversationStore Id Status Time}
    (hchanges : ∀ count, Changed (stores count) (stores (count + 1)))
    (hcreated : sortOrder = .createdAt ∨ sortOrder = .createdAtDesc) (hlimit : 1 ≤ limit)
    (hstay : NamedStay executionStatus sortOrder limit stores) :
    StablePages executionStatus sortOrder limit stores := by
  have hsublist : ∀ number, ((stores number).sortedIds executionStatus sortOrder).Sublist
      ((stores 0).order sortOrder) := fun number =>
    sortedIds_sublist (changed_of_le hchanges number) hcreated
  have hnodup := nodup_order sortOrder (stores 0)
  have hlists : ∀ number, (stores number).sortedIds executionStatus sortOrder =
      ((stores 0).order sortOrder).filter fun id =>
        decide (id ∈ (stores number).sortedIds executionStatus sortOrder) := fun number =>
    CursorPages.eq_filter_of_sublist (hsublist number) hnodup
  have hfound : CursorPages.Found limit fun number =>
      (stores number).sortedIds executionStatus sortOrder := by
    intro count items id hpage
    rw [← pages_ids, Option.map_eq_some_iff] at hpage
    obtain ⟨page, hpage, heq⟩ := hpage
    exact mem_sortedIds_iff.mpr (hstay count page id hpage (congrArg Prod.snd heq))
  have hnone : ∀ count, pages executionStatus sortOrder limit stores count = none ↔
      CursorPages.pages limit (fun number => (stores number).sortedIds executionStatus sortOrder)
        count = none := by
    intro count
    rw [← pages_ids, Option.map_eq_none_iff]
  constructor
  · intro count hcount
    rw [hnone]
    apply CursorPages.pages_eq_none hlists hnodup hlimit hfound
    rw [length_order]
    exact hcount
  · intro count
    rw [delivered_ids]
    exact (CursorPages.nodup_delivered hlists hnodup hlimit hfound count).1
  · intro count hend id hmatches
    rw [delivered_ids]
    apply List.count_eq_one_of_mem
      (CursorPages.nodup_delivered hlists hnodup hlimit hfound count).1
    rw [hnone] at hend
    have hpositive : 0 < count := by
      cases count with
      | zero => cases hend
      | succ count => exact Nat.zero_lt_succ count
    apply CursorPages.mem_delivered hlists hnodup hlimit hfound hend
    · exact (hsublist 0).subset (mem_sortedIds_iff.mpr (hmatches 0 hpositive))
    · intro number hnumber
      exact decide_eq_true (mem_sortedIds_iff.mpr (hmatches number hnumber))

/-- Three conversations, and what is left when the second one is deleted. -/
def threeConversations : ConversationStore Nat Nat Nat where
  conversations := [⟨10, 0, 1, 1⟩, ⟨11, 0, 2, 2⟩, ⟨12, 0, 3, 3⟩]
  nodup := by decide

def secondDeleted : ConversationStore Nat Nat Nat where
  conversations := [⟨10, 0, 1, 1⟩, ⟨12, 0, 3, 3⟩]
  nodup := by decide

theorem stablePages_threeConversations :
    StablePages none .createdAt 1 fun _ => threeConversations :=
  stablePages_of_namedStay (fun _ => List.Sublist.refl _) (.inl rfl) (Nat.le_refl 1)
    (namedStay_of_unchanged threeConversations)

/-- The second conversation is named and deleted. The pages begin again, and the first one is
returned twice. -/
theorem not_stablePages_secondDeleted :
    Changed threeConversations secondDeleted ∧
      ¬StablePages none .createdAt 1 fun count =>
        if count = 0 then threeConversations else secondDeleted := by
  constructor
  · exact .cons_cons _ (.cons _ (.cons_cons _ .slnil))
  · intro hstable
    have honce := hstable.once 2
    revert honce
    decide +kernel

end ConversationStore

end ShuttleFlow
