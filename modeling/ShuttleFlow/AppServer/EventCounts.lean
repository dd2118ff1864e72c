import ShuttleFlow.AppServer.EventStorage
import ShuttleFlow.Library.IsoTime

/-! # Searching and counting the events of a conversation

Times are compared as ISO texts, page by page in the order of the texts. When nothing is filtered,
files are counted without a look at them.
-/

namespace ShuttleFlow

/-- What a client asks for. -/
structure StoredEventFilters where
  kindEq : Option String := none
  timestampGte : Option DateTime := none
  timestampLt : Option DateTime := none

namespace StoredEventFilters

/-- A request for one page. -/
def query (filters : StoredEventFilters) (descending : Bool) (limit : Nat) (pageId : Option Int) :
    EventQuery where
  kindEq := filters.kindEq
  timestampGte := filters.timestampGte.map DateTime.isoformat
  timestampLt := filters.timestampLt.map DateTime.isoformat
  descending
  pageId
  limit

def isEmpty (filters : StoredEventFilters) : Bool :=
  filters.kindEq.isNone && filters.timestampGte.isNone && filters.timestampLt.isNone

end StoredEventFilters

/-- `page_iterator`. There is no list if the fuel does not last for all pages. -/
def pageIterator {Event : Type} (search : Option Int → StoredEventPage Event) :
    Nat → Option Int → Option (List Event)
  | 0, _ => none
  | fuel + 1, pageId =>
      match (search pageId).nextPageId with
      | none => some (search pageId).items
      | some next =>
          (pageIterator search fuel (some next)).map fun rest => (search pageId).items ++ rest

namespace EventHost

variable {Event : Type} (host : EventHost Event)

def countEvents (disk : Disk) (service : FilesystemEventService) (conversationId : UUID)
    (filters : StoredEventFilters) : Option Nat :=
  let paths := host.searchPaths disk (service.directory conversationId)
  if filters.isEmpty then some paths.length
  else
    (pageIterator (fun pageId =>
      host.searchEvents disk service conversationId (filters.query false 100 pageId))
        (paths.length + 1) none).map List.length

/-! ## All pages -/

/-- The events of the files that can be read. -/
def loadedEvents (disk : Disk) (service : FilesystemEventService) (conversationId : UUID) :
    List Event :=
  (host.searchPaths disk (service.directory conversationId)).filterMap (host.loadEvent disk)

/-- What the pages are cut from. -/
def foundEvents (disk : Disk) (service : FilesystemEventService) (conversationId : UUID)
    (filters : StoredEventFilters) (descending : Bool) : List Event :=
  (filters.query descending 1 none).sort host
    ((host.loadedEvents disk service conversationId).filter
      ((filters.query descending 1 none).keeps host))

theorem searchEvents_eq (disk : Disk) (service : FilesystemEventService) (conversationId : UUID)
    (filters : StoredEventFilters) (descending : Bool) (limit : Nat) (pageId : Option Int) :
    host.searchEvents disk service conversationId (filters.query descending limit pageId) =
      (filters.query descending limit pageId).page
        (host.foundEvents disk service conversationId filters descending) := rfl

end EventHost

namespace StoredEventFilters

variable {Event : Type} (filters : StoredEventFilters) (descending : Bool) {limit : Nat}

/-- A page that starts at a place. -/
theorem page_start (items : List Event) (start : Nat) :
    (filters.query descending limit (some (start : Int))).page items =
      if limit < items.length - start then
        { items := (items.drop start).take limit, nextPageId := some ((start + limit : Nat) : Int) }
      else { items := items.drop start, nextPageId := none } := by
  rw [EventQuery.page, ← List.length_drop]
  rfl

theorem page_none (items : List Event) :
    (filters.query descending limit none).page items =
      (filters.query descending limit (some ((0 : Nat) : Int))).page items := rfl

/-- Each page goes on where the one before it has ended. -/
theorem pageIterator_start (hlimit : 0 < limit) (items : List Event) {fuel start : Nat}
    (hfuel : items.length - start < fuel) :
    pageIterator (fun pageId => (filters.query descending limit pageId).page items) fuel
      (some (start : Int)) = some (items.drop start) := by
  induction fuel generalizing start with
  | zero => exact absurd hfuel (Nat.not_lt_zero _)
  | succ fuel ih =>
      rw [pageIterator, page_start]
      by_cases hmore : limit < items.length - start
      · have hrest := ih (show items.length - (start + limit) < fuel by omega)
        simp only [if_pos hmore, hrest, Option.map_some]
        rw [← List.drop_drop, List.take_append_drop]
      · simp only [if_neg hmore]

theorem pageIterator_none (hlimit : 0 < limit) (items : List Event) {fuel : Nat}
    (hfuel : items.length < fuel) :
    pageIterator (fun pageId => (filters.query descending limit pageId).page items) fuel none =
      some items := by
  have hstart := pageIterator_start filters descending hlimit items
    (show items.length - 0 < fuel from hfuel)
  cases fuel with
  | zero => exact absurd hfuel (Nat.not_lt_zero _)
  | succ fuel =>
      rw [pageIterator] at hstart ⊢
      rwa [page_none]

end StoredEventFilters

/-- What has been listed once is not listed differently with more fuel. -/
theorem pageIterator_mono {Event : Type} {search : Option Int → StoredEventPage Event}
    {fuel more : Nat} (hmore : fuel ≤ more) {pageId : Option Int} {listed : List Event}
    (hlisted : pageIterator search fuel pageId = some listed) :
    pageIterator search more pageId = some listed := by
  induction fuel generalizing more pageId listed with
  | zero => cases hlisted
  | succ fuel ih =>
      obtain ⟨more, rfl⟩ := Nat.exists_eq_succ_of_ne_zero (Nat.ne_zero_of_lt hmore)
      rw [pageIterator] at hlisted ⊢
      cases hnext : (search pageId).nextPageId with
      | none => simpa only [hnext] using hlisted
      | some next =>
          simp only [hnext] at hlisted ⊢
          obtain ⟨rest, hrest, rfl⟩ := Option.map_eq_some_iff.mp hlisted
          rw [ih (Nat.le_of_succ_le_succ hmore) hrest]
          rfl

/-! ## What a client is promised -/

/-- How timestamps are read: the time that a text stands for, and the zone of naive times. -/
structure Clock where
  read : String → DateTime
  zone : Int

namespace EventHost

variable {Event : Type} (host : EventHost Event) (clock : Clock)

def instant (event : Event) : Int :=
  (clock.read (host.timestamp event)).instant clock.zone

/-- The kind matches, and the instant of the event lies between those of the bounds. -/
def matchesFilters (filters : StoredEventFilters) (event : Event) : Bool :=
  filters.kindEq.all (· = host.kind event) &&
    filters.timestampGte.all (fun first =>
      decide (first.instant clock.zone ≤ host.instant clock event)) &&
    filters.timestampLt.all (fun last =>
      decide (host.instant clock event < last.instant clock.zone))

def InOrder (descending : Bool) (event other : Event) : Prop :=
  if descending then host.instant clock other ≤ host.instant clock event
  else host.instant clock event ≤ host.instant clock other

/-- The pages together have each matching event of a readable file once, and in order of their
instants. The count is how many there are. -/
def SearchesAndCounts (disk : Disk) (service : FilesystemEventService) (conversationId : UUID)
    (filters : StoredEventFilters) : Prop :=
  ∀ descending limit, 0 < limit → ∃ fuel listed,
    pageIterator (fun pageId => host.searchEvents disk service conversationId
        (filters.query descending limit pageId)) fuel none = some listed ∧
      listed.Perm ((host.loadedEvents disk service conversationId).filter
        (host.matchesFilters clock filters)) ∧
      listed.Pairwise (host.InOrder clock descending) ∧
      host.countEvents disk service conversationId filters = some listed.length

/-! ## When texts are as good as instants -/

/-- The filters keep the events of some files by their texts that they would keep by instants. -/
def TextsFit (events : List Event) (filters : StoredEventFilters) : Prop :=
  ∀ event ∈ events, (filters.query false 1 none).keeps host event =
    host.matchesFilters clock filters event

/-- Texts of events that are kept are in an order of instants. -/
def TextsOrdered (events : List Event) (filters : StoredEventFilters) : Prop :=
  ∀ event ∈ events, ∀ other ∈ events, host.matchesFilters clock filters event →
    host.matchesFilters clock filters other → host.timestamp event < host.timestamp other →
      host.instant clock event ≤ host.instant clock other

variable {host clock}

theorem pageIterator_search (disk : Disk) (service : FilesystemEventService)
    (conversationId : UUID) (filters : StoredEventFilters) (descending : Bool) {limit : Nat}
    (hlimit : 0 < limit) {fuel : Nat}
    (hfuel : (host.foundEvents disk service conversationId filters descending).length < fuel) :
    pageIterator (fun pageId => host.searchEvents disk service conversationId
        (filters.query descending limit pageId)) fuel none =
      some (host.foundEvents disk service conversationId filters descending) := by
  have hsearch : (fun pageId => host.searchEvents disk service conversationId
      (filters.query descending limit pageId)) = fun pageId =>
        (filters.query descending limit pageId).page
          (host.foundEvents disk service conversationId filters descending) := by
    funext pageId
    exact host.searchEvents_eq disk service conversationId filters descending limit pageId
  rw [hsearch]
  exact filters.pageIterator_none descending hlimit _ hfuel

theorem eq_foundEvents {disk : Disk} {service : FilesystemEventService} {conversationId : UUID}
    {filters : StoredEventFilters} {descending : Bool} {limit fuel : Nat} {listed : List Event}
    (hlimit : 0 < limit)
    (hlisted : pageIterator (fun pageId => host.searchEvents disk service conversationId
      (filters.query descending limit pageId)) fuel none = some listed) :
    listed = host.foundEvents disk service conversationId filters descending := by
  have hmore := pageIterator_mono (Nat.le_max_left fuel
    ((host.foundEvents disk service conversationId filters descending).length + 1)) hlisted
  have hall := Nat.lt_of_lt_of_le (Nat.lt_succ_self _) (Nat.le_max_right fuel
    ((host.foundEvents disk service conversationId filters descending).length + 1))
  rw [pageIterator_search disk service conversationId filters descending hlimit hall] at hmore
  exact (Option.some.inj hmore).symm

theorem foundEvents_perm (disk : Disk) (service : FilesystemEventService) (conversationId : UUID)
    (filters : StoredEventFilters) (descending : Bool) :
    (host.foundEvents disk service conversationId filters descending).Perm
      ((host.loadedEvents disk service conversationId).filter
        ((filters.query false 1 none).keeps host)) := by
  rw [foundEvents, EventQuery.sort]
  split
  next => exact List.mergeSort_perm _ _
  next => exact List.mergeSort_perm _ _

/-- The texts of what is found are in order. -/
theorem foundEvents_pairwise (disk : Disk) (service : FilesystemEventService)
    (conversationId : UUID) (filters : StoredEventFilters) (descending : Bool) :
    (host.foundEvents disk service conversationId filters descending).Pairwise fun event other =>
      if descending then host.timestamp other ≤ host.timestamp event
      else host.timestamp event ≤ host.timestamp other := by
  rw [foundEvents, EventQuery.sort]
  cases descending with
  | true =>
      refine (List.pairwise_mergeSort ?_ ?_ _).imp fun hle => of_decide_eq_true hle
      · intro a b c hab hbc
        exact decide_eq_true (le_trans (of_decide_eq_true hbc) (of_decide_eq_true hab))
      · intro a b
        rw [Bool.or_eq_true, decide_eq_true_eq, decide_eq_true_eq]
        exact le_total _ _
  | false =>
      refine (List.pairwise_mergeSort ?_ ?_ _).imp fun hle => of_decide_eq_true hle
      · intro a b c hab hbc
        exact decide_eq_true (le_trans (of_decide_eq_true hab) (of_decide_eq_true hbc))
      · intro a b
        rw [Bool.or_eq_true, decide_eq_true_eq, decide_eq_true_eq]
        exact le_total _ _

theorem length_foundEvents_le (disk : Disk) (service : FilesystemEventService)
    (conversationId : UUID) (filters : StoredEventFilters) (descending : Bool) :
    (host.foundEvents disk service conversationId filters descending).length ≤
      (host.searchPaths disk (service.directory conversationId)).length := by
  rw [(foundEvents_perm disk service conversationId filters descending).length_eq]
  exact (List.length_filter_le _ _).trans (List.length_filterMap_le _ _)

/-- Without filters files are counted, and found events otherwise. -/
theorem countEvents_eq (disk : Disk) (service : FilesystemEventService) (conversationId : UUID)
    (filters : StoredEventFilters) :
    host.countEvents disk service conversationId filters = some
      (if filters.isEmpty then (host.searchPaths disk (service.directory conversationId)).length
      else (host.foundEvents disk service conversationId filters false).length) := by
  rw [countEvents]
  split
  next => rfl
  next =>
    have hfuel := Nat.lt_succ_of_le
      (host.length_foundEvents_le disk service conversationId filters false)
    rw [pageIterator_search disk service conversationId filters false (by decide) hfuel]
    rfl

theorem keeps_of_isEmpty {filters : StoredEventFilters} (hempty : filters.isEmpty = true)
    (event : Event) : (filters.query false 1 none).keeps host event = true := by
  obtain ⟨kindEq, timestampGte, timestampLt⟩ := filters
  simp only [StoredEventFilters.isEmpty, Bool.and_eq_true, Option.isNone_iff_eq_none] at hempty
  obtain ⟨⟨rfl, rfl⟩, rfl⟩ := hempty
  rfl

theorem length_foundEvents_of_isEmpty (disk : Disk) (service : FilesystemEventService)
    (conversationId : UUID) {filters : StoredEventFilters} (hempty : filters.isEmpty = true)
    (descending : Bool) :
    (host.foundEvents disk service conversationId filters descending).length =
      (host.loadedEvents disk service conversationId).length := by
  rw [(foundEvents_perm disk service conversationId filters descending).length_eq,
    List.filter_eq_self.mpr fun event _ => keeps_of_isEmpty hempty event]

/-- Each file that is listed can be read. -/
def AllLoad (host : EventHost Event) (disk : Disk) (service : FilesystemEventService)
    (conversationId : UUID) : Prop :=
  ∀ path ∈ host.searchPaths disk (service.directory conversationId),
    (host.loadEvent disk path).isSome

theorem allLoad_iff (disk : Disk) (service : FilesystemEventService) (conversationId : UUID) :
    AllLoad host disk service conversationId ↔
      (host.searchPaths disk (service.directory conversationId)).length =
        (host.loadedEvents disk service conversationId).length := by
  rw [AllLoad, loadedEvents, eq_comm, List.filterMap_length_eq_length]

/-- In a list that is sorted by texts and by instants, both agree. -/
theorem instant_le_of_pairwise {events : List Event}
    (htexts : events.Pairwise fun event other => host.timestamp event ≤ host.timestamp other)
    (hinstants : events.Pairwise (host.InOrder clock false)) {event other : Event}
    (hevent : event ∈ events) (hother : other ∈ events)
    (hlt : host.timestamp event < host.timestamp other) :
    host.instant clock event ≤ host.instant clock other := by
  induction events with
  | nil => cases hevent
  | cons first rest ih =>
      rw [List.pairwise_cons] at htexts hinstants
      rcases List.mem_cons.mp hevent with rfl | hevent'
      · rcases List.mem_cons.mp hother with rfl | hother'
        · exact le_refl _
        · exact hinstants.1 other hother'
      · rcases List.mem_cons.mp hother with rfl | hother'
        · exact absurd (htexts.1 event hevent') (not_le.mpr hlt)
        · exact ih htexts.2 hinstants.2 hevent' hother'

section Promised

variable {disk : Disk} {service : FilesystemEventService} {conversationId : UUID}
  {filters : StoredEventFilters}

theorem textsFit_of_promised
    (hpromised : host.SearchesAndCounts clock disk service conversationId filters) :
    host.TextsFit clock (host.loadedEvents disk service conversationId) filters := by
  obtain ⟨fuel, listed, hlisted, hmatching, -, -⟩ := hpromised false 1 Nat.one_pos
  obtain rfl := eq_foundEvents Nat.one_pos hlisted
  have hsame := (foundEvents_perm disk service conversationId filters false).symm.trans hmatching
  intro event hevent
  have hmem := hsame.mem_iff (a := event)
  rw [List.mem_filter, List.mem_filter] at hmem
  rw [Bool.eq_iff_iff]
  exact ⟨fun hkept => (hmem.mp ⟨hevent, hkept⟩).2, fun hmatch => (hmem.mpr ⟨hevent, hmatch⟩).2⟩

theorem textsOrdered_of_promised
    (hpromised : host.SearchesAndCounts clock disk service conversationId filters) :
    host.TextsOrdered clock (host.loadedEvents disk service conversationId) filters := by
  obtain ⟨fuel, listed, hlisted, hmatching, hinstants, -⟩ := hpromised false 1 Nat.one_pos
  obtain rfl := eq_foundEvents Nat.one_pos hlisted
  intro event hevent other hother hmatch hmatchOther hlt
  have hfound : ∀ found ∈ host.loadedEvents disk service conversationId,
      host.matchesFilters clock filters found →
        found ∈ host.foundEvents disk service conversationId filters false := by
    intro found hloaded hmatches
    exact hmatching.mem_iff.mpr (List.mem_filter.mpr ⟨hloaded, hmatches⟩)
  have htexts := host.foundEvents_pairwise disk service conversationId filters false
  exact instant_le_of_pairwise htexts hinstants (hfound event hevent hmatch)
    (hfound other hother hmatchOther) hlt

theorem allLoad_of_promised
    (hpromised : host.SearchesAndCounts clock disk service conversationId filters)
    (hempty : filters.isEmpty = true) : AllLoad host disk service conversationId := by
  obtain ⟨fuel, listed, hlisted, -, -, hcount⟩ := hpromised false 1 Nat.one_pos
  obtain rfl := eq_foundEvents Nat.one_pos hlisted
  rw [countEvents_eq, if_pos hempty, Option.some.injEq,
    length_foundEvents_of_isEmpty disk service conversationId hempty] at hcount
  exact (allLoad_iff disk service conversationId).mpr hcount

theorem pairwise_inOrder
    (hordered : host.TextsOrdered clock (host.loadedEvents disk service conversationId) filters)
    {descending : Bool}
    (hmatching : (host.foundEvents disk service conversationId filters descending).Perm
      ((host.loadedEvents disk service conversationId).filter
        (host.matchesFilters clock filters))) :
    (host.foundEvents disk service conversationId filters descending).Pairwise
      (host.InOrder clock descending) := by
  have htexts := host.foundEvents_pairwise disk service conversationId filters descending
  refine htexts.imp_of_mem fun {event other} hevent hother htext => ?_
  obtain ⟨hloaded, hmatch⟩ := List.mem_filter.mp (hmatching.mem_iff.mp hevent)
  obtain ⟨hloadedOther, hmatchOther⟩ := List.mem_filter.mp (hmatching.mem_iff.mp hother)
  rw [InOrder]
  cases descending with
  | true =>
      rcases lt_or_eq_of_le htext with hlt | heq
      · exact hordered other hloadedOther event hloaded hmatchOther hmatch hlt
      · rw [if_pos rfl, instant, instant, heq]
  | false =>
      rcases lt_or_eq_of_le htext with hlt | heq
      · exact hordered event hloaded other hloadedOther hmatch hmatchOther hlt
      · rw [if_neg Bool.false_ne_true, instant, instant, heq]

end Promised

variable (host clock)

/-- What is promised is kept exactly if texts are as good as instants for the events there are,
and, when nothing is filtered, if every file can be read. -/
theorem searchesAndCounts_iff (disk : Disk) (service : FilesystemEventService)
    (conversationId : UUID) (filters : StoredEventFilters) :
    host.SearchesAndCounts clock disk service conversationId filters ↔
      host.TextsFit clock (host.loadedEvents disk service conversationId) filters ∧
        host.TextsOrdered clock (host.loadedEvents disk service conversationId) filters ∧
        (filters.isEmpty → AllLoad host disk service conversationId) := by
  constructor
  · intro hpromised
    exact ⟨textsFit_of_promised hpromised, textsOrdered_of_promised hpromised,
      allLoad_of_promised hpromised⟩
  · rintro ⟨hfit, hordered, hload⟩ descending limit hlimit
    have hperm := fun descending =>
      host.foundEvents_perm disk service conversationId filters descending
    have hmatching : (host.foundEvents disk service conversationId filters descending).Perm
        ((host.loadedEvents disk service conversationId).filter
          (host.matchesFilters clock filters)) := by
      rw [← List.filter_congr hfit]
      exact hperm descending
    refine ⟨_, _, pageIterator_search disk service conversationId filters descending hlimit
      (Nat.lt_succ_self _), hmatching, pairwise_inOrder hordered hmatching, ?_⟩
    rw [countEvents_eq]
    split
    next hempty =>
      rw [length_foundEvents_of_isEmpty disk service conversationId hempty,
        (allLoad_iff disk service conversationId).mp (hload hempty)]
    next =>
      rw [(hperm false).length_eq, (hperm descending).length_eq]

/-- Timestamps and bounds are written in one form. -/
structure OneForm (events : List Event) (filters : StoredEventFilters) : Prop where
  written : ∀ event ∈ events,
    host.timestamp event = (clock.read (host.timestamp event)).isoformat
  alike : ∀ event ∈ events, ∀ other ∈ events,
    (clock.read (host.timestamp event)).SameForm (clock.read (host.timestamp other))
  bounds : ∀ event ∈ events, ∀ bound,
    filters.timestampGte = some bound ∨ filters.timestampLt = some bound →
      (clock.read (host.timestamp event)).SameForm bound

variable {host clock}

theorem OneForm.textsFit {events : List Event} {filters : StoredEventFilters}
    (hform : host.OneForm clock events filters) : host.TextsFit clock events filters := by
  obtain ⟨kindEq, timestampGte, timestampLt⟩ := filters
  intro event hevent
  have hbound : ∀ bound, timestampGte = some bound ∨ timestampLt = some bound →
      (host.timestamp event < bound.isoformat ↔
        host.instant clock event < bound.instant clock.zone) := by
    intro bound hbound
    rw [hform.written event hevent]
    exact DateTime.isoformat_lt_iff (hform.bounds event hevent bound hbound) clock.zone
  have hgte : (timestampGte.map DateTime.isoformat).all
        (fun first => !decide (host.timestamp event < first)) =
      timestampGte.all (fun first =>
        decide (first.instant clock.zone ≤ host.instant clock event)) := by
    cases timestampGte with
    | none => rfl
    | some bound =>
        rw [Option.map_some, Option.all_some, Option.all_some, Bool.eq_iff_iff, Bool.not_eq_true',
          decide_eq_false_iff_not, decide_eq_true_eq, hbound bound (.inl rfl), not_lt]
  have hlt : (timestampLt.map DateTime.isoformat).all
        (fun last => decide (host.timestamp event < last)) =
      timestampLt.all (fun last =>
        decide (host.instant clock event < last.instant clock.zone)) := by
    cases timestampLt with
    | none => rfl
    | some bound =>
        rw [Option.map_some, Option.all_some, Option.all_some, Bool.eq_iff_iff,
          decide_eq_true_eq, decide_eq_true_eq, hbound bound (.inr rfl)]
  rw [EventQuery.keeps, matchesFilters]
  simp only [StoredEventFilters.query, hgte, hlt]

theorem OneForm.textsOrdered {events : List Event} {filters : StoredEventFilters}
    (hform : host.OneForm clock events filters) : host.TextsOrdered clock events filters := by
  intro event hevent other hother _ _ hlt
  rw [hform.written event hevent, hform.written other hother] at hlt
  exact le_of_lt ((DateTime.isoformat_lt_iff (hform.alike event hevent other hother) _).mp hlt)

/-- In one form, the pages have the matching events in order of their instants. If something is
filtered, they are counted, too. -/
theorem searchedPages_of_oneForm {disk : Disk} {service : FilesystemEventService}
    {conversationId : UUID} {filters : StoredEventFilters}
    (hform : host.OneForm clock (host.loadedEvents disk service conversationId) filters)
    (descending : Bool) {limit : Nat} (hlimit : 0 < limit) :
    ∃ fuel listed, pageIterator (fun pageId => host.searchEvents disk service conversationId
        (filters.query descending limit pageId)) fuel none = some listed ∧
      listed.Perm ((host.loadedEvents disk service conversationId).filter
        (host.matchesFilters clock filters)) ∧
      listed.Pairwise (host.InOrder clock descending) ∧
      (filters.isEmpty = false →
        host.countEvents disk service conversationId filters = some listed.length) := by
  have hperm := fun descending =>
    host.foundEvents_perm disk service conversationId filters descending
  have hmatching := hperm descending
  rw [List.filter_congr hform.textsFit] at hmatching
  refine ⟨_, _, pageIterator_search disk service conversationId filters descending hlimit
    (Nat.lt_succ_self _), hmatching, pairwise_inOrder hform.textsOrdered hmatching, ?_⟩
  intro hfiltered
  rw [countEvents_eq, hfiltered, if_neg Bool.false_ne_true, (hperm false).length_eq,
    (hperm descending).length_eq]

end EventHost

/-! ## A bound with an offset -/

namespace Sample

/-- Ten o'clock, without an offset. -/
def tenOClock : DateTime where
  year := 2025
  month := 1
  day := 1
  hour := 10
  minute := 0
  second := 0
  microsecond := 0
  utcoffset := none
  year_bounds := by decide
  month_bounds := by decide
  day_bounds := by decide
  hour_lt := by decide
  minute_lt := by decide
  second_lt := by decide
  microsecond_lt := by decide
  utcoffset_lt := by decide

/-- Eleven o'clock two hours east of UTC, which is nine o'clock there. -/
def elevenOClockEast : DateTime :=
  { tenOClock with
    hour := 11
    utcoffset := some 7200000000
    hour_lt := by decide
    utcoffset_lt := by decide }

def utcClock : Clock := ⟨fun _ => tenOClock, 0⟩

def tenOClockHost : EventHost Unit where
  id _ := []
  kind _ := "MessageEvent"
  timestamp _ := tenOClock.isoformat
  modelDumpJson _ := ""
  modelValidateJson _ := some ()
  refuses _ := false
  listing _ := ["event.json"]

def fullDisk : Disk := ⟨fun _ => some "".toUTF8, fun _ => false, fun _ _ => rfl⟩

def sampleId : UUID := ⟨List.replicate 32 '0', by decide, by decide⟩

end Sample

open Sample

/-- Bounds without an offset are in the form of the timestamp. -/
theorem EventHost.searchedPages_of_oneForm_ten :
    ∃ fuel listed, pageIterator (fun pageId => tenOClockHost.searchEvents fullDisk
        ⟨[], none, none⟩ sampleId
        (StoredEventFilters.query { timestampGte := some tenOClock } true 1 pageId)) fuel none =
      some listed ∧ tenOClockHost.countEvents fullDisk ⟨[], none, none⟩ sampleId
        { timestampGte := some tenOClock } = some listed.length := by
  have hform : tenOClockHost.OneForm utcClock
      (tenOClockHost.loadedEvents fullDisk ⟨[], none, none⟩ sampleId)
      { timestampGte := some tenOClock } := by
    refine ⟨fun _ _ => rfl, fun _ _ _ _ => ⟨rfl, Iff.rfl⟩, ?_⟩
    rintro _ _ bound (⟨⟨⟩⟩ | ⟨⟨⟩⟩)
    exact ⟨rfl, Iff.rfl⟩
  obtain ⟨fuel, listed, hlisted, -, -, hcount⟩ :=
    EventHost.searchedPages_of_oneForm hform true Nat.one_pos
  exact ⟨fuel, listed, hlisted, hcount rfl⟩

/-- The event is at ten, and is not found from nine o'clock on. -/
theorem EventHost.not_searchesAndCounts_offset : ¬ tenOClockHost.SearchesAndCounts utcClock
    fullDisk ⟨[], none, none⟩ sampleId { timestampGte := some elevenOClockEast } := by
  intro hpromised
  have hload : ∀ path, tenOClockHost.loadEvent fullDisk path = some () := by
    intro path
    have hempty : '\r' ∉ "".toList := by decide
    rw [EventHost.loadEvent, Disk.readText_of_decode rfl (decodeText_toUTF8 hempty)]
    rfl
  have hloaded : () ∈ tenOClockHost.loadedEvents fullDisk ⟨[], none, none⟩ sampleId := by
    have hpath := List.mem_map_of_mem (f := fun name =>
      FilesystemEventService.directory ⟨[], none, none⟩ sampleId ++ [name])
      (List.mem_singleton_self "event.json")
    exact List.mem_filterMap.mpr ⟨_, hpath, hload _⟩
  have hsame := EventHost.textsFit_of_promised hpromised () hloaded
  have hdropped : (StoredEventFilters.query { timestampGte := some elevenOClockEast }
      false 1 none).keeps tenOClockHost () = false := by decide +kernel
  have hmatching : tenOClockHost.matchesFilters utcClock
      { timestampGte := some elevenOClockEast } () = true := by decide +kernel
  rw [hdropped, hmatching] at hsame
  cases hsame

end ShuttleFlow
