import ShuttleFlow.AgentServer.EventReplay
import ShuttleFlow.Conversation.EventLogRuns

/-! # Searching the events of a conversation

Events are searched page by page, in the order of the log or from its end. A page names the event
that comes next, and the log may grow before the next page is read.
-/

namespace ShuttleFlow

/-- What is searched of an event. Only messages have texts. -/
structure SearchedEvent where
  id : EventID
  kind : String
  source : String
  timestamp : String
  textParts : Option (List String) := none
  deriving DecidableEq, Repr

/-- A log and its events, which have names of their own. -/
structure ReadLog where
  index : EventLog
  events : List SearchedEvent
  represents : index.Represents (events.map SearchedEvent.id)
  nodup : (events.map SearchedEvent.id).Nodup
  named : ∀ event ∈ events, event.id ≠ ""

inductive EventSortOrder
  | timestamp | timestampDesc
  deriving DecidableEq, Repr

/-- Events of a log in the order in which they are shown. -/
def EventSortOrder.arrange (events : List SearchedEvent) : EventSortOrder → List SearchedEvent
  | timestamp => events
  | timestampDesc => events.reverse

structure EventFilters where
  kind : Option String := none
  source : Option String := none
  body : Option String := none
  timestampGte : Option String := none
  timestampLt : Option String := none

abbrev SearchPage : Type := EventPage SearchedEvent EventID

namespace EventFilters

/-- Whether a message has a text, whatever its case. -/
def matchesBody (lower : String → String) (event : SearchedEvent) (body : String) : Bool :=
  event.textParts.any fun textParts =>
    decide ((lower body).toList <:+: (lower (" ".intercalate textParts)).toList)

def matchesEvent (lower : String → String) (filters : EventFilters) (event : SearchedEvent) :
    Bool :=
  !(filters.kind.any fun kind => event.kind ≠ kind) &&
    !(filters.source.any fun source => event.source ≠ source) &&
    !(filters.timestampGte.any fun timestamp => event.timestamp < timestamp) &&
    !(filters.timestampLt.any fun timestamp => timestamp ≤ event.timestamp) &&
    !(filters.body.any fun body => !matchesBody lower event body)

end EventFilters

namespace ReadLog

variable (matchesFilters : SearchedEvent → Bool) (order : EventSortOrder) (limit : Nat)

/-- The event that a page starts with, by its place in the log. -/
def startIndex (log : ReadLog) (pageId : Option EventID) : Nat :=
  let found := pageId.bind fun id => if id = "" then none else log.index.idToIdx.get? id
  found.getD (match order with | .timestamp => 0 | .timestampDesc => log.events.length - 1)

/-- The events from there on. -/
def eventsFrom (log : ReadLog) (start : Nat) : List SearchedEvent :=
  match order with
  | .timestamp => log.events.drop start
  | .timestampDesc => (log.events.take (start + 1)).reverse

/-- Events are collected until the page is full, and one more is found. -/
def collect (items : List SearchedEvent) : List SearchedEvent → SearchPage
  | [] => { items, nextPageId := none }
  | event :: rest =>
      if matchesFilters event then
        if limit ≤ items.length then { items, nextPageId := some event.id }
        else collect (items ++ [event]) rest
      else collect items rest

def searchEvents (log : ReadLog) (pageId : Option EventID) : SearchPage :=
  collect matchesFilters limit [] (log.eventsFrom order (log.startIndex order pageId))

/-- The pages that follow each other, each read in the log as it is then. -/
def pages (logs : Nat → ReadLog) : Nat → Option SearchPage
  | 0 => some ((logs 0).searchEvents matchesFilters order limit none)
  | count + 1 => ((pages logs count).bind EventPage.nextPageId).map fun id =>
      (logs (count + 1)).searchEvents matchesFilters order limit (some id)

/-- The events of the first pages. -/
def delivered (logs : Nat → ReadLog) (count : Nat) : List SearchedEvent :=
  (List.range count).flatMap fun number =>
    ((pages matchesFilters order limit logs number).map EventPage.items).getD []

end ReadLog

/-! ## One page -/

namespace ReadLog

section Pages

variable {matchesFilters : SearchedEvent → Bool} {order : EventSortOrder} {limit : Nat}
  {event : SearchedEvent} {items events before after : List SearchedEvent} {log : ReadLog}

theorem collect_eq (hroom : items.length ≤ limit) :
    collect matchesFilters limit items events =
      { items := items ++ (events.filter matchesFilters).take (limit - items.length)
        nextPageId := (events.filter matchesFilters)[limit - items.length]?.map SearchedEvent.id } := by
  induction events generalizing items with
  | nil => simp [collect]
  | cons event events ih =>
      unfold collect
      by_cases hmatch : matchesFilters event = true
      · rw [if_pos hmatch, List.filter_cons_of_pos hmatch]
        by_cases hfull : limit ≤ items.length
        · rw [if_pos hfull, Nat.sub_eq_zero_of_le hfull, List.take_zero, List.append_nil]
          rfl
        · obtain ⟨left, hleft⟩ := Nat.exists_eq_add_of_lt (Nat.lt_of_not_le hfull)
          have hone : limit - items.length = left + 1 := by omega
          have hrest : limit - (items ++ [event]).length = left := by
            rw [List.length_append, List.length_singleton]
            omega
          rw [if_neg hfull, ih (by rw [List.length_append, List.length_singleton]; omega), hone,
            hrest, List.take_succ_cons, List.append_assoc, List.singleton_append]
          rfl
      · rw [if_neg hmatch, List.filter_cons_of_neg hmatch, ih hroom]

/-- What one page has, and what it leaves. -/
theorem collect_cases (events : List SearchedEvent) :
    ((collect matchesFilters limit [] events).nextPageId = none →
      (collect matchesFilters limit [] events).items = events.filter matchesFilters) ∧
    ∀ id, (collect matchesFilters limit [] events).nextPageId = some id →
      (collect matchesFilters limit [] events).items.length = limit ∧
      ∃ before event after, events = before ++ event :: after ∧ event.id = id ∧
        (collect matchesFilters limit [] events).items = before.filter matchesFilters := by
  rw [collect_eq (Nat.zero_le _)]
  simp only [List.length_nil, Nat.sub_zero, List.nil_append, Option.map_eq_none_iff,
    List.getElem?_eq_none_iff, Option.map_eq_some_iff]
  refine ⟨List.take_of_length_le, ?_⟩
  rintro id ⟨event, hnext, rfl⟩
  obtain ⟨hlt, hget⟩ := List.getElem?_eq_some_iff.mp hnext
  have hsplit : events.filter matchesFilters =
      (events.filter matchesFilters).take limit ++
        event :: (events.filter matchesFilters).drop (limit + 1) := by
    rw [← hget, ← List.drop_eq_getElem_cons hlt, List.take_append_drop]
  obtain ⟨first, rest, rfl, hfirst, hrest⟩ := List.filter_eq_append_iff.mp hsplit
  obtain ⟨skipped, after, rfl, hskipped, -, -⟩ := List.filter_eq_cons_iff.mp hrest
  refine ⟨by rw [List.length_take]; omega, first ++ skipped, event, after,
    (List.append_assoc ..).symm, rfl, ?_⟩
  rw [← hfirst, List.filter_append, List.filter_eq_nil_iff.mpr hskipped, List.append_nil]

/-- The index finds an event where it is. -/
theorem startIndex_eq (hlog : log.events = before ++ event :: after) :
    log.startIndex order (some event.id) = before.length := by
  have hnamed : event.id ≠ "" := log.named event (by rw [hlog]; simp)
  have hnodup := log.nodup
  have hindex := log.represents.idToIdx event.id
  rw [hlog, List.map_append, List.map_cons] at hnodup hindex
  have hbefore : event.id ∉ before.map SearchedEvent.id := fun hmem =>
    (List.nodup_append.mp hnodup).2.2 _ hmem _ List.mem_cons_self rfl
  have hfound : (before.map SearchedEvent.id ++ event.id :: after.map SearchedEvent.id).idxOf?
      event.id = some before.length := by
    unfold List.idxOf?
    rw [List.findIdx?_append, List.findIdx?_eq_none_iff.mpr, List.findIdx?_cons]
    · simp
    · intro id hid
      rw [beq_eq_false_iff_ne]
      rintro rfl
      exact hbefore hid
  rw [hfound] at hindex
  simp [startIndex, hnamed, hindex]

theorem searchEvents_first (log : ReadLog) :
    log.searchEvents matchesFilters order limit none =
      collect matchesFilters limit [] (order.arrange log.events) := by
  unfold searchEvents eventsFrom startIndex
  cases order with
  | timestamp => rfl
  | timestampDesc =>
      have htake : log.events.take (log.events.length - 1 + 1) = log.events :=
        List.take_of_length_le (by omega)
      rw [Option.bind_none, Option.getD_none, htake]
      rfl

end Pages

/-! ## All pages -/

section Runs

variable {matchesFilters : SearchedEvent → Bool} {order : EventSortOrder} {limit : Nat}
  {logs : Nat → ReadLog}

/-- The events to be read, in their order. A search from the end has the events that were there
when it began. -/
def sought (order : EventSortOrder) (logs : Nat → ReadLog) (count : Nat) : List SearchedEvent :=
  match order with
  | .timestamp => (logs count).events
  | .timestampDesc => (logs 0).events.reverse

/-- Nothing but appends happens to the log. -/
def Grows (logs : Nat → ReadLog) : Prop :=
  ∀ count, (logs count).events <+: (logs (count + 1)).events

theorem Grows.prefix (hgrows : Grows logs) {first last : Nat} (hle : first ≤ last) :
    (logs first).events <+: (logs last).events := by
  induction last, hle using Nat.le_induction with
  | base => exact List.prefix_rfl
  | succ last hle ih => exact ih.trans (hgrows last)

theorem Grows.sought_prefix (hgrows : Grows logs) (count : Nat) :
    sought order logs count <+: sought order logs (count + 1) := by
  cases order with
  | timestamp => exact hgrows count
  | timestampDesc => exact List.prefix_rfl

/-- The page that is named by an event begins with it. -/
theorem Grows.eventsFrom_eq (hgrows : Grows logs) {count : Nat} {read after : List SearchedEvent}
    {event : SearchedEvent} (hsought : sought order logs count = read ++ event :: after) :
    (logs count).eventsFrom order ((logs count).startIndex order (some event.id)) =
      event :: after := by
  cases order with
  | timestamp =>
      rw [startIndex_eq hsought, eventsFrom]
      change (logs count).events = _ at hsought
      rw [hsought, List.drop_left]
  | timestampDesc =>
      change (logs 0).events.reverse = _ at hsought
      obtain ⟨grown, hgrown⟩ := hgrows.prefix (Nat.zero_le count)
      rw [List.reverse_eq_iff, List.reverse_append, List.reverse_cons, List.append_assoc,
        List.singleton_append] at hsought
      rw [hsought, List.append_assoc, List.cons_append] at hgrown
      have htake : (after.reverse ++ event :: (read.reverse ++ grown)).take
          (after.reverse.length + 1) = after.reverse ++ [event] := by
        rw [List.append_cons]
        exact List.take_left' (by rw [List.length_append, List.length_singleton])
      rw [startIndex_eq hgrown.symm, eventsFrom, ← hgrown, htake]
      simp

theorem delivered_succ (count : Nat) {page : SearchPage}
    (hpage : pages matchesFilters order limit logs count = some page) :
    delivered matchesFilters order limit logs (count + 1) =
      delivered matchesFilters order limit logs count ++ page.items := by
  simp [delivered, List.range_succ, hpage]

/-- Where the reader is after a page: at the end, or in front of the event that is named. -/
structure Reached (matchesFilters : SearchedEvent → Bool) (order : EventSortOrder) (limit : Nat)
    (logs : Nat → ReadLog) (count : Nat) (page : SearchPage) : Prop where
  ended : page.nextPageId = none → delivered matchesFilters order limit logs (count + 1) =
    (sought order logs count).filter matchesFilters
  continues : ∀ id, page.nextPageId = some id →
    count < (delivered matchesFilters order limit logs (count + 1)).length ∧
    ∃ read event after, sought order logs count = read ++ event :: after ∧ event.id = id ∧
      delivered matchesFilters order limit logs (count + 1) = read.filter matchesFilters

/-- A page of the events that come next. -/
theorem reached_of_collect {count : Nat} {read events : List SearchedEvent} {page : SearchPage}
    (hlimit : 1 ≤ limit) (hsought : sought order logs count = read ++ events)
    (hread : delivered matchesFilters order limit logs count = read.filter matchesFilters)
    (hcount : count ≤ (delivered matchesFilters order limit logs count).length)
    (hpage : pages matchesFilters order limit logs count = some page)
    (hcollect : page = collect matchesFilters limit [] events) :
    Reached matchesFilters order limit logs count page := by
  obtain ⟨hended, hcontinues⟩ := @collect_cases matchesFilters limit events
  rw [← hcollect] at hended hcontinues
  constructor
  · intro hnone
    rw [delivered_succ count hpage, hended hnone, hsought, List.filter_append, hread]
  · intro id hid
    obtain ⟨hlength, before, event, after, rfl, hevent, hitems⟩ := hcontinues id hid
    rw [delivered_succ count hpage, List.length_append, hlength]
    refine ⟨by omega, read ++ before, event, after, ?_, hevent, ?_⟩
    · rw [hsought, List.append_assoc]
    · rw [hread, hitems, List.filter_append]

/-- Every page goes on where the one before it ended. -/
theorem reached (hlimit : 1 ≤ limit) (hgrows : Grows logs) {count : Nat} {page : SearchPage}
    (hpage : pages matchesFilters order limit logs count = some page) :
    Reached matchesFilters order limit logs count page := by
  induction count generalizing page with
  | zero =>
      refine @reached_of_collect _ _ _ _ 0 [] (sought order logs 0) page hlimit rfl rfl
        (Nat.zero_le _) hpage ?_
      obtain rfl := Option.some.inj hpage
      rw [searchEvents_first]
      cases order <;> rfl
  | succ count ih =>
      have hsearch := hpage
      simp only [pages, Option.map_eq_some_iff, Option.bind_eq_some_iff] at hsearch
      obtain ⟨id, ⟨earlier, hearlier, hid⟩, hsearch⟩ := hsearch
      obtain ⟨hcount, read, event, after, hsought, rfl, hread⟩ := (ih hearlier).continues id hid
      obtain ⟨grown, hgrown⟩ := @Grows.sought_prefix order _ hgrows count
      rw [hsought, List.append_assoc, List.cons_append] at hgrown
      refine reached_of_collect hlimit hgrown.symm hread hcount hpage ?_
      rw [← hsearch, searchEvents, hgrows.eventsFrom_eq hgrown.symm]

/-- The pages end, once nothing is appended any more. -/
theorem exists_last_page (hlimit : 1 ≤ limit) (hgrows : Grows logs) {stop : Nat}
    (hstop : ∀ count, stop ≤ count → (logs count).events = (logs stop).events) :
    ∃ last page, pages matchesFilters order limit logs last = some page ∧
      page.nextPageId = none := by
  by_contra hnever
  have hcontinues : ∀ count, ∃ page id,
      pages matchesFilters order limit logs count = some page ∧ page.nextPageId = some id := by
    intro count
    induction count with
    | zero =>
        cases hid : ((logs 0).searchEvents matchesFilters order limit none).nextPageId with
        | none => exact absurd ⟨0, _, rfl, hid⟩ hnever
        | some id => exact ⟨_, id, rfl, hid⟩
    | succ count ih =>
        obtain ⟨page, id, hpage, hid⟩ := ih
        have hnext : pages matchesFilters order limit logs (count + 1) =
            some ((logs (count + 1)).searchEvents matchesFilters order limit (some id)) := by
          simp only [pages, hpage, Option.bind_some, hid, Option.map_some]
        cases hlater : ((logs (count + 1)).searchEvents matchesFilters order limit
            (some id)).nextPageId with
        | none => exact absurd ⟨count + 1, _, hnext, hlater⟩ hnever
        | some later => exact ⟨_, later, hnext, hlater⟩
  have hsame : sought order logs (stop + (sought order logs stop).length) =
      sought order logs stop := by
    cases order with
    | timestamp => exact hstop _ (Nat.le_add_right _ _)
    | timestampDesc => rfl
  obtain ⟨page, id, hpage, hid⟩ := hcontinues (stop + (sought order logs stop).length)
  obtain ⟨hcount, read, event, after, hsought, -, hread⟩ :=
    (reached hlimit hgrows hpage).continues id hid
  have hfilter := List.length_filter_le matchesFilters read
  have hlength := congrArg List.length hsought
  rw [hsame, List.length_append, List.length_cons] at hlength
  rw [hread] at hcount
  omega

end Runs

end ReadLog

/-! ## Complete pages -/

/-- The events of the pages, for what was in the log when the first page was read and when the
last one was. -/
structure PagesComplete (matchesFilters : SearchedEvent → Bool) (order : EventSortOrder)
    (first last items : List SearchedEvent) : Prop where
  inOrder : items.Sublist (order.arrange last)
  once : items.Nodup
  matching : ∀ event ∈ items, matchesFilters event = true
  present : ∀ event ∈ first, matchesFilters event = true → event ∈ items
  appended : order = .timestamp → ∀ event ∈ last, matchesFilters event = true → event ∈ items

namespace ReadLog

/-- Pages that are followed to the end have each event that was there exactly once, and they have
an end once nothing is appended any more. -/
theorem pages_complete (lower : String → String) (filters : EventFilters) (order : EventSortOrder)
    (limit : Nat) (hlimit : 1 ≤ limit) (logs : Nat → ReadLog) (hgrows : Grows logs) :
    (∀ last page, pages (filters.matchesEvent lower) order limit logs last = some page →
      page.nextPageId = none →
      PagesComplete (filters.matchesEvent lower) order (logs 0).events (logs last).events
        (delivered (filters.matchesEvent lower) order limit logs (last + 1))) ∧
    ∀ stop, (∀ count, stop ≤ count → (logs count).events = (logs stop).events) →
      ∃ last page, pages (filters.matchesEvent lower) order limit logs last = some page ∧
        page.nextPageId = none := by
  refine ⟨fun last page hpage hnone => ?_, fun stop hstop => exists_last_page hlimit hgrows hstop⟩
  have hitems := (reached hlimit hgrows hpage).ended hnone
  have hprefix := hgrows.prefix (Nat.zero_le last)
  have hsought : (sought order logs last).Sublist (order.arrange (logs last).events) := by
    cases order with
    | timestamp => exact List.Sublist.refl _
    | timestampDesc => exact hprefix.sublist.reverse
  have hnodup : (sought order logs last).Nodup := by
    cases order with
    | timestamp => exact List.Nodup.of_map _ (logs last).nodup
    | timestampDesc => exact List.nodup_reverse.mpr (List.Nodup.of_map _ (logs 0).nodup)
  rw [hitems]
  refine ⟨List.filter_sublist.trans hsought, hnodup.filter _, fun event hevent =>
    (List.mem_filter.mp hevent).2, fun event hevent hmatch => List.mem_filter.mpr ⟨?_, hmatch⟩,
    fun horder event hevent hmatch => List.mem_filter.mpr ⟨?_, hmatch⟩⟩
  · cases order with
    | timestamp => exact hprefix.subset hevent
    | timestampDesc => exact List.mem_reverse.mpr hevent
  · subst horder
    exact hevent

theorem empty_represents : EventLog.Represents ⟨0, .empty, .empty⟩ [] :=
  ⟨⟨fun _ => rfl, fun _ => rfl⟩, rfl⟩

def twoEventLog : ReadLog where
  index := ⟨2, (Dict.empty.set 0 "e").set 1 "f", (Dict.empty.setDefault "e" 0).setDefault "f" 1⟩
  events :=
    [{ id := "e", kind := "MessageEvent", source := "user", timestamp := "2025" },
      { id := "f", kind := "MessageEvent", source := "agent", timestamp := "2026" }]
  represents := ⟨(empty_represents.toIndexes.snoc "e" 1).snoc "f" 2, rfl⟩
  nodup := by decide
  named := by decide

/-- Two pages of one event, the later one first. -/
theorem pages_complete_two :
    PagesComplete (({} : EventFilters).matchesEvent id) .timestampDesc twoEventLog.events
      twoEventLog.events
      (delivered (({} : EventFilters).matchesEvent id) .timestampDesc 1 (fun _ => twoEventLog) 2) :=
  (pages_complete id {} .timestampDesc 1 le_rfl (fun _ => twoEventLog)
    fun _ => List.prefix_rfl).1 1 _ rfl (by decide +kernel)

end ReadLog

end ShuttleFlow
