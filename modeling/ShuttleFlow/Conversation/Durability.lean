import ShuttleFlow.Conversation.EventLogRuns

/-! # Reopening the event log

What one instance has written is read back by a new one, as long as counting the
files and reading their names agree.
-/

namespace ShuttleFlow

open scoped List

namespace EventLog

variable (digits : DecimalDigits)

/-- Append events one after another. There is no result when an append fails. -/
def appendAll (log : EventLog) (directory : Directory) :
    List (Listing × StoredEvent) → Option (EventLog × Directory)
  | [] => some (log, directory)
  | (listing, event) :: rest =>
      match log.append digits directory listing true event with
      | (.ok _, log, directory) => appendAll log directory rest
      | (.error _, _, _) => none

/-- Every index is mapped, and a new instance reads the same events. -/
structure Durable (log : EventLog) (directory : Directory) (events : List StoredEvent) :
    Prop where
  indexed : ∀ idx < log.length, ∃ eventId, log.idxToId.get? idx = some eventId
  length : ∀ listing, (init digits listing directory).length = log.length
  items : ∀ listing other idx, log.getItem digits directory listing idx =
      (events[idx]?).map StoredEvent.payload ∧
    (init digits listing directory).getItem digits directory other idx =
      (events[idx]?).map StoredEvent.payload

variable {digits} {foreign : List String}

theorem appendAll_append (log : EventLog) (directory : Directory)
    (first second : List (Listing × StoredEvent)) :
    appendAll digits log directory (first ++ second) =
      (appendAll digits log directory first).bind fun state =>
        appendAll digits state.1 state.2 second := by
  induction first generalizing log directory with
  | nil => rfl
  | cons entry rest ih =>
      obtain ⟨listing, event⟩ := entry
      rw [List.cons_append, appendAll, appendAll]
      split
      · exact ih _ _
      · rfl

/-- The log and the directory hold the events that have been appended. -/
structure Stores (digits : DecimalDigits) (foreign : List String) (log : EventLog)
    (directory : Directory) (events : List StoredEvent) : Prop where
  holds : Holds digits directory.keys foreign (events.map StoredEvent.id)
  represents : log.Represents (events.map StoredEvent.id)
  payloads : ∀ idx (hidx : idx < events.length),
    directory.get? (EventName.format idx events[idx].id) = some events[idx].payload

theorem Stores.durable {log : EventLog} {directory : Directory} {events : List StoredEvent}
    (hstores : Stores digits foreign log directory events) :
    Durable digits log directory events := by
  have hitem : ∀ (known : EventLog) listing idx, known.Represents (events.map StoredEvent.id) →
      known.getItem digits directory listing idx = (events[idx]?).map StoredEvent.payload := by
    intro known listing idx hknown
    have hlength : known.length = events.length := by rw [hknown.length, List.length_map]
    unfold getItem
    split
    next hidx =>
      rw [hlength] at hidx
      rw [hknown.idxToId, List.getElem?_map, List.getElem?_eq_getElem hidx]
      exact hstores.payloads idx hidx
    next hidx =>
      rw [List.getElem?_eq_none (by omega)]
      rfl
  have hinit : ∀ listing, (init digits listing directory).Represents
      (events.map StoredEvent.id) := fun listing => hstores.holds.init_represents listing
  refine ⟨fun idx hidx => ?_, fun listing => ?_, fun listing other idx =>
    ⟨hitem log listing idx hstores.represents, hitem _ other idx (hinit listing)⟩⟩
  · rw [hstores.represents.length] at hidx
    exact ⟨_, by rw [hstores.represents.idxToId, List.getElem?_eq_getElem hidx]⟩
  · rw [(hinit listing).length, hstores.represents.length]

/-- The effect of one successful append. -/
theorem Stores.append {log appended : EventLog} {directory written : Directory}
    {events : List StoredEvent} (hstores : Stores digits foreign log directory events)
    (huncounted : ∀ name ∈ foreign, EventName.isCounted name = false) {listing : Listing}
    {event : StoredEvent}
    (happend : log.append digits directory listing true event = (.ok (), appended, written)) :
    written = directory.set (EventName.format events.length event.id) event.payload ∧
      appended.Represents ((events ++ [event]).map StoredEvent.id) := by
  have hsynced := (hstores.holds.perm_names (listing.perm _)).synced_represents huncounted
    hstores.represents List.prefix_rfl
  obtain ⟨hduplicate, hnew⟩ := append_spec hsynced true event
  by_cases hmem : event.id ∈ events.map StoredEvent.id
  · obtain ⟨existingIdx, herror⟩ := hduplicate hmem
    rw [herror] at happend
    cases happend
  · rcases hnew hmem with ⟨error, herror⟩ | ⟨found, hok, hrepresents⟩
    · rw [herror] at happend
      cases happend
    · rw [hok, List.length_map] at happend
      cases happend
      exact ⟨rfl, by simpa using hrepresents⟩

theorem Stores.snoc {log appended : EventLog} {directory written : Directory}
    {events : List StoredEvent} (hstores : Stores digits foreign log directory events)
    (huncounted : ∀ name ∈ foreign, EventName.isCounted name = false) {listing : Listing}
    {event : StoredEvent} (hvalid : EventName.isEventId event.id.toList)
    (hspace : events.length < 100000)
    (happend : log.append digits directory listing true event = (.ok (), appended, written)) :
    Stores digits foreign appended written (events ++ [event]) := by
  obtain ⟨rfl, hrepresents⟩ := hstores.append huncounted happend
  have hlength : (events.map StoredEvent.id).length = events.length := List.length_map _
  have hname := hstores.holds.format_notMem hvalid (by omega)
  have hholds := hstores.holds.snoc hvalid (by omega) event.payload
  rw [hlength] at hname hholds
  refine ⟨by simpa using hholds, hrepresents, fun idx hidx => ?_⟩
  rw [Dict.get?_set]
  rw [List.length_append, List.length_singleton] at hidx
  by_cases hlast : idx = events.length
  · subst hlast
    simp
  · have hold : idx < events.length := by omega
    rw [List.getElem_append_left hold, if_neg, hstores.payloads idx hold]
    intro hsame
    refine hname (hsame ▸ ?_)
    rw [← Dict.isSome_get?_iff, hstores.payloads idx hold]
    rfl

/-- A name that is not read back is lost when the log is reopened. -/
theorem Stores.not_durable {log appended : EventLog} {directory written : Directory}
    {events : List StoredEvent} (hstores : Stores digits foreign log directory events)
    (huncounted : ∀ name ∈ foreign, EventName.isCounted name = false) {listing : Listing}
    {event : StoredEvent}
    (hinvalid : ¬ (events.length < 100000 ∧ EventName.isEventId event.id.toList))
    (happend : log.append digits directory listing true event = (.ok (), appended, written)) :
    ¬ Durable digits appended written (events ++ [event]) := by
  obtain ⟨rfl, hrepresents⟩ := hstores.append huncounted happend
  intro hdurable
  have hunparsed : EventName.parse digits (EventName.format events.length event.id) = none := by
    rw [EventName.parse_format, if_neg hinvalid]
  obtain ⟨other, hholds⟩ := hstores.holds.junk hunparsed event.payload
  have hlength := hdurable.length listing
  rw [(hholds.init_represents listing).length, hrepresents.length, List.length_map, List.length_map,
    List.length_append, List.length_singleton] at hlength
  omega

/-- A foreign file that is counted leaves a gap before the first event. -/
theorem not_durable_of_counted {directory written : Directory} {appended : EventLog}
    (hforeign : ∀ name ∈ directory.keys, EventName.parse digits name = none)
    (hcounted : ∃ name ∈ directory.keys, EventName.isCounted name = true) {start listing : Listing}
    {event : StoredEvent}
    (happend : (init digits start directory).append digits directory listing true event =
      (.ok (), appended, written)) : ¬ Durable digits appended written [event] := by
  have hholds : Holds digits directory.keys directory.keys [] :=
    ⟨by simp [eventNames], hforeign, by simp, by simp⟩
  have hinit := hholds.init_represents start
  have hlisted := hholds.perm_names (listing.perm _)
  have hcount : 0 < countEventsOnDisk (listing.order directory.keys) := by
    rw [hlisted.countEventsOnDisk, List.length_nil, Nat.add_zero, List.countP_pos_iff]
    exact hcounted
  obtain ⟨hindexes, hlength⟩ := hlisted.syncFromDisk_indexes hinit.toIndexes List.nil_prefix
    (countEventsOnDisk (listing.order directory.keys))
  have hsynced : synced digits (init digits start directory) (listing.order directory.keys) =
      syncFromDisk digits (init digits start directory) (listing.order directory.keys)
        (countEventsOnDisk (listing.order directory.keys)) := by
    simp only [synced]
    exact if_pos (by rw [hinit.length]; exact hcount)
  intro hdurable
  simp only [append, hsynced, hindexes.idToIdx, List.idxOf?_nil, if_true] at happend
  split at happend
  · cases happend
  · cases happend
    -- index 0 is below the first event
    obtain ⟨eventId, hget⟩ := hdurable.indexed 0 (by simp)
    rw [Dict.get?_set, if_neg (by rw [hlength, List.length_nil]; omega), hindexes.idxToId] at hget
    cases hget

theorem appendAll_snoc {log : EventLog} {directory : Directory}
    {appends : List (Listing × StoredEvent)} {entry : Listing × StoredEvent}
    {after : EventLog × Directory} :
    appendAll digits log directory (appends ++ [entry]) = some after ↔
      ∃ before, appendAll digits log directory appends = some before ∧
        before.1.append digits before.2 entry.1 true entry.2 = (.ok (), after.1, after.2) := by
  rw [appendAll_append, Option.bind_eq_some_iff]
  refine exists_congr fun before => and_congr_right fun _ => ?_
  obtain ⟨listing, event⟩ := entry
  obtain ⟨log, directory⟩ := after
  simp only [appendAll]
  split
  next appended written happend => rw [happend]; simp
  next happend => rw [happend]; simp

theorem stores_init {directory : Directory}
    (hforeign : ∀ name ∈ directory.keys, EventName.parse digits name = none) (start : Listing) :
    Stores digits directory.keys (init digits start directory) directory [] := by
  have hholds : Holds digits directory.keys directory.keys [] :=
    ⟨by simp [eventNames], hforeign, by simp, by simp⟩
  exact ⟨hholds, hholds.init_represents start, by simp⟩

/-- Valid events are all stored. -/
theorem appendAll_stores {log : EventLog} {directory : Directory}
    (hstart : Stores digits foreign log directory [])
    (huncounted : ∀ name ∈ foreign, EventName.isCounted name = false)
    {appends : List (Listing × StoredEvent)}
    (hvalid : ∀ entry ∈ appends, EventName.isEventId entry.2.id.toList)
    (hlength : appends.length ≤ 100000) {after : EventLog × Directory}
    (hafter : appendAll digits log directory appends = some after) :
    Stores digits foreign after.1 after.2 (appends.map Prod.snd) := by
  induction appends using List.reverseRecOn generalizing after with
  | nil =>
      cases hafter
      exact hstart
  | append_singleton appends entry ih =>
      rw [List.length_append, List.length_singleton] at hlength
      obtain ⟨before, hbefore, happend⟩ := appendAll_snoc.mp hafter
      have hstores := ih (fun other hother => hvalid other (by simp [hother])) (by omega) hbefore
      rw [List.map_append]
      exact hstores.snoc huncounted (hvalid entry (by simp))
        (by rw [List.length_map]; omega) happend

/-- Events that are durable at every moment are valid. -/
theorem valid_of_durable {log : EventLog} {directory : Directory}
    (hstart : Stores digits foreign log directory [])
    (huncounted : ∀ name ∈ foreign, EventName.isCounted name = false)
    {appends : List (Listing × StoredEvent)} {after : EventLog × Directory}
    (hafter : appendAll digits log directory appends = some after)
    (hdurable : ∀ earlier reached, earlier <+: appends →
      appendAll digits log directory earlier = some reached →
      Durable digits reached.1 reached.2 (earlier.map Prod.snd)) :
    (∀ entry ∈ appends, EventName.isEventId entry.2.id.toList) ∧ appends.length ≤ 100000 := by
  induction appends using List.reverseRecOn generalizing after with
  | nil => simp
  | append_singleton appends entry ih =>
      obtain ⟨before, hbefore, happend⟩ := appendAll_snoc.mp hafter
      obtain ⟨hvalid, hlength⟩ := ih hbefore fun earlier reached hpre =>
        hdurable earlier reached (hpre.trans (List.prefix_append _ _))
      have hstores := appendAll_stores hstart huncounted hvalid hlength hbefore
      have hlast : appends.length < 100000 ∧ EventName.isEventId entry.2.id.toList := by
        by_contra hinvalid
        refine hstores.not_durable huncounted (by rwa [List.length_map]) happend ?_
        have hfinal := hdurable _ after List.prefix_rfl hafter
        rwa [List.map_append] at hfinal
      refine ⟨fun other hother => ?_, by rw [List.length_append, List.length_singleton]; omega⟩
      rcases List.mem_append.mp hother with hother | hother
      · exact hvalid other hother
      · exact List.mem_singleton.mp hother ▸ hlast.2

/-- What has been appended is read back exactly when counting and reading names
agree: no other file is counted, and every index and id is read back. Ids with path
separators, whose files lie elsewhere, are left out of the converse. -/
theorem durable_iff (digits : DecimalDigits) (directory : Directory)
    (hforeign : ∀ name ∈ directory.keys, EventName.parse digits name = none) (start : Listing)
    (appends : List (Listing × StoredEvent))
    (hsucceed : (appendAll digits (init digits start directory) directory appends).isSome) :
    let durable := ∀ earlier reached, earlier <+: appends →
      appendAll digits (init digits start directory) directory earlier = some reached →
      Durable digits reached.1 reached.2 (earlier.map Prod.snd)
    let agree := (appends = [] ∨ ∀ name ∈ directory.keys, EventName.isCounted name = false) ∧
      (∀ entry ∈ appends, EventName.isEventId entry.2.id.toList) ∧ appends.length ≤ 100000
    (agree → durable) ∧
      ((∀ entry ∈ appends, '/' ∉ entry.2.id.toList ∧ '\\' ∉ entry.2.id.toList) →
        durable → agree) := by
  intro durable agree
  have hstart := stores_init hforeign start
  constructor
  · rintro ⟨huncounted, hvalid, hlength⟩ earlier reached hpre hreached
    rcases huncounted with rfl | huncounted
    · obtain rfl := List.prefix_nil.mp hpre
      cases hreached
      exact hstart.durable
    · exact (appendAll_stores hstart huncounted (fun entry hentry =>
        hvalid entry (hpre.subset hentry)) (hpre.length_le.trans hlength) hreached).durable
  · intro _ hdurable
    obtain ⟨after, hafter⟩ := Option.isSome_iff_exists.mp hsucceed
    have huncounted : appends = [] ∨ ∀ name ∈ directory.keys, EventName.isCounted name = false := by
      refine or_iff_not_imp_left.mpr fun hsome => ?_
      by_contra hcounted
      push Not at hcounted
      simp only [Bool.not_eq_false] at hcounted
      obtain ⟨entry, rest, rfl⟩ := List.exists_cons_of_ne_nil hsome
      rw [← List.singleton_append, appendAll_append, Option.bind_eq_some_iff] at hafter
      obtain ⟨first, hfirst, -⟩ := hafter
      obtain ⟨before, hbefore, happend⟩ := (@appendAll_snoc digits _ _ [] entry first).mp hfirst
      cases hbefore
      exact not_durable_of_counted hforeign hcounted happend
        (hdurable [entry] first (by simp) hfirst)
    refine ⟨huncounted, ?_⟩
    rcases huncounted with rfl | huncounted
    · simp
    · exact valid_of_durable hstart huncounted hafter hdurable

end EventLog

open Sample in
theorem EventLog.durable_iff_two_events :
    let appends := [(listing, storedEvent "01234567"), (listing, storedEvent "89abcdef")]
    ∀ reached, EventLog.appendAll asciiDigits
        (EventLog.init asciiDigits listing lockedDirectory) lockedDirectory appends = some reached →
      EventLog.Durable asciiDigits reached.1 reached.2 (appends.map Prod.snd) := by
  intro appends reached hreached
  exact (EventLog.durable_iff asciiDigits lockedDirectory (by decide) listing appends
    (by decide)).1 ⟨.inr (by decide), by decide, by decide⟩ appends reached List.prefix_rfl hreached

open Sample in
/-- An event whose id is too short is gone when the log is reopened. -/
theorem EventLog.not_durable_short_id :
    ∃ log directory, EventLog.appendAll asciiDigits
        (EventLog.init asciiDigits listing lockedDirectory) lockedDirectory
        [(listing, storedEvent "msg-1")] = some (log, directory) ∧
      log.length = 1 ∧ (EventLog.init asciiDigits listing directory).length = 0 ∧
      ¬ EventLog.Durable asciiDigits log directory [storedEvent "msg-1"] := by
  refine ⟨_, _, rfl, by decide, by decide, fun hdurable => ?_⟩
  exact absurd (hdurable.length listing) (by decide)

end ShuttleFlow
