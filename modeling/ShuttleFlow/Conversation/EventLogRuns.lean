import ShuttleFlow.Conversation.EventLog

/-! # Writing to the event log

Any number of instances append to one directory, each append in one piece. An
instance may know less than the directory holds, but never anything else.
-/

namespace ShuttleFlow

open scoped List

namespace EventLog

variable {digits : DecimalDigits} {names foreign : List String} {eventIds : List EventID}

theorem Holds.perm_names {other : List String} (hholds : Holds digits names foreign eventIds)
    (hperm : other.Perm names) : Holds digits other foreign eventIds :=
  ⟨hperm.trans hholds.perm, hholds.unparsed, hholds.readable⟩

theorem countP_eventNames (eventIds : List EventID) :
    (eventNames eventIds).countP EventName.isCounted = eventIds.length := by
  rw [List.countP_eq_length.mpr, eventNames, List.length_mapIdx]
  intro name hname
  obtain ⟨idx, hidx, rfl⟩ := List.mem_mapIdx.mp hname
  exact EventName.isCounted_format idx eventIds[idx]

theorem Holds.countEventsOnDisk (hholds : Holds digits names foreign eventIds) :
    EventLog.countEventsOnDisk names =
      foreign.countP EventName.isCounted + eventIds.length := by
  rw [EventLog.countEventsOnDisk, hholds.perm.countP_eq, List.countP_append, countP_eventNames]

/-- A new instance knows everything. -/
theorem Holds.init_represents {directory : Directory} (listing : Listing)
    (hholds : Holds digits directory.keys foreign eventIds) :
    (EventLog.init digits listing directory).Represents eventIds :=
  (hholds.perm_names (listing.perm _)).scan_represents

/-- Restoring what an instance knew adds nothing to a scan. -/
theorem Holds.syncFromDisk_indexes (hholds : Holds digits names foreign eventIds)
    {log : EventLog} {known : List EventID} (hlog : log.Indexes known)
    (hknown : known <+: eventIds) (diskLength : Nat) :
    (EventLog.syncFromDisk digits log names diskLength).Indexes eventIds ∧
      (EventLog.syncFromDisk digits log names diskLength).length =
        max eventIds.length diskLength := by
  have hscan := hholds.scan_represents
  have hrestore : ∀ entries ⊆ log.idxToId.entries,
      entries.foldl (fun (restored : EventLog) entry =>
        { restored with
          idxToId := restored.idxToId.setDefault entry.1 entry.2
          idToIdx := restored.idToIdx.setDefault entry.2 entry.1 })
        (EventLog.scanAndBuildIndex digits names) =
          EventLog.scanAndBuildIndex digits names := by
    intro entries hsub
    induction entries with
    | nil => rfl
    | cons entry rest ih =>
        obtain ⟨hentry, hrest⟩ := List.cons_subset.mp hsub
        have hget : eventIds[entry.1]? = some entry.2 := by
          obtain ⟨later, rfl⟩ := hknown
          have hold : known[entry.1]? = some entry.2 :=
            hlog.idxToId entry.1 ▸ Dict.get?_of_mem_entries hentry
          obtain ⟨hidx, -⟩ := List.getElem?_eq_some_iff.mp hold
          rw [List.getElem?_append_left hidx, hold]
        have hmem : entry.2 ∈ eventIds := List.mem_of_getElem? hget
        rw [List.foldl_cons, Dict.setDefault_of_isSome (by rw [hscan.idxToId, hget]; rfl),
          Dict.setDefault_of_isSome]
        · exact ih hrest
        · rw [hscan.idToIdx, Option.isSome_iff_ne_none, ne_eq, List.idxOf?_eq_none_iff, not_not]
          exact hmem
  simp only [EventLog.syncFromDisk]
  rw [hrestore _ (List.Subset.refl _), hscan.length]
  exact ⟨⟨hscan.idxToId, hscan.idToIdx⟩, rfl⟩

/-- An instance that is behind catches up. -/
theorem Holds.synced_represents (hholds : Holds digits names foreign eventIds)
    (huncounted : ∀ name ∈ foreign, EventName.isCounted name = false)
    {log : EventLog} {known : List EventID} (hlog : log.Represents known)
    (hknown : known <+: eventIds) : (EventLog.synced digits log names).Represents eventIds := by
  have hcount : EventLog.countEventsOnDisk names = eventIds.length := by
    rw [hholds.countEventsOnDisk, List.countP_eq_zero.mpr, Nat.zero_add]
    intro name hname
    simp [huncounted name hname]
  simp only [EventLog.synced, hcount]
  split
  next hbehind =>
    obtain ⟨hindexes, hlength⟩ := hholds.syncFromDisk_indexes hlog.toIndexes hknown eventIds.length
    exact ⟨hindexes, by rw [hlength, max_self]⟩
  next hcurrent =>
    have hsame : known = eventIds := hknown.eq_of_length_le (by rw [← hlog.length]; omega)
    exact hsame ▸ hlog

/-! ## One append -/

/-- What an append does, once the instance knows all events of the directory. -/
theorem append_spec {log : EventLog} {directory : Directory} {listing : Listing}
    (hsynced : (EventLog.synced digits log (listing.order directory.keys)).Represents eventIds)
    (writeGuard : Bool) (event : StoredEvent) :
    (event.id ∈ eventIds → ∃ existingIdx,
      EventLog.append digits log directory listing writeGuard event =
        (.error (.valueError existingIdx),
          EventLog.synced digits log (listing.order directory.keys), directory)) ∧
    (event.id ∉ eventIds →
      (∃ error, EventLog.append digits log directory listing writeGuard event =
        (.error error, EventLog.synced digits log (listing.order directory.keys), directory)) ∨
      ∃ appended, EventLog.append digits log directory listing writeGuard event =
        (.ok (), appended,
          directory.set (EventName.format eventIds.length event.id) event.payload) ∧
        appended.Represents (eventIds ++ [event.id])) := by
  constructor
  · intro hmem
    have hsome : (eventIds.idxOf? event.id).isSome := by
      rw [Option.isSome_iff_ne_none, ne_eq, List.idxOf?_eq_none_iff, not_not]
      exact hmem
    obtain ⟨existingIdx, hexisting⟩ := Option.isSome_iff_exists.mp hsome
    exact ⟨existingIdx, by simp only [EventLog.append, hsynced.idToIdx, hexisting]⟩
  · intro hnew
    have hnone := hsynced.idToIdx event.id
    rw [List.idxOf?_eq_none_iff.mpr hnew] at hnone
    cases writeGuard with
    | false => exact .inl ⟨.writeGuard, by simp [EventLog.append, hnone]⟩
    | true =>
        have hlast := hsynced.idxToId eventIds.length
        rw [List.getElem?_eq_none le_rfl, ← hsynced.length] at hlast
        by_cases hempty : event.id = ""
        · refine .inl ⟨.keyError, ?_⟩
          have hmissing : EventLog.fileName
              (EventLog.synced digits log (listing.order directory.keys))
              (EventLog.synced digits log (listing.order directory.keys)).length event.id =
                none := by
            simp [EventLog.fileName, hempty, hlast]
          simp only [EventLog.append, hnone, hmissing, if_true]
        · have hnamed : EventLog.fileName
              (EventLog.synced digits log (listing.order directory.keys))
              (EventLog.synced digits log (listing.order directory.keys)).length event.id =
                some (EventName.format eventIds.length event.id) := by
            simp [EventLog.fileName, hempty, hsynced.length]
          have hsnoc := hsynced.toIndexes.snoc event.id (eventIds.length + 1)
          rw [Dict.setDefault, if_neg (by simp [hnone])] at hsnoc
          refine .inr ⟨_, by simp only [EventLog.append, hnone, hnamed, if_true]; rfl, ?_, ?_⟩
          · rw [hsynced.length]
            exact hsnoc
          · simp [hsynced.length]

/-- The name of the next event is new. -/
theorem Holds.format_notMem (hholds : Holds digits names foreign eventIds) {eventId : EventID}
    (hvalid : EventName.isEventId eventId.toList) (hspace : eventIds.length < 100000) :
    EventName.format eventIds.length eventId ∉ names := by
  intro hmem
  have hentry : (eventIds.length, eventId) ∈ names.filterMap (EventName.parse digits) :=
    List.mem_filterMap.mpr ⟨_, hmem, by rw [EventName.parse_format, if_pos ⟨hspace, hvalid⟩]⟩
  rw [hholds.mem_entries, List.getElem?_eq_none le_rfl] at hentry
  cases hentry

theorem Holds.snoc {directory : Directory} (hholds : Holds digits directory.keys foreign eventIds)
    {eventId : EventID} (hvalid : EventName.isEventId eventId.toList)
    (hspace : eventIds.length < 100000) (payload : String) :
    Holds digits (directory.set (EventName.format eventIds.length eventId) payload).keys foreign
      (eventIds ++ [eventId]) where
  perm := by
    rw [Dict.keys_set_of_notMem (hholds.format_notMem hvalid hspace), eventNames,
      List.mapIdx_concat, ← List.append_assoc]
    exact hholds.perm.append_right _
  unparsed := hholds.unparsed
  readable :=
    { valid := fun other hother => by
        rcases List.mem_append.mp hother with hother | hother
        · exact hholds.readable.valid other hother
        · exact List.mem_singleton.mp hother ▸ hvalid
      length := by
        rw [List.length_append, List.length_singleton]
        omega }

/-- A file whose name is not read back is foreign to the log. -/
theorem Holds.junk {directory : Directory} (hholds : Holds digits directory.keys foreign eventIds)
    {name : String} (hunparsed : EventName.parse digits name = none) (payload : String) :
    ∃ foreign, Holds digits (directory.set name payload).keys foreign eventIds := by
  by_cases hmem : name ∈ directory.keys
  · rw [Dict.keys_set_of_mem hmem]
    exact ⟨foreign, hholds⟩
  · refine ⟨name :: foreign, ?_, ?_, hholds.readable⟩
    · rw [Dict.keys_set_of_notMem hmem, List.cons_append]
      exact (List.perm_append_singleton _ _).trans (hholds.perm.cons _)
    · intro other hother
      rcases List.mem_cons.mp hother with rfl | hother
      · exact hunparsed
      · exact hholds.unparsed other hother

end EventLog

/-! ## Several writers -/

/-- The directory, the instances over it, and the ids of the appends that succeeded. -/
structure Writers where
  directory : Directory
  logs : Nat → Option EventLog := fun _ => none
  succeeded : List EventID := []

inductive WriterOperation
  | init (writer : Nat) (listing : Listing)
  | append (writer : Nat) (listing : Listing) (writeGuard : Bool) (event : StoredEvent)

namespace Writers

variable (digits : DecimalDigits)

def apply (state : Writers) : WriterOperation → Writers
  | .init writer listing =>
      { state with
        logs := Function.update state.logs writer (some (.init digits listing state.directory)) }
  | .append writer listing writeGuard event =>
      match state.logs writer with
      | none => state
      | some log =>
          let (result, log, directory) := log.append digits state.directory listing writeGuard event
          { directory
            logs := Function.update state.logs writer (some log)
            succeeded :=
              match result with
              | .ok _ => state.succeeded ++ [event.id]
              | .error _ => state.succeeded }

def run (state : Writers) (operations : List WriterOperation) : Writers :=
  operations.foldl (apply digits) state

/-- Every id that is appended matches `EVENT_NAME_RE`. -/
def validIds (operations : List WriterOperation) : Bool :=
  operations.all fun
    | .init _ _ => true
    | .append _ _ _ event => EventName.isEventId event.id.toList

/-- Every instance knows a first part of what has been written, and nothing else. -/
structure Consistent (foreign : List String) (state : Writers) : Prop where
  holds : EventLog.Holds digits state.directory.keys foreign state.succeeded
  nodup : state.succeeded.Nodup
  logs : ∀ writer log, state.logs writer = some log →
    ∃ known, known <+: state.succeeded ∧ log.Represents known

variable {digits} {foreign : List String} {state : Writers}

theorem prefix_succeeded (operation : WriterOperation) :
    state.succeeded <+: (state.apply digits operation).succeeded := by
  cases operation with
  | init writer listing => exact List.prefix_rfl
  | append writer listing writeGuard event =>
      simp only [apply]
      split
      · exact List.prefix_rfl
      · split
        · exact List.prefix_append _ _
        · exact List.prefix_rfl

/-- One append, by an instance that may be behind. -/
theorem Consistent.append_spec (hstate : Consistent digits foreign state)
    (huncounted : ∀ name ∈ foreign, EventName.isCounted name = false) {writer : Nat}
    {log : EventLog} (hlog : state.logs writer = some log) (listing : Listing)
    (writeGuard : Bool) (event : StoredEvent) :
    (event.id ∈ state.succeeded → ∃ existingIdx appended,
      log.append digits state.directory listing writeGuard event =
        (.error (.valueError existingIdx), appended, state.directory) ∧
      appended.Represents state.succeeded) ∧
    (event.id ∉ state.succeeded →
      (∃ error appended, log.append digits state.directory listing writeGuard event =
        (.error error, appended, state.directory) ∧ appended.Represents state.succeeded) ∨
      ∃ appended, log.append digits state.directory listing writeGuard event =
        (.ok (), appended, state.directory.set
          (EventName.format state.succeeded.length event.id) event.payload) ∧
        appended.Represents (state.succeeded ++ [event.id])) := by
  obtain ⟨known, hknown, hrepresents⟩ := hstate.logs writer log hlog
  have hsynced := (hstate.holds.perm_names (listing.perm _)).synced_represents huncounted
    hrepresents hknown
  obtain ⟨hduplicate, hnew⟩ := EventLog.append_spec hsynced writeGuard event
  refine ⟨fun hmem => ?_, fun hnotMem => ?_⟩
  · obtain ⟨existingIdx, happend⟩ := hduplicate hmem
    exact ⟨existingIdx, _, happend, hsynced⟩
  · rcases hnew hnotMem with ⟨error, happend⟩ | happended
    · exact .inl ⟨error, _, happend, hsynced⟩
    · exact .inr happended

theorem Consistent.apply (hstate : Consistent digits foreign state)
    (huncounted : ∀ name ∈ foreign, EventName.isCounted name = false)
    {operation : WriterOperation} (hvalid : validIds [operation])
    (hspace : (state.apply digits operation).succeeded.length ≤ 100000) :
    Consistent digits foreign (state.apply digits operation) := by
  -- instances other than the one that acts keep what they know
  have hothers : ∀ writer acted succeeded, state.succeeded <+: succeeded →
      (∃ known, known <+: succeeded ∧ acted.Represents known) →
      ∀ other log, Function.update state.logs writer (some acted) other = some log →
        ∃ known, known <+: succeeded ∧ log.Represents known := by
    intro writer acted succeeded hpre hacted other log hlog
    by_cases hother : other = writer
    · rw [hother, Function.update_self] at hlog
      exact Option.some.inj hlog ▸ hacted
    · rw [Function.update_of_ne hother] at hlog
      obtain ⟨known, hknown, hrepresents⟩ := hstate.logs other log hlog
      exact ⟨known, hknown.trans hpre, hrepresents⟩
  cases operation with
  | init writer listing =>
      exact ⟨hstate.holds, hstate.nodup, hothers writer _ _ List.prefix_rfl
        ⟨_, List.prefix_rfl, hstate.holds.init_represents listing⟩⟩
  | append writer listing writeGuard event =>
      cases hlog : state.logs writer with
      | none =>
          have hsame : state.apply digits (.append writer listing writeGuard event) = state := by
            simp only [Writers.apply, hlog]
          rw [hsame]
          exact hstate
      | some log =>
          obtain ⟨hduplicate, hnew⟩ := hstate.append_spec huncounted hlog listing writeGuard event
          have hrejected : ∀ error appended,
              log.append digits state.directory listing writeGuard event =
                (.error error, appended, state.directory) →
              appended.Represents state.succeeded →
              Consistent digits foreign
                (state.apply digits (.append writer listing writeGuard event)) := by
            intro error appended happend hrepresents
            simp only [Writers.apply, hlog, happend]
            exact ⟨hstate.holds, hstate.nodup, hothers writer appended _ List.prefix_rfl
              ⟨_, List.prefix_rfl, hrepresents⟩⟩
          by_cases hmem : event.id ∈ state.succeeded
          · obtain ⟨existingIdx, appended, happend, hrepresents⟩ := hduplicate hmem
            exact hrejected _ appended happend hrepresents
          · rcases hnew hmem with ⟨error, appended, happend, hrepresents⟩ |
              ⟨appended, happend, hrepresents⟩
            · exact hrejected error appended happend hrepresents
            · simp only [Writers.apply, hlog, happend, List.length_append,
                List.length_singleton] at hspace ⊢
              have hid : EventName.isEventId event.id.toList := by simpa [validIds] using hvalid
              refine ⟨hstate.holds.snoc hid hspace event.payload, ?_,
                hothers writer appended _ (List.prefix_append _ _)
                  ⟨_, List.prefix_rfl, hrepresents⟩⟩
              exact List.nodup_append.mpr ⟨hstate.nodup, List.nodup_singleton _,
                fun other hother new hnew heq => hmem
                  (List.mem_singleton.mp hnew ▸ heq ▸ hother)⟩

theorem run_append (operations : List WriterOperation) (operation : WriterOperation) :
    state.run digits (operations ++ [operation]) =
      (state.run digits operations).apply digits operation := by
  simp [run]

theorem Consistent.run (hstate : Consistent digits foreign state)
    (huncounted : ∀ name ∈ foreign, EventName.isCounted name = false)
    {operations : List WriterOperation} (hvalid : validIds operations)
    (hspace : (state.run digits operations).succeeded.length ≤ 100000) :
    Consistent digits foreign (state.run digits operations) := by
  induction operations using List.reverseRecOn with
  | nil => exact hstate
  | append_singleton operations operation ih =>
      rw [validIds, List.all_append, Bool.and_eq_true] at hvalid
      rw [run_append] at hspace ⊢
      exact (ih hvalid.1 ((prefix_succeeded operation).length_le.trans hspace)).apply huncounted
        hvalid.2 hspace

end Writers

/-- The names of one index. -/
theorem filter_eventNames {digits : DecimalDigits} {eventIds : List EventID}
    (hreadable : Readable eventIds) (idx : Nat) :
    (eventNames eventIds).filter
        (fun name => (EventName.parse digits name).map Prod.fst = some idx) =
      (eventIds[idx]?.map (EventName.format idx)).toList := by
  obtain ⟨hvalid, hlength⟩ := hreadable
  induction eventIds using List.reverseRecOn with
  | nil => rfl
  | append_singleton eventIds eventId ih =>
      rw [List.length_append, List.length_singleton] at hlength
      have hid := hvalid eventId (by simp)
      have hparse : EventName.parse digits (EventName.format eventIds.length eventId) =
          some (eventIds.length, eventId) := by
        rw [EventName.parse_format, if_pos ⟨by omega, hid⟩]
      rw [eventNames, List.mapIdx_concat, List.filter_append, ← eventNames,
        ih (fun other hother => hvalid other (by simp [hother])) (by omega)]
      rcases Nat.lt_trichotomy idx eventIds.length with hlt | rfl | hgt
      · rw [List.getElem?_append_left hlt]
        simp [hparse, Nat.ne_of_gt hlt]
      · simp [hparse]
      · rw [List.getElem?_eq_none (Nat.le_of_lt hgt), List.getElem?_eq_none (by simp; omega)]
        simp [hparse, Nat.ne_of_lt hgt]

namespace Writers

variable {digits : DecimalDigits} {foreign : List String} {state : Writers}

/-- There is one file for each index, and it has the id of the append with that index. -/
theorem Consistent.files_of_index (hstate : Consistent digits foreign state) (idx : Nat) :
    state.directory.keys.filter
        (fun name => (EventName.parse digits name).map Prod.fst = some idx) =
      (state.succeeded[idx]?.map (EventName.format idx)).toList := by
  have hperm := hstate.holds.perm.filter
    fun name => (EventName.parse digits name).map Prod.fst = some idx
  have hforeign : foreign.filter
      (fun name => (EventName.parse digits name).map Prod.fst = some idx) = [] := by
    refine List.filter_eq_nil_iff.mpr fun name hname => ?_
    simp [hstate.holds.unparsed name hname]
  rw [List.filter_append, hforeign, List.nil_append, filter_eventNames hstate.holds.readable]
    at hperm
  cases hget : state.succeeded[idx]? with
  | none =>
      rw [hget] at hperm
      exact List.perm_nil.mp hperm
  | some eventId =>
      rw [hget] at hperm
      exact List.perm_singleton.mp hperm

/-- Any number of instances may append to one directory, in any interleaving:
indices have one file each, in the order of the appends, no id is written twice, and
no instance knows anything else. -/
theorem run_safe (digits : DecimalDigits) (directory : Directory)
    (hforeign : ∀ name ∈ directory.keys,
      EventName.parse digits name = none ∧ EventName.isCounted name = false)
    (operations : List WriterOperation) (hvalid : validIds operations)
    (hspace : (run digits { directory } operations).succeeded.length ≤ 100000) :
    let final := run digits { directory } operations
    (∀ idx, final.directory.keys.filter
        (fun name => (EventName.parse digits name).map Prod.fst = some idx) =
      (final.succeeded[idx]?.map (EventName.format idx)).toList) ∧
    final.succeeded.Nodup ∧
    (∀ writer log, final.logs writer = some log →
      ∃ known, known <+: final.succeeded ∧ log.Represents known) ∧
    ∀ writer log listing writeGuard event, final.logs writer = some log →
      let after := final.apply digits (.append writer listing writeGuard event)
      (event.id ∈ final.succeeded → after.directory = final.directory ∧
        ∃ existingIdx, (log.append digits final.directory listing writeGuard event).1 =
          .error (.valueError existingIdx)) ∧
      ∃ appended, after.logs writer = some appended ∧ appended.Represents after.succeeded := by
  intro final
  have hstart : Consistent digits directory.keys { directory } :=
    ⟨⟨by simp [eventNames], fun name hname => (hforeign name hname).1, by simp, by simp⟩,
      List.nodup_nil, by simp⟩
  have huncounted : ∀ name ∈ directory.keys, EventName.isCounted name = false :=
    fun name hname => (hforeign name hname).2
  have hfinal : Consistent digits directory.keys final := hstart.run huncounted hvalid hspace
  refine ⟨hfinal.files_of_index, hfinal.nodup, hfinal.logs, ?_⟩
  intro writer log listing writeGuard event hlog
  obtain ⟨hduplicate, hnew⟩ := hfinal.append_spec huncounted hlog listing writeGuard event
  simp only [apply, hlog]
  by_cases hmem : event.id ∈ final.succeeded
  · obtain ⟨existingIdx, appended, happend, hrepresents⟩ := hduplicate hmem
    rw [happend]
    exact ⟨fun _ => ⟨rfl, existingIdx, rfl⟩, appended, Function.update_self .., hrepresents⟩
  · refine ⟨fun hother => absurd hother hmem, ?_⟩
    rcases hnew hmem with ⟨error, appended, happend, hrepresents⟩ | ⟨appended, happend, hrepresents⟩
    · rw [happend]
      exact ⟨appended, Function.update_self .., hrepresents⟩
    · rw [happend]
      exact ⟨appended, Function.update_self .., hrepresents⟩

end Writers

namespace Sample

def asciiDigits : DecimalDigits where
  value char := if char.isDigit then some (char.toNat - '0'.toNat) else none
  ascii _ hdigit := if_pos hdigit

def listing : Listing := ⟨List.reverse, fun _ => List.reverse_perm _⟩

def storedEvent (id : EventID) : StoredEvent := ⟨id, "\x7b\x7d", by decide⟩

/-- A directory that holds the lock file only. -/
def lockedDirectory : Directory := Dict.empty.set ".eventlog.lock" ""

/-- Two instances take turns, and one repeats an id of the other. -/
def twoWriters : List WriterOperation :=
  [.init 0 listing, .init 1 listing, .append 0 listing true (storedEvent "01234567"),
    .append 1 listing true (storedEvent "89abcdef"),
      .append 1 listing true (storedEvent "01234567")]

end Sample

open Sample in
theorem Writers.run_safe_two_writers :
    let final := Writers.run asciiDigits { directory := lockedDirectory } twoWriters
    final.succeeded = ["01234567", "89abcdef"] ∧
      final.directory.keys.filter
        (fun name => (EventName.parse asciiDigits name).map Prod.fst = some 1) =
          [EventName.format 1 "89abcdef"] :=
  ⟨by decide, (Writers.run_safe asciiDigits lockedDirectory (by decide) twoWriters (by decide)
    (by decide)).1 1⟩

end ShuttleFlow
