import Mathlib.Data.List.Induction
import ShuttleFlow.Conversation.EventName
import ShuttleFlow.Library.Dict

/-! # The persistent event log

One file for each event. Every instance keeps an index of the directory, which
it rebuilds when it finds more files than it knows of.
-/

namespace ShuttleFlow

/-- An event and its JSON, which is never empty. -/
structure StoredEvent where
  id : EventID
  payload : String
  nonempty : payload ≠ ""

/-- The files of the directory by name. -/
abbrev Directory := Dict String String

/-- The order in which the files are listed. -/
structure Listing where
  order : List String → List String
  perm : ∀ names, (order names).Perm names

structure EventLog where
  length : Nat
  idxToId : Dict Nat EventID
  idToIdx : Dict EventID Nat

inductive AppendError
  | valueError (existingIdx : Nat)
  | keyError
  | writeGuard
  deriving DecidableEq, Repr

namespace EventLog

variable (digits : DecimalDigits)

/-- The first index that is missing. -/
def firstMissing (byIdx : Dict Nat EventID) : Nat → Nat → Nat
  | 0, idx => idx
  | fuel + 1, idx => if (byIdx.get? idx).isSome then firstMissing byIdx fuel (idx + 1) else idx

/-- Index an entry. The first index of an id is kept. -/
def indexEntry (byIdx : Dict Nat EventID) (log : EventLog) (idx : Nat) : EventLog :=
  match byIdx.get? idx with
  | some eventId =>
      { log with
        idxToId := log.idxToId.set idx eventId
        idToIdx := log.idToIdx.setDefault eventId idx }
  | none => log

def buildIndex (byIdx : Dict Nat EventID) (length : Nat) : EventLog :=
  (List.range length).foldl (indexEntry byIdx) ⟨length, .empty, .empty⟩

def scanAndBuildIndex (names : List String) : EventLog :=
  let byIdx := (names.filterMap (EventName.parse digits)).foldl
    (fun byIdx entry => byIdx.set entry.1 entry.2) .empty
  buildIndex byIdx (firstMissing byIdx names.length 0)

/-- A new instance over the directory. -/
def init (listing : Listing) (directory : Directory) : EventLog :=
  scanAndBuildIndex digits (listing.order directory.keys)

def countEventsOnDisk (names : List String) : Nat := names.countP EventName.isCounted

/-- Rescan, and restore the mappings that were lost. -/
def syncFromDisk (log : EventLog) (names : List String) (diskLength : Nat) : EventLog :=
  let scanned := scanAndBuildIndex digits names
  let restored := log.idxToId.entries.foldl (fun restored entry =>
    { restored with
      idxToId := restored.idxToId.setDefault entry.1 entry.2
      idToIdx := restored.idToIdx.setDefault entry.2 entry.1 }) scanned
  { restored with length := max scanned.length diskLength }

/-- The name of an event file. Without an id, the index has to know it. -/
def fileName (log : EventLog) (idx : Nat) (eventId : EventID) : Option String :=
  if eventId ≠ "" then some (EventName.format idx eventId)
  else (log.idxToId.get? idx).map (EventName.format idx)

/-- The instance after it has synchronized with the directory. -/
def synced (log : EventLog) (names : List String) : EventLog :=
  let diskLength := countEventsOnDisk names
  if diskLength > log.length then syncFromDisk digits log names diskLength else log

/-- Append an event. The guard may refuse the write. -/
def append (log : EventLog) (directory : Directory) (listing : Listing) (writeGuard : Bool)
    (event : StoredEvent) : Except AppendError Unit × EventLog × Directory :=
  let log := synced digits log (listing.order directory.keys)
  match log.idToIdx.get? event.id with
  | some existingIdx => (.error (.valueError existingIdx), log, directory)
  | none =>
      if writeGuard then
        match fileName log log.length event.id with
        | none => (.error .keyError, log, directory)
        | some name =>
            (.ok (),
              { length := log.length + 1
                idxToId := log.idxToId.set log.length event.id
                idToIdx := log.idToIdx.set event.id log.length },
              directory.set name event.payload)
      else (.error .writeGuard, log, directory)

/-- The file at an index, after a rebuild when the index does not know it. -/
def getItem (log : EventLog) (directory : Directory) (listing : Listing) (idx : Nat) :
    Option String :=
  if idx < log.length then
    match log.idxToId.get? idx with
    | some eventId => directory.get? (EventName.format idx eventId)
    | none =>
        let rebuilt := init digits listing directory
        if idx < rebuilt.length then
          (rebuilt.idxToId.get? idx).bind fun eventId =>
            directory.get? (EventName.format idx eventId)
        else none
  else none

end EventLog

/-! ## What an index represents -/

/-- The names of the files for a sequence of event ids. -/
def eventNames (eventIds : List EventID) : List String := eventIds.mapIdx EventName.format

/-- Ids whose names are read back. -/
structure Readable (eventIds : List EventID) : Prop where
  valid : ∀ eventId ∈ eventIds, EventName.isEventId eventId.toList
  length : eventIds.length ≤ 100000

namespace EventLog

variable {digits : DecimalDigits}

/-- The index has exactly the given ids, at their first positions. -/
structure Indexes (log : EventLog) (eventIds : List EventID) : Prop where
  idxToId : ∀ idx, log.idxToId.get? idx = eventIds[idx]?
  idToIdx : ∀ eventId, log.idToIdx.get? eventId = eventIds.idxOf? eventId

structure Represents (log : EventLog) (eventIds : List EventID) : Prop extends
    Indexes log eventIds where
  length : log.length = eventIds.length

theorem Indexes.snoc {log : EventLog} {eventIds : List EventID} (hlog : log.Indexes eventIds)
    (eventId : EventID) (length : Nat) :
    Indexes
      { length
        idxToId := log.idxToId.set eventIds.length eventId
        idToIdx := log.idToIdx.setDefault eventId eventIds.length } (eventIds ++ [eventId]) where
  idxToId idx := by
    rw [Dict.get?_set, hlog.idxToId, List.getElem?_append]
    rcases Nat.lt_trichotomy idx eventIds.length with hlt | rfl | hgt
    · rw [if_neg (Nat.ne_of_lt hlt), if_pos hlt]
    · simp
    · rw [if_neg (Nat.ne_of_gt hgt), if_neg (Nat.lt_asymm hgt),
        List.getElem?_eq_none (Nat.le_of_lt hgt), List.getElem?_eq_none (by simp; omega)]
  idToIdx other := by
    rw [Dict.get?_setDefault, hlog.idToIdx, hlog.idToIdx]
    change _ = (eventIds ++ [eventId]).findIdx? (· == other)
    rw [List.findIdx?_append]
    change (if other = eventId then
      some ((eventIds.findIdx? (· == eventId)).getD eventIds.length)
      else eventIds.findIdx? (· == other)) = _
    by_cases hsame : other = eventId
    · rw [if_pos hsame, hsame]
      cases eventIds.findIdx? (· == eventId) <;> simp
    · rw [if_neg hsame]
      cases eventIds.findIdx? (· == other) <;> simp [Ne.symm hsame]

theorem buildIndex_represents {byIdx : Dict Nat EventID} {eventIds : List EventID}
    (hbyIdx : ∀ idx, byIdx.get? idx = eventIds[idx]?) :
    (buildIndex byIdx eventIds.length).Represents eventIds := by
  have hfold : ∀ count ≤ eventIds.length,
      ((List.range count).foldl (indexEntry byIdx) ⟨eventIds.length, .empty, .empty⟩).length =
        eventIds.length ∧
      ((List.range count).foldl (indexEntry byIdx) ⟨eventIds.length, .empty, .empty⟩).Indexes
        (eventIds.take count) := by
    intro count hcount
    induction count with
    | zero => exact ⟨rfl, fun _ => rfl, fun _ => rfl⟩
    | succ count ih =>
        obtain ⟨hlength, hindexes⟩ := ih (Nat.le_of_succ_le hcount)
        rw [List.range_succ, List.foldl_append, List.take_succ_eq_append_getElem hcount]
        simp only [List.foldl_cons, List.foldl_nil, indexEntry, hbyIdx,
          List.getElem?_eq_getElem hcount]
        refine ⟨hlength, ?_⟩
        have hsnoc := hindexes.snoc eventIds[count] eventIds.length
        rw [List.length_take, Nat.min_eq_left (Nat.le_of_succ_le hcount)] at hsnoc
        rw [hlength]
        exact hsnoc
  obtain ⟨hlength, hindexes⟩ := hfold eventIds.length le_rfl
  rw [List.take_length] at hindexes
  exact ⟨hindexes, hlength⟩

theorem firstMissing_eq {byIdx : Dict Nat EventID} {eventIds : List EventID}
    (hbyIdx : ∀ idx, byIdx.get? idx = eventIds[idx]?) {fuel idx : Nat}
    (hfuel : eventIds.length ≤ fuel + idx) (hidx : idx ≤ eventIds.length) :
    firstMissing byIdx fuel idx = eventIds.length := by
  induction fuel generalizing idx with
  | zero =>
      rw [firstMissing]
      omega
  | succ fuel ih =>
      rw [firstMissing, hbyIdx]
      by_cases hlt : idx < eventIds.length
      · rw [if_pos (by simp [hlt])]
        exact ih (by omega) hlt
      · rw [if_neg (by simp [hlt])]
        omega

/-- Reading the names back gives the ids with their positions. -/
theorem filterMap_parse_eventNames {eventIds : List EventID} (hreadable : Readable eventIds) :
    (eventNames eventIds).filterMap (EventName.parse digits) =
      eventIds.mapIdx fun idx eventId => (idx, eventId) := by
  obtain ⟨hvalid, hlength⟩ := hreadable
  induction eventIds using List.reverseRecOn with
  | nil => rfl
  | append_singleton eventIds eventId ih =>
      rw [List.length_append, List.length_singleton] at hlength
      have hid := hvalid eventId (by simp)
      rw [eventNames, List.mapIdx_concat, List.mapIdx_concat, List.filterMap_append,
        ← ih (fun other hother => hvalid other (by simp [hother])) (by omega), eventNames]
      simp only [List.filterMap_cons, List.filterMap_nil, EventName.parse_format]
      rw [if_pos ⟨by omega, hid⟩]

/-- The directory holds the event files and others, in any order. -/
structure Holds (digits : DecimalDigits) (names foreign : List String)
    (eventIds : List EventID) : Prop where
  perm : names.Perm (foreign ++ eventNames eventIds)
  unparsed : ∀ name ∈ foreign, EventName.parse digits name = none
  readable : Readable eventIds

theorem Holds.mem_entries {names foreign : List String} {eventIds : List EventID}
    (hholds : Holds digits names foreign eventIds) {idx : Nat} {eventId : EventID} :
    (idx, eventId) ∈ names.filterMap (EventName.parse digits) ↔ eventIds[idx]? = some eventId := by
  have hforeign : foreign.filterMap (EventName.parse digits) = [] :=
    List.filterMap_eq_nil_iff.mpr hholds.unparsed
  rw [(hholds.perm.filterMap _).mem_iff, List.filterMap_append, hforeign, List.nil_append,
    filterMap_parse_eventNames hholds.readable, List.mem_mapIdx, List.getElem?_eq_some_iff]
  constructor
  · rintro ⟨found, hfound, heq⟩
    cases heq
    exact ⟨hfound, rfl⟩
  · rintro ⟨hidx, rfl⟩
    exact ⟨idx, hidx, rfl⟩

/-- A scan finds exactly the events that have been written. -/
theorem Holds.scan_represents {names foreign : List String} {eventIds : List EventID}
    (hholds : Holds digits names foreign eventIds) :
    (scanAndBuildIndex digits names).Represents eventIds := by
  have hbyIdx : ∀ idx, ((names.filterMap (EventName.parse digits)).foldl
      (fun byIdx entry => byIdx.set entry.1 entry.2) Dict.empty).get? idx = eventIds[idx]? := by
    intro idx
    refine Option.ext fun eventId => ?_
    rw [Dict.get?_foldl_set, hholds.mem_entries]
    · simp
    · rintro ⟨first, firstId⟩ hfirst ⟨second, secondId⟩ hsecond heq
      obtain rfl : first = second := heq
      have hsame := (hholds.mem_entries.mp hfirst).symm.trans (hholds.mem_entries.mp hsecond)
      rw [Option.some.inj hsame]
  have hfuel : eventIds.length ≤ names.length + 0 := by
    rw [hholds.perm.length_eq, List.length_append, eventNames, List.length_mapIdx]
    omega
  simp only [scanAndBuildIndex]
  rw [firstMissing_eq hbyIdx hfuel (Nat.zero_le _)]
  exact buildIndex_represents hbyIdx

end EventLog

end ShuttleFlow
