import ShuttleFlow.Library.Pages
import ShuttleFlow.Library.Segments
import ShuttleFlow.Workspace.RemoteWorkspace

/-! # Outputs are delivered

The outputs of a command reach a polling client once and in their order, as long as no
poll finds a new output behind the first hundred names, or two new outputs of one stream
whose names are in the wrong order.
-/

namespace ShuttleFlow

open scoped List

namespace BashEvent

/-- The text on stdout, if any. -/
def stdoutText (event : BashEvent) : List Char :=
  (event.output.bind BashOutput.stdout).getD []

def stderrText (event : BashEvent) : List Char :=
  (event.output.bind BashOutput.stderr).getD []

def exitCode (event : BashEvent) : Option Int :=
  event.output.bind BashOutput.exitCode

end BashEvent

namespace RemoteBash

/-- The outputs that the client has not seen. -/
def unseen (system : RemoteBash) (polling : CommandPolling) : List BashEvent :=
  system.outputs.filter (polling.query system.commandId).inOrder

/-- A new output is on the first page. -/
def onFirstPage (system : RemoteBash) (event : BashEvent) : Bool :=
  (system.outputs.countP fun other => decide (other.filename < event.filename)) < 100

/-- Texts of one stream come in the order of the names of their files. -/
def textsInOrder (text : BashEvent → List Char) (events : List BashEvent) : Prop :=
  KeySorted BashEvent.filename (events.filter fun event => text event ≠ [])

instance (text : BashEvent → List Char) (events : List BashEvent) :
    Decidable (textsInOrder text events) :=
  inferInstanceAs (Decidable (List.Pairwise _ _))

/-- Outputs have ids of their own, and a poll finds the new outputs of either stream on the
first page and in order. -/
def delivers (system : RemoteBash) : RemoteBashStep → Bool
  | .save event => system.outputs.all fun other => other.id ≠ event.id
  | .poll =>
      match system.call with
      | .polling polling =>
          (system.unseen polling).all system.onFirstPage &&
            decide (textsInOrder BashEvent.stdoutText (system.unseen polling)) &&
            decide (textsInOrder BashEvent.stderrText (system.unseen polling))
      | _ => true
  | .timeout => true

/-- What is promised of a run so far. -/
structure Delivered (trace : List RemoteBashEvent) (system : RemoteBash) : Prop where
  /-- A poll sees the exit code that was saved before it. -/
  observed : ∀ before after, trace = before ++ .polled :: after → ∀ event,
    .saved event ∈ before → event.commandId = some system.commandId → event.exitCode ≠ none →
    .processed event ∈ before
  /-- No event is processed twice. -/
  once : trace.Pairwise fun earlier later =>
    ∀ event, earlier = .processed event → later ≠ .processed event
  stdout : ∀ result, system.call = .completed result →
    result.stdout = system.outputs.flatMap BashEvent.stdoutText
  stderr : ∀ result, system.call = .completed result →
    result.stderr = system.outputs.flatMap BashEvent.stderrText
  not_failed : system.call ≠ .failed

end RemoteBash

/-! ## Files and searches -/

namespace BashEvent

variable {event other : BashEvent} {commandId : Nat}

theorem kind_of_commandId (hcommand : event.commandId = some commandId) :
    event.kind = .bashOutput := by
  obtain ⟨timestamp, id, body⟩ := event
  cases body with
  | bashCommand => cases hcommand
  | bashOutput => rfl

theorem filename_of_commandId (hcommand : event.commandId = some commandId) :
    event.filename = [event.timestamp, 1, commandId, event.id] := by
  obtain ⟨timestamp, id, body⟩ := event
  cases body with
  | bashCommand => cases hcommand
  | bashOutput =>
      cases hcommand
      rfl

/-- The name of an output tells its command and its id. -/
theorem of_filename_eq (hcommand : event.commandId = some commandId)
    (hname : other.filename = event.filename) :
    other.commandId = some commandId ∧ other.id = event.id := by
  rw [filename_of_commandId hcommand] at hname
  obtain ⟨timestamp, id, body⟩ := other
  cases body with
  | bashCommand => cases hname
  | bashOutput otherCommand output =>
      cases hname
      exact ⟨rfl, rfl⟩

theorem exists_output (hcommand : event.commandId = some commandId) :
    ∃ output, event.output = some output := by
  obtain ⟨timestamp, id, body⟩ := event
  cases body with
  | bashCommand => cases hcommand
  | bashOutput _ output => exact ⟨output, rfl⟩

end BashEvent

namespace RemoteBash

variable {system : RemoteBash} {polling : CommandPolling} {event : BashEvent}

theorem mem_outputs : event ∈ system.outputs ↔
    event ∈ system.events ∧ event.commandId = some system.commandId := by
  rw [outputs, List.mem_filter, decide_eq_true_eq]

/-- Saving another event leaves the outputs of the command. -/
theorem outputs_saveEventToFile_of_ne (hother : event.commandId ≠ some system.commandId) :
    outputs { system with events := BashEventService.saveEventToFile system.events event } =
      system.outputs := by
  rw [outputs, BashEventService.saveEventToFile, List.filter_append, List.filter_filter,
    List.filter_singleton, decide_eq_false hother, outputs]
  refine (List.append_nil _).trans (List.filter_congr fun saved _ => ?_)
  cases hown : decide (saved.commandId = some system.commandId) with
  | false => exact Bool.false_and _
  | true =>
      refine (Bool.true_and _).trans (decide_eq_true fun hname => hother ?_)
      exact (BashEvent.of_filename_eq (of_decide_eq_true hown) hname.symm).1

/-- A new output comes last. -/
theorem outputs_saveEventToFile (hown : event.commandId = some system.commandId)
    (hfresh : ∀ other ∈ system.outputs, other.id ≠ event.id) :
    outputs { system with events := BashEventService.saveEventToFile system.events event } =
      system.outputs ++ [event] := by
  rw [outputs, BashEventService.saveEventToFile, List.filter_append, List.filter_filter,
    List.filter_singleton, decide_eq_true hown, outputs]
  refine congrArg (· ++ [event]) (List.filter_congr fun saved hsaved => ?_)
  cases hsame : decide (saved.commandId = some system.commandId) with
  | false => exact Bool.false_and _
  | true =>
      refine (Bool.true_and _).trans (decide_eq_true fun hname => ?_)
      exact hfresh saved (mem_outputs.mpr ⟨hsaved, of_decide_eq_true hsame⟩)
        (BashEvent.of_filename_eq hown hname).2

theorem fits_query : (polling.query system.commandId).fits event =
    decide (event.commandId = some system.commandId) := by
  cases hown : decide (event.commandId = some system.commandId) with
  | false =>
      rw [BashEventQuery.fits, Bool.and_eq_false_iff]
      exact .inr hown
  | true =>
      rw [BashEventQuery.fits, Bool.and_eq_true]
      exact ⟨decide_eq_true (BashEvent.kind_of_commandId (of_decide_eq_true hown)), hown⟩

/-- What a poll is answered. -/
theorem items_query : (BashEventService.searchBashEvents system.events
      (polling.query system.commandId)).items =
    ((system.outputs.insertionSort fun event other => event.filename ≤ other.filename).take
      100).filter (polling.query system.commandId).inOrder := by
  have hfits : system.events.filter (polling.query system.commandId).fits = system.outputs :=
    List.filter_congr fun event _ => fits_query
  have hfiles : BashEventService.sortedFiles system.events (polling.query system.commandId) =
      system.outputs.insertionSort fun event other => event.filename ≤ other.filename := by
    rw [BashEventService.sortedFiles, hfits]
    exact List.filter_eq_self.mpr fun _ _ => rfl
  rw [BashEventService.searchBashEvents, hfiles]
  rfl

theorem nodup_filename (hids : (system.outputs.map BashEvent.id).Nodup) :
    (system.outputs.map BashEvent.filename).Nodup := by
  rw [List.Nodup, List.pairwise_map] at hids ⊢
  refine hids.imp_of_mem fun _ hother hne hname => hne ?_
  exact (BashEvent.of_filename_eq (mem_outputs.mp hother).2 hname).2

/-- A page without a gap has the unseen outputs, by name. -/
theorem items_of_onFirstPage (hids : (system.outputs.map BashEvent.id).Nodup)
    (hpage : (system.unseen polling).all system.onFirstPage) :
    let items := (BashEventService.searchBashEvents system.events
      (polling.query system.commandId)).items
    items ~ system.unseen polling ∧ KeySorted BashEvent.filename items := by
  have hsorted := keySorted_insertionSort (nodup_filename hids)
  have hperm := List.perm_insertionSort
    (fun event other : BashEvent => event.filename ≤ other.filename) system.outputs
  rw [items_query, hsorted.filter_take]
  · exact ⟨hperm.filter _, hsorted.filter _⟩
  intro event hevent hunseen
  have hfirst := List.all_eq_true.mp hpage event
    (List.mem_filter.mpr ⟨hperm.mem_iff.mp hevent, hunseen⟩)
  rw [onFirstPage, decide_eq_true_eq] at hfirst
  rw [hperm.countP_eq]
  exact lt_of_eq_of_lt (List.countP_congr fun other _ => by simp) hfirst

/-- Only the events with a text count. -/
theorem flatMap_filter_ne_nil (text : BashEvent → List Char) (events : List BashEvent) :
    (events.filter fun event => text event ≠ []).flatMap text = events.flatMap text := by
  induction events with
  | nil => rfl
  | cons event events ih =>
      rw [List.flatMap_cons, List.filter_cons]
      split
      · rw [List.flatMap_cons, ih]
      next hempty =>
        rw [decide_eq_true_eq, not_not] at hempty
        rw [hempty, ih, List.nil_append]

theorem flatMap_of_textsInOrder {text : BashEvent → List Char} {items events : List BashEvent}
    (hperm : items ~ events) (hsorted : KeySorted BashEvent.filename items)
    (horder : textsInOrder text events) : items.flatMap text = events.flatMap text := by
  rw [← flatMap_filter_ne_nil text items, ← flatMap_filter_ne_nil text events,
    (hsorted.filter _).eq_of_perm horder (hperm.filter _)]

end RemoteBash

/-! ## What the client knows -/

namespace CommandPolling

variable {polling : CommandPolling} {event : BashEvent} {items : List BashEvent}

/-- What the client has collected of some events. -/
structure Collects (polling : CommandPolling) (seen : List BashEvent) : Prop where
  stdout : polling.stdoutParts.flatten = seen.flatMap BashEvent.stdoutText
  stderr : polling.stderrParts.flatten = seen.flatMap BashEvent.stderrText
  exitCode : polling.exitCode = none ↔ ∀ event ∈ seen, event.exitCode = none
  lastOrder : ∀ event ∈ seen, ∀ order, event.order = some order → (order : Int) ≤ polling.lastOrder
  lastOrder_mem : polling.lastOrder = -1 ∨
    ∃ event ∈ seen, ∃ order, event.order = some order ∧ polling.lastOrder = (order : Int)
  ids : ∀ id, id ∈ polling.seenEventIds ↔ ∃ event ∈ seen, event.id = id

theorem next_eq_polling {polling' : CommandPolling} (hnext : polling.next = .polling polling') :
    polling = polling' ∧ polling.exitCode = none := by
  rw [CommandPolling.next] at hnext
  split at hnext
  next hexit =>
    cases hnext
    exact ⟨rfl, hexit⟩
  next => cases hnext

theorem next_eq_completed {result : CommandResult} (hnext : polling.next = .completed result) :
    ∃ exitCode, polling.exitCode = some exitCode ∧ polling.result exitCode = result := by
  rw [CommandPolling.next] at hnext
  split at hnext
  next => cases hnext
  next exitCode hexit =>
    cases hnext
    exact ⟨exitCode, hexit, rfl⟩

theorem next_ne_failed : polling.next ≠ .failed := by
  rw [CommandPolling.next]
  split <;> exact nofun

theorem collects_nil : Collects {} [] where
  stdout := rfl
  stderr := rfl
  exitCode := ⟨fun _ => nofun, fun _ => rfl⟩
  lastOrder := nofun
  lastOrder_mem := .inl rfl
  ids _ := ⟨nofun, nofun⟩

/-- The order of the events matters only for the texts. -/
theorem Collects.congr {seen events : List BashEvent} (hcollects : polling.Collects seen)
    (hmem : ∀ event, event ∈ seen ↔ event ∈ events)
    (hstdout : seen.flatMap BashEvent.stdoutText = events.flatMap BashEvent.stdoutText)
    (hstderr : seen.flatMap BashEvent.stderrText = events.flatMap BashEvent.stderrText) :
    polling.Collects events where
  stdout := hcollects.stdout.trans hstdout
  stderr := hcollects.stderr.trans hstderr
  exitCode := by simpa only [hmem] using hcollects.exitCode
  lastOrder := by simpa only [hmem] using hcollects.lastOrder
  lastOrder_mem := by simpa only [hmem] using hcollects.lastOrder_mem
  ids := by simpa only [hmem] using hcollects.ids

theorem flatten_addPart (parts : List (List Char)) (text : Option (List Char)) :
    (addPart parts text).flatten = parts.flatten ++ text.getD [] := by
  fun_cases addPart parts text
  · exact (List.append_nil _).symm
  · exact (List.append_nil _).symm
  · rw [List.flatten_append, List.flatten_singleton]
    rfl

theorem Collects.processEvent {seen : List BashEvent} (hcollects : polling.Collects seen)
    {output : BashOutput} (houtput : event.output = some output)
    (hfresh : ∀ other ∈ seen, other.id ≠ event.id) :
    ∃ next, polling.processEvent event = some next ∧ next.Collects (seen ++ [event]) := by
  have hid : event.id ∉ polling.seenEventIds := by
    rw [hcollects.ids]
    exact fun hold => hold.elim fun other hother => hfresh other hother.1 hother.2
  have horder : event.order = some output.order := by rw [BashEvent.order, houtput]; rfl
  rw [CommandPolling.processEvent, houtput]
  refine ⟨_, if_neg hid, ?_, ?_, ?_, ?_, ?_, ?_⟩
  · rw [flatten_addPart, hcollects.stdout, List.flatMap_append, List.flatMap_singleton,
      BashEvent.stdoutText, houtput]
    rfl
  · rw [flatten_addPart, hcollects.stderr, List.flatMap_append, List.flatMap_singleton,
      BashEvent.stderrText, houtput]
    rfl
  · rw [Option.or_eq_none_iff, hcollects.exitCode, List.forall_mem_append,
      List.forall_mem_singleton, BashEvent.exitCode, houtput, and_comm]
    rfl
  · intro other hother order hordered
    rcases List.mem_append.mp hother with hold | hnew
    · have hle := hcollects.lastOrder other hold order hordered
      dsimp only
      split <;> omega
    · rw [List.mem_singleton.mp hnew, horder] at hordered
      cases hordered
      dsimp only
      split <;> omega
  · dsimp only
    split
    · exact .inr ⟨event, List.mem_append_right _ (List.mem_singleton_self _), _, horder, rfl⟩
    · rcases hcollects.lastOrder_mem with hnone | ⟨other, hother, order, hordered, hlast⟩
      · exact .inl hnone
      · exact .inr ⟨other, List.mem_append_left _ hother, order, hordered, hlast⟩
  · intro id
    rw [List.mem_cons, hcollects.ids]
    constructor
    · rintro (rfl | ⟨other, hother, hsame⟩)
      · exact ⟨event, List.mem_append_right _ (List.mem_singleton_self _), rfl⟩
      · exact ⟨other, List.mem_append_left _ hother, hsame⟩
    · rintro ⟨other, hother, hsame⟩
      rcases List.mem_append.mp hother with hold | hnew
      · exact .inr ⟨other, hold, hsame⟩
      · rw [← List.mem_singleton.mp hnew]
        exact .inl hsame.symm

/-- A page of new events is processed as a whole. -/
theorem Collects.processPage {seen : List BashEvent} (hcollects : polling.Collects seen)
    (houtputs : ∀ event ∈ items, ∃ output, event.output = some output)
    (hids : ((seen ++ items).map BashEvent.id).Nodup) :
    ∃ next, polling.processPage items = some next ∧ next.Collects (seen ++ items) := by
  induction items generalizing polling seen with
  | nil =>
      rw [List.append_nil]
      exact ⟨polling, rfl, hcollects⟩
  | cons event items ih =>
      obtain ⟨output, houtput⟩ := houtputs event List.mem_cons_self
      have hfresh : ∀ other ∈ seen, other.id ≠ event.id := by
        rw [List.map_append, List.map_cons] at hids
        exact fun other hother hid => (List.nodup_append.mp hids).2.2 other.id
          (List.mem_map_of_mem hother) event.id List.mem_cons_self hid
      rw [List.append_cons] at hids
      obtain ⟨next, hnext, hcollects⟩ := hcollects.processEvent houtput hfresh
      obtain ⟨last, hlast, hcollects⟩ :=
        ih hcollects (fun event hevent => houtputs event (List.mem_cons_of_mem _ hevent)) hids
      rw [List.append_cons, CommandPolling.processPage, hnext]
      exact ⟨last, hlast, hcollects⟩

end CommandPolling

/-! ## Runs -/

namespace RemoteBash

variable {first : Nat} {system next : RemoteBash} {trace seen : List RemoteBashEvent}
  {polling : CommandPolling} {event : BashEvent}

/-- The outputs saved so far are numbered. -/
structure InOrder (first : Nat) (outputs : List BashEvent) : Prop where
  bounded : ∀ event ∈ outputs, ∀ order, event.order = some order → order < first + outputs.length
  increasing : outputs.Pairwise fun event later => ∀ order laterOrder,
    event.order = some order → later.order = some laterOrder → order < laterOrder
  ids : (outputs.map BashEvent.id).Nodup
  exits : outputs.Pairwise fun event _ => event.exitCode = none

/-- How far the client is. -/
structure Following (first : Nat) (trace : List RemoteBashEvent) (system : RemoteBash)
    (done pending : List BashEvent) : Prop where
  outputs : system.outputs = done ++ pending
  inOrder : InOrder first system.outputs
  saved : ∀ event, .saved event ∈ trace → event.commandId = some system.commandId →
    event ∈ system.outputs
  processed : ∀ event, .processed event ∈ trace ↔ event ∈ done
  polling : ∀ polling, system.call = .polling polling →
    polling.Collects done ∧ polling.exitCode = none
  completed : ∀ result, system.call = .completed result → pending = [] ∧
    (∃ event ∈ done, event.exitCode ≠ none) ∧
    result.stdout = done.flatMap BashEvent.stdoutText ∧
    result.stderr = done.flatMap BashEvent.stderrText
  not_failed : system.call ≠ .failed
  observed : ∀ before after, trace = before ++ .polled :: after → ∀ event,
    .saved event ∈ before → event.commandId = some system.commandId → .processed event ∈ before
  once : trace.Pairwise fun earlier later =>
    ∀ event, earlier = .processed event → later ≠ .processed event

theorem Following.delivered {done pending : List BashEvent}
    (hfollowing : Following first trace system done pending) : Delivered trace system where
  observed before after htrace event hsaved hcommand _ :=
    hfollowing.observed before after htrace event hsaved hcommand
  once := hfollowing.once
  stdout result hresult := by
    obtain ⟨hpending, -, hstdout, -⟩ := hfollowing.completed result hresult
    rw [hfollowing.outputs, hpending, List.append_nil]
    exact hstdout
  stderr result hresult := by
    obtain ⟨hpending, -, -, hstderr⟩ := hfollowing.completed result hresult
    rw [hfollowing.outputs, hpending, List.append_nil]
    exact hstderr
  not_failed := hfollowing.not_failed

theorem following_initial (first commandId : Nat) :
    Following first [] (initial commandId) [] [] where
  outputs := rfl
  inOrder := ⟨nofun, .nil, List.nodup_nil, .nil⟩
  saved := nofun
  processed _ := ⟨nofun, nofun⟩
  polling polling hpolling := by
    cases hpolling
    exact ⟨CommandPolling.collects_nil, rfl⟩
  completed := nofun
  not_failed := nofun
  observed before after htrace := by cases before <;> cases htrace
  once := .nil

/-- The search asks for what the client has not processed. -/
theorem unseen_eq {done pending : List BashEvent} (houtputs : system.outputs = done ++ pending)
    (hinOrder : InOrder first system.outputs) (hcollects : polling.Collects done) :
    system.unseen polling = pending := by
  have hnumbered : ∀ event ∈ system.outputs, ∃ order, event.order = some order := by
    intro event hevent
    obtain ⟨output, houtput⟩ := BashEvent.exists_output (mem_outputs.mp hevent).2
    exact ⟨output.order, by rw [BashEvent.order, houtput]; rfl⟩
  have hincreasing := hinOrder.increasing
  rw [houtputs] at hnumbered hincreasing
  rw [unseen, houtputs, List.filter_append]
  have hdone : done.filter (polling.query system.commandId).inOrder = [] := by
    refine List.filter_eq_nil_iff.mpr fun event hevent hinOrder => ?_
    obtain ⟨order, horder⟩ := hnumbered event (List.mem_append_left _ hevent)
    have hle := hcollects.lastOrder event hevent order horder
    have hasked : (0 : Int) ≤ polling.lastOrder := by omega
    rw [BashEventQuery.inOrder, CommandPolling.query, if_pos hasked, horder] at hinOrder
    exact of_decide_eq_true hinOrder hle
  have hpending : pending.filter (polling.query system.commandId).inOrder = pending := by
    refine List.filter_eq_self.mpr fun event hevent => ?_
    obtain ⟨order, horder⟩ := hnumbered event (List.mem_append_right _ hevent)
    rw [BashEventQuery.inOrder, CommandPolling.query, horder]
    rcases hcollects.lastOrder_mem with hnone | ⟨last, hlast, lastOrder, hlastOrder, hmax⟩
    · rw [hnone]
      rfl
    · have hlt := (List.pairwise_append.mp hincreasing).2.2 last hlast event hevent
        lastOrder order hlastOrder horder
      split
      · refine decide_eq_true fun hle => ?_
        omega
      · rfl
  rw [hdone, hpending, List.nil_append]

/-! ### Saving -/

theorem inOrder_snoc {outputs : List BashEvent} {output : BashOutput}
    (hinOrder : InOrder first outputs) (houtput : event.output = some output)
    (hnumber : output.order = first + outputs.length)
    (hfresh : ∀ other ∈ outputs, other.id ≠ event.id)
    (hexits : ∀ other ∈ outputs, other.exitCode = none) : InOrder first (outputs ++ [event]) where
  bounded other hother order horder := by
    rw [List.length_append, List.length_singleton]
    rcases List.mem_append.mp hother with hold | hnew
    · have hlt := hinOrder.bounded other hold order horder
      omega
    · rw [List.mem_singleton.mp hnew, BashEvent.order, houtput] at horder
      cases horder
      omega
  increasing := by
    refine List.pairwise_append.mpr ⟨hinOrder.increasing, List.pairwise_singleton _ _, ?_⟩
    intro other hother later hlater order laterOrder horder hlaterOrder
    rw [List.mem_singleton.mp hlater, BashEvent.order, houtput] at hlaterOrder
    cases hlaterOrder
    exact hnumber ▸ hinOrder.bounded other hother order horder
  ids := by
    rw [List.map_append, List.nodup_append]
    refine ⟨hinOrder.ids, List.nodup_singleton _, fun id hid other hother hsame => ?_⟩
    obtain ⟨old, hold, rfl⟩ := List.mem_map.mp hid
    rw [List.map_singleton, List.mem_singleton] at hother
    exact hfresh old hold (hsame.trans hother)
  exits := List.pairwise_append.mpr
    ⟨hinOrder.exits, List.pairwise_singleton _ _, fun other hother _ _ => hexits other hother⟩

/-- What is saved stays, and the client does not see it yet. -/
theorem Following.saved_snoc {done pending pending' : List BashEvent}
    (hfollowing : Following first trace system done pending)
    (houtputs : next.outputs = done ++ pending') (hinOrder : InOrder first next.outputs)
    (hcommand : next.commandId = system.commandId) (hcall : next.call = system.call)
    (hkept : ∀ event ∈ system.outputs, event ∈ next.outputs)
    (hnew : event.commandId = some system.commandId → event ∈ next.outputs)
    (hcompleted : ∀ result, system.call = .completed result → pending' = pending) :
    Following first (trace ++ [.saved event]) next done pending' where
  outputs := houtputs
  inOrder := hinOrder
  saved other hsaved hother := by
    rw [hcommand] at hother
    rcases List.mem_append.mp hsaved with hold | hlast
    · exact hkept other (hfollowing.saved other hold hother)
    · cases List.mem_singleton.mp hlast
      exact hnew hother
  processed other := by
    rw [← hfollowing.processed, List.mem_append, or_iff_left]
    exact fun hlast => by cases List.mem_singleton.mp hlast
  polling polling hpolling := hfollowing.polling polling (hcall ▸ hpolling)
  completed result hresult := by
    rw [hcall] at hresult
    rw [hcompleted result hresult]
    exact hfollowing.completed result hresult
  not_failed := hcall ▸ hfollowing.not_failed
  observed before after htrace other hsaved hother := by
    rw [hcommand] at hother
    rcases Segments.marker_cases htrace with ⟨rest, hrest⟩ | ⟨middle, -, hlast⟩
    · exact hfollowing.observed before rest hrest other hsaved hother
    · cases middle with
      | nil => cases hlast
      | cons _ middle => cases middle <;> cases hlast
  once := List.pairwise_append.mpr ⟨hfollowing.once, List.pairwise_singleton _ _,
    fun _ _ later hlater other _ hprocessed => by
      rw [List.mem_singleton.mp hlater] at hprocessed
      cases hprocessed⟩

theorem Following.save {done pending : List BashEvent}
    (hfollowing : Following first trace system done pending)
    (hdelivers : system.delivers (.save event)) (hturn : system.inTurn first event) :
    ∃ pending', Following first (trace ++ [.saved event])
      { system with events := BashEventService.saveEventToFile system.events event }
      done pending' := by
  by_cases hown : event.commandId = some system.commandId
  · have hfresh : ∀ other ∈ system.outputs, other.id ≠ event.id := fun other hother =>
      of_decide_eq_true (List.all_eq_true.mp hdelivers other hother)
    have houtputs := outputs_saveEventToFile hown hfresh
    obtain ⟨output, houtput⟩ := BashEvent.exists_output hown
    rw [inTurn, houtput, Option.all_some, decide_eq_false (not_not.mpr hown), Bool.false_or,
      Bool.and_eq_true, decide_eq_true_eq, List.all_eq_true] at hturn
    have hexits : ∀ other ∈ system.outputs, other.exitCode = none := by
      intro other hother
      obtain ⟨otherOutput, hotherOutput⟩ := BashEvent.exists_output (mem_outputs.mp hother).2
      have hboth := hturn.2 other hother
      rw [hotherOutput, Bool.and_eq_true, Option.all_some] at hboth
      rw [BashEvent.exitCode, hotherOutput]
      exact of_decide_eq_true hboth.2
    refine ⟨pending ++ [event], hfollowing.saved_snoc ?_ ?_ rfl rfl ?_ ?_ ?_⟩
    · rw [houtputs, hfollowing.outputs, List.append_assoc]
    · rw [houtputs]
      exact inOrder_snoc hfollowing.inOrder houtput hturn.1 hfresh hexits
    · rw [houtputs]
      exact fun other => List.mem_append_left _
    · rw [houtputs]
      exact fun _ => List.mem_append_right _ (List.mem_singleton_self _)
    · -- The exit code has been saved before.
      intro result hresult
      obtain ⟨-, ⟨other, hother, hexit⟩, -⟩ := hfollowing.completed result hresult
      refine absurd (hexits other ?_) hexit
      rw [hfollowing.outputs]
      exact List.mem_append_left _ hother
  · have houtputs := outputs_saveEventToFile_of_ne hown
    refine ⟨pending, hfollowing.saved_snoc ?_ ?_ rfl rfl ?_ ?_ fun _ _ => rfl⟩
    · rw [houtputs, hfollowing.outputs]
    · rw [houtputs]
      exact hfollowing.inOrder
    · rw [houtputs]
      exact fun _ => id
    · exact fun hcommand => absurd hcommand hown

/-! ### Polling -/

/-- A poll leaves the client with all that was saved, and done if that has the exit code. -/
theorem poll_collects {done pending : List BashEvent}
    (houtputs : system.outputs = done ++ pending) (hinOrder : InOrder first system.outputs)
    (hcollects : polling.Collects done) (hcall : system.call = .polling polling)
    (hdelivers : system.delivers .poll) :
    ∃ items next, items ~ pending ∧ CommandPolling.Collects next (done ++ pending) ∧
      system.poll polling = (next.next, items) := by
  have hunseen := unseen_eq houtputs hinOrder hcollects
  rw [delivers, hcall] at hdelivers
  simp only [hunseen, Bool.and_eq_true, decide_eq_true_eq] at hdelivers
  obtain ⟨⟨hpage, hstdout⟩, hstderr⟩ := hdelivers
  obtain ⟨hperm, hsorted⟩ := @items_of_onFirstPage system polling hinOrder.ids
    (hunseen.symm ▸ hpage)
  rw [hunseen] at hperm
  have hids : ((done ++ (BashEventService.searchBashEvents system.events
      (polling.query system.commandId)).items).map BashEvent.id).Nodup := by
    rw [((hperm.append_left done).map BashEvent.id).nodup_iff, ← houtputs]
    exact hinOrder.ids
  obtain ⟨next, hnext, hafter⟩ := hcollects.processPage (fun event hevent => by
    have hmem : event ∈ system.outputs :=
      houtputs ▸ List.mem_append_right _ (hperm.mem_iff.mp hevent)
    exact BashEvent.exists_output (mem_outputs.mp hmem).2) hids
  refine ⟨_, next, hperm, hafter.congr (fun event => (hperm.append_left done).mem_iff) ?_ ?_, ?_⟩
  · rw [List.flatMap_append, List.flatMap_append, flatMap_of_textsInOrder hperm hsorted hstdout]
  · rw [List.flatMap_append, List.flatMap_append, flatMap_of_textsInOrder hperm hsorted hstderr]
  · rw [RemoteBash.poll, hnext]

theorem processed_mem_page {items : List BashEvent} :
    RemoteBashEvent.processed event ∈ items.map .processed ++ [.polled] ↔ event ∈ items := by
  simp

theorem Following.poll {done pending : List BashEvent}
    (hfollowing : Following first trace system done pending)
    (hcall : system.call = .polling polling) (hdelivers : system.delivers .poll) :
    Following first (trace ++ ((system.poll polling).2.map .processed ++ [.polled]))
      { system with call := (system.poll polling).1 } (done ++ pending) [] := by
  obtain ⟨items, next, hperm, hcollects, hpoll⟩ := poll_collects hfollowing.outputs
    hfollowing.inOrder (hfollowing.polling polling hcall).1 hcall hdelivers
  rw [hpoll]
  have hids := hfollowing.inOrder.ids
  rw [hfollowing.outputs, List.map_append] at hids
  have hapart : ∀ event ∈ done, event ∉ items := fun event hdone hitem =>
    (List.nodup_append.mp hids).2.2 event.id (List.mem_map_of_mem hdone) event.id
      (List.mem_map_of_mem (hperm.mem_iff.mp hitem)) rfl
  have hnodup : items.Nodup := hperm.nodup_iff.mpr (List.nodup_append.mp hids).2.1.of_map
  exact
    { outputs := hfollowing.outputs.trans (List.append_nil _).symm
      inOrder := hfollowing.inOrder
      saved := fun event hsaved => by
        rcases List.mem_append.mp hsaved with hold | hnew
        · exact hfollowing.saved event hold
        · simp at hnew
      processed := fun event => by
        rw [List.mem_append, hfollowing.processed, processed_mem_page, hperm.mem_iff,
          List.mem_append]
      polling := fun polling' hpolling => by
        obtain ⟨rfl, hexit⟩ := CommandPolling.next_eq_polling hpolling
        exact ⟨hcollects, hexit⟩
      completed := fun result hresult => by
        obtain ⟨exitCode, hexit, rfl⟩ := CommandPolling.next_eq_completed hresult
        refine ⟨rfl, ?_, hcollects.stdout, hcollects.stderr⟩
        by_contra hnone
        push Not at hnone
        cases hexit.symm.trans (hcollects.exitCode.mpr hnone)
      not_failed := CommandPolling.next_ne_failed
      observed := fun before after htrace event hsaved hcommand => by
        rcases Segments.marker_cases htrace with ⟨rest, hrest⟩ | ⟨middle, rfl, hpage⟩
        · exact hfollowing.observed before rest hrest event hsaved hcommand
        have hmiddle : middle = items.map .processed := by
          rcases Segments.marker_cases hpage with ⟨rest, hrest⟩ | ⟨extra, rfl, hextra⟩
          · have hmem : RemoteBashEvent.polled ∈ items.map .processed := by
              rw [hrest]
              exact List.mem_append_right _ List.mem_cons_self
            simp at hmem
          · cases extra with
            | nil => exact List.append_nil _
            | cons _ extra => cases extra <;> cases hextra
        have hold : event ∈ system.outputs := by
          refine hfollowing.saved event ((List.mem_append.mp hsaved).resolve_right ?_) hcommand
          rw [hmiddle]
          simp
        rw [hfollowing.outputs] at hold
        rcases List.mem_append.mp hold with hdone | hpending
        · exact List.mem_append_left _ ((hfollowing.processed event).mpr hdone)
        · refine List.mem_append_right _ ?_
          rw [hmiddle]
          exact List.mem_map_of_mem (hperm.mem_iff.mpr hpending)
      once := by
        refine List.pairwise_append.mpr ⟨hfollowing.once, ?_, ?_⟩
        · refine List.pairwise_append.mpr ⟨?_, List.pairwise_singleton _ _, ?_⟩
          · rw [List.pairwise_map]
            refine hnodup.imp fun hne event hearlier hlater => hne ?_
            cases hearlier
            cases hlater
            rfl
          · intro _ _ later hlater event _ hprocessed
            rw [List.mem_singleton.mp hlater] at hprocessed
            cases hprocessed
        · intro earlier hearlier later hlater event rfl hprocessed
          rw [hprocessed, processed_mem_page] at hlater
          exact hapart event ((hfollowing.processed event).mp hearlier) hlater }

theorem Following.step {done pending : List BashEvent} {move : RemoteBashStep}
    (hfollowing : Following first trace system done pending) (hdelivers : system.delivers move)
    (hstep : system.step first move = some (next, seen)) :
    ∃ done pending, Following first (trace ++ seen) next done pending := by
  cases move with
  | save event =>
      rw [RemoteBash.step, Option.ite_none_right_eq_some] at hstep
      obtain ⟨hturn, hstep⟩ := hstep
      cases hstep
      exact ⟨done, hfollowing.save hdelivers hturn⟩
  | poll =>
      rw [RemoteBash.step] at hstep
      split at hstep
      next polling hcall =>
        cases hstep
        exact ⟨_, _, hfollowing.poll hcall hdelivers⟩
      next => cases hstep
  | timeout =>
      rw [RemoteBash.step] at hstep
      split at hstep
      next polling hcall =>
        cases hstep
        rw [List.append_nil]
        exact ⟨done, pending,
          { hfollowing with polling := nofun, completed := nofun, not_failed := nofun }⟩
      next => cases hstep

/-- In a run in which outputs have ids of their own, and in which each poll finds the new
outputs of either stream on the first page and in order, the outputs are delivered. -/
theorem delivered_of_runs (first commandId : Nat)
    (hruns : ((transitions first).restrict delivers).Runs (initial commandId) trace system) :
    Delivered trace system := by
  obtain ⟨done, pending, hfollowing⟩ :
      ∃ done pending, Following first trace system done pending :=
    hruns.invariant_restrict (fun trace system => ∃ done pending,
        Following first trace system done pending) ⟨_, _, following_initial first commandId⟩
      fun _ _ _ _ _ hfollowing hdelivers hstep => by
        obtain ⟨done, pending, hfollowing⟩ := hfollowing
        exact hfollowing.step hdelivers hstep
  exact hfollowing.delivered

/-- An output of command 7. -/
def sampleOutput (timestamp id order : Nat) (exitCode : Option Int) (stdout : String) :
    BashEvent where
  timestamp := timestamp
  id := id
  body := .bashOutput 7
    { order := order, exitCode := exitCode, stdout := some stdout.toList, stderr := none }

/-- Two outputs of one second, each seen by a poll of its own. -/
def twoPolls : List RemoteBashEvent :=
  [.saved (sampleOutput 1 9 0 none "a"), .processed (sampleOutput 1 9 0 none "a"), .polled,
    .saved (sampleOutput 1 3 1 (some 0) "b"), .processed (sampleOutput 1 3 1 (some 0) "b"),
    .polled]

theorem delivered_twoPolls : ∃ system, Delivered twoPolls system := by
  obtain ⟨system, hruns⟩ := @TransitionSystem.Runs.exists_of_run _ _ _
    ((transitions 0).restrict delivers) (initial 7)
    [.save (sampleOutput 1 9 0 none "a"), .poll, .save (sampleOutput 1 3 1 (some 0) "b"), .poll]
    twoPolls (by decide +kernel)
  exact ⟨system, delivered_of_runs 0 7 hruns⟩

/-- Two outputs of one second, of which the later one has the smaller id. -/
theorem not_delivered_of_same_second :
    ¬ ∀ (first commandId : Nat) (trace : List RemoteBashEvent) (system : RemoteBash),
      (transitions first).Runs (initial commandId) trace system → Delivered trace system := by
  intro hall
  have hruns := @TransitionSystem.Runs.of_run _ _ _ (transitions 0) (initial 7)
    [.save (sampleOutput 1 9 0 none "a"), .save (sampleOutput 1 3 1 (some 0) "b"), .poll]
    _ _ rfl
  have hstdout := (hall 0 7 _ _ hruns).stdout
    { exitCode := 0, stdout := ['b', 'a'], stderr := [] } rfl
  revert hstdout
  decide

end RemoteBash

end ShuttleFlow
