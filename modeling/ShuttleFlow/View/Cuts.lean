import ShuttleFlow.Library.Segments
import ShuttleFlow.View.View

/-! # Cutting a view at its manipulation indices

The index scans look at the view alone, the enforcements compare it with the
log. They agree because a tool loop of the log is a contiguous segment of every
view that has all of it, and no manipulation index splits that segment.
-/

namespace ShuttleFlow

open scoped List
open Segments (Splits outside)

/-! ## Pending tool calls -/

namespace ToolCallMatching

theorem pendingAfter_append (pending : Finset ToolCallID)
    (first second : List LLMConvertibleEvent) :
    pendingAfter pending (first ++ second) =
      (pendingAfter pending first).bind (pendingAfter · second) := by
  simp [pendingAfter, List.foldlM_append, Option.bind_eq_bind]

/-- The pending calls are those made and not yet observed. Every observation
answers a call made before it. -/
theorem pendingAfter_eq_some {pending final : Finset ToolCallID}
    {events : List LLMConvertibleEvent} (hfinal : pendingAfter pending events = some final)
    (hnodup : (actionToolCalls events).Nodup)
    (hfresh : ∀ id ∈ pending, id ∉ actionToolCalls events) :
    (∀ id, id ∈ final ↔
      (id ∈ pending ∨ id ∈ actionToolCalls events) ∧ id ∉ observationToolCalls events) ∧
    ∀ id ∈ observationToolCalls events, id ∈ pending ∨ id ∈ actionToolCalls events := by
  induction events generalizing pending with
  | nil =>
      obtain rfl := Option.some.inj hfinal
      simp
  | cons event rest ih =>
      rw [pendingAfter_cons] at hfinal
      cases event with
      | action action =>
          have hcalls : actionToolCalls (.action action :: rest) =
            action.toolCallId :: actionToolCalls rest := rfl
          have hseen : observationToolCalls (.action action :: rest) =
            observationToolCalls rest := rfl
          rw [hcalls, List.nodup_cons] at hnodup
          simp only [hcalls, List.mem_cons, not_or] at hfresh
          have hrest := ih hfinal hnodup.2 (by
            intro id hid
            rcases Finset.mem_insert.mp hid with rfl | hid
            · exact hnodup.1
            · exact (hfresh id hid).2)
          rw [hcalls, hseen]
          simp only [Finset.mem_insert, List.mem_cons] at hrest ⊢
          grind
      | observation observation =>
          have hcalls : actionToolCalls (.observation observation :: rest) =
            actionToolCalls rest := rfl
          have hseen : observationToolCalls (.observation observation :: rest) =
            observation.toolCallId :: observationToolCalls rest := rfl
          rw [pendingStep] at hfinal
          split at hfinal
          next hpending =>
            rw [hcalls] at hnodup hfresh ⊢
            have hrest := ih hfinal hnodup fun id hid => hfresh id (Finset.mem_of_mem_erase hid)
            have hnew := hfresh _ hpending
            rw [hseen]
            simp only [Finset.mem_erase, List.mem_cons] at hrest ⊢
            grind
          next => cases hfinal
      | systemPrompt event => exact ih hfinal hnodup hfresh
      | message event => exact ih hfinal hnodup hfresh
      | condensationSummary event => exact ih hfinal hnodup hfresh

/-- The scan does not raise when each call is made once and each observation
is the first one that follows its call. -/
theorem exists_pendingAfter {events : List LLMConvertibleEvent}
    (hactions : (actionToolCalls events).Nodup)
    (hobservations : (observationToolCalls events).Nodup)
    (hobserved : ∀ before observation after, events = before ++ .observation observation :: after →
      observation.toolCallId ∈ actionToolCalls before) :
    ∃ final, pendingAfter ∅ events = some final := by
  induction events using List.reverseRecOn with
  | nil => exact ⟨∅, rfl⟩
  | append_singleton events last ih =>
      rw [actionToolCalls_append, List.nodup_append] at hactions
      rw [observationToolCalls_append, List.nodup_append] at hobservations
      obtain ⟨pending, hpending⟩ := ih hactions.1 hobservations.1
        fun before observation after hsplit =>
          hobserved before observation (after ++ [last]) (by simp [hsplit])
      rw [pendingAfter_append, hpending, Option.bind_some]
      cases last with
      | observation observation =>
          have hmade := hobserved events observation [] rfl
          have hunseen : observation.toolCallId ∉ observationToolCalls events :=
            fun hseen => hobservations.2.2 _ hseen observation.toolCallId (by simp) rfl
          have hmem : observation.toolCallId ∈ pending :=
            ((pendingAfter_eq_some hpending hactions.1 (by simp)).1 _).mpr
              ⟨.inr hmade, hunseen⟩
          exact ⟨pending.erase observation.toolCallId, by
            simp [pendingAfter_cons, pendingStep, hmem]⟩
      | action action => exact ⟨_, rfl⟩
      | systemPrompt event => exact ⟨_, rfl⟩
      | message event => exact ⟨_, rfl⟩
      | condensationSummary event => exact ⟨_, rfl⟩

/-- Where the scan does not raise, every observation follows its call. -/
theorem observed_of_pendingAfter {events before after : List LLMConvertibleEvent}
    {final : Finset ToolCallID} (hfinal : pendingAfter ∅ events = some final)
    (hactions : (actionToolCalls events).Nodup) {observation : ObservationBaseEvent}
    (hsplit : events = before ++ .observation observation :: after) :
    observation.toolCallId ∈ actionToolCalls before := by
  subst hsplit
  rw [pendingAfter_append] at hfinal
  obtain ⟨pending, hbefore, hrest⟩ := Option.bind_eq_some_iff.mp hfinal
  rw [pendingAfter_cons, pendingStep] at hrest
  rw [actionToolCalls_append] at hactions
  split at hrest
  next hmem =>
    have hspec := (pendingAfter_eq_some hbefore (List.nodup_append.mp hactions).1 (by simp)).1
    exact ((hspec _).mp hmem).1.resolve_left (Finset.notMem_empty _)
  next => cases hrest

end ToolCallMatching

/-! ## Cuts -/

/-- The view with the events between two indices replaced by a summary. -/
def replaceWithSummary (events : List LLMConvertibleEvent) (first last : Nat)
    (summary : CondensationSummaryEvent) : List LLMConvertibleEvent :=
  events.take first ++ [.condensationSummary summary] ++ events.drop last

theorem mem_replaceWithSummary {events : List LLMConvertibleEvent} {first last : Nat}
    {summary : CondensationSummaryEvent} {event : LLMConvertibleEvent} :
    event ∈ replaceWithSummary events first last summary ↔
      event = .condensationSummary summary ∨ event ∈ outside events first last := by
  simp only [replaceWithSummary, outside, List.mem_append, List.mem_singleton]
  tauto

@[simp] theorem actionToolCalls_replaceWithSummary (events : List LLMConvertibleEvent)
    (first last : Nat) (summary : CondensationSummaryEvent) :
    actionToolCalls (replaceWithSummary events first last summary) =
      actionToolCalls (outside events first last) := by
  simp only [replaceWithSummary, outside, actionToolCalls_append]
  exact congrArg (· ++ _) (List.append_nil _)

@[simp] theorem observationToolCalls_replaceWithSummary (events : List LLMConvertibleEvent)
    (first last : Nat) (summary : CondensationSummaryEvent) :
    observationToolCalls (replaceWithSummary events first last summary) =
      observationToolCalls (outside events first last) := by
  simp only [replaceWithSummary, outside, observationToolCalls_append]
  exact congrArg (· ++ _) (List.append_nil _)

theorem ObservationUniqueness.enforce_replaceWithSummary {events : List LLMConvertibleEvent}
    {allEvents : List Event} {first last : Nat} (hle : first ≤ last)
    (hunique : enforce events allEvents = ∅) (summary : CondensationSummaryEvent) :
    enforce (replaceWithSummary events first last summary) allEvents = ∅ := by
  rw [enforce_eq_empty_iff] at hunique ⊢
  rw [observationToolCalls_replaceWithSummary]
  exact hunique.sublist (observationToolCalls_sublist (Segments.outside_sublist hle))

/-- When no call is pending at either index, both parts of the view are matched
on their own. -/
theorem ToolCallMatching.enforce_replaceWithSummary {events : List LLMConvertibleEvent}
    {allEvents : List Event} {first last : Nat} (hactions : (actionToolCalls events).Nodup)
    (hobservations : (observationToolCalls events).Nodup)
    (hmatched : enforce events allEvents = ∅)
    (hfirst : pendingAfter ∅ (events.take first) = some ∅)
    (hlast : pendingAfter ∅ (events.take last) = some ∅) (summary : CondensationSummaryEvent) :
    enforce (replaceWithSummary events first last summary) allEvents = ∅ := by
  rw [enforce_eq_empty_iff] at hmatched ⊢
  have hclosed : ∀ index, pendingAfter ∅ (events.take index) = some ∅ → ∀ id,
      id ∈ actionToolCalls (events.take index) ↔
        id ∈ observationToolCalls (events.take index) := by
    intro index hindex id
    obtain ⟨hpending, hmade⟩ := pendingAfter_eq_some hindex
      (hactions.sublist (actionToolCalls_sublist (List.take_sublist _ _))) (by simp)
    have hnot := hpending id
    have hown := hmade id
    simp only [Finset.notMem_empty, false_iff, false_or, not_and, not_not] at hnot hown
    exact ⟨hnot, hown⟩
  have hbefore := hclosed first hfirst
  have hupto := hclosed last hlast
  rw [← List.take_append_drop last events, actionToolCalls_append, List.nodup_append] at hactions
  rw [← List.take_append_drop last events, observationToolCalls_append,
    List.nodup_append] at hobservations
  intro id
  simp only [actionToolCalls_replaceWithSummary, observationToolCalls_replaceWithSummary, outside,
    actionToolCalls_append, observationToolCalls_append, List.mem_append, hbefore id]
  refine or_congr Iff.rfl ?_
  -- past the second index, a partner on the other side would repeat a tool call
  have hwhole := hmatched id
  rw [← List.take_append_drop last events, actionToolCalls_append, observationToolCalls_append,
    List.mem_append, List.mem_append] at hwhole
  constructor
  · intro hafter
    refine (hwhole.mp (.inr hafter)).resolve_left fun hseen => ?_
    exact hactions.2.2 id ((hupto id).mpr hseen) id hafter rfl
  · intro hafter
    refine (hwhole.mpr (.inr hafter)).resolve_left fun hmade => ?_
    exact hobservations.2.2 id ((hupto id).mp hmade) id hafter rfl

/-! ## Views of a log -/

def LLMConvertibleEvent.isSummary : LLMConvertibleEvent → Bool
  | condensationSummary _ => true
  | _ => false

/-- The events of a view that come from the log. -/
def logged (events : List LLMConvertibleEvent) : List LLMConvertibleEvent :=
  events.filter fun event => !event.isSummary

@[simp] theorem logged_append (first second : List LLMConvertibleEvent) :
    logged (first ++ second) = logged first ++ logged second :=
  List.filter_append ..

@[simp] theorem logged_summary (summary : CondensationSummaryEvent) :
    logged [.condensationSummary summary] = [] := rfl

theorem convertibles_nodup {events : List Event} (hids : (events.map Event.id).Nodup) :
    (convertibles events).Nodup := by
  refine (List.Nodup.of_map _ hids).filterMap fun first second event hfirst hsecond => ?_
  rw [Option.mem_def, asConvertible_eq_some] at hfirst hsecond
  exact hfirst.trans hsecond.symm

/-- A summary shares its id with no other event of the log. -/
def FreshSummary (allEvents : List Event) (summary : CondensationSummaryEvent) : Prop :=
  ∀ event ∈ allEvents, event.id = summary.id →
    event = .convertible (.condensationSummary summary)

/-- Events of a log, in log order, interleaved with summaries that lie inside
no tool loop, on which the pairing properties have nothing to enforce. -/
structure PairedView (allEvents : List Event) (events : List LLMConvertibleEvent) : Prop where
  ids : (allEvents.map Event.id).Nodup
  logged : logged events <+ convertibles allEvents
  summaries : ∀ summary, .condensationSummary summary ∈ events → FreshSummary allEvents summary
  outsideLoops : ∀ before summary after, events = before ++ .condensationSummary summary :: after →
    ∀ toolLoop ∈ ToolLoopAtomicity.toolLoops allEvents,
      (∃ event ∈ before, event.id ∈ toolLoop) → ∀ event ∈ after, event.id ∉ toolLoop
  calls : (actionToolCalls events).Nodup
  observed : ∀ before observation after, events = before ++ .observation observation :: after →
    observation.toolCallId ∈ actionToolCalls before
  unique : ObservationUniqueness.enforce events allEvents = ∅
  matched : ToolCallMatching.enforce events allEvents = ∅
  loops : ToolLoopAtomicity.enforce events allEvents = ∅

namespace ToolLoopAtomicity

/-- Nothing but convertible events takes part in a tool loop. -/
theorem IsToolLoop.eq_map_convertibles {events loop : List Event}
    (hloop : IsToolLoop events loop) : loop = (convertibles loop).map .convertible := by
  have hall : ∀ event ∈ loop, event.loopRole ≠ .leaves := by
    obtain ⟨-, start, body, rfl, hstart, hbody⟩ := hloop
    intro event hevent
    rcases List.mem_cons.mp hevent with rfl | hevent
    · simp [hstart]
    · simp [hbody event hevent]
  clear hloop
  induction loop with
  | nil => rfl
  | cons event rest ih =>
      have hrest := ih fun other hother => hall other (.tail _ hother)
      cases event with
      | convertible event =>
          rw [convertibles_cons_convertible, List.map_cons, ← hrest]
      | condensation _ => exact absurd rfl (hall _ List.mem_cons_self)
      | condensationRequest _ => exact absurd rfl (hall _ List.mem_cons_self)
      | internal _ _ => exact absurd rfl (hall _ List.mem_cons_self)

theorem IsToolLoop.stretch {events loop : List Event} (hloop : IsToolLoop events loop) :
    convertibles loop <:+: convertibles events := by
  obtain ⟨⟨before, after, rfl, -⟩, -⟩ := hloop
  exact ⟨convertibles before, convertibles after, by simp⟩

theorem IsToolLoop.mem {events loop : List Event} (hloop : IsToolLoop events loop)
    {event : Event} (hevent : event ∈ loop) : event ∈ events := by
  obtain ⟨⟨before, after, rfl, -⟩, -⟩ := hloop
  simp [hevent]

/-- The shape of a tool loop, as events of a view. -/
theorem IsToolLoop.shape_convertibles {events loop : List Event}
    (hloop : IsToolLoop events loop) :
    ∃ start body, convertibles loop = start :: body ∧ start.loopRole = .starts ∧
      ∀ event ∈ body, event.loopRole = .stays := by
  have hmap := hloop.eq_map_convertibles
  obtain ⟨-, start, body, rfl, hstart, hbody⟩ := hloop
  cases start with
  | convertible start =>
      refine ⟨start, convertibles body, rfl, hstart, fun event hevent => ?_⟩
      exact hbody (.convertible event) (mem_convertibles.mp hevent)
  | _ => cases hstart

theorem IsToolLoop.isSummary_eq_false {events loop : List Event}
    (hloop : IsToolLoop events loop) {event : LLMConvertibleEvent}
    (hevent : event ∈ convertibles loop) : (!event.isSummary) = true := by
  obtain ⟨start, body, hshape, hstart, hbody⟩ := hloop.shape_convertibles
  rw [hshape, List.mem_cons] at hevent
  cases event with
  | condensationSummary summary =>
      rcases hevent with rfl | hevent
      · cases hstart
      · cases hbody _ hevent
  | _ => rfl

theorem IsToolLoop.summary_notMem {events loop : List Event} (hloop : IsToolLoop events loop)
    {summary : CondensationSummaryEvent} (hfresh : FreshSummary events summary) :
    summary.id ∉ eventIds loop := by
  intro hid
  obtain ⟨member, hmember, heq⟩ := mem_eventIds.mp hid
  obtain rfl := hfresh member (hloop.mem hmember) heq
  obtain ⟨-, start, body, rfl, hstart, hbody⟩ := hloop
  rcases List.mem_cons.mp hmember with rfl | hmember
  · cases hstart
  · cases hbody _ hmember

/-- The scan is inside a tool loop at every position that splits it. -/
theorem not_splits {events : List LLMConvertibleEvent} {segment : List LLMConvertibleEvent}
    {indices : ManipulationIndices} (hindices : manipulationIndices events = some indices)
    {index : Nat} (hindex : index ∈ indices)
    (hshape : ∃ start body, segment = start :: body ∧ start.loopRole = .starts ∧
      ∀ event ∈ body, event.loopRole = .stays) : ¬Splits events segment index := by
  rintro ⟨before, after, rfl, hlow, hhigh⟩
  obtain ⟨start, body, rfl, hstart, hbody⟩ := hshape
  obtain ⟨offset, rfl⟩ : ∃ offset, index = before.length + (offset + 1) :=
    ⟨index - before.length - 1, by omega⟩
  have hoffset : offset < body.length := by simpa using hhigh
  refine ((mem_manipulationIndices hindices).mp hindex).2
    ⟨body[offset], ?_, hbody _ (List.getElem_mem _), ?_⟩
  · simp [List.getElem?_append, hoffset]
  · have htake : (before ++ start :: body ++ after).take (before.length + (offset + 1)) =
        before ++ start :: body.take offset := by
      simp [List.take_append, Nat.sub_eq_zero_of_le hoffset.le]
    have hstays : ∀ events : List LLMConvertibleEvent,
        (∀ event ∈ events, event.loopRole = .stays) → inToolLoopAfter true events = true := by
      intro events hall
      induction events with
      | nil => rfl
      | cons event rest ih =>
          rw [inToolLoopAfter, List.foldl_cons, loopStep, hall event List.mem_cons_self]
          exact ih fun other hother => hall other (.tail _ hother)
    rw [htake, inToolLoopAfter_append, inToolLoopAfter, List.foldl_cons, loopStep, hstart]
    exact hstays _ fun event hevent => hbody event (List.mem_of_mem_take hevent)

end ToolLoopAtomicity

namespace PairedView

variable {allEvents : List Event} {events : List LLMConvertibleEvent}

theorem mem_log (hview : PairedView allEvents events) {event : LLMConvertibleEvent}
    (hevent : event ∈ ShuttleFlow.logged events) : .convertible event ∈ allEvents :=
  mem_convertibles.mp (hview.logged.subset hevent)

/-- An event of the view with the id of an event of a tool loop is that event. -/
theorem mem_loop_of_id (hview : PairedView allEvents events) {loop : List Event}
    (hloop : ToolLoopAtomicity.IsToolLoop allEvents loop) {event : LLMConvertibleEvent}
    (hevent : event ∈ events) (hid : event.id ∈ eventIds loop) :
    event ∈ convertibles loop ∧ event ∈ ShuttleFlow.logged events := by
  have hlogged : event ∈ ShuttleFlow.logged events := by
    refine List.mem_filter.mpr ⟨hevent, ?_⟩
    cases event with
    | condensationSummary summary =>
        exact absurd hid (hloop.summary_notMem (hview.summaries summary hevent))
    | _ => rfl
  obtain ⟨member, hmember, heq⟩ := mem_eventIds.mp hid
  obtain rfl : member = .convertible event :=
    List.inj_on_of_nodup_map hview.ids (hloop.mem hmember) (hview.mem_log hlogged) heq
  exact ⟨mem_convertibles.mpr hmember, hlogged⟩

theorem logged_nodup (hview : PairedView allEvents events) :
    (ShuttleFlow.logged events).Nodup :=
  (convertibles_nodup hview.ids).sublist hview.logged

/-- A tool loop with a member in the view is a segment of the view. -/
theorem loop_infix (hview : PairedView allEvents events) {loop : List Event}
    (hloop : ToolLoopAtomicity.IsToolLoop allEvents loop) {event : LLMConvertibleEvent}
    (hevent : event ∈ events) (hid : event.id ∈ eventIds loop) :
    convertibles loop <:+: events := by
  have hmem := ToolLoopAtomicity.mem_toolLoops.mpr ⟨loop, hloop, rfl⟩
  have hwhole := (ToolLoopAtomicity.enforce_eq_empty_iff hview.ids).mp hview.loops _ hmem _ hid
    (mem_viewEventIds.mpr ⟨event, hevent, rfl⟩)
  have hids : ∀ member ∈ convertibles loop, member.id ∈ eventIds loop := fun member hmember =>
    mem_eventIds.mpr ⟨.convertible member, mem_convertibles.mp hmember, rfl⟩
  refine Segments.infix_of_filter_sublist (convertibles_nodup hview.ids) hview.logged
    hloop.stretch ?_ ?_
  · intro member hmember
    obtain ⟨found, hfound, heq⟩ := mem_viewEventIds.mp (hwhole (hids member hmember))
    obtain ⟨hin, hlogged⟩ := hview.mem_loop_of_id hloop hfound (heq ▸ hids member hmember)
    obtain rfl : found = member := by
      refine Event.convertible.inj (List.inj_on_of_nodup_map hview.ids ?_ ?_ heq)
      · exact hloop.mem (mem_convertibles.mp hin)
      · exact hloop.mem (mem_convertibles.mp hmember)
    exact hlogged
  · rintro before item after hsplit ⟨earlier, hearlier, hin⟩ ⟨later, hlater, hin'⟩
    cases item with
    | condensationSummary summary =>
        exact absurd (hids later hin')
          (hview.outsideLoops before summary after hsplit _ hmem
            ⟨earlier, hearlier, hids earlier hin⟩ later hlater)
    | _ => rfl

end PairedView

namespace View

/-- Where the view is paired, its manipulation indices exist, and replacing the
events between two of them by a summary leaves nothing to enforce. -/
theorem manipulationIndices_sound {allEvents : List Event} {view : View}
    (hview : PairedView allEvents view.events) :
    ∃ indices, view.manipulationIndices = some indices ∧
      ∀ first ∈ indices, ∀ last ∈ indices, first ≤ last →
        ∀ summary, FreshSummary allEvents summary →
          let events := replaceWithSummary view.events first last summary
          ObservationUniqueness.enforce events allEvents = ∅ ∧
            ToolCallMatching.enforce events allEvents = ∅ ∧
            ToolLoopAtomicity.enforce events allEvents = ∅ := by
  have hobservations := ObservationUniqueness.enforce_eq_empty_iff.mp hview.unique
  obtain ⟨final, hfinal⟩ :=
    ToolCallMatching.exists_pendingAfter hview.calls hobservations hview.observed
  obtain ⟨matching, hmatching⟩ := ToolCallMatching.exists_manipulationIndices hfinal
  obtain ⟨indices, hindices⟩ := exists_manipulationIndices hmatching
  refine ⟨indices, hindices, ?_⟩
  obtain ⟨matching', hmatching', hmem⟩ := mem_manipulationIndices hindices
  obtain rfl : matching = matching' := by simpa [hmatching] using hmatching'
  intro first hfirst last hlast hle summary hsummary events
  have hfirst' := (hmem first).mp hfirst
  have hlast' := (hmem last).mp hlast
  refine ⟨ObservationUniqueness.enforce_replaceWithSummary hle hview.unique summary, ?_, ?_⟩
  · have hspec := ToolCallMatching.manipulationIndices_eq_some hmatching
    exact ToolCallMatching.enforce_replaceWithSummary hview.calls hobservations hview.matched
      ((hspec first).mp hfirst'.2.1).2 ((hspec last).mp hlast'.2.1).2 summary
  · rw [ToolLoopAtomicity.enforce_eq_empty_iff hview.ids]
    intro toolLoop htoolLoop id hid hkept
    obtain ⟨loop, hloop, rfl⟩ := ToolLoopAtomicity.mem_toolLoops.mp htoolLoop
    obtain ⟨event, hevent, rfl⟩ := mem_viewEventIds.mp hkept
    rcases mem_replaceWithSummary.mp hevent with rfl | houtside
    · exact absurd hid (hloop.summary_notMem hsummary)
    · have hin := Segments.mem_of_mem_outside houtside
      have hunsplit : ∀ index ∈ indices, ¬Splits view.events (convertibles loop) index := by
        intro index hindex
        have hinside := ((hmem index).mp hindex).2.2
        refine ToolLoopAtomicity.not_splits rfl ?_ hloop.shape_convertibles
        exact Finset.mem_sdiff.mpr ⟨ManipulationIndices.mem_complete.mpr hinside.2, hinside.1⟩
      have hsegment := Segments.subset_outside hview.logged_nodup
        (fun member hmember => hloop.isSummary_eq_false hmember) (hview.loop_infix hloop hin hid)
        (hunsplit first hfirst) (hunsplit last hlast) (hview.mem_loop_of_id hloop hin hid).1
        houtside
      intro other hother
      obtain ⟨member, hmember, rfl⟩ := mem_eventIds.mp hother
      rw [hloop.eq_map_convertibles] at hmember
      obtain ⟨found, hfound, rfl⟩ := List.mem_map.mp hmember
      exact mem_viewEventIds.mpr
        ⟨found, mem_replaceWithSummary.mpr (.inr (hsegment hfound)), rfl⟩

namespace Example

def summary : CondensationSummaryEvent := ⟨"c-summary", "summary"⟩

/-- A tool loop of two calls after a message. -/
def loop : List LLMConvertibleEvent :=
  [.action (Sample.action "a1" "r1" "t1" (some .other) [Sample.thinkingBlock]),
    .observation (Sample.observation "o1" "t1" "a1"),
    .action (Sample.action "a2" "r2" "t2" (some .other) []),
    .observation (Sample.observation "o2" "t2" "a2")]

def log : List Event := (Sample.message "m" :: loop).map .convertible

/-- The message has been summarized. -/
def view : View := { events := .condensationSummary summary :: loop }

end Example

open Example in
theorem pairedView_example : PairedView log view.events where
  ids := by decide
  logged := List.sublist_cons_self _ _
  summaries := by
    intro other hother event hevent heq
    simp only [view, loop, Example.summary, List.mem_cons,
      LLMConvertibleEvent.condensationSummary.injEq, reduceCtorEq, List.not_mem_nil,
      or_false] at hother
    subst hother
    revert event
    decide
  outsideLoops := by
    rintro before other after hsplit toolLoop - ⟨event, hevent, -⟩
    cases before with
    | nil => cases hevent
    | cons first before =>
        have hmem : LLMConvertibleEvent.condensationSummary other ∈ loop := by
          rw [(List.cons.inj hsplit).2]
          simp
        simp [loop] at hmem
  calls := by decide
  observed := fun _ _ _ hsplit =>
    @ToolCallMatching.observed_of_pendingAfter _ _ _ ∅ (by decide) (by decide) _ hsplit
  unique := by decide
  matched := by decide
  loops := by decide

open Example in
theorem manipulationIndices_sound_loop :
    ∃ indices, view.manipulationIndices = some indices ∧
      ∀ first ∈ indices, ∀ last ∈ indices, first ≤ last →
        ∀ summary, FreshSummary log summary →
          let events := replaceWithSummary view.events first last summary
          ObservationUniqueness.enforce events log = ∅ ∧
            ToolCallMatching.enforce events log = ∅ ∧
            ToolLoopAtomicity.enforce events log = ∅ :=
  manipulationIndices_sound pairedView_example

end View

end ShuttleFlow
