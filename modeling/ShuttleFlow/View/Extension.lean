import ShuttleFlow.View.Replay

/-! # Views of a log that grows by answered calls

Calls appended together with their observations are shown after everything else,
unless they continue a tool loop that the view has lost. Then none of them is.
-/

namespace ShuttleFlow

open scoped List
open ToolLoopAtomicity (IsToolLoop Continues)

/-! ## Tool loops of a longer log -/

namespace ToolLoopAtomicity

theorem exists_continues (events : List Event) : ∃ body, Continues events body := by
  induction events with
  | nil => exact ⟨[], [], rfl, by simp, by simp⟩
  | cons event events ih =>
      by_cases hrole : event.loopRole = .stays
      · obtain ⟨body, hbody⟩ := ih
        exact ⟨event :: body, Continues.cons_iff.mpr (.inr ⟨hrole, body, rfl, hbody⟩)⟩
      · exact ⟨[], Continues.cons_iff.mpr (.inl ⟨hrole, rfl⟩)⟩

variable {log added loop : List Event}

/-- A loop at the end of the log goes on with what is added. -/
theorem IsToolLoop.extends (hloop : IsToolLoop log loop) (hend : loop <:+ log)
    {body : List Event} (hbody : Continues added body) :
    IsToolLoop (log ++ added) (loop ++ body) := by
  obtain ⟨before, rfl⟩ := hend
  obtain ⟨-, start, inner, rfl, hstart, hinner⟩ := hloop
  obtain ⟨after, rfl, hstays, hafter⟩ := hbody
  refine ⟨⟨before, after, by simp, hafter⟩, start, inner ++ body, rfl, hstart, ?_⟩
  intro event hevent
  rcases List.mem_append.mp hevent with hevent | hevent
  · exact hinner event hevent
  · exact hstays event hevent

/-- Every loop of the log is part of a loop of the longer log. -/
theorem IsToolLoop.exists_extends (hloop : IsToolLoop log loop) (added : List Event) :
    ∃ body, IsToolLoop (log ++ added) (loop ++ body) := by
  obtain ⟨⟨before, after, hsplit, hafter⟩, hshape⟩ := hloop
  cases after with
  | nil =>
      obtain ⟨body, hbody⟩ := exists_continues added
      rw [List.append_nil] at hsplit
      exact ⟨body, IsToolLoop.extends ⟨⟨before, [], by simpa using hsplit, by simp⟩, hshape⟩
        ⟨before, hsplit.symm⟩ hbody⟩
  | cons event after =>
      refine ⟨[], ⟨before, event :: after ++ added, by simp [hsplit], ?_⟩, by simpa using hshape⟩
      simpa using hafter

/-- A loop of the longer log lies on one side, or continues the loop at the end
of the log. -/
theorem isToolLoop_append (hloop : IsToolLoop (log ++ added) loop) :
    IsToolLoop log loop ∨ IsToolLoop added loop ∨ ∃ first second, loop = first ++ second ∧
      IsToolLoop log first ∧ first <:+ log ∧ second ≠ [] ∧ Continues added second := by
  obtain ⟨⟨before, after, hsplit, hafter⟩, start, body, rfl, hstart, hbody⟩ := hloop
  have hshape : ∃ first inner, start :: body = first :: inner ∧ first.loopRole = .starts ∧
      ∀ event ∈ inner, event.loopRole = .stays := ⟨start, body, rfl, hstart, hbody⟩
  rcases List.append_eq_append_iff.mp hsplit.symm with ⟨rest, hlog, rfl⟩ | ⟨second, hlog, rfl⟩
  · refine .inl ⟨⟨before, rest, hlog, fun event hevent => hafter event ?_⟩, hshape⟩
    rw [List.head?_append, hevent, Option.some_or]
    rfl
  · rcases List.append_eq_append_iff.mp hlog with ⟨first, rfl, hparts⟩ | ⟨front, rfl, rfl⟩
    · cases first with
      | nil => exact .inr (.inl ⟨⟨[], after, by rw [hparts]; rfl, hafter⟩, hshape⟩)
      | cons head inner =>
          obtain ⟨rfl, rfl⟩ := List.cons.inj hparts
          have hopen : IsToolLoop (before ++ start :: inner) (start :: inner) :=
            ⟨⟨before, [], by simp, by simp⟩, start, inner, rfl, hstart,
              fun event hevent => hbody event (List.mem_append_left _ hevent)⟩
          by_cases hsecond : second = []
          · subst hsecond
            exact .inl (by simpa using hopen)
          · exact .inr (.inr ⟨start :: inner, second, rfl, hopen, List.suffix_append _ _, hsecond,
              after, rfl, fun event hevent => hbody event (List.mem_append_right _ hevent),
              hafter⟩)
    · exact .inr (.inl ⟨⟨front, after, by simp, hafter⟩, hshape⟩)

/-- A log ends inside one tool loop at most. -/
theorem IsToolLoop.unique_suffix {other : List Event} (hloop : IsToolLoop log loop)
    (hend : loop <:+ log) (hother : IsToolLoop log other) (hend' : other <:+ log) :
    loop = other := by
  have hproper : ∀ {short long : List Event}, IsToolLoop log short → IsToolLoop log long →
      short <:+ long → short = long := by
    rintro short long hshort hlong ⟨front, rfl⟩
    cases front with
    | nil => rfl
    | cons head front =>
        obtain ⟨-, start, body, rfl, hstart, -⟩ := hshort
        obtain ⟨-, _, inner, hsplit, -, hinner⟩ := hlong
        obtain ⟨-, rfl⟩ := List.cons.inj hsplit
        rw [hinner start (by simp)] at hstart
        cases hstart
  rcases List.suffix_or_suffix_of_suffix hend hend' with hsub | hsub
  · exact hproper hloop hother hsub
  · exact (hproper hother hloop hsub).symm

end ToolLoopAtomicity

/-! ## Answered calls -/

/-- Events that make calls and answer each of them once. No call, response or id
was used before. -/
structure AnsweredCalls (log added : List Event) : Prop where
  distinct : DistinctIds (log ++ added)
  uncondensed : ∀ condensation, .condensation condensation ∉ added
  responses : ∀ action, .convertible (.action action) ∈ added →
    ∀ other, .convertible (.action other) ∈ log → other.llmResponseId ≠ action.llmResponseId
  fresh : ∀ id ∈ observationToolCalls (convertibles added),
    id ∉ actionToolCalls (convertibles log) ∧ id ∉ observationToolCalls (convertibles log)
  matched : ∀ id, id ∈ actionToolCalls (convertibles added) ↔
    id ∈ observationToolCalls (convertibles added)
  unique : (observationToolCalls (convertibles added)).Nodup

namespace View

/-- The log ends inside a tool loop that the view has lost. -/
def Severed (log : List Event) : Prop :=
  ∃ loop, IsToolLoop log loop ∧ loop <:+ log ∧ ¬convertibles loop ⊆ (fromEvents log).events

end View

namespace AnsweredCalls

variable {log added : List Event} (hadded : AnsweredCalls log added)

include hadded

theorem appendEvents_eq : (View.appendEvents (log ++ added)).events =
    (View.appendEvents log).events ++ convertibles added := by
  rw [View.appendEvents_append, View.foldl_appendEvent_events _ _ hadded.uncondensed]

theorem distinct_log : DistinctIds log := hadded.distinct.sublist (List.sublist_append_left _ _)

/-- Nothing that was accumulated before is added. -/
theorem notMem_added {event : LLMConvertibleEvent}
    (hevent : event ∈ (View.appendEvents log).events) : event ∉ convertibles added := by
  have hids := View.appendEvents_ids hadded.distinct
  rw [hadded.appendEvents_eq] at hids
  exact fun hmem => (List.nodup_append.mp (List.Nodup.of_map _ hids)).2.2 _ hevent _ hmem rfl

theorem notMem_log {event : LLMConvertibleEvent} (hevent : event ∈ convertibles added) :
    .convertible event ∉ log := by
  have hids := List.Nodup.of_map _ hadded.distinct.nodup
  exact fun hmem => (List.nodup_append.mp hids).2.2 _ hmem _ (mem_convertibles.mp hevent) rfl

/-- What the longer log keeps of the old events is closed. -/
theorem closed_old {kept : Set LLMConvertibleEvent} (hclosed : Closed (log ++ added) kept)
    (hsub : ∀ event ∈ kept, event ∈ (View.appendEvents (log ++ added)).events) :
    Closed log {event | event ∈ kept ∧ event ∈ (View.appendEvents log).events} := by
  have hold : ∀ event ∈ kept, event ∉ convertibles added →
      event ∈ (View.appendEvents log).events := by
    intro event hevent hnew
    have hmem := hsub event hevent
    rw [hadded.appendEvents_eq, List.mem_append] at hmem
    exact hmem.resolve_right hnew
  refine ⟨?_, ?_, ?_, ?_⟩
  · rintro action ⟨haction, -⟩ other hother hresponse
    have hkept := hclosed.batches action haction other (List.mem_append_left _ hother) hresponse
    exact ⟨hkept, hold _ hkept fun hnew => hadded.notMem_log hnew hother⟩
  · rintro action ⟨haction, hlog⟩
    obtain ⟨observation, hobservation, hcall⟩ := hclosed.answered action haction
    refine ⟨observation, ⟨hobservation, hold _ hobservation fun hnew => ?_⟩, hcall⟩
    refine (hadded.fresh _ (mem_observationToolCalls.mpr ⟨observation, hnew, rfl⟩)).1 ?_
    exact mem_actionToolCalls.mpr
      ⟨action, mem_convertibles.mpr (View.appendEvents_action_mem hlog), hcall.symm⟩
  · rintro observation ⟨hobservation, hlog⟩
    obtain ⟨action, haction, hcall⟩ := hclosed.called observation hobservation
    refine ⟨action, ⟨haction, hold _ haction fun hnew => ?_⟩, hcall⟩
    have hnewcall := (hadded.matched _).mp (mem_actionToolCalls.mpr ⟨action, hnew, hcall⟩)
    refine (hadded.fresh _ hnewcall).2 (mem_observationToolCalls.mpr ⟨observation, ?_, rfl⟩)
    exact mem_convertibles.mpr ((View.appendEvents_fromLog hadded.distinct_log).mem hlog rfl)
  · rintro loop hloop event hevent ⟨hkept, -⟩ other hother
    obtain ⟨body, hlonger⟩ := hloop.exists_extends added
    have hlift : ∀ event ∈ convertibles loop, event ∈ convertibles (loop ++ body) :=
      fun event hevent => by rw [convertibles_append]; exact List.mem_append_left _ hevent
    have hmem := hclosed.loops _ hlonger event (hlift event hevent) hkept other (hlift other hother)
    exact ⟨hmem, hold _ hmem fun hnew =>
      hadded.notMem_log hnew (hloop.mem (mem_convertibles.mp hother))⟩

theorem mem_dedup_append {event : LLMConvertibleEvent} :
    event ∈ View.dedup (View.appendEvents (log ++ added)).events ↔
      event ∈ View.dedup (View.appendEvents log).events ∨ event ∈ convertibles added := by
  rw [View.mem_dedup (View.appendEvents_ids hadded.distinct),
    View.mem_dedup (View.appendEvents_ids hadded.distinct_log), hadded.appendEvents_eq,
    List.mem_append]
  constructor
  · rintro ⟨hevent | hnew, hfirst⟩
    · exact .inl ⟨hevent, fun earlier later heq hsub =>
        hfirst earlier later heq (hsub.trans (List.sublist_append_left _ _))⟩
    · exact .inr hnew
  · rintro (⟨hevent, hfirst⟩ | hnew)
    · refine ⟨.inl hevent, fun earlier later heq hsub => ?_⟩
      subst heq
      obtain ⟨left, right, hsplit, hleft, hright⟩ := List.sublist_append_iff.mp hsub
      cases right with
      | nil => exact hfirst earlier later rfl (by simpa [hsplit] using hleft)
      | cons head right =>
          have hlast : .observation later ∈ head :: right := by
            have hmem := congrArg List.getLast? hsplit
            rw [List.getLast?_append_of_ne_nil _ (by simp)] at hmem
            exact List.mem_of_getLast? hmem.symm
          exact absurd (hright.subset hlast) (hadded.notMem_added hevent)
    · refine ⟨.inr hnew, fun earlier later heq hsub hcall => ?_⟩
      subst heq
      have hlater := mem_observationToolCalls.mpr ⟨later, hnew, rfl⟩
      obtain ⟨left, right, hsplit, hleft, hright⟩ := List.sublist_append_iff.mp hsub
      cases left with
      | nil =>
          rw [List.nil_append] at hsplit
          subst hsplit
          have hnodup := hadded.unique.sublist (observationToolCalls_sublist hright)
          have htwice : observationToolCalls [.observation earlier, .observation later] =
            [earlier.toolCallId, later.toolCallId] := rfl
          rw [htwice, hcall] at hnodup
          simp at hnodup
      | cons head left =>
          obtain ⟨rfl, -⟩ := List.cons.inj hsplit
          have hearlier := hleft.subset List.mem_cons_self
          refine (hadded.fresh _ hlater).2 (mem_observationToolCalls.mpr ⟨earlier, ?_, hcall⟩)
          exact mem_convertibles.mpr
            ((View.appendEvents_fromLog hadded.distinct_log).mem hearlier rfl)

/-- Nothing that the view had dropped comes back. -/
theorem mem_fromEvents {event : LLMConvertibleEvent}
    (hevent : event ∈ (View.fromEvents (log ++ added)).events) :
    event ∈ (View.fromEvents log).events ∨ event ∈ convertibles added := by
  have hsub := (View.fromEvents_isGreatestStable hadded.distinct).sublist.subset
  rcases hadded.mem_dedup_append.mp (hsub hevent) with hold | hnew
  · refine .inl (View.subset_fromEvents hadded.distinct_log
      (hadded.closed_old (View.fromEvents_closed hadded.distinct) fun other hother => ?_) ?_ ?_)
    · exact (View.fromEvents_sublist hadded.distinct).subset hother
    · rintro other ⟨hkept, hother⟩
      exact (hadded.mem_dedup_append.mp (hsub hkept)).resolve_right (hadded.notMem_added hother)
    · exact ⟨hevent, (View.dedup_sublist _).subset hold⟩
  · exact .inr hnew

theorem view_notMem_added {event : LLMConvertibleEvent}
    (hevent : event ∈ (View.fromEvents log).events) : event ∉ convertibles added :=
  hadded.notMem_added ((View.fromEvents_sublist hadded.distinct_log).subset hevent)

theorem view_mem_log {event : LLMConvertibleEvent}
    (hevent : event ∈ (View.fromEvents log).events) (hkind : event.isSummary = false) :
    .convertible event ∈ log :=
  View.mem_log hadded.distinct_log hevent hkind

/-- The view of the log stays closed when nothing continues a loop it has. -/
theorem closed_view (hopen : ∀ first second, IsToolLoop log first → first <:+ log →
      second ≠ [] → Continues added second →
      ∀ event ∈ convertibles first, event ∉ (View.fromEvents log).events) :
    Closed (log ++ added) {event | event ∈ (View.fromEvents log).events} := by
  have hview := View.fromEvents_closed hadded.distinct_log
  refine ⟨?_, hview.answered, hview.called, ?_⟩
  · intro action haction other hother hresponse
    rcases List.mem_append.mp hother with hlog | hnew
    · exact hview.batches action haction other hlog hresponse
    · exact absurd hresponse.symm
        (hadded.responses other hnew action (hadded.view_mem_log haction rfl))
  · intro loop hloop event hevent hmem other hother
    rcases ToolLoopAtomicity.isToolLoop_append hloop with
      hold | hnew | ⟨first, second, rfl, hfirst, hend, hsecond, hcontinues⟩
    · exact hview.loops loop hold event hevent hmem other hother
    · exact absurd (mem_convertibles.mpr (hnew.mem (mem_convertibles.mp hevent)))
        (hadded.view_notMem_added hmem)
    · rw [convertibles_append, List.mem_append] at hevent
      rcases hevent with hevent | hevent
      · exact absurd hmem (hopen first second hfirst hend hsecond hcontinues event hevent)
      · obtain ⟨after, rfl, -, -⟩ := hcontinues
        refine absurd ?_ (hadded.view_notMem_added hmem)
        rw [convertibles_append]
        exact List.mem_append_left _ hevent

/-- With the added events, the view is closed when it has the loop they continue. -/
theorem closed_union (hopen : ∀ first second, IsToolLoop log first → first <:+ log →
      second ≠ [] → Continues added second →
      convertibles first ⊆ (View.fromEvents log).events) :
    Closed (log ++ added)
      {event | event ∈ (View.fromEvents log).events ∨ event ∈ convertibles added} := by
  have hview := View.fromEvents_closed hadded.distinct_log
  refine ⟨?_, ?_, ?_, ?_⟩
  · rintro action (haction | haction) other hother hresponse
    · rcases List.mem_append.mp hother with hlog | hnew
      · exact .inl (hview.batches action haction other hlog hresponse)
      · exact absurd hresponse.symm
          (hadded.responses other hnew action (hadded.view_mem_log haction rfl))
    · rcases List.mem_append.mp hother with hlog | hnew
      · exact absurd hresponse (hadded.responses action (mem_convertibles.mp haction) other hlog)
      · exact .inr (mem_convertibles.mpr hnew)
  · rintro action (haction | haction)
    · obtain ⟨observation, hobservation, hcall⟩ := hview.answered action haction
      exact ⟨observation, .inl hobservation, hcall⟩
    · obtain ⟨observation, hobservation, hcall⟩ := mem_observationToolCalls.mp
        ((hadded.matched _).mp (mem_actionToolCalls.mpr ⟨action, haction, rfl⟩))
      exact ⟨observation, .inr hobservation, hcall⟩
  · rintro observation (hobservation | hobservation)
    · obtain ⟨action, haction, hcall⟩ := hview.called observation hobservation
      exact ⟨action, .inl haction, hcall⟩
    · obtain ⟨action, haction, hcall⟩ := mem_actionToolCalls.mp
        ((hadded.matched _).mpr (mem_observationToolCalls.mpr ⟨observation, hobservation, rfl⟩))
      exact ⟨action, .inr haction, hcall⟩
  · intro loop hloop event hevent hmem other hother
    rcases ToolLoopAtomicity.isToolLoop_append hloop with
      hold | hnew | ⟨first, second, rfl, hfirst, hend, hsecond, hcontinues⟩
    · have hlog := hold.mem (mem_convertibles.mp hevent)
      exact .inl (hview.loops loop hold event hevent
        (hmem.resolve_right fun hnew => hadded.notMem_log hnew hlog) other hother)
    · exact .inr (mem_convertibles.mpr (hnew.mem (mem_convertibles.mp hother)))
    · have hall := hopen first second hfirst hend hsecond hcontinues
      rw [convertibles_append, List.mem_append] at hother
      refine hother.imp (fun hold => hall hold) fun hnew => ?_
      obtain ⟨after, rfl, -, -⟩ := hcontinues
      rw [convertibles_append]
      exact List.mem_append_left _ hnew

/-- Answered calls are shown after what the view shows already. -/
theorem fromEvents_append (hopen : ∀ first second, IsToolLoop log first → first <:+ log →
      second ≠ [] → Continues added second →
      convertibles first ⊆ (View.fromEvents log).events) :
    (View.fromEvents (log ++ added)).events =
      (View.fromEvents log).events ++ convertibles added := by
  have hids := List.Nodup.of_map _ (View.appendEvents_ids hadded.distinct)
  refine Segments.eq_of_sublist_of_mem hids (View.fromEvents_sublist hadded.distinct) ?_
    fun event =>
      ⟨fun hevent => List.mem_append.mpr (hadded.mem_fromEvents hevent), fun hevent => ?_⟩
  · rw [hadded.appendEvents_eq]
    exact (View.fromEvents_sublist hadded.distinct_log).append (.refl _)
  · refine View.subset_fromEvents hadded.distinct (hadded.closed_union hopen)
      (fun other hother => hadded.mem_dedup_append.mpr ?_) (List.mem_append.mp hevent)
    exact hother.imp_left fun hold =>
      (View.fromEvents_isGreatestStable hadded.distinct_log).sublist.subset hold

/-- Answered calls of one response that continue a lost tool loop are not shown. -/
theorem fromEvents_append_of_lost {loop : List Event} (hloop : IsToolLoop log loop)
    (hend : loop <:+ log) (hlost : ¬convertibles loop ⊆ (View.fromEvents log).events)
    {first : ActionEvent} {rest : List Event}
    (hfirst : added = .convertible (.action first) :: rest)
    (hstays : LLMConvertibleEvent.loopRole (.action first) = .stays)
    (hresponse : ∀ action, .convertible (.action action) ∈ added →
      first.llmResponseId = action.llmResponseId)
    (hkinds : ∀ event ∈ convertibles added, (∃ action, event = .action action) ∨
      ∃ observation, event = .observation observation) :
    (View.fromEvents (log ++ added)).events = (View.fromEvents log).events := by
  have hids := List.Nodup.of_map _ (View.appendEvents_ids hadded.distinct)
  have hclosed := View.fromEvents_closed hadded.distinct
  have hlog : .convertible (.action first) ∈ added := hfirst ▸ List.mem_cons_self
  have hnone : ∀ action, .convertible (.action action) ∈ added →
      .action action ∉ (View.fromEvents (log ++ added)).events := by
    intro action haction hmem
    have hshown := hclosed.batches action hmem first (List.mem_append_right _ hlog)
      (hresponse action haction)
    obtain ⟨body, hbody⟩ := ToolLoopAtomicity.exists_continues added
    have hlonger := hloop.extends hend hbody
    have hhead : .action first ∈ convertibles (loop ++ body) := by
      rw [hfirst, Continues.cons_iff] at hbody
      obtain ⟨hother, -⟩ | ⟨-, tail, rfl, -⟩ := hbody
      · exact absurd hstays hother
      · exact mem_convertibles.mpr (by simp)
    refine hlost fun event hevent => ?_
    have hold := hclosed.loops _ hlonger _ hhead hshown event
      (by rw [convertibles_append]; exact List.mem_append_left _ hevent)
    exact (hadded.mem_fromEvents hold).resolve_right fun hnew =>
      hadded.notMem_log hnew (hloop.mem (mem_convertibles.mp hevent))
  refine Segments.eq_of_sublist_of_mem hids (View.fromEvents_sublist hadded.distinct) ?_
    fun event => ⟨fun hevent => ?_, fun hevent => ?_⟩
  · rw [hadded.appendEvents_eq]
    exact (View.fromEvents_sublist hadded.distinct_log).trans (List.sublist_append_left _ _)
  · refine (hadded.mem_fromEvents hevent).resolve_right fun hnew => ?_
    rcases hkinds event hnew with ⟨action, rfl⟩ | ⟨observation, rfl⟩
    · exact hnone action (mem_convertibles.mp hnew) hevent
    · -- its action would be shown too
      obtain ⟨action, haction, hcall⟩ := hclosed.called observation hevent
      rcases hadded.mem_fromEvents haction with hold | hadd
      · refine (hadded.fresh _ (mem_observationToolCalls.mpr ⟨observation, hnew, rfl⟩)).1 ?_
        exact mem_actionToolCalls.mpr
          ⟨action, mem_convertibles.mpr (hadded.view_mem_log hold rfl), hcall⟩
      · exact hnone action (mem_convertibles.mp hadd) haction
  · refine View.subset_fromEvents hadded.distinct (hadded.closed_view ?_)
      (fun other hother => hadded.mem_dedup_append.mpr (.inl ?_)) hevent
    · intro other second hother hend' _ _ event hmem hshown
      obtain rfl := hloop.unique_suffix hend hother hend'
      exact hlost fun member hmember =>
        (View.fromEvents_closed hadded.distinct_log).loops _ hloop event hmem hshown member hmember
    · exact (View.fromEvents_isGreatestStable hadded.distinct_log).sublist.subset hother

end AnsweredCalls

end ShuttleFlow
