import ShuttleFlow.View.PropertyLaws

/-! # Tool loops of a log and of a view

A tool loop is a contiguous stretch of the log. As long as nothing lies
strictly inside it, it is contiguous in every view that contains it, so that
the index scan of the view recognizes it from its first event on.
-/

namespace ShuttleFlow

open scoped List

/-- The ids of the events of a log. -/
def eventIds (events : List Event) : Finset EventID :=
  (events.map Event.id).toFinset

@[simp] theorem mem_eventIds {events : List Event} {id : EventID} :
    id ∈ eventIds events ↔ ∃ event ∈ events, event.id = id := by
  simp [eventIds]

namespace ToolLoopAtomicity

/-- `loop` starts with a thinking action, and is as long as it can be. -/
structure IsToolLoop (events loop : List Event) : Prop where
  contiguous : ∃ before after, events = before ++ loop ++ after ∧
    ∀ event ∈ after.head?, event.loopRole ≠ .stays
  shape : ∃ start body, loop = start :: body ∧ start.loopRole = .starts ∧
    ∀ event ∈ body, event.loopRole = .stays

/-- Extending a log at the front extends the search for tool loops. -/
theorem IsToolLoop.cons {events loop : List Event} (hloop : IsToolLoop events loop)
    (event : Event) : IsToolLoop (event :: events) loop := by
  obtain ⟨⟨before, after, rfl, hafter⟩, hshape⟩ := hloop
  exact ⟨⟨event :: before, after, by simp, hafter⟩, hshape⟩

/-- The stretch that continues a loop: it stays, and cannot be prolonged. -/
def Continues (events body : List Event) : Prop :=
  ∃ after, events = body ++ after ∧ (∀ event ∈ body, event.loopRole = .stays) ∧
    ∀ event ∈ after.head?, event.loopRole ≠ .stays

theorem Continues.cons_iff {event : Event} {events body : List Event} :
    Continues (event :: events) body ↔
      (event.loopRole ≠ .stays ∧ body = []) ∨
        (event.loopRole = .stays ∧ ∃ rest, body = event :: rest ∧ Continues events rest) := by
  constructor
  · rintro ⟨after, hsplit, hbody, hafter⟩
    cases body with
    | nil =>
        simp only [List.nil_append] at hsplit
        subst hsplit
        exact .inl ⟨hafter event rfl, rfl⟩
    | cons first rest =>
        simp only [List.cons_append, List.cons.injEq] at hsplit
        obtain ⟨rfl, rfl⟩ := hsplit
        exact .inr ⟨hbody _ List.mem_cons_self, rest, rfl, after, rfl,
          fun other hother => hbody other (.tail _ hother), hafter⟩
  · rintro (⟨hrole, rfl⟩ | ⟨hrole, rest, rfl, after, rfl, hbody, hafter⟩)
    · exact ⟨event :: events, rfl, by simp, by simpa using hrole⟩
    · exact ⟨after, rfl, by simpa using ⟨hrole, hbody⟩, hafter⟩

theorem isToolLoop_cons_iff {event : Event} {events loop : List Event} :
    IsToolLoop (event :: events) loop ↔ IsToolLoop events loop ∨
      (event.loopRole = .starts ∧ ∃ body, loop = event :: body ∧ Continues events body) := by
  constructor
  · rintro ⟨⟨before, after, hsplit, hafter⟩, start, body, rfl, hstart, hbody⟩
    cases before with
    | nil =>
        simp only [List.nil_append, List.cons_append, List.cons.injEq] at hsplit
        obtain ⟨rfl, rfl⟩ := hsplit
        exact .inr ⟨hstart, body, rfl, after, rfl, hbody, hafter⟩
    | cons first before =>
        simp only [List.cons_append, List.cons.injEq] at hsplit
        exact .inl ⟨⟨before, after, by simpa using hsplit.2, hafter⟩, start, body, rfl,
          hstart, hbody⟩
  · rintro (hloop | ⟨hstart, body, rfl, after, rfl, hbody, hafter⟩)
    · exact hloop.cons event
    · exact ⟨⟨[], after, rfl, hafter⟩, event, body, rfl, hstart, hbody⟩

theorem mem_toolLoopsFrom {current : Option (Finset EventID)} {events : List Event}
    {toolLoop : Finset EventID} :
    toolLoop ∈ toolLoopsFrom current events ↔
      (∃ loop body, current = some loop ∧ Continues events body ∧
        toolLoop = loop ∪ eventIds body) ∨
      ∃ loop, IsToolLoop events loop ∧ toolLoop = eventIds loop := by
  induction events generalizing current with
  | nil =>
      have hnone : ∀ loop, ¬IsToolLoop [] loop := by
        rintro loop ⟨⟨before, after, hsplit, -⟩, start, body, rfl, -⟩
        simp at hsplit
      have hbody : ∀ body, Continues [] body ↔ body = [] := by
        intro body
        constructor
        · rintro ⟨after, hsplit, -⟩
          exact (List.append_eq_nil_iff.mp hsplit.symm).1
        · rintro rfl
          exact ⟨[], rfl, by simp, by simp⟩
      simp [toolLoopsFrom, hnone, hbody, eventIds]
  | cons event rest ih =>
      have hids : ∀ body, eventIds (event :: body) = insert event.id (eventIds body) := by
        simp [eventIds]
      simp only [Continues.cons_iff, isToolLoop_cons_iff]
      unfold toolLoopsFrom
      split
      next hrole =>
        simp only [List.mem_append, Option.mem_toList, ih, hrole, ne_eq, reduceCtorEq,
          not_false_eq_true, true_and, false_and, or_false, Option.some.injEq]
        constructor
        · rintro (hcurrent | ⟨_, body, rfl, hbody, rfl⟩ | ⟨loop, hloop, rfl⟩)
          · exact .inl ⟨toolLoop, [], hcurrent, rfl, by simp [eventIds]⟩
          · exact .inr ⟨event :: body, .inr ⟨body, rfl, hbody⟩, by rw [hids]; rfl⟩
          · exact .inr ⟨loop, .inl hloop, rfl⟩
        · rintro (⟨loop, _, hcurrent, rfl, rfl⟩ | ⟨loop, hloop | ⟨body, rfl, hbody⟩, rfl⟩)
          · exact .inl (by simpa [eventIds] using hcurrent)
          · exact .inr (.inr ⟨loop, hloop, rfl⟩)
          · exact .inr (.inl ⟨_, body, rfl, hbody, by rw [hids]; rfl⟩)
      next hrole =>
        simp only [ih, hrole, ne_eq, not_true_eq_false, false_and, true_and, false_or,
          reduceCtorEq, or_false]
        refine or_congr ?_ Iff.rfl
        constructor
        · rintro ⟨loop, body, hcurrent, hbody, rfl⟩
          obtain ⟨previous, rfl, rfl⟩ := Option.map_eq_some_iff.mp hcurrent
          exact ⟨previous, event :: body, rfl, ⟨body, rfl, hbody⟩,
            by rw [hids, Finset.insert_union, Finset.union_insert]⟩
        · rintro ⟨loop, _, rfl, ⟨body, rfl, hbody⟩, rfl⟩
          exact ⟨insert event.id loop, body, rfl, hbody,
            by rw [hids, Finset.insert_union, Finset.union_insert]⟩
      next hrole =>
        simp [ih, hrole, eventIds]

/-- The tool loops the source collects are the ids of the tool loops. -/
theorem mem_toolLoops {events : List Event} {toolLoop : Finset EventID} :
    toolLoop ∈ toolLoops events ↔
      ∃ loop, IsToolLoop events loop ∧ toolLoop = eventIds loop := by
  simp [toolLoops, mem_toolLoopsFrom]

/-! ## Enforcement -/

theorem subset_of_mem_toolLoopsFrom {current : Option (Finset EventID)} {events : List Event}
    {toolLoop : Finset EventID} (hmem : toolLoop ∈ toolLoopsFrom current events) :
    toolLoop ⊆ current.getD ∅ ∪ eventIds events := by
  rcases mem_toolLoopsFrom.mp hmem with ⟨loop, body, rfl, ⟨after, rfl, -⟩, rfl⟩ |
    ⟨loop, ⟨⟨before, after, rfl, -⟩, -⟩, rfl⟩
  · exact Finset.union_subset_union_right (by simp [eventIds])
  · refine Finset.Subset.trans ?_ Finset.subset_union_right
    intro id hid
    obtain ⟨event, hevent, rfl⟩ := mem_eventIds.mp hid
    exact mem_eventIds.mpr ⟨event, by simp [hevent], rfl⟩

/-- With distinct ids, no event belongs to two tool loops. -/
theorem pairwise_disjoint_toolLoopsFrom {current : Option (Finset EventID)}
    {events : List Event} (hids : (events.map Event.id).Nodup)
    (hcurrent : Disjoint (current.getD ∅) (eventIds events)) :
    (toolLoopsFrom current events).Pairwise Disjoint := by
  induction events generalizing current with
  | nil => cases current <;> simp [toolLoopsFrom]
  | cons event rest ih =>
      rw [List.map_cons, List.nodup_cons] at hids
      have hevent : event.id ∉ eventIds rest := by simpa [eventIds] using hids.1
      have hcons : eventIds (event :: rest) = insert event.id (eventIds rest) := by
        simp [eventIds]
      rw [hcons, Finset.disjoint_insert_right] at hcurrent
      -- a finished loop shares nothing with the loops of the remaining events
      have hfinished : ∀ next : Option (Finset EventID), next.getD ∅ ⊆ {event.id} →
          (toolLoopsFrom next rest).Pairwise Disjoint →
          (current.toList ++ toolLoopsFrom next rest).Pairwise Disjoint := by
        intro next hnext hrest
        refine List.pairwise_append.mpr ⟨by cases current <;> simp, hrest, ?_⟩
        intro loop hloop other hother
        rw [Option.mem_toList] at hloop
        subst hloop
        refine Finset.disjoint_of_subset_right (subset_of_mem_toolLoopsFrom hother) ?_
        refine Finset.disjoint_union_right.mpr ⟨?_, hcurrent.2⟩
        exact Finset.disjoint_of_subset_right hnext (Finset.disjoint_singleton_right.mpr hcurrent.1)
      unfold toolLoopsFrom
      split
      · exact hfinished _ (by simp) (ih hids.2 (by simpa using hevent))
      · refine ih hids.2 ?_
        cases current with
        | none => simp
        | some loop => exact Finset.disjoint_insert_left.mpr ⟨hevent, hcurrent.2⟩
      · exact hfinished _ (by simp) (ih hids.2 (by simp))

theorem find?_toolLoop {allToolLoops : List (Finset EventID)}
    (hdisjoint : allToolLoops.Pairwise Disjoint) {toolLoop : Finset EventID} {id : EventID}
    (hloop : toolLoop ∈ allToolLoops) (hid : id ∈ toolLoop) :
    (allToolLoops.find? fun toolLoop => id ∈ toolLoop) = some toolLoop := by
  induction allToolLoops with
  | nil => cases hloop
  | cons first rest ih =>
      rw [List.pairwise_cons] at hdisjoint
      rcases List.mem_cons.mp hloop with rfl | hrest
      · simp [hid]
      · have hnot : id ∉ first := Finset.disjoint_right.mp (hdisjoint.1 _ hrest) hid
        simpa [hnot] using ih hdisjoint.2 hrest

/-- What the enforcement loop has marked so far is closed: with an event, all
that is left of its tool loop is marked. -/
theorem mem_enforceFrom {allToolLoops : List (Finset EventID)} {viewIds : Finset EventID}
    (hdisjoint : allToolLoops.Pairwise Disjoint) {eventsToRemove : Finset EventID}
    {events : List LLMConvertibleEvent}
    (hclosed : ∀ id ∈ eventsToRemove, ∃ toolLoop ∈ allToolLoops, id ∈ toolLoop ∧
      viewIds ∩ toolLoop ⊆ eventsToRemove) {id : EventID} :
    id ∈ enforceFrom allToolLoops viewIds eventsToRemove events ↔
      id ∈ eventsToRemove ∨ ∃ event ∈ events, ∃ toolLoop ∈ allToolLoops,
        event.id ∈ toolLoop ∧ ¬toolLoop ⊆ viewIds ∧ id ∈ viewIds ∩ toolLoop := by
  induction events generalizing eventsToRemove with
  | nil => simp [enforceFrom]
  | cons event rest ih =>
      simp only [List.mem_cons, exists_eq_or_imp]
      unfold enforceFrom
      split
      next hmarked =>
        rw [ih hclosed]
        obtain ⟨own, hown, hevent, hsubset⟩ := hclosed _ hmarked
        constructor
        · exact fun h => h.imp_right .inr
        · rintro (hid | ⟨toolLoop, hloop, hmem, -, hid⟩ | hrest)
          · exact .inl hid
          · have heq := (find?_toolLoop hdisjoint hown hevent).symm.trans
              (find?_toolLoop hdisjoint hloop hmem)
            exact .inl (hsubset (Option.some.inj heq ▸ hid))
          · exact .inr hrest
      next hunmarked =>
        have hsame : ∀ toolLoop ∈ allToolLoops, event.id ∈ toolLoop →
            (allToolLoops.find? fun toolLoop => event.id ∈ toolLoop) = some toolLoop :=
          fun _ hloop hmem => find?_toolLoop hdisjoint hloop hmem
        split
        next hnone =>
          rw [ih hclosed]
          refine or_congr Iff.rfl ⟨.inr, ?_⟩
          rintro (⟨toolLoop, hloop, hmem, -⟩ | hrest)
          · simp [hsame toolLoop hloop hmem] at hnone
          · exact hrest
        next own hfound =>
          have hown := List.mem_of_find?_eq_some hfound
          have hmem : event.id ∈ own := by simpa using List.find?_some hfound
          have hunique : ∀ toolLoop ∈ allToolLoops, event.id ∈ toolLoop → toolLoop = own :=
            fun toolLoop hloop hevent =>
              Option.some.inj ((hsame toolLoop hloop hevent).symm.trans hfound)
          split
          next hwhole =>
            rw [ih hclosed]
            refine or_congr Iff.rfl ⟨.inr, ?_⟩
            rintro (⟨toolLoop, hloop, hevent, hpartial, -⟩ | hrest)
            · exact absurd (hunique toolLoop hloop hevent ▸ hwhole) hpartial
            · exact hrest
          next hpartial =>
            rw [ih]
            · rw [Finset.mem_union, or_assoc]
              refine or_congr Iff.rfl (or_congr ⟨?_, ?_⟩ Iff.rfl)
              · exact fun hid => ⟨own, hown, hmem, hpartial, hid⟩
              · rintro ⟨toolLoop, hloop, hevent, -, hid⟩
                exact hunique toolLoop hloop hevent ▸ hid
            · intro other hother
              rcases Finset.mem_union.mp hother with hother | hother
              · obtain ⟨toolLoop, hloop, hid, hsubset⟩ := hclosed other hother
                exact ⟨toolLoop, hloop, hid,
                  hsubset.trans Finset.subset_union_left⟩
              · exact ⟨own, hown, (Finset.mem_inter.mp hother).2, Finset.subset_union_right⟩

/-- An event is dropped when its tool loop is not wholly in the view. -/
theorem mem_enforce {events : List LLMConvertibleEvent} {allEvents : List Event}
    (hids : (allEvents.map Event.id).Nodup) {id : EventID} :
    id ∈ enforce events allEvents ↔ id ∈ viewEventIds events ∧
      ∃ toolLoop ∈ toolLoops allEvents, id ∈ toolLoop ∧ ¬toolLoop ⊆ viewEventIds events := by
  have hdisjoint := @pairwise_disjoint_toolLoopsFrom none _ hids (by simp)
  rw [enforce, toolLoops, mem_enforceFrom hdisjoint (by simp)]
  constructor
  · rintro (hempty | ⟨event, -, toolLoop, hloop, -, hpartial, hid⟩)
    · simp at hempty
    · obtain ⟨hview, hmem⟩ := Finset.mem_inter.mp hid
      exact ⟨hview, toolLoop, hloop, hmem, hpartial⟩
  · rintro ⟨hview, toolLoop, hloop, hmem, hpartial⟩
    obtain ⟨event, hevent, rfl⟩ := mem_viewEventIds.mp hview
    exact .inr ⟨event, hevent, toolLoop, hloop, hmem, hpartial,
      Finset.mem_inter.mpr ⟨hview, hmem⟩⟩

theorem enforce_eq_empty_iff {events : List LLMConvertibleEvent} {allEvents : List Event}
    (hids : (allEvents.map Event.id).Nodup) :
    enforce events allEvents = ∅ ↔ ∀ toolLoop ∈ toolLoops allEvents,
      ∀ id ∈ toolLoop, id ∈ viewEventIds events → toolLoop ⊆ viewEventIds events := by
  rw [Finset.eq_empty_iff_forall_notMem]
  simp only [mem_enforce hids]
  grind

/-! ## The index scan -/

/-- Whether the index scan is inside a tool loop after a whole list. -/
def inToolLoopAfter (inToolLoop : Bool) (events : List LLMConvertibleEvent) : Bool :=
  events.foldl loopStep inToolLoop

@[simp] theorem inToolLoopAfter_append (inToolLoop : Bool)
    (first second : List LLMConvertibleEvent) :
    inToolLoopAfter inToolLoop (first ++ second) =
      inToolLoopAfter (inToolLoopAfter inToolLoop first) second := by
  simp [inToolLoopAfter]

theorem mem_insideFrom {index position : Nat} {inToolLoop : Bool}
    {events : List LLMConvertibleEvent} :
    position ∈ insideFrom index inToolLoop events ↔ ∃ offset event,
      position = index + offset ∧ events[offset]? = some event ∧
      event.loopRole = .stays ∧ inToolLoopAfter inToolLoop (events.take offset) = true := by
  induction events generalizing index inToolLoop with
  | nil => simp [insideFrom]
  | cons head rest ih =>
      have hshift : (∃ offset event, position = index + offset ∧
          (head :: rest)[offset]? = some event ∧ event.loopRole = .stays ∧
          inToolLoopAfter inToolLoop ((head :: rest).take offset) = true) ↔
          (position = index ∧ head.loopRole = .stays ∧ inToolLoop = true) ∨
          position ∈ insideFrom (index + 1) (loopStep inToolLoop head) rest := by
        rw [ih]
        constructor
        · rintro ⟨offset, event, hposition, hevent, hrole, hflag⟩
          cases offset with
          | zero =>
              obtain rfl : head = event := by simpa using hevent
              exact .inl ⟨hposition, hrole, hflag⟩
          | succ offset => exact .inr ⟨offset, event, by omega, hevent, hrole, hflag⟩
        · rintro (⟨hposition, hrole, hflag⟩ | ⟨offset, event, hposition, hevent, hrole, hflag⟩)
          · exact ⟨0, head, hposition, rfl, hrole, hflag⟩
          · exact ⟨offset + 1, event, by omega, hevent, hrole, hflag⟩
      rw [hshift, insideFrom]
      split <;> simp_all

theorem mem_manipulationIndices {events : List LLMConvertibleEvent}
    {indices : ManipulationIndices} (hindices : manipulationIndices events = some indices)
    {index : Nat} :
    index ∈ indices ↔ index ≤ events.length ∧ ¬∃ event, events[index]? = some event ∧
      event.loopRole = .stays ∧ inToolLoopAfter false (events.take index) = true := by
  simp only [manipulationIndices, Option.some.injEq] at hindices
  subst hindices
  simp [mem_insideFrom]

end ToolLoopAtomicity

end ShuttleFlow
