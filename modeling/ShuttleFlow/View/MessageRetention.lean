import ShuttleFlow.View.Closed

/-! # Which messages a view retains

No property drops a message. A message is in the view unless a condensation that came later has
forgotten it.
-/

namespace ShuttleFlow

/-- No condensation that comes after the event forgets it. -/
def Retained (log : List Event) (event : LLMConvertibleEvent) : Prop :=
  ∃ before after, log = before ++ .convertible event :: after ∧
    ∀ condensation, .condensation condensation ∈ after →
      event.id ∉ condensation.forgottenEventIds

namespace View

/-- What a condensation forgets, and the summary that it may insert. -/
theorem mem_apply_iff {condensation : Condensation} {events : List LLMConvertibleEvent}
    {event : LLMConvertibleEvent} (hevent : ∀ summary, event ≠ .condensationSummary summary) :
    event ∈ condensation.apply events ↔
      event ∈ events ∧ event.id ∉ condensation.forgottenEventIds := by
  have hfilter : event ∈ events.filter (fun event => event.id ∉ condensation.forgottenEventIds) ↔
      event ∈ events ∧ event.id ∉ condensation.forgottenEventIds := by
    rw [List.mem_filter, decide_eq_true_iff]
  unfold Condensation.apply
  rw [← hfilter]
  split
  next summary offset _ _ =>
    rw [List.mem_append, List.mem_append, List.mem_singleton, or_assoc,
      or_iff_right_of_imp (fun hsummary => absurd hsummary (hevent summary)), or_comm, or_comm,
      ← List.mem_append, List.take_append_drop]
  next => rfl

theorem retained_concat_iff {log : List Event} {last : Event} {event : LLMConvertibleEvent} :
    Retained (log ++ [last]) event ↔ last = .convertible event ∨
      Retained log event ∧ ∀ condensation, last = .condensation condensation →
        event.id ∉ condensation.forgottenEventIds := by
  constructor
  · rintro ⟨before, after, hsplit, hafter⟩
    rcases List.eq_nil_or_concat after with rfl | ⟨kept, final, rfl⟩
    · exact .inl (List.cons.inj (List.append_inj' hsplit rfl).2).1
    · rw [List.concat_eq_append] at hsplit hafter
      rw [← List.cons_append, ← List.append_assoc] at hsplit
      obtain ⟨hlog, hlast⟩ := List.append_inj' hsplit rfl
      cases hlast
      refine .inr ⟨⟨before, kept, hlog, fun condensation hmem => ?_⟩, ?_⟩
      · exact hafter condensation (List.mem_append_left _ hmem)
      · rintro condensation rfl
        exact hafter condensation (List.mem_append_right _ List.mem_cons_self)
  · rintro (rfl | ⟨⟨before, after, rfl, hafter⟩, hlast⟩)
    · exact ⟨log, [], rfl, nofun⟩
    · refine ⟨before, after ++ [last], by simp, fun condensation hmem => ?_⟩
      rcases List.mem_append.mp hmem with hmem | hmem
      · exact hafter condensation hmem
      · exact hlast condensation (List.mem_singleton.mp hmem).symm

/-- Without condensations nothing is forgotten. -/
theorem retained_append_iff {log added : List Event} {event : LLMConvertibleEvent}
    (hadded : ∀ condensation, .condensation condensation ∉ added) :
    Retained (log ++ added) event ↔ .convertible event ∈ added ∨ Retained log event := by
  induction added using List.reverseRecOn with
  | nil => simp
  | append_singleton added last ih =>
      have hlast : ∀ condensation, last ≠ .condensation condensation := by
        rintro condensation rfl
        exact hadded condensation (List.mem_append_right _ List.mem_cons_self)
      rw [← List.append_assoc, retained_concat_iff,
        ih fun condensation hmem => hadded condensation (List.mem_append_left _ hmem),
        and_iff_left fun condensation heq => absurd heq (hlast condensation), List.mem_append,
        List.mem_singleton, ← or_assoc, @or_comm (last = _), @eq_comm _ last]

/-- The accumulation has the events that are retained. -/
theorem mem_appendEvents_iff {log : List Event} {event : LLMConvertibleEvent}
    (hevent : ∀ summary, event ≠ .condensationSummary summary) :
    event ∈ (appendEvents log).events ↔ Retained log event := by
  induction log using List.reverseRecOn with
  | nil =>
      constructor
      · exact nofun
      · rintro ⟨before, after, hsplit, -⟩
        cases before <;> cases hsplit
  | append_singleton log last ih =>
      rw [appendEvents_concat, retained_concat_iff, ← ih]
      cases last with
      | condensation condensation =>
          have happly := @mem_apply_iff condensation (appendEvents log).events event hevent
          constructor
          · intro hmem
            obtain ⟨hold, hkept⟩ := happly.mp hmem
            refine .inr ⟨hold, ?_⟩
            rintro _ ⟨⟩
            exact hkept
          · rintro (hlast | ⟨hold, hkept⟩)
            · cases hlast
            · exact happly.mpr ⟨hold, hkept condensation rfl⟩
      | convertible added =>
          change event ∈ (appendEvents log).events ++ [added] ↔ _
          rw [List.mem_append, List.mem_singleton, or_comm, Event.convertible.injEq, eq_comm]
          exact or_congr_right ⟨fun hold => ⟨hold, nofun⟩, And.left⟩
      | condensationRequest _ =>
          constructor
          · exact fun hold => .inr ⟨hold, nofun⟩
          · rintro (hlast | ⟨hold, -⟩)
            · cases hlast
            · exact hold
      | internal _ _ =>
          constructor
          · exact fun hold => .inr ⟨hold, nofun⟩
          · rintro (hlast | ⟨hold, -⟩)
            · cases hlast
            · exact hold

/-- A message is held together with nothing else. -/
theorem closed_message (log : List Event) (message : MessageEvent) :
    Closed log {event | event = .message message} where
  batches action haction := by cases haction
  answered action haction := by cases haction
  called observation hobservation := by cases hobservation
  loops loop hloop event hevent hmessage := by
    replace hmessage : event = .message message := hmessage
    subst hmessage
    obtain ⟨start, body, hshape, hstart, hbody⟩ := hloop.shape_convertibles
    rw [hshape, List.mem_cons] at hevent
    rcases hevent with rfl | hevent
    · cases hstart
    · cases hbody _ hevent

/-- A message is in the view just in case it is retained. -/
theorem message_mem_fromEvents_iff {log : List Event} (hdistinct : DistinctIds log)
    {message : MessageEvent} :
    .message message ∈ (fromEvents log).events ↔ Retained log (.message message) := by
  rw [← mem_appendEvents_iff fun summary heq => by cases heq]
  constructor
  · intro hmem
    exact (fromEvents_sublist hdistinct).subset hmem
  · intro hmem
    apply subset_fromEvents hdistinct (closed_message log message) _ rfl
    rintro event rfl
    rw [mem_dedup (appendEvents_ids hdistinct)]
    exact ⟨hmem, nofun⟩

end View

end ShuttleFlow
