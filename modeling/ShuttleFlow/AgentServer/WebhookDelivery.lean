import ShuttleFlow.AgentServer.WebhookSubscriber

/-! # Delivery to a webhook

Where the events are is a ledger: in the queue, or in the batch of a post. Each step of the
subscriber is a few entries in the ledger, unless a post is cancelled.
-/

namespace ShuttleFlow

namespace WebhookEvent

def postedBatch : WebhookEvent → List EventNumber
  | posted batch => batch
  | dropped _ _ | overlapped => []

def droppedEvents : WebhookEvent → List EventNumber
  | dropped events _ => events
  | posted _ | overlapped => []

end WebhookEvent

/-- The events that were posted, in the order of the posts. -/
def postedEvents (trace : List WebhookEvent) : List EventNumber :=
  trace.flatMap WebhookEvent.postedBatch

def droppedEvents (trace : List WebhookEvent) : List EventNumber :=
  trace.flatMap WebhookEvent.droppedEvents

/-- Where events are that were neither posted nor dropped. -/
structure WebhookLedger where
  arrived : Nat
  queue : List EventNumber
  batch : TaskNumber → List EventNumber

namespace WebhookLedger

def arrive (ledger : WebhookLedger) : WebhookLedger :=
  { ledger with arrived := ledger.arrived + 1, queue := ledger.queue ++ [ledger.arrived] }

def flush (ledger : WebhookLedger) (number : TaskNumber) : WebhookLedger :=
  { ledger with queue := [], batch := Function.update ledger.batch number ledger.queue }

def clear (ledger : WebhookLedger) (number : TaskNumber) : WebhookLedger :=
  { ledger with batch := Function.update ledger.batch number [] }

def giveBack (ledger : WebhookLedger) (number : TaskNumber) (overflow : Nat) : WebhookLedger :=
  { ledger.clear number with queue := (ledger.queue ++ ledger.batch number).drop overflow }

/-- Whether an event is in the queue or in a batch. -/
def Holds (ledger : WebhookLedger) (event : EventNumber) : Prop :=
  event ∈ ledger.queue ∨ ∃ number, event ∈ ledger.batch number

/-- With one post at a time, events are posted in their order. -/
structure Ordered (trace : List WebhookEvent) (ledger : WebhookLedger) : Prop where
  single : ∀ number other, ledger.batch number ≠ [] → ledger.batch other ≠ [] → number = other
  posted : (postedEvents trace).Pairwise (· < ·)
  held : ∀ event ∈ postedEvents trace, ∀ later, ledger.Holds later → event < later
  queue : ∀ number, ∀ event ∈ ledger.batch number, ∀ later ∈ ledger.queue, event < later

/-- No event is lost, and the oldest ones are dropped. -/
structure Sound (trace : List WebhookEvent) (ledger : WebhookLedger) : Prop where
  queue : ledger.queue.Pairwise (· < ·)
  batch : ∀ number, (ledger.batch number).Pairwise (· < ·)
  arrived : ∀ event, ledger.Holds event ∨ event ∈ postedEvents trace → event < ledger.arrived
  accounted : ∀ event, event < ledger.arrived → ledger.Holds event ∨
    event ∈ postedEvents trace ∨ event ∈ droppedEvents trace
  oldest : ∀ events remaining, .dropped events remaining ∈ trace →
    ∀ event ∈ events, ∀ other ∈ remaining, event < other
  ordered : .overlapped ∉ trace → Ordered trace ledger

variable {trace : List WebhookEvent} {ledger : WebhookLedger} {number : TaskNumber}

theorem Sound.arrive (hsound : Sound trace ledger) : Sound trace ledger.arrive where
  queue := by
    refine List.pairwise_append.mpr ⟨hsound.queue, List.pairwise_singleton _ _, ?_⟩
    intro event hevent last hlast
    rw [List.mem_singleton.mp hlast]
    exact hsound.arrived event (.inl (.inl hevent))
  batch := hsound.batch
  arrived event hevent := by
    obtain (hqueue | hbatch) | hposted := hevent
    · cases List.mem_append.mp hqueue with
      | inl hold => exact Nat.lt_succ_of_lt (hsound.arrived event (.inl (.inl hold)))
      | inr hnew =>
          rw [List.mem_singleton.mp hnew]
          exact Nat.lt_succ_self _
    · exact Nat.lt_succ_of_lt (hsound.arrived event (.inl (.inr hbatch)))
    · exact Nat.lt_succ_of_lt (hsound.arrived event (.inr hposted))
  accounted event hevent := by
    cases Nat.lt_succ_iff_lt_or_eq.mp hevent with
    | inl hold =>
        refine (hsound.accounted event hold).imp_left fun hholds => ?_
        exact hholds.imp_left (List.mem_append_left _)
    | inr hnew => exact .inl (.inl (List.mem_append_right _ (List.mem_singleton.mpr hnew)))
  oldest := hsound.oldest
  ordered hsingle := by
    have hordered := hsound.ordered hsingle
    refine ⟨hordered.single, hordered.posted, fun event hevent later hlater => ?_,
      fun number event hevent later hlater => ?_⟩
    · obtain hqueue | hbatch := hlater
      · cases List.mem_append.mp hqueue with
        | inl hold => exact hordered.held event hevent later (.inl hold)
        | inr hnew =>
            rw [List.mem_singleton.mp hnew]
            exact hsound.arrived event (.inr hevent)
      · exact hordered.held event hevent later (.inr hbatch)
    · cases List.mem_append.mp hlater with
      | inl hold => exact hordered.queue number event hevent later hold
      | inr hnew =>
          rw [List.mem_singleton.mp hnew]
          exact hsound.arrived event (.inl (.inr ⟨number, hevent⟩))

@[simp] theorem batch_flush_self : (ledger.flush number).batch number = ledger.queue :=
  Function.update_self ..

theorem batch_flush_of_ne {other : TaskNumber} (hother : other ≠ number) :
    (ledger.flush number).batch other = ledger.batch other :=
  Function.update_of_ne hother ..

@[simp] theorem batch_clear_self : (ledger.clear number).batch number = [] :=
  Function.update_self ..

theorem batch_clear_of_ne {other : TaskNumber} (hother : other ≠ number) :
    (ledger.clear number).batch other = ledger.batch other :=
  Function.update_of_ne hother ..

/-- What is in a batch after another one was cleared. -/
theorem mem_batch_clear_iff {other : TaskNumber} {event : EventNumber} :
    event ∈ (ledger.clear number).batch other ↔ other ≠ number ∧ event ∈ ledger.batch other := by
  by_cases hother : other = number
  · subst hother
    rw [batch_clear_self]
    exact iff_of_false List.not_mem_nil fun hmem => hmem.1 rfl
  · rw [batch_clear_of_ne hother]
    exact (and_iff_right hother).symm

/-- Nothing is gained and nothing is lost when the queue becomes a batch. -/
theorem holds_flush_iff (hempty : ledger.batch number = []) (event : EventNumber) :
    (ledger.flush number).Holds event ↔ ledger.Holds event := by
  constructor
  · rintro (hqueue | ⟨other, hbatch⟩)
    · cases hqueue
    · by_cases hother : other = number
      · rw [hother, batch_flush_self] at hbatch
        exact .inl hbatch
      · rw [batch_flush_of_ne hother] at hbatch
        exact .inr ⟨other, hbatch⟩
  · rintro (hqueue | ⟨other, hbatch⟩)
    · refine .inr ⟨number, ?_⟩
      rw [batch_flush_self]
      exact hqueue
    · have hother : other ≠ number := by
        rintro rfl
        rw [hempty] at hbatch
        cases hbatch
      refine .inr ⟨other, ?_⟩
      rw [batch_flush_of_ne hother]
      exact hbatch

@[simp] theorem postedEvents_append (trace seen : List WebhookEvent) :
    postedEvents (trace ++ seen) = postedEvents trace ++ postedEvents seen :=
  List.flatMap_append

@[simp] theorem droppedEvents_append (trace seen : List WebhookEvent) :
    droppedEvents (trace ++ seen) = droppedEvents trace ++ droppedEvents seen :=
  List.flatMap_append

/-- The queue becomes a batch; whether there is another one is seen. -/
theorem Sound.flush (hsound : Sound trace ledger) (hempty : ledger.batch number = [])
    {isPosting : Bool} (hposting : ∀ other, ledger.batch other ≠ [] → isPosting = true) :
    Sound (trace ++ if isPosting then [.overlapped] else []) (ledger.flush number) := by
  have hposted : postedEvents (trace ++ if isPosting then [.overlapped] else []) =
      postedEvents trace := by
    rw [postedEvents_append]
    cases isPosting <;> exact List.append_nil _
  have hdropped : droppedEvents (trace ++ if isPosting then [.overlapped] else []) =
      droppedEvents trace := by
    rw [droppedEvents_append]
    cases isPosting <;> exact List.append_nil _
  constructor
  · exact List.Pairwise.nil
  · intro other
    by_cases hother : other = number
    · rw [hother, batch_flush_self]
      exact hsound.queue
    · rw [batch_flush_of_ne hother]
      exact hsound.batch other
  · intro event hevent
    rw [holds_flush_iff hempty, hposted] at hevent
    exact hsound.arrived event hevent
  · intro event hevent
    rw [holds_flush_iff hempty, hposted, hdropped]
    exact hsound.accounted event hevent
  · intro events remaining hmem
    refine hsound.oldest events remaining ((List.mem_append.mp hmem).resolve_right fun hnew => ?_)
    cases isPosting with
    | false => cases hnew
    | true => cases List.mem_singleton.mp hnew
  · intro hsingle
    rw [List.mem_append, not_or] at hsingle
    have hordered := hsound.ordered hsingle.1
    have halone : ∀ other, ledger.batch other = [] := by
      intro other
      by_contra hother
      rw [hposting other hother] at hsingle
      exact hsingle.2 List.mem_cons_self
    have hothers : ∀ other, (ledger.flush number).batch other ≠ [] → other = number := by
      intro other hbatch
      by_contra hother
      rw [batch_flush_of_ne hother] at hbatch
      exact hbatch (halone other)
    refine ⟨fun first second hfirst hsecond =>
      (hothers first hfirst).trans (hothers second hsecond).symm, ?_, ?_, ?_⟩
    · rw [hposted]
      exact hordered.posted
    · intro event hevent later hlater
      rw [hposted] at hevent
      exact hordered.held event hevent later ((holds_flush_iff hempty later).mp hlater)
    · intro _ _ _ later hlater
      cases hlater

/-- A batch was posted. -/
theorem Sound.deliver (hsound : Sound trace ledger) (number : TaskNumber) :
    Sound (trace ++ [.posted (ledger.batch number)]) (ledger.clear number) := by
  have hposted : postedEvents (trace ++ [.posted (ledger.batch number)]) =
      postedEvents trace ++ ledger.batch number := by
    rw [postedEvents_append]
    exact congrArg _ (List.append_nil _)
  have hdropped : droppedEvents (trace ++ [.posted (ledger.batch number)]) =
      droppedEvents trace := by
    rw [droppedEvents_append]
    exact List.append_nil _
  have hholds : ∀ event, (ledger.clear number).Holds event → ledger.Holds event := by
    rintro event (hqueue | ⟨other, hbatch⟩)
    · exact .inl hqueue
    · exact .inr ⟨other, (mem_batch_clear_iff.mp hbatch).2⟩
  constructor
  · exact hsound.queue
  · intro other
    by_cases hother : other = number
    · rw [hother, batch_clear_self]
      exact List.Pairwise.nil
    · rw [batch_clear_of_ne hother]
      exact hsound.batch other
  · intro event hevent
    rw [hposted, List.mem_append] at hevent
    obtain hheld | hold | hnew := hevent
    · exact hsound.arrived event (.inl (hholds event hheld))
    · exact hsound.arrived event (.inr hold)
    · exact hsound.arrived event (.inl (.inr ⟨number, hnew⟩))
  · intro event hevent
    rw [hposted, hdropped, List.mem_append]
    obtain (hqueue | ⟨other, hbatch⟩) | hold | hdrop := hsound.accounted event hevent
    · exact .inl (.inl hqueue)
    · by_cases hother : other = number
      · exact .inr (.inl (.inr (hother ▸ hbatch)))
      · exact .inl (.inr ⟨other, mem_batch_clear_iff.mpr ⟨hother, hbatch⟩⟩)
    · exact .inr (.inl (.inl hold))
    · exact .inr (.inr hdrop)
  · intro events remaining hmem
    refine hsound.oldest events remaining ((List.mem_append.mp hmem).resolve_right fun hnew => ?_)
    cases List.mem_singleton.mp hnew
  · intro hsingle
    rw [List.mem_append, not_or] at hsingle
    have hordered := hsound.ordered hsingle.1
    refine ⟨fun first second hfirst hsecond => ?_, ?_, ?_, ?_⟩
    · have hmem : ∀ other, (ledger.clear number).batch other ≠ [] → ledger.batch other ≠ [] := by
        intro other hother
        obtain ⟨event, hevent⟩ := List.exists_mem_of_ne_nil _ hother
        exact List.ne_nil_of_mem (mem_batch_clear_iff.mp hevent).2
      exact hordered.single first second (hmem first hfirst) (hmem second hsecond)
    · rw [hposted, List.pairwise_append]
      exact ⟨hordered.posted, hsound.batch number, fun event hevent later hlater =>
        hordered.held event hevent later (.inr ⟨number, hlater⟩)⟩
    · intro event hevent later hlater
      rw [hposted, List.mem_append] at hevent
      cases hevent with
      | inl hold => exact hordered.held event hold later (hholds later hlater)
      | inr hnew =>
          obtain hqueue | ⟨other, hbatch⟩ := hlater
          · exact hordered.queue number event hnew later hqueue
          · obtain ⟨hother, hbatch⟩ := mem_batch_clear_iff.mp hbatch
            exact absurd (hordered.single other number (List.ne_nil_of_mem hbatch)
              (List.ne_nil_of_mem hnew)) hother
    · intro other event hevent later hlater
      exact hordered.queue other event (mem_batch_clear_iff.mp hevent).2 later hlater

/-- What was dropped when a batch was given back. -/
def overflowEvents (queue : List EventNumber) (overflow : Nat) : List WebhookEvent :=
  if 0 < overflow then [.dropped (queue.take overflow) (queue.drop overflow)] else []

theorem droppedEvents_overflowEvents (queue : List EventNumber) (overflow : Nat) :
    droppedEvents (overflowEvents queue overflow) = queue.take overflow := by
  rw [overflowEvents]
  split
  next => exact List.append_nil _
  next hnone =>
    rw [Nat.eq_zero_of_not_pos hnone]
    rfl

theorem postedEvents_overflowEvents (queue : List EventNumber) (overflow : Nat) :
    postedEvents (overflowEvents queue overflow) = [] := by
  rw [overflowEvents]
  split <;> rfl

/-- A batch goes back to a queue of older events. -/
theorem Sound.giveBack (hsound : Sound trace ledger) (overflow : Nat)
    (holder : ∀ event ∈ ledger.queue, ∀ later ∈ ledger.batch number, event < later) :
    Sound (trace ++ overflowEvents (ledger.queue ++ ledger.batch number) overflow)
      (ledger.giveBack number overflow) := by
  have hsorted : (ledger.queue ++ ledger.batch number).Pairwise (· < ·) :=
    List.pairwise_append.mpr ⟨hsound.queue, hsound.batch number, holder⟩
  have hposted : postedEvents (trace ++ overflowEvents (ledger.queue ++ ledger.batch number)
      overflow) = postedEvents trace := by
    rw [postedEvents_append, postedEvents_overflowEvents, List.append_nil]
  have hdropped : droppedEvents (trace ++ overflowEvents (ledger.queue ++ ledger.batch number)
      overflow) =
      droppedEvents trace ++ (ledger.queue ++ ledger.batch number).take overflow := by
    rw [droppedEvents_append, droppedEvents_overflowEvents]
  have hfull : ∀ event ∈ ledger.queue ++ ledger.batch number, ledger.Holds event := by
    intro event hmem
    exact (List.mem_append.mp hmem).imp_right fun hbatch => ⟨number, hbatch⟩
  have hholds : ∀ event, (ledger.giveBack number overflow).Holds event → ledger.Holds event := by
    rintro event (hqueue | ⟨other, hbatch⟩)
    · exact hfull event (List.mem_of_mem_drop hqueue)
    · exact .inr ⟨other, (mem_batch_clear_iff.mp hbatch).2⟩
  have hkept : ∀ event ∈ ledger.queue ++ ledger.batch number,
      (ledger.giveBack number overflow).Holds event ∨
        event ∈ (ledger.queue ++ ledger.batch number).take overflow := by
    intro event hmem
    rw [← List.take_append_drop overflow (ledger.queue ++ ledger.batch number),
      List.mem_append] at hmem
    exact hmem.symm.imp_left .inl
  constructor
  · exact hsorted.sublist (List.drop_sublist ..)
  · intro other
    change ((ledger.clear number).batch other).Pairwise (· < ·)
    by_cases hother : other = number
    · rw [hother, batch_clear_self]
      exact List.Pairwise.nil
    · rw [batch_clear_of_ne hother]
      exact hsound.batch other
  · intro event hevent
    rw [hposted] at hevent
    exact hsound.arrived event (hevent.imp_left (hholds event))
  · intro event hevent
    rw [hposted, hdropped, List.mem_append]
    have hback : event ∈ ledger.queue ++ ledger.batch number →
        (ledger.giveBack number overflow).Holds event ∨ event ∈ postedEvents trace ∨
          event ∈ droppedEvents trace ∨
            event ∈ (ledger.queue ++ ledger.batch number).take overflow :=
      fun hmem => (hkept event hmem).imp_right fun htaken => .inr (.inr htaken)
    obtain (hqueue | ⟨other, hbatch⟩) | hold | hdrop := hsound.accounted event hevent
    · exact hback (List.mem_append_left _ hqueue)
    · by_cases hother : other = number
      · exact hback (List.mem_append_right _ (hother ▸ hbatch))
      · exact .inl (.inr ⟨other, mem_batch_clear_iff.mpr ⟨hother, hbatch⟩⟩)
    · exact .inr (.inl hold)
    · exact .inr (.inr (.inl hdrop))
  · intro events remaining hmem
    cases List.mem_append.mp hmem with
    | inl hold => exact hsound.oldest events remaining hold
    | inr hnew =>
        rw [overflowEvents] at hnew
        split at hnew
        next =>
          cases List.mem_singleton.mp hnew
          rw [← List.take_append_drop overflow (ledger.queue ++ ledger.batch number),
            List.pairwise_append] at hsorted
          exact hsorted.2.2
        next => cases hnew
  · intro hsingle
    rw [List.mem_append, not_or] at hsingle
    have hordered := hsound.ordered hsingle.1
    refine ⟨fun first second hfirst hsecond => ?_, ?_, ?_, ?_⟩
    · obtain ⟨event, hevent⟩ := List.exists_mem_of_ne_nil _ hfirst
      obtain ⟨other, hother⟩ := List.exists_mem_of_ne_nil _ hsecond
      exact hordered.single first second (List.ne_nil_of_mem (mem_batch_clear_iff.mp hevent).2)
        (List.ne_nil_of_mem (mem_batch_clear_iff.mp hother).2)
    · rw [hposted]
      exact hordered.posted
    · intro event hevent later hlater
      rw [hposted] at hevent
      exact hordered.held event hevent later (hholds later hlater)
    · intro other event hevent later hlater
      obtain ⟨hother, hbatch⟩ := mem_batch_clear_iff.mp hevent
      cases List.mem_append.mp (List.mem_of_mem_drop hlater) with
      | inl hqueue => exact hordered.queue other event hbatch later hqueue
      | inr hback =>
          exact absurd (hordered.single other number (List.ne_nil_of_mem hbatch)
            (List.ne_nil_of_mem hback)) hother

end WebhookLedger

namespace WebhookSubscriber

/-! ## The ledger of the subscriber -/

def ledger (subscriber : WebhookSubscriber) : WebhookLedger where
  arrived := subscriber.arrived
  queue := subscriber.queue
  batch number := (subscriber.tasks number).elim [] fun task => task.phase.batch

/-- Cancelled tasks have no batch, and tasks have the numbers of those that were started. -/
structure Healthy (subscriber : WebhookSubscriber) : Prop where
  cancelled : ∀ number task, subscriber.tasks number = some task → task.cancelled = true →
    task.phase.batch = []
  fresh : ∀ number, subscriber.started ≤ number → subscriber.tasks number = none

/-- The flush timer is in the middle of a post. -/
def isTimerPosting (subscriber : WebhookSubscriber) : Bool :=
  subscriber.flushTimer.any fun number =>
    (subscriber.tasks number).any fun task => task.phase.isPosting

/-- Whether a batch that fails now is given back to a queue of older events. -/
def givesBackInOrder (spec : WebhookSpec) (subscriber : WebhookSubscriber) :
    WebhookPhase → Bool
  | .requesting batch attempt => attempt < spec.numRetries ||
      subscriber.queue.all fun event => batch.all fun later => event < later
  | .created | .sleeping | .retrying _ _ => true

/-- The flush timer is not cancelled while it posts, and the queue is older than a batch that
goes back to it. -/
def allowed (spec : WebhookSpec) (subscriber : WebhookSubscriber) : WebhookLabel → Bool
  | .call => subscriber.queue.length + 1 < spec.eventBufferSize || !subscriber.isTimerPosting
  | .close => !subscriber.isTimerPosting
  | .respond number false => (subscriber.tasks number).all fun task =>
      subscriber.givesBackInOrder spec task.phase
  | .respond _ true | .begin _ | .wake _ | .retry _ | .cancelled _ => true

variable {spec : WebhookSpec} {subscriber next : WebhookSubscriber} {number : TaskNumber}
  {task : WebhookTask} {trace seen : List WebhookEvent}

theorem batch_ledger (htask : subscriber.tasks number = some task) :
    subscriber.ledger.batch number = task.phase.batch := by
  change (subscriber.tasks number).elim [] _ = _
  rw [htask]
  rfl

@[simp] theorem tasks_setTask_self (moved : Option WebhookTask) :
    (subscriber.setTask number moved).tasks number = moved :=
  Function.update_self ..

theorem tasks_setTask_of_ne {other : TaskNumber} (hother : other ≠ number)
    (moved : Option WebhookTask) :
    (subscriber.setTask number moved).tasks other = subscriber.tasks other :=
  Function.update_of_ne hother ..

theorem ledger_setTask (subscriber : WebhookSubscriber) (number : TaskNumber)
    (task : Option WebhookTask) :
    (subscriber.setTask number task).ledger =
      { subscriber.ledger with
        batch := Function.update subscriber.ledger.batch number
          (task.elim [] fun task => task.phase.batch) } := by
  rw [ledger, WebhookLedger.mk.injEq]
  refine ⟨rfl, rfl, funext fun other => ?_⟩
  by_cases hother : other = number
  · rw [hother, tasks_setTask_self, Function.update_self]
  · rw [tasks_setTask_of_ne hother, Function.update_of_ne hother]
    rfl

/-- A task moves on with its batch. -/
theorem ledger_setTask_of_batch {moved : Option WebhookTask}
    (hbatch : moved.elim [] (fun task => task.phase.batch) = subscriber.ledger.batch number) :
    (subscriber.setTask number moved).ledger = subscriber.ledger := by
  rw [ledger_setTask, hbatch, Function.update_eq_self]

theorem ledger_finish (subscriber : WebhookSubscriber) (number : TaskNumber)
    (task : WebhookTask) :
    (subscriber.finish number task).ledger = subscriber.ledger.clear number :=
  ledger_setTask subscriber number none

theorem ledger_cancelFlushTimer (subscriber : WebhookSubscriber) :
    subscriber.cancelFlushTimer.ledger = subscriber.ledger := by
  rw [cancelFlushTimer]
  split
  next => rfl
  next number _ =>
    refine (ledger_setTask_of_batch ?_ : (subscriber.setTask number _).ledger = _)
    change _ = (subscriber.tasks number).elim [] _
    cases subscriber.tasks number <;> rfl

theorem Healthy.lt_started (hhealthy : Healthy subscriber)
    (htask : subscriber.tasks number = some task) : number < subscriber.started := by
  by_contra hlarge
  cases htask.symm.trans (hhealthy.fresh number (Nat.le_of_not_lt hlarge))

theorem isPosting_of_batch (hhealthy : Healthy subscriber)
    (hbatch : subscriber.ledger.batch number ≠ []) : subscriber.isPosting = true := by
  cases htask : subscriber.tasks number with
  | none =>
      refine absurd ?_ hbatch
      change (subscriber.tasks number).elim [] _ = _
      rw [htask]
      rfl
  | some task =>
      rw [batch_ledger htask] at hbatch
      refine List.any_eq_true.mpr ⟨number, List.mem_range.mpr (hhealthy.lt_started htask), ?_⟩
      rw [htask, Option.any_some]
      cases hphase : task.phase with
      | created | sleeping =>
          rw [hphase] at hbatch
          exact absurd rfl hbatch
      | requesting _ _ | retrying _ _ => rfl

/-- A task changes; if it is cancelled it has no batch. -/
theorem Healthy.setTask (hhealthy : Healthy subscriber) {moved : Option WebhookTask}
    (hmoved : ∀ task, moved = some task → number < subscriber.started ∧
      (task.cancelled = true → task.phase.batch = [])) :
    Healthy (subscriber.setTask number moved) := by
  constructor
  · intro other task htask
    by_cases hother : other = number
    · rw [hother, tasks_setTask_self] at htask
      exact (hmoved task htask).2
    · rw [tasks_setTask_of_ne hother] at htask
      exact hhealthy.cancelled other task htask
  · intro other hlarge
    by_cases hother : other = number
    · rw [hother, tasks_setTask_self, Option.eq_none_iff_forall_ne_some]
      intro task htask
      exact absurd (hmoved task htask).1 (Nat.not_lt_of_le (hother ▸ hlarge))
    · rw [tasks_setTask_of_ne hother]
      exact hhealthy.fresh other hlarge

/-- Neither the flush timer nor the number of tasks started matters. -/
theorem Healthy.of_tasks (hhealthy : Healthy subscriber)
    (htasks : next.tasks = subscriber.tasks) (hstarted : subscriber.started ≤ next.started) :
    Healthy next where
  cancelled number task htask := hhealthy.cancelled number task (htasks ▸ htask)
  fresh number hlarge := htasks ▸ hhealthy.fresh number (Nat.le_trans hstarted hlarge)

theorem Healthy.finish (hhealthy : Healthy subscriber) (number : TaskNumber)
    (task : WebhookTask) : Healthy (subscriber.finish number task) :=
  (@Healthy.setTask subscriber number hhealthy none nofun).of_tasks rfl
    (Nat.le_refl _)

/-- A timer that is not posting is cancelled. -/
theorem Healthy.cancelFlushTimer (hhealthy : Healthy subscriber)
    (hposting : subscriber.isTimerPosting = false) : Healthy subscriber.cancelFlushTimer := by
  rw [WebhookSubscriber.cancelFlushTimer]
  split
  next => exact hhealthy
  next number htimer =>
    refine (@Healthy.setTask subscriber number hhealthy _ fun moved hmoved => ?_).of_tasks rfl
      (Nat.le_refl _)
    obtain ⟨task, htask, rfl⟩ := Option.map_eq_some_iff.mp hmoved
    rw [isTimerPosting, htimer, Option.any_some, htask, Option.any_some] at hposting
    refine ⟨hhealthy.lt_started htask, fun _ => ?_⟩
    change task.phase.batch = []
    cases hphase : task.phase with
    | created | sleeping => rfl
    | requesting _ _ | retrying _ _ =>
        rw [hphase] at hposting
        cases hposting

/-- A state of the subscriber with the events that were seen. -/
structure Delivering (trace : List WebhookEvent) (subscriber : WebhookSubscriber) : Prop where
  sound : WebhookLedger.Sound trace subscriber.ledger
  healthy : Healthy subscriber

/-- A task without a batch begins to post. -/
theorem Delivering.postEvents (hdelivering : Delivering trace subscriber) (isTimer : Bool)
    (hempty : subscriber.ledger.batch number = []) (hnumber : number < subscriber.started) :
    Delivering (trace ++ (subscriber.postEvents number isTimer).2)
      (subscriber.postEvents number isTimer).1 := by
  constructor
  · have hledger : (subscriber.postEvents number isTimer).1.ledger =
        subscriber.ledger.flush number := by
      have htask := ledger_setTask subscriber number
        (some { isTimer, phase := .requesting subscriber.queue 0 })
      exact congrArg (fun ledger => { ledger with queue := [] }) htask
    rw [hledger]
    exact hdelivering.sound.flush hempty fun other hother =>
      isPosting_of_batch hdelivering.healthy hother
  · refine (@Healthy.setTask subscriber number hdelivering.healthy _
      fun moved hmoved => ?_).of_tasks rfl
      (Nat.le_refl _)
    cases hmoved
    exact ⟨hnumber, nofun⟩

/-- What is called begins to post. -/
theorem Delivering.startTask (hdelivering : Delivering trace subscriber) :
    Delivering (trace ++ (subscriber.startTask.postEvents subscriber.started false).2)
      (subscriber.startTask.postEvents subscriber.started false).1 := by
  have hstarted : Delivering trace subscriber.startTask :=
    ⟨hdelivering.sound, hdelivering.healthy.of_tasks rfl (Nat.le_succ _)⟩
  refine hstarted.postEvents false ?_ (Nat.lt_succ_self _)
  change (subscriber.tasks subscriber.started).elim [] _ = []
  rw [hdelivering.healthy.fresh _ (Nat.le_refl _)]
  rfl

theorem started_cancelFlushTimer (subscriber : WebhookSubscriber) :
    subscriber.cancelFlushTimer.started = subscriber.started := by
  rw [cancelFlushTimer]
  split <;> rfl

theorem Delivering.cancelFlushTimer (hdelivering : Delivering trace subscriber)
    (hposting : subscriber.isTimerPosting = false) :
    Delivering trace subscriber.cancelFlushTimer where
  sound := (ledger_cancelFlushTimer subscriber).symm ▸ hdelivering.sound
  healthy := hdelivering.healthy.cancelFlushTimer hposting

/-- A task moves on with its batch. -/
theorem Delivering.move (hdelivering : Delivering trace subscriber)
    (htask : subscriber.tasks number = some task) {moved : WebhookTask}
    (hbatch : moved.phase.batch = task.phase.batch) (hactive : moved.cancelled = false) :
    Delivering trace (subscriber.setTask number (some moved)) := by
  constructor
  · rw [@ledger_setTask_of_batch subscriber number (some moved)
      (hbatch.trans (batch_ledger htask).symm)]
    exact hdelivering.sound
  · refine hdelivering.healthy.setTask fun other hother => ?_
    cases hother
    refine ⟨hdelivering.healthy.lt_started htask, fun hcancelled => ?_⟩
    cases hactive.symm.trans hcancelled

theorem Delivering.startFlushTimer (hdelivering : Delivering trace subscriber) :
    Delivering trace subscriber.startFlushTimer := by
  have hnone : subscriber.tasks subscriber.started = none :=
    hdelivering.healthy.fresh _ (Nat.le_refl _)
  have hbatch : subscriber.startTask.ledger.batch subscriber.started = [] := by
    change (subscriber.tasks subscriber.started).elim [] _ = []
    rw [hnone]
    rfl
  have hledger := @ledger_setTask_of_batch subscriber.startTask subscriber.started
    (some { isTimer := true, phase := .created }) hbatch.symm
  constructor
  · change WebhookLedger.Sound trace (subscriber.startTask.setTask _ _).ledger
    rw [hledger]
    exact hdelivering.sound
  · have hstarted : Healthy subscriber.startTask :=
      hdelivering.healthy.of_tasks rfl (Nat.le_succ _)
    refine (hstarted.setTask fun task htask => ?_ : Healthy (subscriber.startTask.setTask
      subscriber.started (some { isTimer := true, phase := .created }))).of_tasks rfl
        (Nat.le_refl _)
    cases htask
    exact ⟨Nat.lt_succ_self _, nofun⟩

/-- An event is queued, and the queue is posted when the buffer is full. -/
theorem Delivering.handleCall (hdelivering : Delivering trace subscriber)
    (hallowed : allowed spec subscriber .call) :
    Delivering (trace ++ (subscriber.handleCall spec).2) (subscriber.handleCall spec).1 := by
  have harrived : Delivering trace
      { subscriber with
        arrived := subscriber.arrived + 1
        queue := subscriber.queue ++ [subscriber.arrived] } :=
    ⟨hdelivering.sound.arrive, hdelivering.healthy.of_tasks rfl (Nat.le_refl _)⟩
  rw [WebhookSubscriber.handleCall]
  dsimp only
  split
  next hfull =>
    rw [List.length_append, List.length_singleton] at hfull
    have hposting : subscriber.isTimerPosting = false := by
      simpa [allowed, Nat.not_lt_of_le hfull] using hallowed
    have hcancelled := (harrived.cancelFlushTimer hposting).startTask
    rw [started_cancelFlushTimer] at hcancelled
    exact hcancelled
  next =>
    split
    next =>
      rw [List.append_nil]
      exact harrived.startFlushTimer
    next =>
      rw [List.append_nil]
      exact harrived

theorem Delivering.handleClose (hdelivering : Delivering trace subscriber)
    (hallowed : allowed spec subscriber .close) :
    Delivering (trace ++ subscriber.handleClose.2) subscriber.handleClose.1 := by
  have hposting : subscriber.isTimerPosting = false := by simpa [allowed] using hallowed
  have hcancelled := hdelivering.cancelFlushTimer hposting
  rw [WebhookSubscriber.handleClose]
  split
  next =>
    rw [List.append_nil]
    exact hcancelled
  next => exact hcancelled.startTask

/-- After the last attempt the batch goes back. -/
theorem Delivering.requeue (hdelivering : Delivering trace subscriber)
    (htask : subscriber.tasks number = some task)
    (holder : ∀ event ∈ subscriber.queue, ∀ later ∈ task.phase.batch, event < later) :
    Delivering (trace ++ ((subscriber.finish number task).requeue spec task.phase.batch).2)
      ((subscriber.finish number task).requeue spec task.phase.batch).1 := by
  have hbatch := batch_ledger htask
  have hback := @WebhookLedger.Sound.giveBack _ _ number hdelivering.sound
    ((subscriber.queue ++ task.phase.batch).length - spec.maxQueueSize) (hbatch ▸ holder)
  rw [WebhookLedger.giveBack, hbatch, ← ledger_finish subscriber number task] at hback
  have hhealthy := hdelivering.healthy.finish number task
  have hqueue : (subscriber.finish number task).queue = subscriber.queue := rfl
  by_cases hoverflow :
      0 < (subscriber.queue ++ task.phase.batch).length - spec.maxQueueSize
  · rw [WebhookLedger.overflowEvents, if_pos hoverflow] at hback
    simp only [WebhookSubscriber.requeue, hqueue, if_pos hoverflow]
    exact ⟨hback, hhealthy.of_tasks rfl (Nat.le_refl _)⟩
  · rw [WebhookLedger.overflowEvents, if_neg hoverflow, Nat.eq_zero_of_not_pos hoverflow,
      List.drop_zero] at hback
    simp only [WebhookSubscriber.requeue, hqueue, if_neg hoverflow]
    exact ⟨hback, hhealthy.of_tasks rfl (Nat.le_refl _)⟩

/-- A task without a batch ends. -/
theorem Delivering.finish (hdelivering : Delivering trace subscriber)
    (htask : subscriber.tasks number = some task) (hempty : task.phase.batch = []) :
    Delivering trace (subscriber.finish number task) ∧
      Delivering trace (subscriber.setTask number none) := by
  have hledger : (subscriber.setTask number none).ledger = subscriber.ledger :=
    ledger_setTask_of_batch (hempty.symm.trans (batch_ledger htask).symm)
  have hset : Healthy (subscriber.setTask number none) := hdelivering.healthy.setTask nofun
  refine ⟨⟨?_, hdelivering.healthy.finish number task⟩, ⟨?_, hset⟩⟩
  · change WebhookLedger.Sound trace (subscriber.setTask number none).ledger
    rw [hledger]
    exact hdelivering.sound
  · rw [hledger]
    exact hdelivering.sound

/-- A task that is not cancelled continues. -/
theorem Delivering.continueTask (hdelivering : Delivering trace subscriber)
    (htask : subscriber.tasks number = some task) (hactive : task.cancelled = false)
    {label : WebhookLabel} (hback : ∀ other, label = .respond other false →
      subscriber.givesBackInOrder spec task.phase)
    (hnext : subscriber.continueTask spec number task label = some (next, seen)) :
    Delivering (trace ++ seen) next := by
  obtain ⟨isTimer, phase, cancelled⟩ := task
  cases label with
  | call | close | cancelled _ => cases hnext
  | begin _ =>
      cases phase with
      | created =>
          cases hnext
          rw [List.append_nil]
          exact hdelivering.move htask rfl hactive
      | sleeping | requesting _ _ | retrying _ _ => cases hnext
  | wake _ =>
      cases phase with
      | sleeping =>
          simp only [WebhookSubscriber.continueTask] at hnext
          split at hnext
          next =>
            obtain ⟨rfl, rfl⟩ := Prod.ext_iff.mp (Option.some.inj hnext)
            rw [List.append_nil]
            exact (hdelivering.finish htask rfl).1
          next =>
            obtain ⟨rfl, rfl⟩ := Prod.ext_iff.mp (Option.some.inj hnext)
            exact hdelivering.postEvents isTimer (batch_ledger htask)
              (hdelivering.healthy.lt_started htask)
      | created | requesting _ _ | retrying _ _ => cases hnext
  | respond other success =>
      cases phase with
      | requesting batch attempt =>
          rw [WebhookSubscriber.continueTask] at hnext
          cases success with
          | true =>
              cases hnext
              refine ⟨?_, hdelivering.healthy.finish number _⟩
              rw [ledger_finish]
              have hdelivered := hdelivering.sound.deliver number
              rw [batch_ledger htask] at hdelivered
              exact hdelivered
          | false =>
              simp only [Bool.false_eq_true, if_false] at hnext
              split at hnext
              next =>
                cases hnext
                rw [List.append_nil]
                exact hdelivering.move htask rfl hactive
              next hlast =>
                obtain ⟨rfl, rfl⟩ := Prod.ext_iff.mp (Option.some.inj hnext)
                have holder := hback other rfl
                rw [givesBackInOrder, decide_eq_false hlast, Bool.false_or] at holder
                refine hdelivering.requeue htask fun event hevent later hlater => ?_
                exact of_decide_eq_true
                  (List.all_eq_true.mp (List.all_eq_true.mp holder event hevent) later hlater)
      | created | sleeping | retrying _ _ => cases hnext
  | retry _ =>
      cases phase with
      | retrying batch attempt =>
          cases hnext
          rw [List.append_nil]
          exact hdelivering.move htask rfl hactive
      | created | sleeping | requesting _ _ => cases hnext

/-- A step that neither cancels a post nor gives a batch back out of order. -/
theorem Delivering.step (hdelivering : Delivering trace subscriber) {label : WebhookLabel}
    (hallowed : allowed spec subscriber label)
    (hnext : subscriber.step spec label = some (next, seen)) :
    Delivering (trace ++ seen) next := by
  have hcontinue : ∀ number, (∀ other, label = .respond other false → other = number) →
      ((subscriber.tasks number).bind fun task =>
        if task.cancelled then none else subscriber.continueTask spec number task label) =
          some (next, seen) → Delivering (trace ++ seen) next := by
    intro number hnumber hnext
    obtain ⟨task, htask, hnext⟩ := Option.bind_eq_some_iff.mp hnext
    rw [Option.ite_none_left_eq_some] at hnext
    refine hdelivering.continueTask htask (eq_false_of_ne_true hnext.1) ?_ hnext.2
    rintro other rfl
    rw [hnumber other rfl, allowed, htask] at hallowed
    exact hallowed
  cases label with
  | call =>
      obtain ⟨rfl, rfl⟩ := Prod.ext_iff.mp (Option.some.inj hnext)
      exact hdelivering.handleCall hallowed
  | close =>
      obtain ⟨rfl, rfl⟩ := Prod.ext_iff.mp (Option.some.inj hnext)
      exact hdelivering.handleClose hallowed
  | cancelled number =>
      obtain ⟨task, htask, hnext⟩ := Option.bind_eq_some_iff.mp hnext
      rw [Option.ite_none_right_eq_some] at hnext
      obtain ⟨hcancelled, hnext⟩ := hnext
      cases hnext
      have hended := hdelivering.finish htask
        (hdelivering.healthy.cancelled number task htask hcancelled)
      rw [List.append_nil, cancelTask]
      split
      next => exact hended.2
      next => exact hended.1
  | begin number | wake number | retry number => exact hcontinue number nofun hnext
  | respond number success =>
      exact hcontinue number (fun other heq => (WebhookLabel.respond.inj heq).1.symm) hnext

/-- Every event is accounted for; with one post at a time events are posted in their order;
and the oldest ones are dropped. -/
structure Delivers (trace : List WebhookEvent) (subscriber : WebhookSubscriber) : Prop where
  accounted : ∀ event, event < subscriber.arrived →
    event ∈ subscriber.queue ∨
      (∃ number task, subscriber.tasks number = some task ∧ event ∈ task.phase.batch) ∨
      event ∈ postedEvents trace ∨ event ∈ droppedEvents trace
  ordered : .overlapped ∉ trace → (postedEvents trace).Pairwise (· < ·)
  oldest : ∀ events remaining, .dropped events remaining ∈ trace →
    ∀ event ∈ events, ∀ other ∈ remaining, event < other

/-- Events are delivered in every run in which no post of the flush timer is cancelled, and a
batch that could not be posted goes back to a queue of older events only. -/
theorem delivers_of_runs
    (hruns : ((system spec).restrict (allowed spec)).Runs {} trace subscriber) :
    Delivers trace subscriber := by
  have hdelivering : Delivering trace subscriber := by
    refine hruns.invariant_restrict Delivering ?_ fun trace subscriber label next seen hinvariant
      hallowed hnext => hinvariant.step hallowed hnext
    refine ⟨⟨.nil, fun _ => .nil, ?_, nofun, nofun, fun _ => ⟨?_, .nil, nofun, nofun⟩⟩, nofun,
      fun _ _ => rfl⟩
    · rintro event ((hqueue | ⟨number, hbatch⟩) | hposted)
      · cases hqueue
      · cases hbatch
      · cases hposted
    · exact fun number other hbatch => absurd rfl hbatch
  refine ⟨fun event hevent => ?_, fun hsingle => (hdelivering.sound.ordered hsingle).posted,
    hdelivering.sound.oldest⟩
  obtain (hqueue | ⟨number, hbatch⟩) | hgone := hdelivering.sound.accounted event hevent
  · exact .inl hqueue
  · refine .inr (.inl ?_)
    cases htask : subscriber.tasks number with
    | none =>
        change event ∈ (subscriber.tasks number).elim [] _ at hbatch
        rw [htask] at hbatch
        cases hbatch
    | some task => exact ⟨number, task, htask, batch_ledger htask ▸ hbatch⟩
  · exact .inr (.inr hgone)

/-- A batch is posted by the timer, another one by the call that fills the buffer; it goes back
and is too long for the queue. -/
theorem delivers_of_runs_dropped :
    ∃ subscriber, Delivers [.posted [0], .dropped [1] [2]] subscriber :=
  (TransitionSystem.Runs.exists_of_run
    [.call, .begin 0, .wake 0, .respond 0 true, .call, .call, .respond 2 false, .close]
    rfl).elim fun subscriber hruns =>
      ⟨subscriber, @delivers_of_runs { eventBufferSize := 2, numRetries := 0, maxQueueSize := 1 }
        _ _ hruns⟩

/-- The timer is cancelled in the middle of its post, and its event is gone. -/
theorem not_delivers_cancelled : ¬ ∀ spec trace subscriber,
    (system spec).Runs {} trace subscriber → Delivers trace subscriber := by
  intro hdelivers
  have hruns := @TransitionSystem.Runs.of_run _ _ _ (system { eventBufferSize := 2 }) {}
    [.call, .begin 0, .wake 0, .call, .call, .cancelled 0] _ _ rfl
  obtain hqueue | ⟨number, task, htask, hbatch⟩ | hposted | hdropped :=
    (hdelivers _ _ _ hruns).accounted 0 (by decide)
  · cases hqueue
  · match number with
    | 0 => cases htask
    | 1 =>
        cases htask
        revert hbatch
        decide
    | number + 2 => cases htask
  · revert hposted
    decide
  · revert hdropped
    decide

end WebhookSubscriber

end ShuttleFlow
