import ShuttleFlow.AgentServer.BashExecution

/-! # The numbers of bash outputs

`output_order` is read when an event is made, and counts it only after its publication.
The numbers are right as long as nothing else is made meanwhile.
-/

namespace ShuttleFlow

/-- What the events in publication still have to add to the counter. -/
def StreamReader.owes (reader : StreamReader) : Nat :=
  if reader.publishes then 1 else 0

/-- Whether the coroutine makes an event when it goes on. -/
def StreamReader.overflows (reader : StreamReader) : Bool :=
  match reader.phase, reader.chunks with
  | .reading, (first :: text) :: _ => maxContentCharLength < (reader.buffer ++ first :: text).length
  | .publishing, _ => maxContentCharLength < reader.buffer.length
  | _, _ => false

/-- A step that makes no event, and cancels no coroutine, while an event is published. -/
def BashExecution.awaitsPublication (execution : BashExecution) : ExecutionStep → Bool
  | .resume isStderr =>
      !(execution.reader !isStderr).publishes || !(execution.reader isStderr).overflows
  | .timeout => !execution.stdout.publishes && !execution.stderr.publishes
  | .exit _ | .giveUp => true

namespace StreamReader

variable {reader next : StreamReader} {isStderr : Bool} {outputOrder nextOrder : Nat}
  {seen : List BashOutput}

/-- A round of the loop makes an event with the current number, or none. -/
theorem splitOff_cases (hsplit : reader.splitOff isStderr outputOrder = (next, seen)) :
    (maxContentCharLength < reader.buffer.length ∧ next.owes = 1 ∧
        ∃ output, seen = [output] ∧ output.order = outputOrder ∧ output.exitCode = none) ∨
      (¬ maxContentCharLength < reader.buffer.length ∧ next.owes = 0 ∧ seen = []) := by
  rw [splitOff] at hsplit
  split at hsplit
  next hlong =>
    cases hsplit
    exact .inl ⟨hlong, rfl, _, rfl, rfl, rfl⟩
  next hshort =>
    cases hsplit
    exact .inr ⟨hshort, rfl, rfl⟩

/-- A coroutine that goes on counts the event it has published, and makes an event with
the new number or none. -/
theorem resume_cases (hresume : reader.resume isStderr outputOrder = some (next, nextOrder, seen)) :
    nextOrder = outputOrder + reader.owes ∧
      ((reader.overflows = true ∧ next.owes = 1 ∧
          ∃ output, seen = [output] ∧ output.order = nextOrder ∧ output.exitCode = none) ∨
        (next.owes = 0 ∧ seen = [])) := by
  rw [resume] at hresume
  split at hresume
  next hphase =>
    have howes : reader.owes = 0 := by
      rw [owes, publishes, hphase]
      rfl
    rw [howes]
    split at hresume
    next =>
      cases hresume
      exact ⟨rfl, .inr ⟨rfl, rfl⟩⟩
    next =>
      cases hresume
      exact ⟨rfl, .inr ⟨rfl, rfl⟩⟩
    next first text rest hchunks =>
      cases hresume
      refine ⟨rfl, ?_⟩
      rcases splitOff_cases rfl with ⟨hlong, hnext⟩ | ⟨-, hnext⟩
      · refine .inl ⟨?_, hnext⟩
        rw [overflows, hphase, hchunks]
        exact decide_eq_true hlong
      · exact .inr hnext
  next hphase =>
    have howes : reader.owes = 1 := by
      rw [owes, publishes, hphase]
      rfl
    rw [howes]
    cases hresume
    refine ⟨rfl, ?_⟩
    rcases splitOff_cases rfl with ⟨hlong, hnext⟩ | ⟨-, hnext⟩
    · refine .inl ⟨?_, hnext⟩
      rw [overflows, hphase]
      exact decide_eq_true hlong
    · exact .inr hnext
  next => cases hresume

theorem overflows_reading {text : List Char} {rest : List (List Char)}
    (hphase : reader.phase = .reading) (hchunks : reader.chunks = text :: rest)
    (htext : text ≠ []) :
    reader.overflows = decide (maxContentCharLength < (reader.buffer ++ text).length) := by
  cases text with
  | nil => exact absurd rfl htext
  | cons first text =>
      rw [overflows, hphase, hchunks]

end StreamReader

namespace BashExecution

variable {execution next : BashExecution} {outputs seen : List BashOutput}

/-- What is owed by the coroutines together. -/
def owes (execution : BashExecution) : Nat :=
  execution.stdout.owes + execution.stderr.owes

/-- The counter and the events agree. -/
structure Accounted (outputs : List BashOutput) (execution : BashExecution) : Prop where
  orders : outputs.map BashOutput.order = List.range outputs.length
  length : execution.stage ≠ .completed →
    outputs.length = execution.outputOrder + execution.owes
  owes_le : execution.owes ≤ 1
  killed : execution.stage = .killed → execution.owes = 0
  unfinished : execution.stage ≠ .completed → ∀ output ∈ outputs, output.exitCode = none
  final : ∀ output ∈ outputs, output.exitCode ≠ none →
    ∀ other ∈ outputs, other.order ≤ output.order

theorem accounted_initial (stdoutChunks stderrChunks : List (List Char)) :
    Accounted [] (initial stdoutChunks stderrChunks) where
  orders := rfl
  length _ := rfl
  owes_le := Nat.zero_le _
  killed := nofun
  unfinished _ := nofun
  final := nofun

theorem map_order_snoc {output : BashOutput} (horders : outputs.map BashOutput.order =
    List.range outputs.length) (hnew : output.order = outputs.length) :
    (outputs ++ [output]).map BashOutput.order = List.range (outputs ++ [output]).length := by
  rw [List.map_append, List.length_append, List.length_singleton, List.range_succ, horders,
    List.map_singleton, hnew]

/-- The last event has the largest number. -/
theorem order_le_of_snoc {output other : BashOutput} (horders : outputs.map BashOutput.order =
    List.range outputs.length) (hnew : output.order = outputs.length)
    (hother : other ∈ outputs ++ [output]) : other.order ≤ output.order := by
  rcases List.mem_append.mp hother with hother | hother
  · have hrange : other.order ∈ outputs.map BashOutput.order := List.mem_map_of_mem hother
    rw [horders, List.mem_range] at hrange
    rw [hnew]
    exact Nat.le_of_lt hrange
  · exact Nat.le_of_eq (congrArg BashOutput.order (List.mem_singleton.mp hother))

/-- The event with the exit code is numbered when nothing is owed. -/
theorem Accounted.complete {exitCode : Int} (haccounted : Accounted outputs execution)
    (hstage : execution.stage ≠ .completed) (howes : execution.owes = 0) :
    Accounted (outputs ++ [execution.finalOutput exitCode])
      { execution with stage := .completed } := by
  have hnew : (execution.finalOutput exitCode).order = outputs.length := by
    rw [haccounted.length hstage, howes]
    rfl
  exact
    { orders := map_order_snoc haccounted.orders hnew
      length := fun hstage => absurd rfl hstage
      owes_le := haccounted.owes_le
      killed := nofun
      unfinished := fun hstage => absurd rfl hstage
      final := fun output houtput hexit other hother => by
        rcases List.mem_append.mp houtput with hold | hlast
        · exact absurd (haccounted.unfinished hstage output hold) hexit
        · rw [List.mem_singleton.mp hlast]
          exact order_le_of_snoc haccounted.orders hnew hother }

theorem owes_eq (execution : BashExecution) (isStderr : Bool) :
    execution.owes = (execution.reader isStderr).owes + (execution.reader !isStderr).owes := by
  cases isStderr with
  | false => rfl
  | true => exact Nat.add_comm _ _

theorem owes_setReader (execution : BashExecution) (isStderr : Bool) (reader : StreamReader) :
    (execution.setReader isStderr reader).owes =
      reader.owes + (execution.reader !isStderr).owes := by
  cases isStderr with
  | false => rfl
  | true => exact Nat.add_comm _ _

theorem stage_setReader (execution : BashExecution) (isStderr : Bool) (reader : StreamReader) :
    (execution.setReader isStderr reader).stage = execution.stage := by
  cases isStderr <;> rfl

/-- A coroutine makes an event only while the other one has nothing to count. -/
theorem Accounted.resume {isStderr : Bool} (haccounted : Accounted outputs execution)
    (hawaits : execution.awaitsPublication (.resume isStderr))
    (hstep : execution.step (.resume isStderr) = some (next, seen)) :
    Accounted (outputs ++ seen) next := by
  rw [step, Option.ite_none_right_eq_some] at hstep
  obtain ⟨hrunning, hstep⟩ := hstep
  obtain ⟨⟨reader, nextOrder, made⟩, hresume, heq⟩ := Option.map_eq_some_iff.mp hstep
  have hopen : execution.stage ≠ .completed := fun hstage => by cases hrunning.symm.trans hstage
  have hstage : next.stage = .running := by
    rw [← hrunning, ← stage_setReader execution isStderr reader]
    cases heq
    rfl
  have howes : next.owes = reader.owes + (execution.reader !isStderr).owes := by
    rw [← owes_setReader]
    cases heq
    rfl
  have horder : next.outputOrder = nextOrder := by
    cases heq
    rfl
  have hlength := haccounted.length hopen
  have hbefore := execution.owes_eq isStderr
  have hle := haccounted.owes_le
  have hunkilled : next.stage = .killed → next.owes = 0 := fun hkilled => by
    cases hstage.symm.trans hkilled
  obtain ⟨hnextOrder, ⟨hoverflows, hreader, output, hmade, hnumber, hexit⟩ | ⟨hreader, hmade⟩⟩ :=
    StreamReader.resume_cases hresume
  · have hother : (execution.reader !isStderr).owes = 0 := by
      rw [awaitsPublication, hoverflows, Bool.not_true, Bool.or_false] at hawaits
      rw [StreamReader.owes, (Bool.not_eq_true' _).mp hawaits]
      rfl
    have hnew : output.order = outputs.length := by omega
    have hseen : seen = [output] := by
      cases heq
      exact hmade
    rw [hseen]
    have hunfinished : ∀ other ∈ outputs ++ [output], other.exitCode = none := fun other hmem => by
      rcases List.mem_append.mp hmem with hold | hlast
      · exact haccounted.unfinished hopen other hold
      · rw [List.mem_singleton.mp hlast]
        exact hexit
    exact
      { orders := map_order_snoc haccounted.orders hnew
        length := fun _ => by
          rw [List.length_append, List.length_singleton]
          omega
        owes_le := by omega
        killed := hunkilled
        unfinished := fun _ => hunfinished
        final := fun other hmem hsome => absurd (hunfinished other hmem) hsome }
  · have hseen : seen = [] := by
      cases heq
      exact hmade
    rw [hseen, List.append_nil]
    exact
      { orders := haccounted.orders
        length := fun _ => by omega
        owes_le := by omega
        killed := hunkilled
        unfinished := fun _ => haccounted.unfinished hopen
        final := haccounted.final }

theorem owes_of_finished (hstdout : execution.stdout.phase = .finished)
    (hstderr : execution.stderr.phase = .finished) : execution.owes = 0 := by
  rw [owes, StreamReader.owes, StreamReader.owes, StreamReader.publishes, StreamReader.publishes,
    hstdout, hstderr]
  rfl

theorem Accounted.step {move : ExecutionStep} (haccounted : Accounted outputs execution)
    (hawaits : execution.awaitsPublication move)
    (hstep : execution.step move = some (next, seen)) : Accounted (outputs ++ seen) next := by
  cases move with
  | resume isStderr => exact haccounted.resume hawaits hstep
  | exit exitCode =>
      rw [BashExecution.step, Option.ite_none_right_eq_some] at hstep
      obtain ⟨⟨hrunning, hstdout, hstderr⟩, hstep⟩ := hstep
      cases hstep
      exact haccounted.complete (fun hstage => by cases hrunning.symm.trans hstage)
        (owes_of_finished hstdout hstderr)
  | timeout =>
      rw [BashExecution.step, Option.ite_none_right_eq_some] at hstep
      obtain ⟨hrunning, hstep⟩ := hstep
      have hopen : execution.stage ≠ .completed := fun hstage => by
        cases hrunning.symm.trans hstage
      have howes : execution.owes = 0 := by
        rw [awaitsPublication, Bool.and_eq_true, Bool.not_eq_true', Bool.not_eq_true'] at hawaits
        rw [owes, StreamReader.owes, StreamReader.owes, hawaits.1, hawaits.2]
        rfl
      cases hstep
      rw [List.append_nil]
      exact
        { orders := haccounted.orders
          length := fun _ => (haccounted.length hopen).trans (congrArg _ howes)
          owes_le := Nat.zero_le _
          killed := fun _ => rfl
          unfinished := fun _ => haccounted.unfinished hopen
          final := haccounted.final }
  | giveUp =>
      rw [BashExecution.step, Option.ite_none_right_eq_some] at hstep
      obtain ⟨hkilled, hstep⟩ := hstep
      cases hstep
      exact haccounted.complete (fun hstage => by cases hkilled.symm.trans hstage)
        (haccounted.killed hkilled)

/-- In a run that makes no event while another is published, and that does not time out
then, the events are numbered as they are created. -/
theorem numbered_of_runs (stdoutChunks stderrChunks : List (List Char))
    (hruns : (transitions.restrict awaitsPublication).Runs (initial stdoutChunks stderrChunks)
      outputs execution) : Numbered outputs := by
  have haccounted : Accounted outputs execution := hruns.invariant_restrict Accounted
    (accounted_initial stdoutChunks stderrChunks)
    fun _ _ _ _ _ haccounted hawaits hstep => haccounted.step hawaits hstep
  exact ⟨haccounted.orders, haccounted.final⟩

/-! ## Long outputs -/

theorem reader_setReader (execution : BashExecution) (isStderr : Bool) (reader : StreamReader) :
    (execution.setReader isStderr reader).reader isStderr = reader := by
  cases isStderr <;> rfl

theorem setReader_setReader (execution : BashExecution) (isStderr : Bool)
    (reader reader' : StreamReader) :
    (execution.setReader isStderr reader).setReader isStderr reader' =
      execution.setReader isStderr reader' := by
  cases isStderr <;> rfl

theorem setReader_reader (execution : BashExecution) (isStderr : Bool) :
    execution.setReader isStderr (execution.reader isStderr) = execution := by
  cases isStderr <;> rfl

/-- What the coroutine does with a text that the stream gives. -/
theorem step_read {isStderr : Bool} {reader : StreamReader} {text : List Char}
    {rest : List (List Char)} (hrunning : execution.stage = .running)
    (hreader : execution.reader isStderr = reader) (hphase : reader.phase = .reading)
    (hchunks : reader.chunks = text :: rest) (htext : text ≠ []) :
    execution.step (.resume isStderr) =
      let result := StreamReader.splitOff
        { reader with
          chunks := rest, buffer := reader.buffer ++ text, sharedBuffer := reader.buffer ++ text }
        isStderr execution.outputOrder
      some (execution.setReader isStderr result.1, result.2) := by
  cases text with
  | nil => exact absurd rfl htext
  | cons first text =>
      rw [step, if_pos hrunning, hreader, StreamReader.resume]
      simp only [hphase, hchunks, Option.map_some]
      cases isStderr <;> rfl

/-- What is read while the buffer is not full stays in the buffer. -/
theorem runs_reads {isStderr : Bool} (texts rest : List (List Char)) (buffer : List Char)
    (hrunning : execution.stage = .running)
    (hreader : execution.reader isStderr =
      { chunks := texts ++ rest, buffer := buffer, sharedBuffer := buffer, phase := .reading })
    (htexts : ∀ text ∈ texts, text ≠ [])
    (hlength : (buffer ++ texts.flatten).length ≤ maxContentCharLength) :
    (transitions.restrict awaitsPublication).Runs execution []
      (execution.setReader isStderr
        { chunks := rest
          buffer := buffer ++ texts.flatten
          sharedBuffer := buffer ++ texts.flatten
          phase := .reading }) := by
  induction texts generalizing execution buffer with
  | nil =>
      rw [List.flatten_nil, List.append_nil]
      rw [List.nil_append] at hreader
      rw [← hreader, setReader_reader]
      exact .refl
  | cons text texts ih =>
      rw [List.forall_mem_cons] at htexts
      rw [List.flatten_cons, ← List.append_assoc] at hlength ⊢
      have hfits : (buffer ++ text).length ≤ maxContentCharLength := by
        rw [List.length_append] at hlength
        omega
      have hread := step_read hrunning hreader rfl rfl htexts.1
      rw [StreamReader.splitOff, if_neg (Nat.not_lt.mpr hfits)] at hread
      have hawaits : execution.awaitsPublication (.resume isStderr) := by
        rw [awaitsPublication, hreader, StreamReader.overflows_reading rfl rfl htexts.1,
          decide_eq_false (Nat.not_lt.mpr hfits), Bool.not_false, Bool.or_true]
      have hfirst := @TransitionSystem.Runs.single_restrict _ _ _ transitions _ _ _ _ _
        hawaits hread
      have hrest := ih (buffer ++ text) ((stage_setReader _ _ _).trans hrunning)
        (reader_setReader _ _ _) htexts.2 hlength
      rw [setReader_setReader] at hrest
      exact hfirst.trans hrest

theorem length_flatten_replicate (times : Nat) (line : List Char) :
    (List.replicate times line).flatten.length = times * line.length := by
  rw [List.length_flatten, List.map_replicate, List.sum_replicate_nat]

/-- Lines fill the buffer. -/
theorem runs_fill {isStderr : Bool} {line : List Char} {times : Nat}
    (hrunning : execution.stage = .running) (hline : line ≠ [])
    (hfull : times * line.length = maxContentCharLength)
    (hreader : execution.reader isStderr = .initial (List.replicate (times + 1) line)) :
    ∃ reader : StreamReader, reader.phase = .reading ∧ reader.chunks = [line] ∧
      reader.buffer.length = maxContentCharLength ∧
      (transitions.restrict awaitsPublication).Runs execution []
        (execution.setReader isStderr reader) := by
  have hlength := (length_flatten_replicate times line).trans hfull
  refine ⟨_, rfl, rfl, hlength, runs_reads (List.replicate times line) [line] [] hrunning
    (List.replicate_succ' ▸ hreader) (fun text htext => ?_) (Nat.le_of_eq hlength)⟩
  rw [List.eq_of_mem_replicate htext]
  exact hline

/-- One more line makes an event. -/
theorem runs_overflow {isStderr : Bool} {reader : StreamReader} {line : List Char}
    (hrunning : execution.stage = .running) (hreader : execution.reader isStderr = reader)
    (hphase : reader.phase = .reading) (hchunks : reader.chunks = [line]) (hline : line ≠ [])
    (hfull : reader.buffer.length = maxContentCharLength) :
    ∃ reader' output, output.order = execution.outputOrder ∧
      transitions.Runs execution [output] (execution.setReader isStderr reader') ∧
      ((execution.reader !isStderr).publishes = false →
        (transitions.restrict awaitsPublication).Runs execution [output]
          (execution.setReader isStderr reader')) := by
  have hread := step_read hrunning hreader hphase hchunks hline
  have hlong : maxContentCharLength < (reader.buffer ++ line).length := by
    rw [List.length_append, hfull]
    exact Nat.lt_add_of_pos_right (List.length_pos_iff.mpr hline)
  rw [StreamReader.splitOff, if_pos hlong] at hread
  obtain ⟨next, output, horder, hnext⟩ : ∃ next output, output.order = execution.outputOrder ∧
      transitions.step execution (.resume isStderr) =
        some (execution.setReader isStderr next, [output]) :=
    ⟨_, _, rfl, hread⟩
  refine ⟨next, output, horder, .single hnext, fun hother => ?_⟩
  have hawaits : execution.awaitsPublication (.resume isStderr) := by
    rw [awaitsPublication, hother]
    rfl
  exact .single_restrict hawaits hnext

/-- A process that writes 129 times the most that is read at once. -/
def longOutput : List (List Char) :=
  List.replicate (128 + 1) (List.replicate 8192 'a')

theorem longOutput_line : List.replicate 8192 'a' ≠ [] :=
  List.replicate_succ ▸ nofun

theorem longOutput_full : 128 * (List.replicate 8192 'a').length = maxContentCharLength := by
  rw [List.length_replicate, maxContentCharLength]

theorem numbered_longOutput : ∃ output execution,
    transitions.Runs (initial longOutput []) [output] execution ∧ Numbered [output] := by
  obtain ⟨reader, hphase, hchunks, hbuffer, hfill⟩ :=
    @runs_fill (initial longOutput []) false _ _ rfl longOutput_line longOutput_full rfl
  obtain ⟨reader', output, -, hruns, hseparate⟩ :=
    @runs_overflow ((initial longOutput []).setReader false reader) false _ _ rfl rfl hphase
      hchunks longOutput_line hbuffer
  exact ⟨output, _, hfill.of_restrict.trans hruns,
    numbered_of_runs longOutput [] (hfill.trans (hseparate rfl))⟩

/-- Two long outputs, each with an event, before the subscribers know of one of them. -/
theorem not_numbered_of_overlap :
    ¬ ∀ (stdoutChunks stderrChunks : List (List Char)) (outputs : List BashOutput)
      (execution : BashExecution),
      transitions.Runs (initial stdoutChunks stderrChunks) outputs execution →
      Numbered outputs := by
  intro hall
  obtain ⟨reader, hphase, hchunks, hbuffer, hfill⟩ :=
    @runs_fill (initial longOutput longOutput) false _ _ rfl longOutput_line longOutput_full rfl
  obtain ⟨reader', output, horder, hruns, -⟩ :=
    @runs_overflow ((initial longOutput longOutput).setReader false reader) false _ _ rfl rfl hphase
      hchunks longOutput_line hbuffer
  -- The event of stdout is not published yet.
  obtain ⟨second, hphase', hchunks', hbuffer', hfill'⟩ :=
    @runs_fill ((initial longOutput longOutput).setReader false reader') true _ _ rfl
      longOutput_line longOutput_full rfl
  obtain ⟨second', output', horder', hruns', -⟩ :=
    @runs_overflow (((initial longOutput longOutput).setReader false reader').setReader true second)
      true _ _ rfl rfl hphase' hchunks' longOutput_line hbuffer'
  have hoverlap := ((hfill.of_restrict.trans hruns).trans hfill'.of_restrict).trans hruns'
  have horders := (hall _ _ _ _ hoverlap).consecutive
  rw [List.nil_append, List.append_nil] at horders
  cases horders.symm.trans (congrArg₂ (fun first second => [first, second]) horder horder')

end BashExecution
end ShuttleFlow
