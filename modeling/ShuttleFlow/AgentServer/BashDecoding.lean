import ShuttleFlow.AgentServer.BashOutputOrder
import ShuttleFlow.Library.Utf8

/-! # The text of what a command writes

Each read of a stream is decoded on its own. The texts are put together in a buffer, and taken
apart again into events.
-/

namespace ShuttleFlow.BashExecution

open TransitionSystem

/-- The execution of a command, by what is read of its streams. -/
def ofReads (stdoutReads stderrReads : List (List UInt8)) : BashExecution :=
  initial (stdoutReads.map Utf8.decode) (stderrReads.map Utf8.decode)

/-- The time is not over before the standard output has been read. -/
def readsOn (execution : BashExecution) : ExecutionStep → Bool
  | .timeout => decide (execution.stdout.phase = .finished)
  | .resume _ | .exit _ | .giveUp => true

/-- What the events have of the standard output. -/
def stdoutText (outputs : List BashOutput) : List Char :=
  (outputs.filterMap BashOutput.stdout).flatten

/-- The events have the text of all bytes, and those before the last one are full. -/
structure Reassembles (bytes : List UInt8) (outputs : List BashOutput) : Prop where
  whole : stdoutText outputs = Utf8.decode bytes
  full : ∀ output ∈ outputs, output.exitCode = none → ∀ chunk ∈ output.stdout,
    chunk.length = maxContentCharLength

/-- What is still to come of a text, and where. -/
structure Buffered (text : List Char) (outputs : List BashOutput) (execution : BashExecution) :
    Prop where
  read : [] ∉ execution.stdout.chunks
  finished : execution.stdout.phase = .finished → execution.stdout.chunks = []
  killed : execution.stage = .killed → execution.stdout.phase = .finished
  shared : execution.stdout.phase ≠ .publishing →
    execution.stdout.sharedBuffer = execution.stdout.buffer
  whole : execution.stage ≠ .completed →
    stdoutText outputs ++ execution.stdout.buffer ++ execution.stdout.chunks.flatten = text
  completed : execution.stage = .completed → stdoutText outputs = text
  full : ∀ output ∈ outputs, output.exitCode = none → ∀ chunk ∈ output.stdout,
    chunk.length = maxContentCharLength

section Steps

variable {reader next : StreamReader} {execution later : BashExecution}
  {outputs seen : List BashOutput} {text : List Char} {outputOrder nextOrder : Nat}

theorem stdoutText_append (outputs later : List BashOutput) :
    stdoutText (outputs ++ later) = stdoutText outputs ++ stdoutText later := by
  rw [stdoutText, List.filterMap_append, List.flatten_append]
  rfl

/-- What is taken off the buffer is in an event. -/
theorem splitOff_stdout (hsplit : reader.splitOff false outputOrder = (next, seen)) :
    stdoutText seen ++ next.buffer = reader.buffer ∧ next.chunks = reader.chunks ∧
      next.sharedBuffer = reader.sharedBuffer ∧ next.phase ≠ .finished ∧
      (next.phase ≠ .publishing → next.buffer = reader.buffer) ∧
      ∀ output ∈ seen, output.exitCode = none ∧ ∀ chunk ∈ output.stdout,
        chunk.length = maxContentCharLength := by
  rw [StreamReader.splitOff] at hsplit
  split at hsplit
  next hlong =>
    cases hsplit
    refine ⟨?_, rfl, rfl, by simp, by simp, ?_⟩
    · simp [stdoutText]
    · intro output houtput
      obtain rfl := List.mem_singleton.mp houtput
      refine ⟨rfl, fun chunk hchunk => ?_⟩
      obtain rfl := Option.some.inj hchunk
      exact List.length_take_of_le hlong.le
  next hshort =>
    cases hsplit
    exact ⟨rfl, rfl, rfl, by simp, fun _ => rfl, fun output houtput =>
      absurd houtput List.not_mem_nil⟩

theorem splitOff_stderr (hsplit : reader.splitOff true outputOrder = (next, seen)) :
    ∀ output ∈ seen, output.stdout = none := by
  rw [StreamReader.splitOff] at hsplit
  split at hsplit
  · cases hsplit
    intro output houtput
    obtain rfl := List.mem_singleton.mp houtput
    rfl
  · cases hsplit
    exact fun output houtput => absurd houtput List.not_mem_nil

/-- The other coroutine has nothing to say of the standard output. -/
theorem resume_stderr (hresume : reader.resume true outputOrder = some (next, nextOrder, seen)) :
    ∀ output ∈ seen, output.stdout = none := by
  unfold StreamReader.resume at hresume
  split at hresume
  · split at hresume
    · cases hresume
      exact fun output houtput => absurd houtput List.not_mem_nil
    · cases hresume
      exact fun output houtput => absurd houtput List.not_mem_nil
    · cases hresume
      exact splitOff_stderr rfl
  · cases hresume
    exact splitOff_stderr rfl
  · cases hresume

theorem stdoutText_of_stderr (hseen : ∀ output ∈ seen, output.stdout = none) :
    stdoutText seen = [] := by
  rw [stdoutText, List.filterMap_eq_nil_iff.mpr hseen]
  rfl

theorem buffered_initial (stdoutReads stderrReads : List (List UInt8))
    (hreads : ∀ read ∈ stdoutReads, read ≠ []) :
    Buffered (stdoutReads.flatMap Utf8.decode) [] (ofReads stdoutReads stderrReads) where
  read := by
    intro hmem
    obtain ⟨read, hread, hnil⟩ := List.mem_map.mp hmem
    exact Utf8.decode_ne_nil (hreads read hread) hnil
  finished := fun hphase => by cases hphase
  killed := fun hstage => by cases hstage
  shared := fun _ => rfl
  whole := fun _ => by rw [List.flatMap_def]; rfl
  completed := fun hstage => by cases hstage
  full := fun output houtput => absurd houtput List.not_mem_nil

/-- The coroutine takes an event off its buffer, or reads on. -/
theorem Buffered.splitOff (hbuffered : Buffered text outputs execution)
    (hrunning : execution.stage = .running) (hread : [] ∉ reader.chunks)
    (hshared : reader.sharedBuffer = reader.buffer)
    (hwhole : stdoutText outputs ++ reader.buffer ++ reader.chunks.flatten = text)
    (hsplit : reader.splitOff false outputOrder = (next, seen)) :
    Buffered text (outputs ++ seen)
      { execution with stdout := next, outputOrder := nextOrder } := by
  obtain ⟨hparts, hchunks, hsame, hphase, hbuffer, hfull⟩ := splitOff_stdout hsplit
  refine
    { read := hchunks ▸ hread
      finished := fun hfinished => absurd hfinished hphase
      killed := fun hkilled => by cases hrunning.symm.trans hkilled
      shared := fun hreading => hsame.trans (hshared.trans (hbuffer hreading).symm)
      whole := fun _ => ?_
      completed := fun hcompleted => by cases hrunning.symm.trans hcompleted
      full := fun output houtput hexit => ?_ }
  · dsimp only
    rw [stdoutText_append, List.append_assoc (stdoutText outputs), hparts, hchunks, hwhole]
  · rcases List.mem_append.mp houtput with hearlier | hseen
    · exact hbuffered.full output hearlier hexit
    · exact (hfull output hseen).2

theorem Buffered.resume (hbuffered : Buffered text outputs execution)
    (hrunning : execution.stage = .running)
    (hresume : execution.stdout.resume false outputOrder = some (next, nextOrder, seen)) :
    Buffered text (outputs ++ seen)
      { execution with stdout := next, outputOrder := nextOrder } := by
  have hopen : execution.stage ≠ .completed := fun hstage => by
    cases hrunning.symm.trans hstage
  have hwhole := hbuffered.whole hopen
  unfold StreamReader.resume at hresume
  split at hresume
  next hphase =>
    have hshared := hbuffered.shared (by rw [hphase]; simp)
    split at hresume
    next hchunks =>
      cases hresume
      rw [List.append_nil]
      exact
        { read := hbuffered.read
          finished := fun _ => hchunks
          killed := fun hkilled => by cases hrunning.symm.trans hkilled
          shared := fun _ => hshared
          whole := fun _ => hwhole
          completed := fun hcompleted => absurd hcompleted hopen
          full := hbuffered.full }
    next rest hchunks => exact absurd (hchunks ▸ List.mem_cons_self) hbuffered.read
    next first read rest hchunks =>
      cases hresume
      refine hbuffered.splitOff hrunning (fun hmem => hbuffered.read ?_) rfl ?_ rfl
      · rw [hchunks]
        exact List.mem_cons_of_mem _ hmem
      · rw [hchunks, List.flatten_cons] at hwhole
        rw [← hwhole]
        simp only [List.append_assoc]
  next hphase =>
    cases hresume
    have hread : [] ∉ ({ execution.stdout with
      sharedBuffer := execution.stdout.buffer } : StreamReader).chunks := hbuffered.read
    exact hbuffered.splitOff hrunning hread rfl hwhole rfl
  next hphase => cases hresume

/-- The last event has what is left. -/
theorem Buffered.complete (hbuffered : Buffered text outputs execution)
    (hopen : execution.stage ≠ .completed) (hfinished : execution.stdout.phase = .finished)
    (exitCode : Int) :
    Buffered text (outputs ++ [execution.finalOutput exitCode])
      { execution with stage := .completed } := by
  have hshared := hbuffered.shared (by rw [hfinished]; simp)
  have hwhole := hbuffered.whole hopen
  rw [hbuffered.finished hfinished, List.flatten_nil, List.append_nil, ← hshared] at hwhole
  refine
    { read := hbuffered.read
      finished := hbuffered.finished
      killed := fun hkilled => by cases hkilled
      shared := hbuffered.shared
      whole := fun hstage => absurd rfl hstage
      completed := fun _ => ?_
      full := fun output houtput hexit => ?_ }
  · rw [stdoutText_append, ← hwhole]
    congr 1
    unfold finalOutput stdoutText
    by_cases hempty : execution.stdout.sharedBuffer = [] <;> simp [hempty]
  · rcases List.mem_append.mp houtput with hearlier | hlast
    · exact hbuffered.full output hearlier hexit
    · rw [List.mem_singleton.mp hlast] at hexit
      cases hexit

theorem Buffered.step {move : ExecutionStep} (hbuffered : Buffered text outputs execution)
    (hreads : execution.readsOn move) (hstep : execution.step move = some (later, seen)) :
    Buffered text (outputs ++ seen) later := by
  cases move with
  | resume isStderr =>
      rw [BashExecution.step, Option.ite_none_right_eq_some, Option.map_eq_some_iff] at hstep
      obtain ⟨hrunning, ⟨next, nextOrder, shown⟩, hresume, heq⟩ := hstep
      cases isStderr with
      | false =>
          cases heq
          exact hbuffered.resume hrunning hresume
      | true =>
          have hnone := stdoutText_of_stderr (resume_stderr hresume)
          cases heq
          exact
            { read := hbuffered.read
              finished := hbuffered.finished
              killed := hbuffered.killed
              shared := hbuffered.shared
              whole := fun hopen => by
                rw [stdoutText_append, hnone, List.append_nil]
                exact hbuffered.whole hopen
              completed := fun hcompleted => by cases hrunning.symm.trans hcompleted
              full := fun output houtput hexit chunk hchunk => by
                rcases List.mem_append.mp houtput with hearlier | hseen
                · exact hbuffered.full output hearlier hexit chunk hchunk
                · rw [resume_stderr hresume output hseen] at hchunk
                  cases hchunk }
  | exit exitCode =>
      rw [BashExecution.step, Option.ite_none_right_eq_some] at hstep
      obtain ⟨⟨hrunning, hfinished, -⟩, heq⟩ := hstep
      cases heq
      exact hbuffered.complete (fun hstage => by cases hrunning.symm.trans hstage) hfinished
        exitCode
  | timeout =>
      have hfinished : execution.stdout.phase = .finished := of_decide_eq_true hreads
      rw [BashExecution.step, Option.ite_none_right_eq_some] at hstep
      obtain ⟨hrunning, heq⟩ := hstep
      cases heq
      rw [List.append_nil]
      exact
        { read := hbuffered.read
          finished := fun _ => hbuffered.finished hfinished
          killed := fun _ => rfl
          shared := fun _ => hbuffered.shared (by rw [hfinished]; simp)
          whole := fun _ => hbuffered.whole fun hstage => by cases hrunning.symm.trans hstage
          completed := fun hcompleted => by cases hcompleted
          full := hbuffered.full }
  | giveUp =>
      rw [BashExecution.step, Option.ite_none_right_eq_some] at hstep
      obtain ⟨hkilled, heq⟩ := hstep
      cases heq
      exact hbuffered.complete (fun hstage => by cases hkilled.symm.trans hstage)
        (hbuffered.killed hkilled) (-1)

end Steps

/-- The command writes a euro sign, and ends. -/
theorem exists_runs_euro (reads : List (List UInt8)) (steps : List ExecutionStep)
    (outputs : List BashOutput)
    (hrun : ((transitions.restrict readsOn).run (ofReads reads []) steps).map
      (fun result => (result.1.stage, result.2)) = some (.completed, outputs)) :
    ∃ execution, (transitions.restrict readsOn).Runs (ofReads reads []) outputs execution ∧
      execution.stage = .completed := by
  obtain ⟨⟨execution, trace⟩, hsteps, heq⟩ := Option.map_eq_some_iff.mp hrun
  obtain ⟨hstage, rfl⟩ := Prod.mk.inj heq
  exact ⟨execution, .of_run steps hsteps, hstage⟩

end ShuttleFlow.BashExecution
