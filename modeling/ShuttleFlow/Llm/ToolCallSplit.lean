import ShuttleFlow.Library.Segments
import ShuttleFlow.Llm.FnCallConverter

/-! # One message for each tool call

A message with several tool calls waits in pieces, one for each call, and a piece goes out with the
result of its call. The content of the message is in the piece of its first call.
-/

namespace ShuttleFlow

open scoped List

inductive SplitError
  | missingKey (key : String)
  | notInPendingList (pending : Dict (List Char) FnMessage)
  | notExpected (role : FnRole) (pending : Dict (List Char) FnMessage) (message : FnMessage)
  | noToolResult (pending : Dict (List Char) FnMessage)
  deriving DecidableEq

/-- What is converted so far, and the pieces that wait for a result. -/
structure ToolCallSplit where
  convertedMessages : List FnMessage := []
  pendingToolCalls : Dict (List Char) FnMessage := .empty

namespace ToolCallSplit

def piece (content : List Char) (toolCall : FnToolCall) : FnMessage where
  role := .assistant
  content := some content
  toolCalls := some [toolCall]

/-- The calls of a message begin to wait. -/
def postpone (content : List Char) :
    Nat → List FnToolCall → Dict (List Char) FnMessage →
      Except SplitError (Dict (List Char) FnMessage)
  | _, [], pending => .ok pending
  | index, toolCall :: toolCalls, pending =>
      match toolCall.id with
      | none => .error (.missingKey "id")
      | some id =>
          postpone content (index + 1) toolCalls
            (pending.set id (piece (if index = 0 then content else []) toolCall))

def append (state : ToolCallSplit) (messages : List FnMessage) : ToolCallSplit :=
  { state with convertedMessages := state.convertedMessages ++ messages }

def step (state : ToolCallSplit) (message : FnMessage) : Except SplitError ToolCallSplit :=
  match message.role with
  | .assistant =>
      if 1 < (message.toolCalls.getD []).length then
        (postpone (message.content.getD []) 0 (message.toolCalls.getD [])
          state.pendingToolCalls).map fun pending => { state with pendingToolCalls := pending }
      else .ok (state.append [message])
  | .tool =>
      match message.toolCallId with
      | none => .error (.missingKey "tool_call_id")
      | some id =>
          match state.pendingToolCalls.get? id with
          | some toolCallMessage =>
              .ok (append { state with pendingToolCalls := state.pendingToolCalls.erase id }
                [toolCallMessage, message])
          | none =>
              if state.pendingToolCalls.entries = [] then .ok (state.append [message])
              else .error (.notInPendingList state.pendingToolCalls)
  | role =>
      if state.pendingToolCalls.entries = [] then .ok (state.append [message])
      else .error (.notExpected role state.pendingToolCalls message)

/-- `convert_from_multiple_tool_calls_to_single_tool_call_messages`. -/
def convert (messages : List FnMessage) (ignoreFinalToolResult : Bool := false) :
    Except SplitError (List FnMessage) :=
  match messages.foldlM step {} with
  | .error error => .error error
  | .ok state =>
      if !ignoreFinalToolResult && !state.pendingToolCalls.entries.isEmpty then
        .error (.noToolResult state.pendingToolCalls)
      else .ok state.convertedMessages

end ToolCallSplit

namespace FnMessage

/-- The tool calls of a message of the assistant. -/
def calls (message : FnMessage) : List FnToolCall :=
  if message.role = .assistant then message.toolCalls.getD [] else []

end FnMessage

namespace ToolCallSplit

/-! ## Rounds -/

/-- A message, and the tool messages that come before the next one of another role. -/
structure Round where
  message : FnMessage
  results : List FnMessage

def Round.messages (round : Round) : List FnMessage := round.message :: round.results

/-- The tool messages at the start, and the rounds. -/
def rounds : List FnMessage → List FnMessage × List Round
  | [] => ([], [])
  | message :: messages =>
      if message.role = .tool then (message :: (rounds messages).1, (rounds messages).2)
      else ([], ⟨message, (rounds messages).1⟩ :: (rounds messages).2)

/-- The calls are distinct, and all are answered in their rounds. Tool messages may come that
answer nothing. -/
structure Answered (messages : List FnMessage) : Prop where
  callIds : ∀ message ∈ messages, ∀ call ∈ message.calls, call.id ≠ none
  resultIds : ∀ message ∈ messages, message.role = .tool → message.toolCallId ≠ none
  distinct : (messages.flatMap fun message => message.calls.map FnToolCall.id).Nodup
  answered : ∀ round ∈ (rounds messages).2, ∀ call ∈ round.message.calls,
    ∃ result ∈ round.results, result.toolCallId = call.id

/-- The first results are those of the calls, one for each. -/
def InTurn (calls : List FnToolCall) (results : List FnMessage) : Prop :=
  ((results.take calls.length).map FnMessage.toolCallId).Perm (calls.map FnToolCall.id)

instance (calls : List FnToolCall) (results : List FnMessage) :
    Decidable (InTurn calls results) :=
  inferInstanceAs (Decidable (List.Perm _ _))

/-! ## Reading the rounds -/

section Rounds

variable {messages : List FnMessage} {round : Round}

theorem rounds_flatten (messages : List FnMessage) :
    (rounds messages).1 ++ (rounds messages).2.flatMap Round.messages = messages := by
  induction messages with
  | nil => rfl
  | cons message messages ih =>
      unfold rounds
      split
      next => exact congrArg (message :: ·) ih
      next => exact congrArg (message :: ·) ih

theorem role_of_mem_rounds {result : FnMessage} (messages : List FnMessage) :
    (result ∈ (rounds messages).1 → result.role = .tool) ∧
      ∀ round ∈ (rounds messages).2,
        round.message.role ≠ .tool ∧ (result ∈ round.results → result.role = .tool) := by
  induction messages with
  | nil => exact ⟨nofun, nofun⟩
  | cons message messages ih =>
      unfold rounds
      split
      next htool =>
        refine ⟨fun hresult => ?_, ih.2⟩
        rcases List.mem_cons.mp hresult with rfl | hresult
        · exact htool
        · exact ih.1 hresult
      next hother =>
        refine ⟨nofun, fun round hround => ?_⟩
        rcases List.mem_cons.mp hround with rfl | hround
        · exact ⟨hother, ih.1⟩
        · exact ih.2 round hround

theorem mem_of_mem_round {message : FnMessage} (hround : round ∈ (rounds messages).2)
    (hmessage : message ∈ round.messages) : message ∈ messages := by
  rw [← rounds_flatten messages]
  exact List.mem_append_right _ (List.mem_flatMap.mpr ⟨round, hround, hmessage⟩)

theorem calls_of_tool {message : FnMessage} (htool : message.role = .tool) :
    message.calls = [] := by
  simp [FnMessage.calls, htool]

theorem calls_of_assistant {message : FnMessage} (hassistant : message.role = .assistant) :
    message.calls = message.toolCalls.getD [] :=
  if_pos hassistant

end Rounds

/-! ## Calls that wait -/

/-- For each call that waits there is a piece under its id. -/
def Waits (pending : Dict (List Char) FnMessage) (waiting : List FnToolCall)
    (pieceOf : FnToolCall → FnMessage) : Prop :=
  ∀ id, pending.get? id = (waiting.find? fun call => call.id = some id).map pieceOf

section Waits

variable {pending : Dict (List Char) FnMessage} {waiting : List FnToolCall}
  {pieceOf : FnToolCall → FnMessage} {content : List Char}

theorem find?_eq_none_of_notMem {id : Option (List Char)}
    (hid : id ∉ waiting.map FnToolCall.id) :
    waiting.find? (fun call => call.id = id) = none := by
  apply List.find?_eq_none.mpr
  intro call hcall hsame
  exact hid (List.mem_map.mpr ⟨call, hcall, of_decide_eq_true hsame⟩)

theorem find?_of_mem {call : FnToolCall} (hdistinct : (waiting.map FnToolCall.id).Nodup)
    (hcall : call ∈ waiting) : waiting.find? (fun other => other.id = call.id) = some call := by
  induction waiting with
  | nil => cases hcall
  | cons head waiting ih =>
      obtain ⟨hhead, htail⟩ := List.nodup_cons.mp hdistinct
      rcases List.mem_cons.mp hcall with rfl | hcall
      · simp
      · have hne : head.id ≠ call.id := fun heq =>
          hhead (List.mem_map.mpr ⟨call, hcall, heq.symm⟩)
        rw [List.find?_cons_of_neg (by simpa using hne)]
        exact ih htail hcall

/-- Behind the first call all pieces are without a content. -/
theorem postpone_succ (index : Nat) (hids : ∀ call ∈ waiting, call.id ≠ none)
    (hdistinct : (waiting.map FnToolCall.id).Nodup) :
    ∃ later, postpone content (index + 1) waiting pending = .ok later ∧
      ∀ id, later.get? id =
        ((waiting.find? fun call => call.id = some id).map (piece [])).or (pending.get? id) := by
  induction waiting generalizing pending index with
  | nil => exact ⟨pending, rfl, fun id => rfl⟩
  | cons call waiting ih =>
      obtain ⟨id, hid⟩ := Option.ne_none_iff_exists'.mp (hids call List.mem_cons_self)
      obtain ⟨hcall, hrest⟩ := List.nodup_cons.mp hdistinct
      obtain ⟨later, hlater, hget⟩ := @ih (pending.set id (piece [] call)) (index + 1)
        (fun call hmem => hids call (List.mem_cons_of_mem _ hmem)) hrest
      refine ⟨later, ?_, fun other => ?_⟩
      · rw [postpone, hid]
        exact hlater
      · rw [hget, Dict.get?_set]
        by_cases hother : other = id
        · rw [hother, ← hid, find?_eq_none_of_notMem hcall]
          simp [hid]
        · have hne : call.id ≠ some other := fun heq =>
            hother (Option.some.inj (heq.symm.trans hid))
          rw [if_neg hother, List.find?_cons_of_neg (by simpa using hne)]

/-- The piece of a call of a message. -/
def pieceFor (message : FnMessage) (call : FnToolCall) : FnMessage :=
  piece (if message.calls.head? = some call then message.content.getD [] else []) call

theorem calls_pieceFor (message : FnMessage) (call : FnToolCall) :
    (pieceFor message call).calls = [call] := rfl

theorem waits_postpone {message : FnMessage} (hids : ∀ call ∈ message.calls, call.id ≠ none)
    (hdistinct : (message.calls.map FnToolCall.id).Nodup) :
    ∃ later, postpone (message.content.getD []) 0 message.calls .empty = .ok later ∧
      Waits later message.calls (pieceFor message) := by
  unfold Waits pieceFor
  cases hcalls : message.calls with
  | nil => exact ⟨.empty, rfl, fun id => rfl⟩
  | cons first rest =>
      rw [hcalls] at hids hdistinct
      obtain ⟨id, hid⟩ := Option.ne_none_iff_exists'.mp (hids first List.mem_cons_self)
      obtain ⟨hfirst, hrest⟩ := List.nodup_cons.mp hdistinct
      obtain ⟨later, hlater, hget⟩ := @postpone_succ
        (Dict.empty.set id (piece (message.content.getD []) first)) rest
        (message.content.getD []) 0
        (fun call hmem => hids call (List.mem_cons_of_mem _ hmem)) hrest
      refine ⟨later, ?_, fun other => ?_⟩
      · rw [postpone, hid]
        exact hlater
      · rw [hget, Dict.get?_set]
        by_cases hother : other = id
        · rw [hother, ← hid, find?_eq_none_of_notMem hfirst]
          simp [hid]
        · have hne : first.id ≠ some other := fun heq =>
            hother (Option.some.inj (heq.symm.trans hid))
          rw [if_neg hother, List.find?_cons_of_neg (by simpa using hne)]
          cases hfind : rest.find? (fun call => call.id = some other) with
          | none => rfl
          | some call =>
              have hmem := List.mem_of_find?_eq_some hfind
              have hdiffers : first ≠ call := fun heq =>
                hfirst (List.mem_map.mpr ⟨call, hmem, by rw [heq]⟩)
              simp [hdiffers]

theorem Waits.erase {call : FnToolCall} {id : List Char} (hwaits : Waits pending waiting pieceOf)
    (hdistinct : (waiting.map FnToolCall.id).Nodup) (hcall : call ∈ waiting)
    (hid : call.id = some id) : Waits (pending.erase id) (waiting.erase call) pieceOf := by
  intro other
  rw [Dict.get?_erase, hwaits]
  by_cases hother : other = id
  · rw [if_pos hother, hother, find?_eq_none_of_notMem]
    · rfl
    · intro hmem
      obtain ⟨again, hagain, hsame⟩ := List.mem_map.mp hmem
      have heq : again = call := by
        have hfind := find?_of_mem hdistinct (List.mem_of_mem_erase hagain)
        rw [hsame, ← hid, find?_of_mem hdistinct hcall] at hfind
        exact (Option.some.inj hfind).symm
      rw [heq] at hagain
      exact (hdistinct.of_map _).not_mem_erase hagain
  · rw [if_neg hother]
    have hne : call.id ≠ some other := fun heq =>
      hother (Option.some.inj (heq.symm.trans hid))
    obtain ⟨before, after, rfl⟩ := List.append_of_mem hcall
    have hbefore : call ∉ before := fun hmem =>
      (List.nodup_append.mp (hdistinct.of_map _)).2.2 call hmem call List.mem_cons_self rfl
    rw [List.erase_append_right _ hbefore, List.erase_cons_head, List.find?_append,
      List.find?_append, List.find?_cons_of_neg (by simpa using hne)]

theorem Waits.nil_iff (hwaits : Waits pending waiting pieceOf)
    (hids : ∀ call ∈ waiting, call.id ≠ none) : pending.entries = [] ↔ waiting = [] := by
  constructor
  · intro hentries
    cases hwaiting : waiting with
    | nil => rfl
    | cons call rest =>
        rw [hwaiting] at hwaits hids
        obtain ⟨id, hid⟩ := Option.ne_none_iff_exists'.mp (hids call List.mem_cons_self)
        have hget := hwaits id
        rw [Dict.eq_empty hentries, List.find?_cons_of_pos (by simp [hid])] at hget
        cases hget
  · rintro rfl
    exact Dict.entries_eq_nil_of_get? hwaits

end Waits

/-! ## What a round becomes -/

/-- A result goes out behind the piece of its call, if that waits. -/
def emitted (pieceOf : FnToolCall → FnMessage) :
    List FnToolCall → List FnMessage → List FnMessage
  | _, [] => []
  | waiting, result :: results =>
      match waiting.find? fun call => call.id = result.toolCallId with
      | some call => pieceOf call :: result :: emitted pieceOf (waiting.erase call) results
      | none => result :: emitted pieceOf waiting results

def Round.converted (round : Round) : List FnMessage :=
  if 1 < round.message.calls.length then
    emitted (pieceFor round.message) round.message.calls round.results
  else round.messages

section Running

variable {messages results : List FnMessage} {round : Round} {state : ToolCallSplit}
  {waiting : List FnToolCall} {pieceOf : FnToolCall → FnMessage}

theorem map_id_erase {call : FnToolCall} (hdistinct : (waiting.map FnToolCall.id).Nodup)
    (hcall : call ∈ waiting) :
    (waiting.erase call).map FnToolCall.id = (waiting.map FnToolCall.id).erase call.id := by
  obtain ⟨before, after, rfl⟩ := List.append_of_mem hcall
  have hbefore : call ∉ before := fun hmem =>
    (List.nodup_append.mp (hdistinct.of_map _)).2.2 call hmem call List.mem_cons_self rfl
  have hids : call.id ∉ before.map FnToolCall.id := by
    rw [List.map_append, List.nodup_append] at hdistinct
    exact fun hmem => hdistinct.2.2 _ hmem _ List.mem_cons_self rfl
  rw [List.erase_append_right _ hbefore, List.erase_cons_head, List.map_append, List.map_append,
    List.erase_append_right _ hids, List.map_cons, List.erase_cons_head]

theorem answered_erase {call : FnToolCall} {result : FnMessage}
    (hdistinct : (waiting.map FnToolCall.id).Nodup)
    (hanswered : ∀ other ∈ waiting, ∃ answer ∈ result :: results, answer.toolCallId = other.id)
    (hcall : call ∈ waiting) (hresult : call.id = result.toolCallId) :
    ∀ other ∈ waiting.erase call, ∃ answer ∈ results, answer.toolCallId = other.id := by
  intro other hother
  obtain ⟨answer, hanswer, hid⟩ := hanswered other (List.mem_of_mem_erase hother)
  rcases List.mem_cons.mp hanswer with rfl | hanswer
  · have hmem : call.id ∈ (waiting.map FnToolCall.id).erase call.id := by
      rw [← map_id_erase hdistinct hcall, hresult, hid]
      exact List.mem_map_of_mem hother
    exact absurd hmem hdistinct.not_mem_erase
  · exact ⟨answer, hanswer, hid⟩

theorem answered_tail {result : FnMessage}
    (hanswered : ∀ other ∈ waiting, ∃ answer ∈ result :: results, answer.toolCallId = other.id)
    (hfind : waiting.find? (fun call => call.id = result.toolCallId) = none) :
    ∀ other ∈ waiting, ∃ answer ∈ results, answer.toolCallId = other.id := by
  intro other hother
  obtain ⟨answer, hanswer, hid⟩ := hanswered other hother
  rcases List.mem_cons.mp hanswer with rfl | hanswer
  · simpa [hid] using List.find?_eq_none.mp hfind other hother
  · exact ⟨answer, hanswer, hid⟩

theorem step_waiting {result : FnMessage} {call : FnToolCall} (htool : result.role = .tool)
    (hid : result.toolCallId ≠ none) (hwaits : Waits state.pendingToolCalls waiting pieceOf)
    (hfind : waiting.find? (fun call => call.id = result.toolCallId) = some call) :
    ∃ id, result.toolCallId = some id ∧ step state result =
      .ok (append { state with pendingToolCalls := state.pendingToolCalls.erase id }
        [pieceOf call, result]) := by
  obtain ⟨id, hsome⟩ := Option.ne_none_iff_exists'.mp hid
  refine ⟨id, hsome, ?_⟩
  rw [hsome] at hfind
  have hget : state.pendingToolCalls.get? id = some (pieceOf call) := by
    rw [hwaits, hfind]
    rfl
  simp only [step, htool, hsome, hget]

theorem step_stray {result : FnMessage} (htool : result.role = .tool)
    (hid : result.toolCallId ≠ none) (hwaits : Waits state.pendingToolCalls waiting pieceOf)
    (hfind : waiting.find? (fun call => call.id = result.toolCallId) = none) :
    step state result =
      if state.pendingToolCalls.entries = [] then .ok (state.append [result])
      else .error (.notInPendingList state.pendingToolCalls) := by
  obtain ⟨id, hsome⟩ := Option.ne_none_iff_exists'.mp hid
  rw [hsome] at hfind
  have hget : state.pendingToolCalls.get? id = none := by
    rw [hwaits, hfind]
    rfl
  simp only [step, htool, hsome, hget]

theorem inTurn_nil (results : List FnMessage) : InTurn [] results := List.Perm.refl _

theorem inTurn_cons {call : FnToolCall} {result : FnMessage}
    (hdistinct : (waiting.map FnToolCall.id).Nodup) (hcall : call ∈ waiting)
    (hresult : call.id = result.toolCallId) :
    InTurn waiting (result :: results) ↔ InTurn (waiting.erase call) results := by
  have hlength : waiting.length = (waiting.erase call).length + 1 := by
    rw [List.length_erase_of_mem hcall]
    exact (Nat.sub_add_cancel (List.length_pos_of_mem hcall)).symm
  unfold InTurn
  rw [hlength, List.take_succ_cons, List.map_cons, map_id_erase hdistinct hcall, hresult,
    List.cons_perm_iff_perm_erase, and_iff_right]
  rw [← hresult]
  exact List.mem_map_of_mem hcall

theorem not_inTurn_cons {result : FnMessage} (hwaiting : waiting ≠ [])
    (hfind : waiting.find? (fun call => call.id = result.toolCallId) = none) :
    ¬InTurn waiting (result :: results) := by
  intro hturn
  have hmem : result.toolCallId ∈ waiting.map FnToolCall.id := by
    apply hturn.subset
    rw [← Nat.sub_add_cancel (List.length_pos_iff.mpr hwaiting), List.take_succ_cons]
    exact List.mem_cons_self
  obtain ⟨other, hother, hsame⟩ := List.mem_map.mp hmem
  simpa [hsame] using List.find?_eq_none.mp hfind other hother

/-- The results of a round are accepted exactly if those of the waiting calls come first. -/
theorem foldlM_results (hresults : ∀ result ∈ results,
      result.role = .tool ∧ result.toolCallId ≠ none)
    (hids : ∀ call ∈ waiting, call.id ≠ none) (hdistinct : (waiting.map FnToolCall.id).Nodup)
    (hwaits : Waits state.pendingToolCalls waiting pieceOf)
    (hanswered : ∀ call ∈ waiting, ∃ result ∈ results, result.toolCallId = call.id) :
    (InTurn waiting results ∧ ∃ pending, pending.entries = [] ∧ results.foldlM step state =
        .ok { convertedMessages := state.convertedMessages ++ emitted pieceOf waiting results
              pendingToolCalls := pending }) ∨
      (¬InTurn waiting results ∧ ∃ error, results.foldlM step state = .error error) := by
  induction results generalizing state waiting with
  | nil =>
      cases waiting with
      | nil =>
          refine .inl ⟨inTurn_nil _, state.pendingToolCalls, (hwaits.nil_iff hids).mpr rfl, ?_⟩
          simp [emitted, pure, Except.pure]
      | cons call waiting =>
          obtain ⟨_, hnone, -⟩ := hanswered call List.mem_cons_self
          cases hnone
  | cons result results ih =>
      obtain ⟨htool, hid⟩ := hresults result List.mem_cons_self
      have hlater := fun other hmem => hresults other (List.mem_cons_of_mem _ hmem)
      rw [List.foldlM_cons]
      cases hfind : waiting.find? fun call => call.id = result.toolCallId with
      | some call =>
          have hcall := List.mem_of_find?_eq_some hfind
          have hsame : call.id = result.toolCallId := by
            simpa using List.find?_some hfind
          obtain ⟨id, hsome, hstep⟩ := step_waiting htool hid hwaits hfind
          have hrun := @ih
            (append { state with pendingToolCalls := state.pendingToolCalls.erase id }
              [pieceOf call, result]) (waiting.erase call) hlater
            (fun other hmem => hids other (List.mem_of_mem_erase hmem))
            (by rw [map_id_erase hdistinct hcall]; exact hdistinct.erase _)
            (hwaits.erase hdistinct hcall (hsame.trans hsome))
            (answered_erase hdistinct hanswered hcall hsame)
          rw [hstep, inTurn_cons hdistinct hcall hsame, emitted, hfind]
          simpa only [append, List.append_assoc, List.cons_append, List.nil_append, bind,
            Except.bind] using hrun
      | none =>
          rw [step_stray htool hid hwaits hfind]
          by_cases hwaiting : waiting = []
          · subst hwaiting
            rw [if_pos ((hwaits.nil_iff nofun).mpr rfl), emitted, hfind]
            rcases @ih (state.append [result]) [] hlater nofun List.nodup_nil hwaits nofun with
              ⟨-, hrun⟩ | ⟨hnot, -⟩
            · refine .inl ⟨inTurn_nil _, ?_⟩
              simpa only [append, List.append_assoc, List.cons_append, List.nil_append, bind,
                Except.bind] using hrun
            · exact absurd (inTurn_nil _) hnot
          · -- a tool message that answers none of the waiting calls is refused
            rw [if_neg fun hempty => hwaiting ((hwaits.nil_iff hids).mp hempty)]
            exact .inr ⟨not_inTurn_cons hwaiting hfind, _, rfl⟩

theorem emitted_nil (pieceOf : FnToolCall → FnMessage) (results : List FnMessage) :
    emitted pieceOf [] results = results := by
  induction results with
  | nil => rfl
  | cons result results ih => exact congrArg (result :: ·) ih

theorem waits_nil (hempty : state.pendingToolCalls.entries = []) :
    Waits state.pendingToolCalls [] pieceOf := by
  intro id
  rw [Dict.eq_empty hempty]
  rfl

theorem step_message {message : FnMessage} (hother : message.role ≠ .tool)
    (hfew : ¬1 < message.calls.length) (hempty : state.pendingToolCalls.entries = []) :
    step state message = .ok (state.append [message]) := by
  unfold step
  cases hrole : message.role with
  | tool => exact absurd hrole hother
  | assistant =>
      rw [calls_of_assistant hrole] at hfew
      exact if_neg hfew
  | system => exact if_pos hempty
  | user => exact if_pos hempty

theorem step_several {message : FnMessage} (hseveral : 1 < message.calls.length)
    (hids : ∀ call ∈ message.calls, call.id ≠ none)
    (hdistinct : (message.calls.map FnToolCall.id).Nodup)
    (hempty : state.pendingToolCalls.entries = []) :
    ∃ pending, Waits pending message.calls (pieceFor message) ∧
      step state message = .ok { state with pendingToolCalls := pending } := by
  have hrole : message.role = .assistant := by
    by_contra hother
    rw [FnMessage.calls, if_neg hother] at hseveral
    exact absurd hseveral (by decide)
  obtain ⟨pending, hpending, hwaits⟩ := waits_postpone hids hdistinct
  refine ⟨pending, hwaits, ?_⟩
  rw [calls_of_assistant hrole] at hseveral hpending
  simp only [step, hrole, if_pos hseveral, Dict.eq_empty hempty, hpending, Except.map]

/-- What a round must be, in a list of messages whose calls are answered. -/
structure Round.Sound (round : Round) : Prop where
  role : round.message.role ≠ .tool
  results : ∀ result ∈ round.results, result.role = .tool ∧ result.toolCallId ≠ none
  callIds : ∀ call ∈ round.message.calls, call.id ≠ none
  distinct : (round.message.calls.map FnToolCall.id).Nodup
  answered : ∀ call ∈ round.message.calls,
    ∃ result ∈ round.results, result.toolCallId = call.id

/-- Whether the results of a message with several calls are accepted. -/
def Round.Accepted (round : Round) : Prop :=
  1 < round.message.calls.length → InTurn round.message.calls round.results

theorem foldlM_round (hsound : round.Sound) (hempty : state.pendingToolCalls.entries = []) :
    (round.Accepted ∧ ∃ pending, pending.entries = [] ∧ round.messages.foldlM step state =
        .ok { convertedMessages := state.convertedMessages ++ round.converted
              pendingToolCalls := pending }) ∨
      (¬round.Accepted ∧ ∃ error, round.messages.foldlM step state = .error error) := by
  unfold Round.Accepted Round.converted Round.messages
  rw [List.foldlM_cons]
  by_cases hseveral : 1 < round.message.calls.length
  · obtain ⟨pending, hwaits, hstep⟩ :=
      step_several hseveral hsound.callIds hsound.distinct hempty
    rw [if_pos hseveral, forall_prop_of_true hseveral, hstep]
    exact @foldlM_results round.results { state with pendingToolCalls := pending } _ _
      hsound.results hsound.callIds hsound.distinct hwaits hsound.answered
  · rw [if_neg hseveral, step_message hsound.role hseveral hempty]
    refine .inl ⟨fun h => absurd h hseveral, ?_⟩
    rcases @foldlM_results round.results (state.append [round.message]) [] (pieceFor round.message)
      hsound.results nofun List.nodup_nil (waits_nil hempty) nofun with ⟨-, hrun⟩ | ⟨hnot, -⟩
    · simpa only [append, emitted_nil, List.append_assoc, List.cons_append, List.nil_append, bind,
        Except.bind] using hrun
    · exact absurd (inTurn_nil _) hnot

theorem foldlM_rounds {rounds : List Round} (hsound : ∀ round ∈ rounds, round.Sound)
    (hempty : state.pendingToolCalls.entries = []) :
    ((∀ round ∈ rounds, round.Accepted) ∧ ∃ pending, pending.entries = [] ∧
        (rounds.flatMap Round.messages).foldlM step state =
          .ok { convertedMessages := state.convertedMessages ++ rounds.flatMap Round.converted
                pendingToolCalls := pending }) ∨
      ((∃ round ∈ rounds, ¬round.Accepted) ∧
        ∃ error, (rounds.flatMap Round.messages).foldlM step state = .error error) := by
  induction rounds generalizing state with
  | nil => exact .inl ⟨nofun, state.pendingToolCalls, hempty, by simp [pure, Except.pure]⟩
  | cons round rounds ih =>
      rw [List.flatMap_cons, List.foldlM_append]
      rcases foldlM_round (hsound round List.mem_cons_self) hempty with
        ⟨haccepted, pending, hpending, hrun⟩ | ⟨hrefused, error, hrun⟩
      · rw [hrun]
        rcases @ih ⟨state.convertedMessages ++ round.converted, pending⟩
          (fun other hmem => hsound other (List.mem_cons_of_mem _ hmem)) hpending with
          ⟨hothers, hrest⟩ | ⟨⟨other, hother, hrefused⟩, hrest⟩
        · refine .inl ⟨List.forall_mem_cons.mpr ⟨haccepted, hothers⟩, ?_⟩
          simpa only [List.flatMap_cons, List.append_assoc, bind, Except.bind] using hrest
        · exact .inr ⟨⟨other, List.mem_cons_of_mem _ hother, hrefused⟩, hrest⟩
      · rw [hrun]
        exact .inr ⟨⟨round, List.mem_cons_self, hrefused⟩, error, rfl⟩

theorem Answered.sound (hanswered : Answered messages)
    (hround : round ∈ (rounds messages).2) : round.Sound where
  role := ((@role_of_mem_rounds round.message messages).2 round hround).1
  results := fun result hresult =>
    have htool := ((role_of_mem_rounds messages).2 round hround).2 hresult
    ⟨htool, hanswered.resultIds result
      (mem_of_mem_round hround (List.mem_cons_of_mem _ hresult)) htool⟩
  callIds := hanswered.callIds _ (mem_of_mem_round hround List.mem_cons_self)
  distinct := (List.nodup_flatMap.mp hanswered.distinct).1 _
    (mem_of_mem_round hround List.mem_cons_self)
  answered := hanswered.answered round hround

/-- The conversion of messages whose calls are answered. -/
theorem convert_cases (hanswered : Answered messages) (ignoreFinalToolResult : Bool) :
    ((∀ round ∈ (rounds messages).2, round.Accepted) ∧
        convert messages ignoreFinalToolResult =
          .ok ((rounds messages).1 ++ (rounds messages).2.flatMap Round.converted)) ∨
      ((∃ round ∈ (rounds messages).2, ¬round.Accepted) ∧
        ∃ error, convert messages ignoreFinalToolResult = .error error) := by
  have hstart : (rounds messages).1.foldlM step {} =
      .ok { convertedMessages := (rounds messages).1 } := by
    have hresults : ∀ result ∈ (rounds messages).1,
        result.role = .tool ∧ result.toolCallId ≠ none := by
      intro result hresult
      have htool := (role_of_mem_rounds messages).1 hresult
      refine ⟨htool, hanswered.resultIds result ?_ htool⟩
      rw [← rounds_flatten messages]
      exact List.mem_append_left _ hresult
    rcases @foldlM_results (rounds messages).1 {} [] (piece []) hresults nofun List.nodup_nil
      (waits_nil rfl) nofun with ⟨-, pending, hpending, hrun⟩ | ⟨hnot, -⟩
    · rw [hrun, Dict.eq_empty hpending, emitted_nil]
      rfl
    · exact absurd (inTurn_nil _) hnot
  have hmessages : messages.foldlM step {} = (((rounds messages).2.flatMap Round.messages).foldlM
      step { convertedMessages := (rounds messages).1 }) := by
    conv_lhs => rw [← rounds_flatten messages]
    rw [List.foldlM_append, hstart]
    rfl
  rcases @foldlM_rounds { convertedMessages := (rounds messages).1 } (rounds messages).2
    (fun round hround => hanswered.sound hround) rfl with
    ⟨haccepted, pending, hpending, hrun⟩ | ⟨hrefused, error, hrun⟩
  · refine .inl ⟨haccepted, ?_⟩
    simp [convert, hmessages, hrun, hpending]
  · exact .inr ⟨hrefused, error, by simp only [convert, hmessages, hrun]⟩

end Running

end ToolCallSplit

end ShuttleFlow
