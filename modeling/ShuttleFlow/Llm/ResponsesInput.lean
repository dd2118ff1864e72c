import ShuttleFlow.Event.Messages
import ShuttleFlow.Library.Segments
import ShuttleFlow.Llm.ResponsesReplay

/-! # The input of the Responses API

Each message becomes a list of items: a tool call becomes one item, the result of a tool as many
as its content has parts that can be shown.
-/

namespace ShuttleFlow

inductive InputPart
  | inputText (text : String)
  | inputImage (imageUrl : String)
  deriving DecidableEq, Repr

/-- What the model gets to see of the result of a tool. -/
inductive ToolOutput
  | text (text : String)
  | image (imageUrl : String)
  deriving DecidableEq, Repr

inductive InputItem
  | user (content : List InputPart)
  | assistant (item : ResponsesItem)
  | functionCallOutput (callId : ToolCallID) (output : ToolOutput)
  deriving DecidableEq, Repr

def defaultTextContentLimit : Nat := 50000

namespace Message

def maybeTruncateToolText (text : String) : String :=
  String.ofList
    (PythonText.maybeTruncate text.toList defaultTextContentLimit defaultTruncateNotice)

def buildUserContentItems (visionEnabled : Bool) (content : List Content) : List InputPart :=
  content.flatMap fun
    | .text text => [.inputText text]
    | .image imageUrls => if visionEnabled then imageUrls.map .inputImage else []

/-- A message of the user is never without content. -/
def userToResponsesItems (visionEnabled : Bool) (message : Message) : List InputItem :=
  let contentItems := buildUserContentItems visionEnabled message.content
  [.user (if contentItems = [] then [.inputText ""] else contentItems)]

def toolOutputs (visionEnabled : Bool) : Content → List ToolOutput
  | .text text => [.text (maybeTruncateToolText text)]
  | .image imageUrls => if visionEnabled then imageUrls.map .image else []

def toolToResponsesItems (visionEnabled : Bool) (message : Message) : List InputItem :=
  match message.toolCallId with
  | none => []
  | some callId =>
      (message.content.flatMap (toolOutputs visionEnabled)).map (.functionCallOutput callId)

/-- The input items of a message. The system message is sent apart from them. -/
def toResponsesDict (visionEnabled : Bool) (message : Message) : List InputItem :=
  match message.role with
  | .system => []
  | .user => message.userToResponsesItems visionEnabled
  | .assistant => message.assistantToResponsesItems.map .assistant
  | .tool => message.toolToResponsesItems visionEnabled

def responsesInput (visionEnabled : Bool) (messages : List Message) : List InputItem :=
  messages.flatMap (toResponsesDict visionEnabled)

/-! ## Calls and their outputs -/

/-- The message is a result of the call. -/
def Answers (id : ToolCallID) (result : Message) : Prop :=
  result.role = .tool ∧ result.toolCallId = some id

/-- Each call is answered by a later message, and nothing else is answered. -/
structure CallsAnswered (messages : List Message) : Prop where
  answered : ∀ before message after, messages = before ++ message :: after →
    ∀ id ∈ message.openedCalls, ∃ result ∈ after, result.Answers id
  called : ∀ before result after, messages = before ++ result :: after →
    ∀ id, result.Answers id → ∃ message ∈ before, id ∈ message.openedCalls

/-- Each call has an output behind it, and there are no other outputs. -/
structure CallsHaveOutputs (items : List InputItem) : Prop where
  output : ∀ before call after, items = before ++ .assistant (.functionCall call) :: after →
    ∃ callId output, call.callId = some callId ∧ .functionCallOutput callId output ∈ after
  called : ∀ before callId output after,
    items = before ++ .functionCallOutput callId output :: after →
    ∃ call, .assistant (.functionCall call) ∈ before ∧ call.callId = some callId

/-- A text, or an image for a model that can see it. -/
def ContentShown (visionEnabled : Bool) : Content → Prop
  | .text _ => True
  | .image imageUrls => visionEnabled = true ∧ imageUrls ≠ []

/-- Each call is answered by a later message that has something to show. -/
def AnswersShown (visionEnabled : Bool) (messages : List Message) : Prop :=
  ∀ before message after, messages = before ++ message :: after →
    ∀ id ∈ message.openedCalls, ∃ result ∈ after, result.Answers id ∧
      ∃ part ∈ result.content, ContentShown visionEnabled part

section Items

variable {visionEnabled : Bool} {message : Message} {messages : List Message}

theorem toolOutputs_ne_nil_iff {part : Content} :
    toolOutputs visionEnabled part ≠ [] ↔ ContentShown visionEnabled part := by
  cases part with
  | text text => exact iff_of_true (List.cons_ne_nil _ _) trivial
  | image imageUrls => cases visionEnabled <;> simp [toolOutputs, ContentShown]

/-- The outputs among the items of a message are those of a result. -/
theorem output_mem_iff {callId : ToolCallID} :
    (∃ output, .functionCallOutput callId output ∈ message.toResponsesDict visionEnabled) ↔
      message.Answers callId ∧ ∃ part ∈ message.content, ContentShown visionEnabled part := by
  unfold toResponsesDict Answers
  cases hrole : message.role with
  | system => simp
  | user => simp [userToResponsesItems]
  | assistant => simp
  | tool =>
      cases hid : message.toolCallId with
      | none => simp [toolToResponsesItems, hid]
      | some id =>
          simp only [toolToResponsesItems, hid, List.mem_map, InputItem.functionCallOutput.injEq,
            Option.some.injEq, true_and, ← @toolOutputs_ne_nil_iff visionEnabled]
          constructor
          · rintro ⟨output, found, hfound, rfl, rfl⟩
            obtain ⟨part, hpart, hfound⟩ := List.mem_flatMap.mp hfound
            exact ⟨rfl, part, hpart, List.ne_nil_of_mem hfound⟩
          · rintro ⟨rfl, part, hpart, hshown⟩
            obtain ⟨found, hfound⟩ := List.exists_mem_of_ne_nil _ hshown
            exact ⟨found, found, List.mem_flatMap.mpr ⟨part, hpart, hfound⟩, rfl, rfl⟩

theorem call_mem_iff {call : ResponsesFunctionCall} :
    .assistant (.functionCall call) ∈ message.toResponsesDict visionEnabled ↔
      message.role = .assistant ∧ ∃ toolCall ∈ message.calls, toolCall.toResponsesDict = call := by
  unfold toResponsesDict
  cases hrole : message.role with
  | system => simp
  | user => simp [userToResponsesItems]
  | tool => cases hid : message.toolCallId <;> simp [toolToResponsesItems, hid]
  | assistant => simp [assistantToResponsesItems]

/-- The calls of a message are those among its items. -/
theorem opened_iff {id : ToolCallID} :
    id ∈ message.openedCalls ↔ ∃ call, call.callId = some id ∧
      .assistant (.functionCall call) ∈ message.toResponsesDict visionEnabled := by
  simp only [call_mem_iff]
  unfold openedCalls
  by_cases hrole : message.role = .assistant
  · simp only [hrole, if_true, List.mem_map, true_and]
    constructor
    · rintro ⟨toolCall, hmem, rfl⟩
      exact ⟨toolCall.toResponsesDict, rfl, toolCall, hmem, rfl⟩
    · rintro ⟨call, hid, toolCall, hmem, rfl⟩
      exact ⟨toolCall, hmem, Option.some.inj hid⟩
  · simp [hrole]

/-- Where each answer follows its call, the outputs do. -/
theorem called_of_answers (hcalled : ∀ before result after, messages = before ++ result :: after →
      ∀ id, result.Answers id → ∃ message ∈ before, id ∈ message.openedCalls)
    {before after : List InputItem} {callId : ToolCallID} {output : ToolOutput}
    (hsplit : responsesInput visionEnabled messages =
      before ++ .functionCallOutput callId output :: after) :
    ∃ call, .assistant (.functionCall call) ∈ before ∧ call.callId = some callId := by
  obtain ⟨earlier, result, later, first, last, rfl, hresult, rfl, rfl⟩ :=
    Segments.marker_flatMap hsplit
  have hmem : .functionCallOutput callId output ∈ result.toResponsesDict visionEnabled := by
    rw [hresult]
    exact List.mem_append_right _ List.mem_cons_self
  obtain ⟨hanswers, -⟩ := output_mem_iff.mp ⟨output, hmem⟩
  obtain ⟨message, hmessage, hopened⟩ := hcalled earlier result later rfl callId hanswers
  obtain ⟨call, hid, hcall⟩ := (@opened_iff visionEnabled message callId).mp hopened
  exact ⟨call, List.mem_append_left _ (List.mem_flatMap.mpr ⟨message, hmessage, hcall⟩), hid⟩

/-- Behind a call there is an output of it exactly if an answer behind its message is shown. -/
theorem output_after_iff {message : Message} {later : List Message} {call : ResponsesFunctionCall}
    {first last : List InputItem} {callId : ToolCallID}
    (hitems : message.toResponsesDict visionEnabled =
      first ++ .assistant (.functionCall call) :: last) :
    (∃ output, .functionCallOutput callId output ∈ last ++ responsesInput visionEnabled later) ↔
      ∃ result ∈ later, result.Answers callId ∧
        ∃ part ∈ result.content, ContentShown visionEnabled part := by
  have hcall : .assistant (.functionCall call) ∈ message.toResponsesDict visionEnabled := by
    rw [hitems]
    exact List.mem_append_right _ List.mem_cons_self
  have hrole := (call_mem_iff.mp hcall).1
  constructor
  · rintro ⟨output, houtput⟩
    rcases List.mem_append.mp houtput with hlast | hlater
    · -- the same message would be a result
      have hmem : .functionCallOutput callId output ∈ message.toResponsesDict visionEnabled := by
        rw [hitems]
        exact List.mem_append_right _ (List.mem_cons_of_mem _ hlast)
      have htool := (output_mem_iff.mp ⟨output, hmem⟩).1.1
      rw [hrole] at htool
      cases htool
    · obtain ⟨result, hresult, hmem⟩ := List.mem_flatMap.mp hlater
      exact ⟨result, hresult, output_mem_iff.mp ⟨output, hmem⟩⟩
  · rintro ⟨result, hresult, hshown⟩
    obtain ⟨output, hmem⟩ := output_mem_iff.mpr hshown
    exact ⟨output, List.mem_append_right _ (List.mem_flatMap.mpr ⟨result, hresult, hmem⟩)⟩

end Items

/-- Well-paired messages are answered. -/
theorem callsAnswered_of_wellPaired {messages : List Message} (hpaired : WellPaired messages) :
    CallsAnswered messages := by
  induction hpaired with
  | nil =>
      constructor
      · rintro before message after hsplit
        simp at hsplit
      · rintro before result after hsplit
        simp at hsplit
  | @cons message results rest hrole hroles hperm hpaired ih =>
      constructor
      · rintro before found after hsplit id hid
        rcases List.cons_eq_append_iff.mp hsplit with ⟨rfl, hcons⟩ | ⟨earlier, rfl, hrest⟩
        · -- the message itself
          obtain ⟨rfl, rfl⟩ := List.cons.inj hcons
          obtain ⟨result, hresult, hanswers⟩ := List.mem_map.mp
            (hperm.symm.subset (List.mem_map_of_mem hid))
          exact ⟨result, List.mem_append_left _ hresult, hroles result hresult, hanswers⟩
        · rcases Segments.marker_split hrest with ⟨last, rfl, -⟩ | ⟨middle, -, hlater⟩
          · -- a result opens no calls
            have htool := hroles found (by simp)
            rw [openedCalls, htool] at hid
            exact absurd hid List.not_mem_nil
          · exact ih.answered middle found after hlater id hid
      · rintro before found after hsplit id hanswers
        rcases List.cons_eq_append_iff.mp hsplit with ⟨rfl, hcons⟩ | ⟨earlier, rfl, hrest⟩
        · obtain ⟨rfl, rfl⟩ := List.cons.inj hcons
          exact absurd hanswers.1 hrole
        · rcases Segments.marker_split hrest with ⟨last, rfl, -⟩ | ⟨middle, rfl, hlater⟩
          · have hmem : found.toolCallId ∈ message.openedCalls.map some :=
              hperm.subset (List.mem_map_of_mem (by simp))
            rw [hanswers.2] at hmem
            obtain ⟨opened, hopened, hsame⟩ := List.mem_map.mp hmem
            obtain rfl := Option.some.inj hsame
            exact ⟨message, List.mem_cons_self, hopened⟩
          · obtain ⟨opening, hopening, hopened⟩ := ih.called middle found after hlater id hanswers
            exact ⟨opening, List.mem_cons_of_mem _ (List.mem_append_right _ hopening), hopened⟩

/-- Exactly where each call has an answer that is shown, it has an output. -/
theorem callsHaveOutputs_iff_shown (visionEnabled : Bool) (messages : List Message)
    (hanswered : CallsAnswered messages) :
    CallsHaveOutputs (responsesInput visionEnabled messages) ↔
      AnswersShown visionEnabled messages := by
  constructor
  · rintro houtputs before message after rfl id hid
    obtain ⟨call, hcallId, hcall⟩ := (@opened_iff visionEnabled message id).mp hid
    obtain ⟨first, last, hitems⟩ := List.append_of_mem hcall
    obtain ⟨callId, output, hsame, houtput⟩ := houtputs.output
      (responsesInput visionEnabled before ++ first) call
      (last ++ responsesInput visionEnabled after) (by
        rw [responsesInput, List.flatMap_append, List.flatMap_cons, hitems]
        simp [responsesInput])
    obtain rfl : id = callId := Option.some.inj (hcallId.symm.trans hsame)
    exact (output_after_iff hitems).mp ⟨output, houtput⟩
  · intro hshown
    refine ⟨fun before call after hsplit => ?_, fun before callId output after hsplit =>
      called_of_answers hanswered.called hsplit⟩
    obtain ⟨earlier, message, later, first, last, rfl, hitems, rfl, rfl⟩ :=
      Segments.marker_flatMap hsplit
    have hcall : .assistant (.functionCall call) ∈ message.toResponsesDict visionEnabled := by
      rw [hitems]
      exact List.mem_append_right _ List.mem_cons_self
    obtain ⟨-, toolCall, -, rfl⟩ := call_mem_iff.mp hcall
    have hopened : toolCall.id ∈ message.openedCalls :=
      (@opened_iff visionEnabled message _).mpr ⟨_, rfl, hcall⟩
    obtain ⟨output, houtput⟩ := (output_after_iff hitems).mpr
      (hshown earlier message later rfl toolCall.id hopened)
    exact ⟨toolCall.id, output, rfl, houtput⟩

/-- A call and its result. -/
def oneCall (content : List Content) : List Message :=
  [{ role := .assistant, toolCalls := some [⟨"c", none, "tool", "", .responses⟩] },
    { role := .tool, content, name := some "tool", toolCallId := some "c" }]

theorem callsHaveOutputs_text :
    CallsHaveOutputs (responsesInput false (oneCall [.text "done"])) := by
  refine (callsHaveOutputs_iff_shown false (oneCall [.text "done"])
    (callsAnswered_of_wellPaired (by decide))).mpr ?_
  intro before message after hsplit id hid
  rcases List.cons_eq_append_iff.mp hsplit with ⟨rfl, hcons⟩ | ⟨earlier, rfl, hrest⟩
  · obtain ⟨rfl, rfl⟩ := List.cons.inj hcons
    obtain rfl : id = "c" := by simpa [openedCalls, calls] using hid
    exact ⟨_, List.mem_cons_self, ⟨rfl, rfl⟩, _, List.mem_cons_self, trivial⟩
  · rcases List.cons_eq_append_iff.mp hrest with ⟨rfl, hcons⟩ | ⟨last, rfl, hnil⟩
    · obtain ⟨rfl, rfl⟩ := List.cons.inj hcons
      simp [openedCalls] at hid
    · simp at hnil

/-- An observation without content leaves its call without an output. -/
theorem not_callsHaveOutputs_empty :
    ∃ events messages, eventsToMessages events = some messages ∧ WellPaired messages ∧
      ¬CallsHaveOutputs (responsesInput true messages) := by
  refine ⟨[.action (Sample.action "a" "r" "c" (some .other) []),
    .observation (Sample.observation "o" "c" "a")], _, rfl, by decide, fun houtputs => ?_⟩
  obtain ⟨callId, output, -, hmem⟩ := houtputs.output [] _ [] rfl
  exact absurd hmem List.not_mem_nil

end Message

end ShuttleFlow
