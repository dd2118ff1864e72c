import ShuttleFlow.Library.PythonText
import ShuttleFlow.Llm.Message

/-! # Replaying a response of the Responses API

The output of the model is folded into one message. For the next request the message is
turned into a list of input items again.
-/

namespace ShuttleFlow

/-- A part of a message that the model put out. -/
inductive OutputPart
  | outputText (text : String)
  | refusal (reason : String)
  deriving DecidableEq, Repr

def OutputPart.collected : OutputPart → Option String
  | outputText text => if text = "" then none else some text
  | refusal _ => none

/-- A function call item. It is a typed object, or a generic one or a dictionary; what is
missing there is read as nothing, or as an empty text. -/
structure ResponsesFunctionCall where
  typed : Bool := false
  id : Option String
  callId : Option String
  name : String
  arguments : String
  deriving DecidableEq, Repr

/-- The items of an output, and of the input that is made of it. -/
inductive ResponsesItem
  | reasoning (item : ReasoningItemModel)
  | message (content : List OutputPart)
  | functionCall (call : ResponsesFunctionCall)
  deriving DecidableEq, Repr

inductive ResponsesError
  | missingCallId | missingName
  deriving DecidableEq, Repr

/-- An empty text counts as a missing one. -/
def nonempty (text : Option String) : Option String :=
  text.filter (· ≠ "")

namespace MessageToolCall

/-- From a typed item. -/
def fromResponsesFunctionCall (item : ResponsesFunctionCall) :
    Except ResponsesError MessageToolCall :=
  let callId := ((nonempty item.callId).or item.id).getD ""
  if callId = "" then throw .missingCallId
  else if item.name = "" then throw .missingName
  else
    pure
      { id := callId, responsesItemId := nonempty item.id, name := item.name,
        arguments := item.arguments, origin := .responses }

/-- From a generic object or a dictionary. -/
def fromGenericItem (item : ResponsesFunctionCall) : MessageToolCall :=
  { id := ((nonempty item.callId).or item.id).getD "", responsesItemId := nonempty item.id,
    name := item.name, arguments := item.arguments, origin := .responses }

def fromItem (item : ResponsesFunctionCall) : Except ResponsesError MessageToolCall :=
  if item.typed then fromResponsesFunctionCall item else pure (fromGenericItem item)

/-- The id of the item is echoed when there is one. -/
def toResponsesDict (toolCall : MessageToolCall) : ResponsesFunctionCall where
  id := some ((nonempty toolCall.responsesItemId).getD
    (if "fc".toList <+: toolCall.id.toList then toolCall.id else "fc_" ++ toolCall.id))
  callId := some toolCall.id
  name := toolCall.name
  arguments := toolCall.arguments

end MessageToolCall

namespace Message

/-- What was collected from the items so far. -/
structure Collected where
  assistantTextParts : List String := []
  toolCalls : List MessageToolCall := []
  responsesReasoningItem : Option ReasoningItemModel := none

/-- The texts that are collected from a message. -/
def outputTexts (content : List OutputPart) : List String :=
  content.filterMap OutputPart.collected

/-- An item of the output is collected. -/
def collect (collected : Collected) : ResponsesItem → Except ResponsesError Collected
  | .message content => pure
      { collected with
        assistantTextParts := collected.assistantTextParts ++ outputTexts content }
  | .functionCall call => (MessageToolCall.fromItem call).map fun toolCall =>
      { collected with toolCalls := collected.toolCalls ++ [toolCall] }
  | .reasoning item => pure
      { collected with
        responsesReasoningItem := some { item with content := item.content.filter (· ≠ []) } }

def fromLlmResponsesOutput (output : List ResponsesItem) : Except ResponsesError Message := do
  let collected ← output.foldlM collect {}
  let assistantText := PythonText.strip ("\n".intercalate collected.assistantTextParts)
  pure
    { role := .assistant
      content := if assistantText = "" then [] else [.text assistantText]
      toolCalls := if collected.toolCalls = [] then none else some collected.toolCalls
      responsesReasoningItem := collected.responsesReasoningItem }

def outputPart : Content → Option OutputPart
  | .text text => if text = "" then none else some (.outputText text)
  | .image _ => none

def buildAssistantContentItems (content : List Content) : List OutputPart :=
  content.filterMap outputPart

/-- An item without an id is left out. -/
def buildReasoningItem (item : ReasoningItemModel) : Option ReasoningItemModel :=
  item.id.map fun id =>
    { id := some id, summary := item.summary, content := item.content.filter (· ≠ [])
      encryptedContent := nonempty item.encryptedContent, status := nonempty item.status }

/-- The input items of a message of the assistant. -/
def assistantToResponsesItems (message : Message) : List ResponsesItem :=
  let contentItems := buildAssistantContentItems message.content
  ((message.responsesReasoningItem.bind buildReasoningItem).toList.map .reasoning) ++
    (if contentItems = [] then [] else [.message contentItems]) ++
    message.calls.map fun toolCall => .functionCall toolCall.toResponsesDict

end Message

/-! ## What the replay keeps -/

/-- What is to be replayed of an item. -/
inductive Echo
  | reasoning (id : Option String) (summary : List String) (encryptedContent : Option String)
  | functionCall (id callId : Option String) (name arguments : String)
  deriving DecidableEq, Repr

/-- Whether a reasoning item is replayed. -/
def Echo.isReasoning : Echo → Bool
  | .reasoning _ _ _ => true
  | .functionCall _ _ _ _ => false

def ReasoningItemModel.echo (item : ReasoningItemModel) : Echo :=
  .reasoning item.id item.summary item.encryptedContent

namespace ResponsesFunctionCall

def echo (call : ResponsesFunctionCall) : Echo :=
  .functionCall call.id call.callId call.name call.arguments

/-- A call with an id and a call id. -/
structure Identified (call : ResponsesFunctionCall) : Prop where
  id : ∃ id, call.id = some id ∧ id ≠ ""
  callId : ∃ callId, call.callId = some callId ∧ callId ≠ ""

end ResponsesFunctionCall

namespace ResponsesItem

def echo : ResponsesItem → Option Echo
  | reasoning item => some item.echo
  | message _ => none
  | functionCall call => some call.echo

def call : ResponsesItem → Option ResponsesFunctionCall
  | functionCall call => some call
  | reasoning _ | message _ => none

def reasoningItem : ResponsesItem → Option ReasoningItemModel
  | reasoning item => some { item with content := item.content.filter (· ≠ []) }
  | message _ | functionCall _ => none

def texts : ResponsesItem → List String
  | message content => Message.outputTexts content
  | reasoning _ | functionCall _ => []

end ResponsesItem

namespace Message

/-- The replay has the reasoning items and function calls of the output, in their order, and
is read as the same message. -/
def Replays (output : List ResponsesItem) : Prop :=
  ∃ message, fromLlmResponsesOutput output = .ok message ∧
    message.assistantToResponsesItems.filterMap ResponsesItem.echo =
      output.filterMap ResponsesItem.echo ∧
    fromLlmResponsesOutput message.assistantToResponsesItems = .ok message

/-- Nothing but messages stands before a reasoning item, so there is only one. It has an id
and no empty texts. Typed calls have a name. -/
structure Replayable (output : List ResponsesItem) : Prop where
  named : ∀ call, .functionCall call ∈ output → call.typed = true → call.name ≠ ""
  reasoning : ∀ before item after, output = before ++ .reasoning item :: after →
    before.filterMap ResponsesItem.echo = [] ∧ item.id ≠ none ∧
      item.encryptedContent ≠ some "" ∧ item.status ≠ some ""

variable {output : List ResponsesItem} {call : ResponsesFunctionCall}

theorem nonempty_some {text : String} (htext : text ≠ "") : nonempty (some text) = some text :=
  Option.filter_some_pos (decide_eq_true htext)

theorem nonempty_eq_self_iff {text : Option String} : nonempty text = text ↔ text ≠ some "" := by
  cases text with
  | none => exact iff_of_true rfl nofun
  | some text =>
      rw [nonempty, Option.filter_some]
      split
      next htext => simpa using htext
      next htext => simpa using htext

/-! ### Reading -/

/-- The calls of an output. -/
def toolCallsOf (output : List ResponsesItem) : List MessageToolCall :=
  (output.filterMap ResponsesItem.call).map MessageToolCall.fromGenericItem

/-- What is collected from an output whose calls can all be read. -/
def collectedOf (collected : Collected) (output : List ResponsesItem) : Collected where
  assistantTextParts := collected.assistantTextParts ++ output.flatMap ResponsesItem.texts
  toolCalls := collected.toolCalls ++ toolCallsOf output
  responsesReasoningItem :=
    (output.filterMap ResponsesItem.reasoningItem).getLast?.or collected.responsesReasoningItem

theorem id_fromGenericItem (hcall : call.Identified) :
    call.callId = some (MessageToolCall.fromGenericItem call).id ∧
      (MessageToolCall.fromGenericItem call).id ≠ "" := by
  obtain ⟨callId, hcallId, hne⟩ := hcall.callId
  have hid : (MessageToolCall.fromGenericItem call).id = callId := by
    rw [MessageToolCall.fromGenericItem, hcallId, nonempty_some hne]
    rfl
  rw [hid]
  exact ⟨hcallId, hne⟩

theorem responsesItemId_fromGenericItem (hcall : call.Identified) :
    (MessageToolCall.fromGenericItem call).responsesItemId = call.id ∧
      nonempty call.id = call.id := by
  obtain ⟨id, hid, hne⟩ := hcall.id
  have hkeep : nonempty call.id = call.id := by rw [hid, nonempty_some hne]
  exact ⟨hkeep, hkeep⟩

theorem fromResponsesFunctionCall_eq (hcall : call.Identified) :
    MessageToolCall.fromResponsesFunctionCall call =
      if call.name = "" then .error .missingName
      else .ok (MessageToolCall.fromGenericItem call) := by
  unfold MessageToolCall.fromResponsesFunctionCall
  exact if_neg (id_fromGenericItem hcall).2

theorem fromItem_eq (hcall : call.Identified) (hnamed : call.typed = true → call.name ≠ "") :
    MessageToolCall.fromItem call = .ok (MessageToolCall.fromGenericItem call) := by
  rw [MessageToolCall.fromItem]
  split
  next htyped => rw [fromResponsesFunctionCall_eq hcall, if_neg (hnamed htyped)]
  next => rfl

theorem collectedOf_append (collected : Collected) (output later : List ResponsesItem) :
    collectedOf (collectedOf collected output) later = collectedOf collected (output ++ later) := by
  simp only [collectedOf, toolCallsOf, List.filterMap_append, List.map_append,
    List.flatMap_append, List.append_assoc, List.getLast?_append, Option.or_assoc]

/-- An item is collected, unless it is a typed call without a name. -/
theorem collect_eq (collected : Collected) (item : ResponsesItem)
    (hids : ∀ call, item = .functionCall call → call.Identified)
    (hnamed : ∀ call, item = .functionCall call → call.typed = true → call.name ≠ "") :
    collect collected item = .ok (collectedOf collected [item]) := by
  cases item with
  | reasoning item => simp [collect, collectedOf, toolCallsOf, ResponsesItem.reasoningItem,
      ResponsesItem.texts, ResponsesItem.call, pure, Except.pure]
  | message content => simp [collect, collectedOf, toolCallsOf, ResponsesItem.reasoningItem,
      ResponsesItem.texts, ResponsesItem.call, pure, Except.pure]
  | functionCall call =>
      rw [collect, fromItem_eq (hids call rfl) (hnamed call rfl)]
      simp [collectedOf, toolCallsOf, ResponsesItem.reasoningItem, ResponsesItem.texts,
        ResponsesItem.call, Except.map]

theorem foldlM_collect (hids : ∀ call, .functionCall call ∈ output → call.Identified)
    (hnamed : ∀ call, .functionCall call ∈ output → call.typed = true → call.name ≠ "")
    (collected : Collected) :
    output.foldlM collect collected = .ok (collectedOf collected output) := by
  induction output generalizing collected with
  | nil => simp [collectedOf, toolCallsOf, pure, Except.pure]
  | cons item output ih =>
      rw [List.foldlM_cons, collect_eq collected item
        (fun call hcall => hids call (hcall ▸ List.mem_cons_self))
        (fun call hcall => hnamed call (hcall ▸ List.mem_cons_self))]
      exact (ih (fun call hmem => hids call (List.mem_cons_of_mem item hmem))
        (fun call hmem => hnamed call (List.mem_cons_of_mem item hmem)) _).trans
        (congrArg Except.ok (collectedOf_append collected [item] output))

/-- What could be read has no typed calls without a name. -/
theorem named_of_foldlM (hids : ∀ call, .functionCall call ∈ output → call.Identified)
    {collected last : Collected} (hread : output.foldlM collect collected = .ok last) :
    ∀ call, .functionCall call ∈ output → call.typed = true → call.name ≠ "" := by
  induction output generalizing collected with
  | nil => exact nofun
  | cons item output ih =>
      rw [List.foldlM_cons] at hread
      cases hitem : collect collected item with
      | error error =>
          rw [hitem] at hread
          cases hread
      | ok middle =>
          rw [hitem] at hread
          intro call hmem htyped hname
          cases List.mem_cons.mp hmem with
          | inl hhead =>
              rw [← hhead, collect, MessageToolCall.fromItem, if_pos htyped,
                fromResponsesFunctionCall_eq (hids call hmem), if_pos hname] at hitem
              cases hitem
          | inr htail =>
              exact ih (fun call hmem => hids call (List.mem_cons_of_mem item hmem)) hread
                call htail htyped hname

def assistantText (texts : List String) : String :=
  PythonText.strip ("\n".intercalate texts)

/-- The message of an output that can be read. -/
def messageOf (output : List ResponsesItem) : Message where
  role := .assistant
  content :=
    if assistantText (output.flatMap ResponsesItem.texts) = "" then []
    else [.text (assistantText (output.flatMap ResponsesItem.texts))]
  toolCalls := if toolCallsOf output = [] then none else some (toolCallsOf output)
  responsesReasoningItem := (output.filterMap ResponsesItem.reasoningItem).getLast?

theorem fromLlmResponsesOutput_eq (hids : ∀ call, .functionCall call ∈ output → call.Identified)
    (hnamed : ∀ call, .functionCall call ∈ output → call.typed = true → call.name ≠ "") :
    fromLlmResponsesOutput output = .ok (messageOf output) := by
  rw [fromLlmResponsesOutput, foldlM_collect hids hnamed]
  simp only [collectedOf, List.nil_append, Option.or_none]
  rfl

theorem named_of_fromLlmResponsesOutput
    (hids : ∀ call, .functionCall call ∈ output → call.Identified) {message : Message}
    (hread : fromLlmResponsesOutput output = .ok message) :
    ∀ call, .functionCall call ∈ output → call.typed = true → call.name ≠ "" := by
  cases hcollected : output.foldlM collect {} with
  | error error =>
      rw [fromLlmResponsesOutput, hcollected] at hread
      cases hread
  | ok collected => exact named_of_foldlM hids hcollected

@[simp] theorem calls_messageOf (output : List ResponsesItem) :
    (messageOf output).calls = toolCallsOf output := by
  change (if toolCallsOf output = [] then none else some (toolCallsOf output)).getD [] = _
  split
  next hnone => exact hnone.symm
  next => rfl

/-! ### Writing -/

theorem toResponsesDict_fromGenericItem (hcall : call.Identified) :
    (MessageToolCall.fromGenericItem call).toResponsesDict = { call with typed := false } := by
  obtain ⟨id, hid, hne⟩ := hcall.id
  rw [MessageToolCall.toResponsesDict, (responsesItemId_fromGenericItem hcall).1,
    (responsesItemId_fromGenericItem hcall).2, hid, Option.getD_some,
    ← (id_fromGenericItem hcall).1, ← hid]
  rfl

/-- What the items of a message consist of. -/
def items (reasoning : Option ReasoningItemModel) (content : List OutputPart)
    (calls : List ResponsesFunctionCall) : List ResponsesItem :=
  reasoning.toList.map .reasoning ++ (if content = [] then [] else [.message content]) ++
    calls.map .functionCall

section Items

variable (reasoning : Option ReasoningItemModel) (content : List OutputPart)
  (calls : List ResponsesFunctionCall)

theorem filterMap_items {Kept : Type} (keep : ResponsesItem → Option Kept)
    (hmessage : keep (.message content) = none) :
    (items reasoning content calls).filterMap keep =
      (reasoning.bind fun item => keep (.reasoning item)).toList ++
        calls.filterMap fun call => keep (.functionCall call) := by
  have hnone : (if content = [] then [] else [ResponsesItem.message content]).filterMap keep =
      [] := by
    split
    next => rfl
    next => rw [List.filterMap_cons_none hmessage, List.filterMap_nil]
  have hreasoning : (reasoning.toList.map ResponsesItem.reasoning).filterMap keep =
      (reasoning.bind fun item => keep (.reasoning item)).toList := by
    cases reasoning with
    | none => rfl
    | some item =>
        rw [Option.toList_some, Option.bind_some, List.map_cons, List.map_nil]
        cases hkeep : keep (.reasoning item) with
        | none => rw [List.filterMap_cons_none hkeep]; rfl
        | some kept => rw [List.filterMap_cons_some hkeep]; rfl
  rw [items, List.filterMap_append, List.filterMap_append, hnone, hreasoning, List.append_nil,
    List.filterMap_map]
  rfl

theorem call_items : (items reasoning content calls).filterMap ResponsesItem.call = calls := by
  rw [filterMap_items _ _ _ _ rfl]
  cases reasoning with
  | none => exact List.filterMap_some
  | some item => exact List.filterMap_some

theorem echo_items : (items reasoning content calls).filterMap ResponsesItem.echo =
    reasoning.toList.map ReasoningItemModel.echo ++ calls.map ResponsesFunctionCall.echo := by
  rw [filterMap_items _ _ _ _ rfl]
  cases reasoning with
  | none => exact congrFun List.filterMap_eq_map calls
  | some item =>
      exact congrArg (List.cons item.echo) (congrFun List.filterMap_eq_map calls)

theorem reasoningItem_items :
    (items reasoning content calls).filterMap ResponsesItem.reasoningItem =
      (reasoning.bind fun item => ResponsesItem.reasoningItem (.reasoning item)).toList := by
  rw [filterMap_items _ _ _ _ rfl]
  exact (congrArg _ (List.filterMap_eq_nil_iff.mpr fun _ _ => rfl)).trans (List.append_nil _)

theorem texts_items :
    (items reasoning content calls).flatMap ResponsesItem.texts = outputTexts content := by
  have hmessage : (if content = [] then [] else [ResponsesItem.message content]).flatMap
      ResponsesItem.texts = outputTexts content := by
    split
    next hnil => rw [hnil]; rfl
    next => exact List.append_nil _
  have hreasoning : (reasoning.toList.map ResponsesItem.reasoning).flatMap
      ResponsesItem.texts = [] := by
    cases reasoning <;> rfl
  have hcalls : (calls.map ResponsesItem.functionCall).flatMap ResponsesItem.texts = [] := by
    induction calls with
    | nil => rfl
    | cons _ _ ih => exact ih
  rw [items, List.flatMap_append, List.flatMap_append, hmessage, hreasoning, hcalls,
    List.nil_append, List.append_nil]

end Items

/-- The calls of the replay are those of the output. -/
theorem toResponsesDict_toolCallsOf
    (hids : ∀ call, .functionCall call ∈ output → call.Identified) :
    (toolCallsOf output).map MessageToolCall.toResponsesDict =
      (output.filterMap ResponsesItem.call).map fun call => { call with typed := false } := by
  rw [toolCallsOf, List.map_map]
  refine List.map_congr_left fun call hmem => ?_
  obtain ⟨item, hitem, hcall⟩ := List.mem_filterMap.mp hmem
  cases item with
  | reasoning _ | message _ => cases hcall
  | functionCall _ =>
      cases hcall
      exact toResponsesDict_fromGenericItem (hids call hitem)

theorem assistantToResponsesItems_messageOf
    (hids : ∀ call, .functionCall call ∈ output → call.Identified) :
    (messageOf output).assistantToResponsesItems =
      items ((messageOf output).responsesReasoningItem.bind buildReasoningItem)
        (buildAssistantContentItems (messageOf output).content)
        ((output.filterMap ResponsesItem.call).map fun call => { call with typed := false }) := by
  rw [← toResponsesDict_toolCallsOf hids, ← calls_messageOf, items, List.map_map]
  rfl

theorem reasoningItem_buildReasoningItem {item built : ReasoningItemModel}
    (hbuilt : buildReasoningItem item = some built) :
    ResponsesItem.reasoningItem (.reasoning built) = some built := by
  obtain ⟨id, -, rfl⟩ := Option.map_eq_some_iff.mp hbuilt
  simp only [ResponsesItem.reasoningItem, Option.filter_filter, Bool.and_self]

theorem content_messageOf (output : List ResponsesItem) :
    (messageOf output).content =
      if assistantText (output.flatMap ResponsesItem.texts) = "" then []
      else [.text (assistantText (output.flatMap ResponsesItem.texts))] := by
  simp only [messageOf]

/-- A text is written and read without a change. -/
theorem assistantText_buildAssistantContentItems (texts : List String) :
    assistantText (outputTexts (buildAssistantContentItems
      (if assistantText texts = "" then [] else [.text (assistantText texts)]))) =
      assistantText texts := by
  split
  next hempty =>
    have hnil : outputTexts (buildAssistantContentItems []) = [] := rfl
    rw [hempty, hnil, assistantText, String.intercalate_nil]
    rfl
  next htext =>
    have hone : outputTexts (buildAssistantContentItems [.text (assistantText texts)]) =
        [assistantText texts] := by
      simp only [outputTexts, buildAssistantContentItems, outputPart, if_neg htext,
        List.filterMap_cons, List.filterMap_nil, OutputPart.collected]
    rw [hone, assistantText, String.intercalate_singleton]
    exact PythonText.strip_strip _

/-- Reading the replay gives the message back, but for its reasoning item. -/
theorem messageOf_assistantToResponsesItems
    (hids : ∀ call, .functionCall call ∈ output → call.Identified) :
    messageOf (messageOf output).assistantToResponsesItems =
      { messageOf output with
        responsesReasoningItem :=
          (messageOf output).responsesReasoningItem.bind buildReasoningItem } := by
  have hcalls : toolCallsOf (messageOf output).assistantToResponsesItems =
      toolCallsOf output := by
    rw [toolCallsOf, assistantToResponsesItems_messageOf hids, call_items, List.map_map]
    rfl
  have htext : assistantText
      ((messageOf output).assistantToResponsesItems.flatMap ResponsesItem.texts) =
        assistantText (output.flatMap ResponsesItem.texts) := by
    rw [assistantToResponsesItems_messageOf hids, texts_items, content_messageOf,
      assistantText_buildAssistantContentItems]
  have hreasoning :
      ((messageOf output).assistantToResponsesItems.filterMap
        ResponsesItem.reasoningItem).getLast? =
        (messageOf output).responsesReasoningItem.bind buildReasoningItem := by
    rw [assistantToResponsesItems_messageOf hids, reasoningItem_items]
    cases hbuilt : (messageOf output).responsesReasoningItem.bind buildReasoningItem with
    | none => rfl
    | some built =>
        obtain ⟨item, -, hitem⟩ := Option.bind_eq_some_iff.mp hbuilt
        rw [Option.bind_some, reasoningItem_buildReasoningItem hitem]
        rfl
  conv_lhs => rw [messageOf, hcalls, htext, hreasoning]
  simp only [messageOf]

/-! ### Which outputs are replayed -/

/-- What the items are replayed as, when they are read. -/
def echoesOf (output : List ResponsesItem) : List Echo :=
  ((messageOf output).responsesReasoningItem.bind buildReasoningItem).toList.map
      ReasoningItemModel.echo ++
    (output.filterMap ResponsesItem.call).map ResponsesFunctionCall.echo

theorem echo_assistantToResponsesItems
    (hids : ∀ call, .functionCall call ∈ output → call.Identified) :
    (messageOf output).assistantToResponsesItems.filterMap ResponsesItem.echo =
      echoesOf output := by
  rw [assistantToResponsesItems_messageOf hids, echo_items, List.map_map, echoesOf]
  rfl

/-- The calls of a replay can be read. -/
theorem readable_assistantToResponsesItems
    (hids : ∀ call, .functionCall call ∈ output → call.Identified)
    (hmem : .functionCall call ∈ (messageOf output).assistantToResponsesItems) :
    call.Identified ∧ call.typed = false := by
  rw [assistantToResponsesItems_messageOf hids] at hmem
  have hcall : call ∈ (items ((messageOf output).responsesReasoningItem.bind buildReasoningItem)
      (buildAssistantContentItems (messageOf output).content)
      ((output.filterMap ResponsesItem.call).map fun call =>
        { call with typed := false })).filterMap ResponsesItem.call :=
    List.mem_filterMap.mpr ⟨_, hmem, rfl⟩
  rw [call_items] at hcall
  obtain ⟨original, horiginal, rfl⟩ := List.mem_map.mp hcall
  obtain ⟨item, hitem, hread⟩ := List.mem_filterMap.mp horiginal
  cases item with
  | reasoning _ | message _ => cases hread
  | functionCall _ =>
      cases hread
      exact ⟨⟨(hids original hitem).id, (hids original hitem).callId⟩, rfl⟩

theorem replays_iff_echo (hids : ∀ call, .functionCall call ∈ output → call.Identified) :
    Replays output ↔
      (∀ call, .functionCall call ∈ output → call.typed = true → call.name ≠ "") ∧
      echoesOf output = output.filterMap ResponsesItem.echo ∧
      (messageOf output).responsesReasoningItem.bind buildReasoningItem =
        (messageOf output).responsesReasoningItem := by
  have hagain : fromLlmResponsesOutput (messageOf output).assistantToResponsesItems =
      .ok (messageOf (messageOf output).assistantToResponsesItems) :=
    fromLlmResponsesOutput_eq
      (fun call hmem => (readable_assistantToResponsesItems hids hmem).1)
      (fun call hmem htyped => by
        rw [(readable_assistantToResponsesItems hids hmem).2] at htyped
        cases htyped)
  constructor
  · rintro ⟨message, hread, hecho, hreread⟩
    have hnamed := named_of_fromLlmResponsesOutput hids hread
    rw [fromLlmResponsesOutput_eq hids hnamed] at hread
    cases hread
    rw [hagain, messageOf_assistantToResponsesItems hids] at hreread
    rw [echo_assistantToResponsesItems hids] at hecho
    exact ⟨hnamed, hecho,
      congrArg Message.responsesReasoningItem (Except.ok.inj hreread)⟩
  · rintro ⟨hnamed, hecho, hreasoning⟩
    refine ⟨messageOf output, fromLlmResponsesOutput_eq hids hnamed,
      (echo_assistantToResponsesItems hids).trans hecho, ?_⟩
    rw [hagain, messageOf_assistantToResponsesItems hids, hreasoning]

/-- An item is written as it was read if it has an id and no empty texts. -/
theorem buildReasoningItem_eq_self_iff {item : ReasoningItemModel}
    (hcontent : item.content.filter (· ≠ []) = item.content) :
    buildReasoningItem item = some item ↔
      item.id ≠ none ∧ item.encryptedContent ≠ some "" ∧ item.status ≠ some "" := by
  rw [← nonempty_eq_self_iff, ← nonempty_eq_self_iff]
  cases item with
  | mk id summary content encryptedContent status =>
      cases id with
      | none => exact iff_of_false nofun fun hitem => hitem.1 rfl
      | some id =>
          change some _ = some _ ↔ _
          rw [hcontent, Option.some_inj, ReasoningItemModel.mk.injEq]
          constructor
          · exact fun heq => ⟨nofun, heq.2.2.2.1, heq.2.2.2.2⟩
          · exact fun hitem => ⟨rfl, rfl, rfl, hitem.2.1, hitem.2.2⟩

/-- Without reasoning items the calls are what is to be replayed. -/
theorem filterMap_echo_of_calls (hnone : ∀ item, .reasoning item ∉ output) :
    output.filterMap ResponsesItem.echo =
        (output.filterMap ResponsesItem.call).map ResponsesFunctionCall.echo ∧
      output.filterMap ResponsesItem.reasoningItem = [] := by
  induction output with
  | nil => exact ⟨rfl, rfl⟩
  | cons first output ih =>
      obtain ⟨hecho, hreasoning⟩ := ih fun item hmem =>
        hnone item (List.mem_cons_of_mem first hmem)
      cases first with
      | reasoning item => exact absurd List.mem_cons_self (hnone item)
      | message content => exact ⟨hecho, hreasoning⟩
      | functionCall call => exact ⟨congrArg (List.cons call.echo) hecho, hreasoning⟩

theorem not_mem_of_echo (hecho : ∀ echo ∈ output.filterMap ResponsesItem.echo,
    echo.isReasoning = false) (item : ReasoningItemModel) : .reasoning item ∉ output := by
  intro hmem
  cases hecho item.echo (List.mem_filterMap.mpr ⟨.reasoning item, hmem, rfl⟩)

/-- What comes first in a list of calls is the only thing that is no call. -/
theorem eq_nil_of_first {first : Option Echo} {calls before after : List Echo} {echo : Echo}
    (hcalls : ∀ call ∈ calls, call.isReasoning = false) (hecho : echo.isReasoning = true)
    (heq : first.toList ++ calls = before ++ echo :: after) : before = [] ∧ after = calls := by
  have hnot : ∀ front, calls ≠ front ++ echo :: after := by
    rintro front rfl
    cases hecho.symm.trans (hcalls echo (List.mem_append_right _ List.mem_cons_self))
  cases first with
  | none => exact absurd heq (hnot before)
  | some first =>
      cases before with
      | nil => exact ⟨rfl, (List.cons.inj heq).2.symm⟩
      | cons _ before => exact absurd (List.cons.inj heq).2 (hnot before)

/-- What is read of a reasoning item that is the only one. -/
theorem responsesReasoningItem_messageOf {before after : List ResponsesItem}
    {item : ReasoningItemModel} (hbefore : before.filterMap ResponsesItem.reasoningItem = [])
    (hafter : after.filterMap ResponsesItem.reasoningItem = []) :
    (messageOf (before ++ .reasoning item :: after)).responsesReasoningItem =
      some { item with content := item.content.filter (· ≠ []) } := by
  have hitems : (ResponsesItem.reasoning item :: after).filterMap ResponsesItem.reasoningItem =
      { item with content := item.content.filter (· ≠ []) } ::
        after.filterMap ResponsesItem.reasoningItem := rfl
  change (List.filterMap _ _).getLast? = _
  rw [List.filterMap_append, hbefore, List.nil_append, hitems, hafter]
  rfl

/-- Written as it was read, an item keeps what it was before. -/
theorem buildReasoningItem_read_iff {item : ReasoningItemModel} :
    buildReasoningItem { item with content := item.content.filter (· ≠ []) } =
        some { item with content := item.content.filter (· ≠ []) } ↔
      item.id ≠ none ∧ item.encryptedContent ≠ some "" ∧ item.status ≠ some "" := by
  refine buildReasoningItem_eq_self_iff ?_
  simp only [Option.filter_filter, Bool.and_self]

theorem isReasoning_of_mem_calls {calls : List ResponsesFunctionCall} {echo : Echo}
    (hmem : echo ∈ calls.map ResponsesFunctionCall.echo) : echo.isReasoning = false := by
  obtain ⟨call, -, rfl⟩ := List.mem_map.mp hmem
  rfl

/-- The response of a model is replayed exactly if nothing but messages stands before its
reasoning items, they have ids and no empty texts, and typed calls have names. -/
theorem replays_output_iff (hids : ∀ call, .functionCall call ∈ output → call.Identified) :
    Replays output ↔ Replayable output := by
  rw [replays_iff_echo hids]
  constructor
  · rintro ⟨hnamed, hecho, hreasoning⟩
    refine ⟨hnamed, ?_⟩
    rintro before item after rfl
    rw [List.filterMap_append, echoesOf, ← Option.toList_map] at hecho
    obtain ⟨hbefore, hafter⟩ := eq_nil_of_first 
      (fun echo hmem => isReasoning_of_mem_calls hmem) rfl hecho
    have hnone : before.filterMap ResponsesItem.reasoningItem = [] :=
      (filterMap_echo_of_calls (not_mem_of_echo fun echo hmem => by
        rw [hbefore] at hmem
        cases hmem)).2
    have hlast : after.filterMap ResponsesItem.reasoningItem = [] :=
      (filterMap_echo_of_calls (not_mem_of_echo fun echo hmem =>
        isReasoning_of_mem_calls (hafter ▸ hmem))).2
    rw [responsesReasoningItem_messageOf hnone hlast] at hreasoning
    exact ⟨hbefore, buildReasoningItem_read_iff.mp hreasoning⟩
  · rintro ⟨hnamed, hreasoning⟩
    refine ⟨hnamed, ?_⟩
    by_cases hitem : ∃ item, .reasoning item ∈ output
    · obtain ⟨item, hmem⟩ := hitem
      obtain ⟨before, after, rfl⟩ := List.append_of_mem hmem
      obtain ⟨hbefore, hwritten⟩ := hreasoning before item after rfl
      have hfirst := filterMap_echo_of_calls (not_mem_of_echo fun echo hmem => by
        rw [hbefore] at hmem
        cases hmem)
      -- A later reasoning item would stand after this one.
      have hlater := @filterMap_echo_of_calls after fun other hother => by
        obtain ⟨middle, last, rfl⟩ := List.append_of_mem hother
        have hempty := (hreasoning (before ++ .reasoning item :: middle) other last
          (by rw [List.append_assoc]; rfl)).1
        rw [List.filterMap_append] at hempty
        cases (List.append_eq_nil_iff.mp hempty).2
      have hcalls : before.filterMap ResponsesItem.call = [] := by
        rw [hbefore] at hfirst
        exact List.map_eq_nil_iff.mp hfirst.1.symm
      have hbuilt := buildReasoningItem_read_iff.mpr hwritten
      have hread := @responsesReasoningItem_messageOf before after item hfirst.2 hlater.2
      constructor
      · rw [echoesOf, hread, Option.bind_some, hbuilt, List.filterMap_append, hcalls,
          List.filterMap_append, hbefore]
        exact (congrArg (List.cons item.echo) hlater.1).symm
      · rw [hread, Option.bind_some, hbuilt]
    · have hcalls := @filterMap_echo_of_calls output fun item hmem => hitem ⟨item, hmem⟩
      have hread : (messageOf output).responsesReasoningItem = none := by
        change (List.filterMap _ _).getLast? = _
        rw [hcalls.2]
        rfl
      constructor
      · rw [echoesOf, hread]
        exact hcalls.1.symm
      · rw [hread]
        rfl

/-! ### Samples -/

def sampleReasoning (id : String) : ReasoningItemModel where
  id := some id
  summary := ["why"]
  content := none
  encryptedContent := some "sealed"
  status := none

def sampleCall (id callId : String) : ResponsesFunctionCall where
  typed := true
  id := some id
  callId := some callId
  name := "tool"
  arguments := "\x7b\x7d"

theorem identified_sampleCall {id callId : String} (hid : id ≠ "") (hcallId : callId ≠ "") :
    (sampleCall id callId).Identified :=
  ⟨⟨id, rfl, hid⟩, ⟨callId, rfl, hcallId⟩⟩

/-- One thought, a text, and two calls. -/
theorem replays_output_iff_parallel :
    Replays [.reasoning (sampleReasoning "rs_1"), .message [.outputText "Both."],
        .functionCall (sampleCall "fc_1" "call_1"), .functionCall (sampleCall "fc_2" "call_2")] ↔
      Replayable [.reasoning (sampleReasoning "rs_1"), .message [.outputText "Both."],
        .functionCall (sampleCall "fc_1" "call_1"),
        .functionCall (sampleCall "fc_2" "call_2")] := by
  refine replays_output_iff fun call hmem => ?_
  simp only [List.mem_cons, ResponsesItem.functionCall.injEq, reduceCtorEq, false_or,
    List.not_mem_nil, or_false] at hmem
  obtain rfl | rfl := hmem
  · exact identified_sampleCall (by decide) (by decide)
  · exact identified_sampleCall (by decide) (by decide)

/-- A thought between two calls displaces the first one, and comes before both calls. -/
theorem not_replays_interleaved : ¬ ∀ output : List ResponsesItem,
    (∀ call, .functionCall call ∈ output → call.Identified) → Replays output := by
  intro hreplays
  have hids : ∀ call, .functionCall call ∈ [ResponsesItem.reasoning (sampleReasoning "rs_1"),
      .functionCall (sampleCall "fc_1" "call_1"), .reasoning (sampleReasoning "rs_2"),
      .functionCall (sampleCall "fc_2" "call_2")] → call.Identified := by
    intro call hmem
    simp only [List.mem_cons, ResponsesItem.functionCall.injEq, reduceCtorEq, false_or,
      List.not_mem_nil, or_false] at hmem
    obtain rfl | rfl := hmem
    · exact identified_sampleCall (by decide) (by decide)
    · exact identified_sampleCall (by decide) (by decide)
  obtain ⟨-, hecho, -⟩ := (replays_iff_echo hids).mp (hreplays _ hids)
  exact absurd hecho (by decide)

end Message

end ShuttleFlow
