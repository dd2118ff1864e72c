import Mathlib.Data.List.Basic

/-! # Messages exchanged with the language model -/

namespace ShuttleFlow

abbrev ToolCallID := String

/-- The family of interfaces that a tool call came from. -/
inductive Origin
  | completion | responses
  deriving DecidableEq, Repr

/-- One tool call of a model response. The id links the call to its result. -/
structure MessageToolCall where
  id : ToolCallID
  /-- The id that the Responses API gave the call, for the replay. -/
  responsesItemId : Option String := none
  name : String
  arguments : String
  origin : Origin
  deriving DecidableEq, Repr

/-- Anthropic thinking blocks, replayed verbatim. -/
inductive ThinkingBlock
  | thinking (text : String) (signature : Option String)
  | redacted (data : String)
  deriving DecidableEq, Repr

/-- Reasoning item of the Responses API. -/
structure ReasoningItemModel where
  id : Option String
  summary : List String
  content : Option (List String)
  encryptedContent : Option String
  status : Option String
  deriving DecidableEq, Repr

inductive Content
  | text (text : String)
  | image (imageUrls : List String)
  deriving DecidableEq, Repr

/-- Whether a content item is a `TextContent`. -/
def Content.isText : Content → Bool
  | .text _ => true
  | .image _ => false

inductive Role
  | system | user | assistant | tool
  deriving DecidableEq, Repr

structure Message where
  role : Role
  content : List Content := []
  toolCalls : Option (List MessageToolCall) := none
  toolCallId : Option ToolCallID := none
  name : Option String := none
  reasoningContent : Option String := none
  thinkingBlocks : List ThinkingBlock := []
  responsesReasoningItem : Option ReasoningItemModel := none
  deriving DecidableEq, Repr

/-- The tool calls of a message, with a missing list read as an empty one. -/
def Message.calls (message : Message) : List MessageToolCall :=
  message.toolCalls.getD []

end ShuttleFlow
