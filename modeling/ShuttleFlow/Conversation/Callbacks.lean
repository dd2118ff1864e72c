import ShuttleFlow.Conversation.State

/-! # Event callbacks

Every event passes the hooks, which may record their own events first and block
an action or a message, and is then appended to the log. What hooks decide is a
parameter.
-/

namespace ShuttleFlow

/-- How many hooks were executed, and why they block, if they do. -/
structure HookResults where
  executed : Nat := 0
  blockingReason : Option String := none
  deriving DecidableEq, Repr

/-- The hooks of one step, as functions of the event they are run for. -/
structure HookManager where
  runPreToolUse : ActionEvent → HookResults := fun _ => {}
  runPostToolUse : ObservationEvent → Nat := fun _ => 0
  runUserPromptSubmit : MessageEvent → HookResults := fun _ => {}
  additionalContext : MessageEvent → Option String := fun _ => none

namespace ConversationState

/-- Persist an event. User messages are tracked for the hooks that block them. -/
def defaultCallback (state : ConversationState) (event : Event) : ConversationState :=
  { state with
    events := state.events ++ [event]
    lastUserMessageId :=
      match event with
      | .convertible (.message message) =>
          if message.source = .user then some message.id else state.lastUserMessageId
      | _ => state.lastUserMessageId }

/-- Draw the next id. -/
def drawId (ids : IdSource) (state : ConversationState) : EventID × ConversationState :=
  (ids.uuid state.drawn, { state with drawn := state.drawn + 1 })

/-- Record an event that is not shown to the model. -/
def recordInternal (ids : IdSource) (kind : InternalKind) (state : ConversationState) :
    ConversationState :=
  let (id, state) := state.drawId ids
  state.defaultCallback (.internal id kind)

def emitHookExecutionEvents (ids : IdSource) : Nat → ConversationState → ConversationState
  | 0, state => state
  | count + 1, state => emitHookExecutionEvents ids count (recordInternal ids .hookExecution state)

def handlePreToolUse (ids : IdSource) (hooks : HookManager) (state : ConversationState)
    (action : ActionEvent) : ConversationState :=
  let results := hooks.runPreToolUse action
  let state := emitHookExecutionEvents ids results.executed state
  match results.blockingReason with
  | none => state
  | some reason => state.blockAction action.id reason

/-- Hooks run for an observation only when its action is in the log. -/
def handlePostToolUse (ids : IdSource) (hooks : HookManager) (state : ConversationState)
    (observation : ObservationEvent) : ConversationState :=
  let actions := (convertibles state.events).filterMap LLMConvertibleEvent.asAction
  if ∃ action ∈ actions, action.id = observation.actionId then
    emitHookExecutionEvents ids (hooks.runPostToolUse observation) state
  else state

/-- The message that is logged is a new one when a hook adds context to it. -/
def handleUserPromptSubmit (ids : IdSource) (hooks : HookManager) (state : ConversationState)
    (message : MessageEvent) : ConversationState × MessageEvent :=
  let results := hooks.runUserPromptSubmit message
  let state := emitHookExecutionEvents ids results.executed state
  let state :=
    match results.blockingReason with
    | none => state
    | some reason => state.blockMessage message.id reason
  match hooks.additionalContext message with
  | none => (state, message)
  | some context =>
      let (id, state) := state.drawId ids
      (state, { message with id, extendedContent := message.extendedContent ++ [.text context] })

def onEvent (ids : IdSource) (hooks : HookManager) (state : ConversationState) :
    Event → ConversationState
  | .convertible (.action action) =>
      let state := if action.action.isSome then handlePreToolUse ids hooks state action else state
      state.defaultCallback (.convertible (.action action))
  | .convertible (.observation (.observation observation)) =>
      (handlePostToolUse ids hooks state observation).defaultCallback
        (.convertible (.observation (.observation observation)))
  | .convertible (.message message) =>
      if message.source = .user then
        let (state, message) := handleUserPromptSubmit ids hooks state message
        state.defaultCallback (.convertible (.message message))
      else state.defaultCallback (.convertible (.message message))
  | event => state.defaultCallback event

end ConversationState

end ShuttleFlow
