import Mathlib.Data.List.Infix
import ShuttleFlow.Conversation.LocalConversation
import ShuttleFlow.Library.Transitions

/-! # Skills that messages trigger

The content of a skill is added to the message that triggers it. The names of the skills that were
added are kept beside the log, so that each is added once.
-/

namespace ShuttleFlow

inductive SkillTrigger
  | keyword (keywords : List String)
  | task (triggers : List String)
  deriving DecidableEq, Repr

structure Skill where
  name : String
  content : String
  source : Option String := none
  trigger : Option SkillTrigger := none
  deriving DecidableEq, Repr

/-- The operator `in` of Python, for texts. -/
def isIn (part text : String) : Bool :=
  part.toList <:+: text.toList

/-- The first trigger in the message. Cases are ignored. -/
def Skill.matchTrigger (lower : String → String) (skill : Skill) (message : String) :
    Option String :=
  match skill.trigger with
  | some (.keyword keywords) => keywords.find? fun keyword => isIn (lower keyword) (lower message)
  | some (.task triggers) => triggers.find? fun trigger => isIn (lower trigger) (lower message)
  | none => none

structure SkillKnowledge where
  name : String
  trigger : String
  content : String
  location : Option String
  deriving DecidableEq, Repr

namespace SkillKnowledge

/-- What the template puts before the content. -/
def opening (knowledge : SkillKnowledge) : String :=
  "\n<EXTRA_INFO>\nThe following information has been included based on a keyword match for \"" ++
    knowledge.trigger ++ "\".\nIt may or may not be relevant to the user's request.\n" ++
    (match knowledge.location with
    | none | some "" => ""
    | some location => "\nSkill location: " ++ location ++
        "\n(Use this path to resolve relative file references in the skill content below)\n") ++
    "\n\n"

def closing : String := "\n</EXTRA_INFO>\n"

def extraInfo (knowledge : SkillKnowledge) : String :=
  knowledge.opening ++ knowledge.content ++ closing

/-- The template `skill_knowledge_info.j2`. -/
def render (triggeredAgents : List SkillKnowledge) : String :=
  PythonText.strip (String.join (triggeredAgents.map extraInfo))

end SkillKnowledge

structure AgentContext where
  skills : List Skill
  userMessageSuffix : Option String := none

/-- The texts of a message, as lines. -/
def Message.text (message : Message) : String :=
  "\n".intercalate (message.content.filterMap fun
    | .text text => some text
    | .image _ => none)

namespace AgentContext

variable (lower : String → String) (context : AgentContext)

/-- What a query recalls of a skill. An empty trigger is as good as none. -/
def recallSkill (query : String) (skipSkillNames : List String) (skill : Skill) :
    Option SkillKnowledge :=
  match skill.matchTrigger lower query with
  | none => none
  | some trigger =>
      if trigger ≠ "" ∧ skill.name ∉ skipSkillNames then
        some { name := skill.name, trigger, content := skill.content, location := skill.source }
      else none

def recalledKnowledge (query : String) (skipSkillNames : List String) : List SkillKnowledge :=
  context.skills.filterMap (recallSkill lower query skipSkillNames)

/-- The text for the message, and the names of the skills that are added. -/
def getUserMessageSuffix (userMessage : Message) (skipSkillNames : List String) :
    Option (String × List String) :=
  let suffix := (context.userMessageSuffix.map PythonText.strip).filter (· ≠ "")
  let query := PythonText.strip userMessage.text
  let recalled := context.recalledKnowledge lower query skipSkillNames
  if query = "" ∨ recalled = [] then suffix.map fun suffix => (suffix, [])
  else
    some
      (SkillKnowledge.render recalled ++
        (match suffix with
        | some suffix => "\n" ++ suffix
        | none => ""), recalled.map SkillKnowledge.name)

end AgentContext

structure SkilledConversation where
  state : ConversationState
  activatedKnowledgeSkills : List String := []

inductive SkilledOperation
  | sendMessage (hooks : HookManager) (message : Message)
  /-- A step of the agent, which may be a condensation, or what else can happen. -/
  | other (operation : Operation)

namespace SkilledConversation

variable (ids : IdSource) (lower : String → String) (context : AgentContext)

def sendMessage (hooks : HookManager) (message : Message) (conversation : SkilledConversation) :
    SkilledConversation :=
  let suffix := context.getUserMessageSuffix lower message conversation.activatedKnowledgeSkills
  { state := LocalConversation.sendMessage ids hooks message
      (suffix.toList.map fun suffix => .text suffix.1) conversation.state
    activatedKnowledgeSkills := conversation.activatedKnowledgeSkills ++
      suffix.toList.flatMap Prod.snd }

def apply (conversation : SkilledConversation) : SkilledOperation → SkilledConversation
  | .sendMessage hooks message => conversation.sendMessage ids lower context hooks message
  | .other operation =>
      { conversation with state := LocalConversation.apply ids conversation.state operation }

def system : TransitionSystem SkilledConversation SkilledOperation Unit where
  step conversation operation := some (conversation.apply ids lower context operation, [])

def init (systemPrompt : String) (dynamicContext : Option String) : SkilledConversation where
  state := LocalConversation.initState ids systemPrompt dynamicContext

end SkilledConversation

end ShuttleFlow
