import ShuttleFlow.Conversation.AppendOnly
import ShuttleFlow.Conversation.Runs
import ShuttleFlow.Skills.TriggeredSkills
import ShuttleFlow.View.MessageRetention

/-! # Whether triggered skills are present

What a message carries stays in the log, but a condensation may take the message out of the view.
The skill is not added again then.
-/

namespace ShuttleFlow

open scoped List

namespace PythonText

/-- What lies between characters that are not stripped is not stripped. -/
theorem isIn_strip {front middle back : String} (hfront : ∃ c ∈ front.toList, isSpace c = false)
    (hback : ∃ c ∈ back.toList, isSpace c = false) :
    isIn middle (strip (front ++ middle ++ back)) := by
  have hstrip : (strip (front ++ middle ++ back)).toList =
      lstrip front.toList ++ middle.toList ++ rstrip back.toList := by
    unfold strip
    rw [String.toList_ofList, String.toList_append, String.toList_append, List.append_assoc]
    change rstrip (lstrip _) = _
    rw [lstrip_append_of_ink hfront, ← List.append_assoc, rstrip_append_of_ink hback]
  rw [isIn, decide_eq_true_iff, hstrip]
  exact List.infix_append ..

end PythonText

/-- Whether the extended content of a message has the content of the skill. -/
def Skill.isCarriedBy (skill : Skill) : LLMConvertibleEvent → Bool
  | .message message => message.extendedContent.any fun
      | .text text => isIn skill.content text
      | .image _ => false
  | _ => false

namespace SkillKnowledge

theorem isIn_render {triggeredAgents : List SkillKnowledge} {knowledge : SkillKnowledge}
    (hmem : knowledge ∈ triggeredAgents) : isIn knowledge.content (render triggeredAgents) := by
  obtain ⟨before, after, rfl⟩ := List.append_of_mem hmem
  have hsplit : String.join ((before ++ knowledge :: after).map extraInfo) =
      String.join (before.map extraInfo) ++ knowledge.opening ++ knowledge.content ++
        (closing ++ String.join (after.map extraInfo)) := by
    rw [List.map_append, List.map_cons, String.join_append, String.join_cons, extraInfo]
    simp only [String.append_assoc]
  unfold render
  rw [hsplit]
  apply PythonText.isIn_strip
  · refine ⟨'<', ?_, by decide⟩
    rw [String.toList_append, List.mem_append]
    right
    unfold opening
    simp only [String.toList_append, List.mem_append]
    exact .inl (.inl (.inl (.inl (by decide))))
  · refine ⟨'<', ?_, by decide⟩
    rw [String.toList_append, List.mem_append]
    exact .inl (by decide)

end SkillKnowledge

/-- A message is logged with at least the content that is added to it. -/
theorem ConversationState.onEvent_logs {ids : IdSource} (hooks : HookManager)
    {sent : MessageEvent} (huser : sent.source = .user) (state : ConversationState) :
    ∃ hookIds logged, (state.onEvent ids hooks (.convertible (.message sent))).events =
        state.events ++ hookEvents hookIds ++ [.convertible (.message logged)] ∧
      sent.extendedContent ⊆ logged.extendedContent := by
  obtain ⟨hookIds, hevents, -⟩ :=
    @ConversationState.handleUserPromptSubmit_spec ids hooks state sent
  refine ⟨hookIds, (ConversationState.handleUserPromptSubmit ids hooks state sent).2, ?_, ?_⟩
  · simp [onEvent, huser, hevents]
  · unfold ConversationState.handleUserPromptSubmit
    cases hooks.additionalContext sent with
    | none => exact List.Subset.refl _
    | some context => exact List.subset_append_left ..

theorem LocalConversation.sendMessage_logs {ids : IdSource} (hooks : HookManager)
    (message : Message) (extendedContent : List Content) (state : ConversationState) :
    ∃ hookIds logged, (sendMessage ids hooks message extendedContent state).events =
        state.events ++ hookEvents hookIds ++ [.convertible (.message logged)] ∧
      extendedContent ⊆ logged.extendedContent :=
  ConversationState.onEvent_logs hooks rfl _

namespace AgentContext

variable {lower : String → String} {context : AgentContext}

/-- The query triggers the skill, and the skill is not skipped. -/
def recalls (lower : String → String) (userMessage : Message) (skipSkillNames : List String)
    (skill : Skill) : Bool :=
  PythonText.strip userMessage.text ≠ "" &&
    (recallSkill lower (PythonText.strip userMessage.text) skipSkillNames skill).isSome

theorem recallSkill_spec {query : String} {skip : List String} {skill : Skill}
    {knowledge : SkillKnowledge} (hrecall : recallSkill lower query skip skill = some knowledge) :
    knowledge.name = skill.name ∧ knowledge.content = skill.content ∧ skill.name ∉ skip := by
  unfold recallSkill at hrecall
  split at hrecall
  next => cases hrecall
  next =>
    split at hrecall
    next hcondition =>
      cases hrecall
      exact ⟨rfl, rfl, hcondition.2⟩
    next => cases hrecall

/-- Without recalled skills there is nothing but the general suffix. -/
theorem names_of_none {message : Message} {skip : List String}
    (hnone : PythonText.strip message.text = "" ∨
      context.recalledKnowledge lower (PythonText.strip message.text) skip = []) :
    (context.getUserMessageSuffix lower message skip).toList.flatMap Prod.snd = [] := by
  unfold getUserMessageSuffix
  dsimp only
  rw [if_pos hnone]
  cases (context.userMessageSuffix.map PythonText.strip).filter (· ≠ "") <;> rfl

theorem suffix_of_recalled {message : Message} {skip : List String}
    (hsome : ¬ (PythonText.strip message.text = "" ∨
      context.recalledKnowledge lower (PythonText.strip message.text) skip = [])) :
    ∃ rest, context.getUserMessageSuffix lower message skip =
      some (SkillKnowledge.render
          (context.recalledKnowledge lower (PythonText.strip message.text) skip) ++ rest,
        (context.recalledKnowledge lower (PythonText.strip message.text) skip).map
          SkillKnowledge.name) := by
  unfold getUserMessageSuffix
  dsimp only
  rw [if_neg hsome]
  exact ⟨_, rfl⟩

theorem exists_of_recalls {message : Message} {skip : List String} {skill : Skill}
    (hskill : skill ∈ context.skills) (hrecalls : recalls lower message skip skill) :
    ∃ knowledge ∈ context.recalledKnowledge lower (PythonText.strip message.text) skip,
      recallSkill lower (PythonText.strip message.text) skip skill = some knowledge := by
  rw [recalls, Bool.and_eq_true] at hrecalls
  obtain ⟨knowledge, hknowledge⟩ := Option.isSome_iff_exists.mp hrecalls.2
  exact ⟨knowledge, List.mem_filterMap.mpr ⟨skill, hskill, hknowledge⟩, hknowledge⟩

theorem some_of_recalls {message : Message} {skip : List String} {skill : Skill}
    (hskill : skill ∈ context.skills) (hrecalls : recalls lower message skip skill) :
    ¬ (PythonText.strip message.text = "" ∨
      context.recalledKnowledge lower (PythonText.strip message.text) skip = []) := by
  obtain ⟨knowledge, hmem, -⟩ := exists_of_recalls hskill hrecalls
  rintro (hempty | hnone)
  · simp [recalls, hempty] at hrecalls
  · rw [hnone] at hmem
    cases hmem

/-- The names that are added are those of the recalled skills. -/
theorem mem_names_iff (hnames : (context.skills.map Skill.name).Nodup) {message : Message}
    {skip : List String} {skill : Skill} (hskill : skill ∈ context.skills) :
    skill.name ∈ (context.getUserMessageSuffix lower message skip).toList.flatMap Prod.snd ↔
      recalls lower message skip skill := by
  constructor
  · intro hmem
    by_cases hnone : PythonText.strip message.text = "" ∨
        context.recalledKnowledge lower (PythonText.strip message.text) skip = []
    · rw [names_of_none hnone] at hmem
      cases hmem
    · obtain ⟨rest, hsuffix⟩ := suffix_of_recalled hnone
      rw [hsuffix] at hmem
      obtain ⟨knowledge, hknowledge, hname⟩ := List.mem_map.mp (by simpa using hmem)
      obtain ⟨other, hother, hrecall⟩ := List.mem_filterMap.mp hknowledge
      have hsame : other.name = skill.name := (recallSkill_spec hrecall).1.symm.trans hname
      obtain rfl : other = skill := List.inj_on_of_nodup_map hnames hother hskill hsame
      rw [recalls, Bool.and_eq_true, decide_eq_true_iff, hrecall]
      exact ⟨fun hempty => hnone (.inl hempty), rfl⟩
  · intro hrecalls
    obtain ⟨rest, hsuffix⟩ := suffix_of_recalled (some_of_recalls hskill hrecalls)
    obtain ⟨knowledge, hmem, hrecall⟩ := exists_of_recalls hskill hrecalls
    rw [hsuffix, Option.toList_some, List.flatMap_singleton, ← (recallSkill_spec hrecall).1]
    exact List.mem_map_of_mem hmem

/-- The text that is added has the content of each recalled skill. -/
theorem isIn_suffix {message : Message} {skip : List String} {skill : Skill}
    (hskill : skill ∈ context.skills) (hrecalls : recalls lower message skip skill) :
    ∃ suffix, context.getUserMessageSuffix lower message skip = some suffix ∧
      isIn skill.content suffix.1 := by
  obtain ⟨rest, hsuffix⟩ := suffix_of_recalled (some_of_recalls hskill hrecalls)
  obtain ⟨knowledge, hmem, hrecall⟩ := exists_of_recalls hskill hrecalls
  refine ⟨_, hsuffix, ?_⟩
  have hrendered := SkillKnowledge.isIn_render hmem
  rw [(recallSkill_spec hrecall).2.1, isIn, decide_eq_true_iff] at hrendered
  rw [isIn, decide_eq_true_iff, String.toList_append]
  exact hrendered.trans (List.prefix_append ..).isInfix

end AgentContext

/-- How many events carry the content of the skill. -/
def Skill.carriers (skill : Skill) (events : List Event) : Nat :=
  (convertibles events).countP skill.isCarriedBy

namespace SkilledConversation

variable {ids : IdSource} {lower : String → String} {context : AgentContext}
  {conversation : SkilledConversation}

def recalls (lower : String → String) (conversation : SkilledConversation) (skill : Skill) :
    SkilledOperation → Bool
  | .sendMessage _ message =>
      AgentContext.recalls lower message conversation.activatedKnowledgeSkills skill
  | .other _ => false

/-- Only the message that recalls a skill carries its content. -/
def isPlain (ids : IdSource) (lower : String → String) (context : AgentContext)
    (conversation : SkilledConversation) (operation : SkilledOperation) : Bool :=
  context.skills.all fun skill =>
    conversation.recalls lower skill operation || skill.carriers
      ((conversation.apply ids lower context operation).state.events.drop
        conversation.state.events.length) = 0

/-- The content of the skills that have been activated was logged once. -/
structure Kept (ids : IdSource) (context : AgentContext) (conversation : SkilledConversation) :
    Prop where
  reachable : Reachable ids conversation.state
  carriers : ∀ skill ∈ context.skills, skill.carriers conversation.state.events =
    if skill.name ∈ conversation.activatedKnowledgeSkills then 1 else 0

theorem Kept.distinctIds (hkept : Kept ids context conversation) :
    DistinctIds conversation.state.events :=
  hkept.reachable.consistent.reserved.distinctIds

theorem apply_reachable (hreachable : Reachable ids conversation.state)
    (operation : SkilledOperation) :
    Reachable ids (conversation.apply ids lower context operation).state := by
  cases operation with
  | sendMessage hooks message => exact hreachable.apply (.sendMessage hooks message _)
  | other operation => exact hreachable.apply operation

theorem apply_appends (hreachable : Reachable ids conversation.state)
    (operation : SkilledOperation) :
    Appends conversation.state (conversation.apply ids lower context operation).state := by
  cases operation with
  | sendMessage hooks message => exact LocalConversation.sendMessage_appends ..
  | other operation =>
      obtain ⟨calls, answers, trailing, hturn⟩ :=
        LocalConversation.apply_turn _ hreachable.consistent operation
      change Appends _ (LocalConversation.apply ids conversation.state operation)
      unfold Appends
      rw [hturn.events, List.append_assoc, List.append_assoc]
      exact List.prefix_append ..

/-- The message that recalls a skill carries its content. -/
theorem carriers_sendMessage {skill : Skill} (hskill : skill ∈ context.skills)
    {hooks : HookManager} {message : Message}
    (hrecalls : conversation.recalls lower skill (.sendMessage hooks message)) :
    skill.carriers (conversation.sendMessage ids lower context hooks message).state.events =
      skill.carriers conversation.state.events + 1 := by
  obtain ⟨suffix, hsuffix, hcontent⟩ := AgentContext.isIn_suffix hskill hrecalls
  obtain ⟨hookIds, logged, hevents, hextended⟩ := @LocalConversation.sendMessage_logs ids hooks
    message [.text suffix.1] conversation.state
  have hcarried : skill.isCarriedBy (.message logged) := by
    rw [Skill.isCarriedBy, List.any_eq_true]
    exact ⟨.text suffix.1, hextended List.mem_cons_self, hcontent⟩
  unfold SkilledConversation.sendMessage Skill.carriers
  rw [hsuffix]
  dsimp only
  rw [Option.toList_some, List.map_singleton, hevents, convertibles_append, convertibles_append,
    convertibles_hookEvents, List.append_nil, List.countP_append]
  congr 1
  exact List.countP_eq_length.mpr (by simpa [convertibles] using hcarried)

/-- What an operation logs comes after what was logged before. -/
theorem carriers_apply (hreachable : Reachable ids conversation.state)
    (operation : SkilledOperation) (skill : Skill) :
    skill.carriers (conversation.apply ids lower context operation).state.events =
      skill.carriers conversation.state.events + skill.carriers
        ((conversation.apply ids lower context operation).state.events.drop
          conversation.state.events.length) := by
  obtain ⟨added, hadded⟩ := @apply_appends ids lower context conversation hreachable operation
  rw [← hadded, List.drop_left]
  unfold Skill.carriers
  rw [convertibles_append, List.countP_append]

theorem mem_activated_iff (hnames : (context.skills.map Skill.name).Nodup) {skill : Skill}
    (hskill : skill ∈ context.skills) (operation : SkilledOperation) :
    skill.name ∈ (conversation.apply ids lower context operation).activatedKnowledgeSkills ↔
      skill.name ∈ conversation.activatedKnowledgeSkills ∨
        conversation.recalls lower skill operation := by
  cases operation with
  | sendMessage hooks message =>
      change skill.name ∈ _ ++ _ ↔ _
      rw [List.mem_append, AgentContext.mem_names_iff hnames hskill]
      rfl
  | other operation => exact (or_iff_left Bool.false_ne_true).symm

/-- A skill is not recalled twice. -/
theorem notMem_of_recalls {skill : Skill} {operation : SkilledOperation}
    (hrecalls : conversation.recalls lower skill operation) :
    skill.name ∉ conversation.activatedKnowledgeSkills := by
  cases operation with
  | other operation => cases hrecalls
  | sendMessage hooks message =>
      replace hrecalls : AgentContext.recalls lower message _ skill := hrecalls
      rw [AgentContext.recalls, Bool.and_eq_true] at hrecalls
      obtain ⟨knowledge, hknowledge⟩ := Option.isSome_iff_exists.mp hrecalls.2
      exact (AgentContext.recallSkill_spec hknowledge).2.2

theorem Kept.apply (hnames : (context.skills.map Skill.name).Nodup)
    (hkept : Kept ids context conversation) {operation : SkilledOperation}
    (hplain : conversation.isPlain ids lower context operation) :
    Kept ids context (conversation.apply ids lower context operation) := by
  refine ⟨apply_reachable hkept.reachable operation, ?_⟩
  intro skill hskill
  have hbefore := hkept.carriers skill hskill
  have hactivated := @mem_activated_iff ids lower context conversation hnames skill hskill operation
  by_cases hrecalls : conversation.recalls lower skill operation
  · rw [if_neg (notMem_of_recalls hrecalls)] at hbefore
    rw [if_pos (hactivated.mpr (.inr hrecalls))]
    cases operation with
    | other operation => cases hrecalls
    | sendMessage hooks message =>
        have hsent := @carriers_sendMessage ids lower context conversation skill hskill hooks
          message hrecalls
        rw [hbefore] at hsent
        exact hsent
  · have hnone := List.all_eq_true.mp hplain skill hskill
    rw [Bool.or_eq_true, or_iff_right hrecalls, decide_eq_true_iff] at hnone
    rw [carriers_apply hkept.reachable, hnone, hbefore, add_zero]
    simp only [hactivated, hrecalls, Bool.false_eq_true, or_false]

theorem Kept.init (systemPrompt : String) (dynamicContext : Option String) :
    Kept ids context (init ids systemPrompt dynamicContext) where
  reachable := .init systemPrompt dynamicContext
  carriers _ _ := rfl

/-- Among distinct events, one of which has a property. -/
theorem countP_eq_one_iff_mem {events : List LLMConvertibleEvent} (hnodup : events.Nodup)
    {property : LLMConvertibleEvent → Bool} {event : LLMConvertibleEvent}
    (hevent : property event) (hunique : ∀ other ∈ events, property other → other = event) :
    events.countP property = 1 ↔ event ∈ events := by
  have hcount : events.countP property = events.count event := by
    apply List.countP_congr
    intro other hother
    rw [beq_iff_eq]
    constructor
    · exact hunique other hother
    · rintro rfl
      exact hevent
  rw [hcount]
  constructor
  · intro hone
    apply List.count_pos_iff.mp
    rw [hone]
    exact Nat.one_pos
  · exact List.count_eq_one_of_mem hnodup

/-- The condition for a skill to be present: it has been activated, now or before, and what was
logged with its content is still there. -/
def StillPresent (lower : String → String) (conversation : SkilledConversation) (message : Message)
    (skill : Skill) : Prop :=
  (skill.name ∈ conversation.activatedKnowledgeSkills ∨
      AgentContext.recalls lower message conversation.activatedKnowledgeSkills skill) ∧
    ∀ event, .convertible event ∈ conversation.state.events → skill.isCarriedBy event →
      Retained conversation.state.events event

/-- Sending a message forgets nothing. -/
theorem retained_sendMessage_iff {hooks : HookManager} {message : Message}
    (hdistinct : DistinctIds
      (conversation.sendMessage ids lower context hooks message).state.events)
    {event : LLMConvertibleEvent} (hlogged : .convertible event ∈
      (conversation.sendMessage ids lower context hooks message).state.events) :
    Retained (conversation.sendMessage ids lower context hooks message).state.events event ↔
      (.convertible event ∈ conversation.state.events →
        Retained conversation.state.events event) := by
  obtain ⟨hookIds, logged, hevents, -⟩ := @LocalConversation.sendMessage_logs ids hooks message
    ((context.getUserMessageSuffix lower message conversation.activatedKnowledgeSkills).toList.map
      fun suffix => .text suffix.1) conversation.state
  replace hevents : (conversation.sendMessage ids lower context hooks message).state.events =
      conversation.state.events ++ (hookEvents hookIds ++ [.convertible (.message logged)]) :=
    hevents.trans (List.append_assoc ..)
  rw [hevents] at hlogged hdistinct ⊢
  rw [View.retained_append_iff]
  · constructor
    · rintro (hadded | hretained) hold
      · have hids := hdistinct.nodup
        rw [List.map_append, List.nodup_append] at hids
        exact absurd rfl (hids.2.2 _ (List.mem_map_of_mem hold) _ (List.mem_map_of_mem hadded))
      · exact hretained
    · intro hretained
      rcases List.mem_append.mp hlogged with hold | hadded
      · exact .inr (hretained hold)
      · exact .inl hadded
  · intro condensation hmem
    rcases List.mem_append.mp hmem with hhook | hmessage
    · obtain ⟨id, -, heq⟩ := List.mem_map.mp hhook
      cases heq
    · cases List.mem_singleton.mp hmessage

theorem exists_message_of_carried {skill : Skill} {event : LLMConvertibleEvent}
    (hcarried : skill.isCarriedBy event) : ∃ message, event = .message message := by
  cases event with
  | message message => exact ⟨message, rfl⟩
  | systemPrompt _ => cases hcarried
  | action _ => cases hcarried
  | observation _ => cases hcarried
  | condensationSummary _ => cases hcarried

/-- The one event that carries the content of an activated skill. -/
theorem Kept.exists_carrier (hkept : Kept ids context conversation) {skill : Skill}
    (hskill : skill ∈ context.skills)
    (hactivated : skill.name ∈ conversation.activatedKnowledgeSkills) :
    ∃ message, .convertible (.message message) ∈ conversation.state.events ∧
      skill.isCarriedBy (.message message) ∧
      ∀ event, .convertible event ∈ conversation.state.events → skill.isCarriedBy event →
        event = .message message := by
  have hone := hkept.carriers skill hskill
  rw [if_pos hactivated, Skill.carriers, List.countP_eq_length_filter,
    List.length_eq_one_iff] at hone
  obtain ⟨event, hfilter⟩ := hone
  have hmem : ∀ other, other = event ↔
      .convertible other ∈ conversation.state.events ∧ skill.isCarriedBy other := by
    intro other
    rw [← mem_convertibles, ← List.mem_filter, hfilter, List.mem_singleton]
  obtain ⟨hlogged, hcarried⟩ := (hmem event).mp rfl
  obtain ⟨message, rfl⟩ := exists_message_of_carried hcarried
  refine ⟨message, hlogged, hcarried, ?_⟩
  intro other hother hothers
  exact (hmem other).mpr ⟨hother, hothers⟩

/-- A carrier in the view is one of the log. -/
theorem logged_of_mem_view {log : List Event} (hdistinct : DistinctIds log) {skill : Skill}
    {event : LLMConvertibleEvent} (hevent : event ∈ (View.fromEvents log).events)
    (hcarried : skill.isCarriedBy event) : .convertible event ∈ log := by
  obtain ⟨message, rfl⟩ := exists_message_of_carried hcarried
  obtain ⟨before, after, rfl, -⟩ := (View.message_mem_fromEvents_iff hdistinct).mp hevent
  exact List.mem_append_right _ List.mem_cons_self

/-- Right after a message one message in the view carries the content of a skill just in case the
skill is still present. -/
theorem Kept.present_iff (hnames : (context.skills.map Skill.name).Nodup)
    (hkept : Kept ids context conversation) {hooks : HookManager} {message : Message}
    (hplain : conversation.isPlain ids lower context (.sendMessage hooks message)) {skill : Skill}
    (hskill : skill ∈ context.skills) :
    (View.fromEvents (conversation.sendMessage ids lower context hooks message).state.events
        ).events.countP skill.isCarriedBy = 1 ↔
      StillPresent lower conversation message skill := by
  have hsent : Kept ids context (conversation.sendMessage ids lower context hooks message) :=
    hkept.apply hnames hplain
  have hdistinct := hsent.distinctIds
  have hactivated := @mem_activated_iff ids lower context conversation hnames skill hskill
    (.sendMessage hooks message)
  have happends : Appends conversation.state
      (conversation.sendMessage ids lower context hooks message).state :=
    apply_appends hkept.reachable (.sendMessage hooks message)
  by_cases hname : skill.name ∈
      (conversation.sendMessage ids lower context hooks message).activatedKnowledgeSkills
  · obtain ⟨carrier, hlogged, hcarried, hunique⟩ := hsent.exists_carrier hskill hname
    have hnodup : (View.fromEvents (conversation.sendMessage ids lower context hooks
        message).state.events).events.Nodup :=
      .of_map _ ((View.appendEvents_ids hdistinct).sublist
        ((View.fromEvents_sublist hdistinct).map _))
    rw [countP_eq_one_iff_mem hnodup hcarried fun other hother hothers =>
        hunique other (logged_of_mem_view hdistinct hother hothers) hothers,
      View.message_mem_fromEvents_iff hdistinct, retained_sendMessage_iff hdistinct hlogged]
    constructor
    · intro hretained
      refine ⟨hactivated.mp hname, fun event hevent hothers => ?_⟩
      obtain rfl := hunique event (happends.subset hevent) hothers
      exact hretained hevent
    · intro hpresent hbefore
      exact hpresent.2 _ hbefore hcarried
  · have hnone := hsent.carriers skill hskill
    rw [if_neg hname, Skill.carriers, List.countP_eq_zero] at hnone
    have hview : (View.fromEvents (conversation.sendMessage ids lower context hooks
        message).state.events).events.countP skill.isCarriedBy = 0 := by
      rw [List.countP_eq_zero]
      intro event hevent hcarried
      exact hnone event (mem_convertibles.mpr (logged_of_mem_view hdistinct hevent hcarried))
        hcarried
    rw [hview]
    refine iff_of_false (by decide) fun hpresent => hname (hactivated.mpr hpresent.1)

end SkilledConversation

namespace Sample

def docker : Skill := ⟨"docker", "Use compose.", none, some (.keyword ["docker"])⟩

def deploy : Message := { role := .user, content := [.text "deploy with docker"] }

/-- A step that forgets the first message. -/
def forgetful : Environment :=
  { environment (.historyError false) with condense := fun _ => some ⟨{"u"}, none, none, "r"⟩ }

end Sample

namespace SkilledConversation

open Sample

end SkilledConversation

end ShuttleFlow
