import ShuttleFlow.AgentServer.SafeFork
import ShuttleFlow.Library.Transitions

/-! # The settings after a restart

The confirmation policy and the security analyzer are in the base state of a conversation,
which is saved whenever it changes, and in the stored request, which is saved as `meta.json`.
Both outlive the process.
-/

namespace ShuttleFlow

open TransitionSystem

variable {Source : Type}

/-- The policy and the analyzer of a conversation. -/
structure Safeguards where
  confirmationPolicy : ConfirmationPolicy
  securityAnalyzer : Option SecurityAnalyzer

def StoredConversation.safeguards (stored : StoredConversation Source) : Safeguards where
  confirmationPolicy := stored.confirmationPolicy
  securityAnalyzer := stored.securityAnalyzer

def Conversation.safeguards (conversation : Conversation Source) : Safeguards where
  confirmationPolicy := conversation.state.confirmationPolicy
  securityAnalyzer := conversation.state.securityAnalyzer

/-- What is read back of a stored request. -/
def StoredConversation.reload (redact : Source → Source) (stored : StoredConversation Source) :
    StoredConversation Source :=
  { stored with
    secrets := stored.secrets.entries.foldl
      (fun secrets secret => secrets.set secret.1 (redact secret.2)) .empty }

/-- A service object, and the conversation it has open. -/
structure EventServiceState (Source : Type) where
  stored : StoredConversation Source
  conversation : Option (Conversation Source) := none

/-- The service of a conversation, if the process has one, and the directory of the
conversation. -/
structure ConversationHost (Source : Type) where
  service : Option (EventServiceState Source)
  baseState : Option (BaseState Source) := none
  metaFile : Option (StoredConversation Source) := none

inductive SettingsRequest
  | setConfirmationPolicy (policy : ConfirmationPolicy)
  | setSecurityAnalyzer (analyzer : Option SecurityAnalyzer)
  | saveMeta
  | close
  /-- The process ends, and with it the service object. -/
  | crash
  | start

inductive SettingsEvent
  | policySet (policy : ConfirmationPolicy)
  | analyzerSet (analyzer : Option SecurityAnalyzer)
  /-- The conversation was opened, with these safeguards in force. -/
  | started (inForce : Safeguards)

namespace ConversationHost

/-- The conversation is created. -/
def created (request : StoredConversation Source) : ConversationHost Source :=
  { service := some { stored := request } }

/-- A change of the open conversation; its state is saved at once. -/
def update (change : Conversation Source → Conversation Source)
    (host : ConversationHost Source) : Option (ConversationHost Source) :=
  host.service.bind fun service => service.conversation.map fun conversation =>
    { host with
      service := some { service with conversation := some (change conversation) }
      baseState := some (change conversation).state }

/-- What the stored request is at a start: that of the service object, or of a new one that
reads it from disk. -/
def storedAtStart (redact : Source → Source) (host : ConversationHost Source) :
    Option (StoredConversation Source) :=
  (host.service.map EventServiceState.stored).or (host.metaFile.map fun stored =>
    stored.reload redact)

variable (ids : IdSource) (redact : Source → Source)

/-- Open the conversation, from what was saved of it. -/
def start (host : ConversationHost Source) :
    Option (ConversationHost Source × Conversation Source) :=
  (host.storedAtStart redact).map fun stored =>
    let conversation := EventService.startConversation ids stored
      (host.baseState.map fun saved => saved.reload redact)
    ({ host with
       service := some { stored, conversation := some conversation }
       baseState := some conversation.state }, conversation)

/-- Without an open conversation nothing can be set. -/
def handle (host : ConversationHost Source) :
    SettingsRequest → Option (ConversationHost Source × List SettingsEvent)
  | .setConfirmationPolicy policy =>
      (host.update (Conversation.setConfirmationPolicy policy)).map fun host =>
        (host, [.policySet policy])
  | .setSecurityAnalyzer analyzer =>
      (host.update (Conversation.setSecurityAnalyzer analyzer)).map fun host =>
        (host, [.analyzerSet analyzer])
  | .saveMeta => host.service.map fun service =>
      ({ host with metaFile := some service.stored }, [])
  | .close => host.service.map fun service =>
      ({ host with service := some { service with conversation := none } }, [])
  | .crash => some ({ host with service := none }, [])
  | .start => (host.start ids redact).map fun started =>
      (started.1, [.started started.2.safeguards])

def system : TransitionSystem (ConversationHost Source) SettingsRequest SettingsEvent where
  step host request := host.handle ids redact request

end ConversationHost

/-! ## What is in force after a start -/

namespace Safeguards

/-- What was set last, from what was in force at first. -/
def lastSet (safeguards : Safeguards) : List SettingsEvent → Safeguards
  | [] => safeguards
  | .policySet policy :: later =>
      lastSet { safeguards with confirmationPolicy := policy } later
  | .analyzerSet analyzer :: later =>
      lastSet { safeguards with securityAnalyzer := analyzer } later
  | .started _ :: later => lastSet safeguards later

/-- After each start, what was set last is in force. -/
def Survive (requested : Safeguards) (trace : List SettingsEvent) : Prop :=
  ∀ before inForce, before ++ [.started inForce] <+: trace → inForce = requested.lastSet before

/-- At each start, what was set last is what was requested. -/
def AsRequested (requested : Safeguards) (trace : List SettingsEvent) : Prop :=
  ∀ before inForce, before ++ [.started inForce] <+: trace → requested.lastSet before = requested

end Safeguards

namespace ConversationHost

variable {request : StoredConversation Source} {ids : IdSource} {redact : Source → Source}
  {host next : ConversationHost Source} {trace seen : List SettingsEvent}

/-- What is set at a start is what the stored request says. -/
@[simp] theorem safeguards_startConversation (stored : StoredConversation Source)
    (saved : Option (BaseState Source)) :
    (EventService.startConversation ids stored saved).safeguards = stored.safeguards := rfl

@[simp] theorem safeguards_reload (stored : StoredConversation Source) :
    (stored.reload redact).safeguards = stored.safeguards := rfl

/-- No request changes the safeguards of the stored request. -/
structure Stored (requested : Safeguards) (host : ConversationHost Source) : Prop where
  service : ∀ service ∈ host.service, service.stored.safeguards = requested
  metaFile : ∀ stored ∈ host.metaFile, stored.safeguards = requested

theorem stored_created : (created request).Stored request.safeguards := by
  constructor
  · intro service hservice
    cases hservice
    rfl
  · intro stored hmeta
    cases hmeta

theorem Stored.storedAtStart {requested : Safeguards} (hstored : host.Stored requested)
    {stored : StoredConversation Source} (hstart : host.storedAtStart redact = some stored) :
    stored.safeguards = requested := by
  rw [ConversationHost.storedAtStart, Option.or_eq_some_iff] at hstart
  obtain hservice | ⟨-, hmeta⟩ := hstart
  · obtain ⟨service, hsome, rfl⟩ := Option.map_eq_some_iff.mp hservice
    exact hstored.service service hsome
  · obtain ⟨saved, hsaved, rfl⟩ := Option.map_eq_some_iff.mp hmeta
    exact hstored.metaFile saved hsaved

theorem Stored.update {requested : Safeguards} (hstored : host.Stored requested)
    {change : Conversation Source → Conversation Source} (hnext : host.update change = some next) :
    next.Stored requested := by
  obtain ⟨service, hservice, hnext⟩ := Option.bind_eq_some_iff.mp hnext
  obtain ⟨conversation, -, rfl⟩ := Option.map_eq_some_iff.mp hnext
  constructor
  · intro changed hchanged
    cases hchanged
    exact hstored.service service hservice
  · exact hstored.metaFile

/-- What a start brings into force was requested. -/
theorem Stored.handle {requested : Safeguards} (hstored : host.Stored requested)
    {label : SettingsRequest} (hnext : host.handle ids redact label = some (next, seen)) :
    next.Stored requested ∧ ∀ inForce, .started inForce ∈ seen → inForce = requested := by
  cases label with
  | setConfirmationPolicy policy =>
      obtain ⟨changed, hchanged, hnext⟩ := Option.map_eq_some_iff.mp hnext
      cases hnext
      refine ⟨hstored.update hchanged, fun inForce hmem => ?_⟩
      cases List.mem_singleton.mp hmem
  | setSecurityAnalyzer analyzer =>
      obtain ⟨changed, hchanged, hnext⟩ := Option.map_eq_some_iff.mp hnext
      cases hnext
      refine ⟨hstored.update hchanged, fun inForce hmem => ?_⟩
      cases List.mem_singleton.mp hmem
  | saveMeta =>
      obtain ⟨service, hservice, hnext⟩ := Option.map_eq_some_iff.mp hnext
      cases hnext
      refine ⟨⟨hstored.service, ?_⟩, fun inForce hmem => absurd hmem List.not_mem_nil⟩
      intro stored hmem
      cases hmem
      exact hstored.service service hservice
  | close =>
      obtain ⟨service, hservice, hnext⟩ := Option.map_eq_some_iff.mp hnext
      cases hnext
      refine ⟨⟨?_, hstored.metaFile⟩, fun inForce hmem => absurd hmem List.not_mem_nil⟩
      intro closed hmem
      cases hmem
      exact hstored.service service hservice
  | crash =>
      cases hnext
      refine ⟨⟨?_, hstored.metaFile⟩, fun inForce hmem => absurd hmem List.not_mem_nil⟩
      intro service hmem
      cases hmem
  | start =>
      obtain ⟨⟨opened, conversation⟩, hopened, hnext⟩ := Option.map_eq_some_iff.mp hnext
      cases hnext
      obtain ⟨stored, hstart, hopened⟩ := Option.map_eq_some_iff.mp hopened
      have hrequested : stored.safeguards = requested := hstored.storedAtStart hstart
      cases hopened
      refine ⟨⟨?_, hstored.metaFile⟩, fun inForce hmem => ?_⟩
      · intro service hmem
        cases hmem
        exact hrequested
      · cases List.mem_singleton.mp hmem
        exact hrequested

/-- Every start brings what was requested into force. -/
theorem started_of_runs (hruns : (system ids redact).Runs (created request) trace host) :
    host.Stored request.safeguards ∧
      ∀ inForce, .started inForce ∈ trace → inForce = request.safeguards := by
  refine hruns.invariant (fun trace host => host.Stored request.safeguards ∧
      ∀ inForce, .started inForce ∈ trace → inForce = request.safeguards) ?_ ?_
  · exact ⟨stored_created, fun inForce hmem => absurd hmem List.not_mem_nil⟩
  · intro trace host label next seen hinvariant hnext
    obtain ⟨hstored, hseen⟩ := hinvariant.1.handle hnext
    refine ⟨hstored, fun inForce hmem => ?_⟩
    cases List.mem_append.mp hmem with
    | inl hbefore => exact hinvariant.2 inForce hbefore
    | inr hnow => exact hseen inForce hnow

/-- The safeguards survive exactly the restarts before which what was requested had been set
again, or nothing at all. -/
theorem survive_iff (hruns : (system ids redact).Runs (created request) trace host) :
    request.safeguards.Survive trace ↔ request.safeguards.AsRequested trace := by
  have hstarted : ∀ before inForce, before ++ [.started inForce] <+: trace →
      inForce = request.safeguards := by
    intro before inForce hbefore
    refine (started_of_runs hruns).2 inForce (hbefore.subset ?_)
    exact List.mem_append_right before List.mem_cons_self
  constructor
  · intro hsurvive before inForce hbefore
    exact (hsurvive before inForce hbefore).symm.trans (hstarted before inForce hbefore)
  · intro hrequested before inForce hbefore
    exact (hstarted before inForce hbefore).trans (hrequested before inForce hbefore).symm

/-- The policy is set to the one requested before the conversation is opened again. -/
theorem survive_iff_setAgain :
    Safeguards.Survive ⟨.neverConfirm, none⟩
        [.started ⟨.neverConfirm, none⟩, .policySet .neverConfirm,
          .started ⟨.neverConfirm, none⟩] ↔
      Safeguards.AsRequested ⟨.neverConfirm, none⟩
        [.started ⟨.neverConfirm, none⟩, .policySet .neverConfirm,
          .started ⟨.neverConfirm, none⟩] :=
  (Runs.exists_of_run [.start, .saveMeta, .setConfirmationPolicy .neverConfirm, .crash, .start]
    rfl).elim fun _ hruns =>
      @survive_iff Unit {} Sample.ids id _ _ hruns

/-- The user asks for confirmations, and after the restart there are none. -/
theorem not_survive_policySet : ¬ ∀ (ids : IdSource) (request : StoredConversation Unit)
    (trace : List SettingsEvent) (host : ConversationHost Unit),
      (system ids id).Runs (created request) trace host → request.safeguards.Survive trace := by
  intro hsurvive
  obtain ⟨host, hruns⟩ := @Runs.exists_of_run _ _ _ (system Sample.ids id)
    (created ({} : StoredConversation Unit))
    [.start, .saveMeta, .setConfirmationPolicy .alwaysConfirm, .close, .start]
    [.started ⟨.neverConfirm, none⟩, .policySet .alwaysConfirm, .started ⟨.neverConfirm, none⟩] rfl
  have hlast := hsurvive Sample.ids {} _ host hruns
    [.started ⟨.neverConfirm, none⟩, .policySet .alwaysConfirm] _ List.prefix_rfl
  cases congrArg Safeguards.confirmationPolicy hlast

end ConversationHost

end ShuttleFlow
