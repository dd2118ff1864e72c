import ShuttleFlow.AppServer.ConversationMetadata
import ShuttleFlow.Library.LastWriter

/-! # Whether updates of the metadata are lost

Each of the three writers is to change some columns of the row. It saves a whole row that it
makes from what it read before.
-/

namespace ShuttleFlow

open TransitionSystem LastWriter

inductive MetadataColumn
  | selectedRepository | selectedBranch | gitProvider | title | lastUpdatedAt | createdAt
  | trigger | prNumber | metrics | llmModel | agentKind | conversationVersion | sandboxId
  | parentConversationId | isPublic | tags
  deriving DecidableEq

namespace MetadataColumn

def all : List MetadataColumn :=
  [selectedRepository, selectedBranch, gitProvider, title, lastUpdatedAt, createdAt, trigger,
    prNumber, metrics, llmModel, agentKind, conversationVersion, sandboxId,
    parentConversationId, isPublic, tags]

theorem mem_all (column : MetadataColumn) : column ∈ all := by
  cases column <;> decide

variable {Time : Type}

def agrees : MetadataColumn → Setoid (StoredConversationMetadata Time)
  | selectedRepository => .ker (·.selectedRepository)
  | selectedBranch => .ker (·.selectedBranch)
  | gitProvider => .ker (·.gitProvider)
  | title => .ker (·.title)
  | lastUpdatedAt => .ker (·.lastUpdatedAt)
  | createdAt => .ker (·.createdAt)
  | trigger => .ker (·.trigger)
  | prNumber => .ker (·.prNumber)
  | metrics => .ker (·.metrics)
  | llmModel => .ker (·.llmModel)
  | agentKind => .ker (·.agentKind)
  | conversationVersion => .ker (·.conversationVersion)
  | sandboxId => .ker (·.sandboxId)
  | parentConversationId => .ker (·.parentConversationId)
  | isPublic => .ker (·.isPublic)
  | tags => .ker (·.tags)

instance [DecidableEq Time] (column : MetadataColumn)
    (first second : StoredConversationMetadata Time) :
    Decidable (column.agrees first second) := by
  cases column <;> exact decEq _ _

end MetadataColumn

namespace MetadataOperation

variable {Time : Type} (host : MetadataHost)

/-- The columns that the operation is meant to change. A title is only changed by a sandbox
when there is none. -/
def sets (operation : MetadataOperation Time) (row : StoredConversationMetadata Time) :
    MetadataColumn → Bool :=
  match operation with
  | .onConversationUpdate _ => fun
      | .llmModel | .agentKind | .tags | .trigger | .metrics | .sandboxId | .lastUpdatedAt => true
      | .title => (nonEmpty row.title).isNone
      | _ => false
  | .setTitle _ => fun
      | .title => true
      | _ => false
  | .updateAppConversation request => fun
      | .title => request.title.isSome
      | .isPublic => request.isPublic.isSome
      | .selectedRepository => request.selectedRepository.isSome
      | .selectedBranch => request.selectedBranch.isSome
      | .gitProvider => request.gitProvider.isSome
      | _ => false

/-- What the operation is meant to make of a row. -/
def apply (operation : MetadataOperation Time) (row : StoredConversationMetadata Time) :
    StoredConversationMetadata Time :=
  match operation with
  | .onConversationUpdate update =>
      let mergedTags := mergeConversationTags (row.tags.getD .empty) update.tags
      let isAcp := update.agentKind = "acp"
      { row with
        title := if (nonEmpty row.title).isSome then row.title else some host.defaultTitle
        llmModel := if isAcp then none else some update.llmModel
        agentKind := some (if isAcp then "acp" else "openhands")
        tags := if mergedTags.entries = [] then none else some mergedTags
        trigger := detectAutomationTrigger row.trigger mergedTags
        metrics := update.metrics.toStored
        sandboxId := some update.sandboxId
        lastUpdatedAt := some update.updatedNow }
  | .setTitle title => { row with title }
  | .updateAppConversation request =>
      { row with
        title := request.title.getD row.title
        isPublic := request.isPublic.getD row.isPublic
        selectedRepository := request.selectedRepository.getD row.selectedRepository
        selectedBranch := request.selectedBranch.getD row.selectedBranch
        gitProvider := request.gitProvider.getD row.gitProvider }

/-- The columns that the operation fills without looking at what it read. -/
def overwrites (operation : MetadataOperation Time) : MetadataColumn → Bool :=
  match operation with
  | .onConversationUpdate _ => fun
      | .llmModel | .agentKind | .metrics | .sandboxId | .lastUpdatedAt | .createdAt
      | .isPublic => true
      | _ => false
  | .setTitle _ => fun
      | .title => true
      | _ => false
  | .updateAppConversation request => fun
      | .title => request.title.isSome
      | .isPublic => request.isPublic.isSome
      | .selectedRepository => request.selectedRepository.isSome
      | .selectedBranch => request.selectedBranch.isSome
      | .gitProvider => request.gitProvider.isSome
      | _ => false

/-- A sandbox speaks of a conversation without a public flag, at the moment of its creation. -/
def keepsRest [DecidableEq Time] (operation : MetadataOperation Time)
    (row : StoredConversationMetadata Time) : Bool :=
  match operation with
  | .onConversationUpdate update =>
      row.isPublic = none && row.createdAt = some update.createdNow
  | _ => true

variable {operation : MetadataOperation Time} {row : StoredConversationMetadata Time}
  {column : MetadataColumn}

/-- An operation leaves the other columns as they are. -/
theorem agrees_apply (hunset : operation.sets row column = false) :
    column.agrees row (operation.apply host row) := by
  cases operation with
  | onConversationUpdate update =>
      cases column <;> first | rfl | cases hunset | skip
      -- a title that is there
      have htitle : (nonEmpty row.title).isSome := by
        simpa [sets] using hunset
      simp only [apply, if_pos htitle]
      rfl
  | setTitle title => cases column <;> first | rfl | cases hunset
  | updateAppConversation request =>
      cases column <;> first
        | rfl
        | (simp only [sets, Option.isSome_eq_false_iff, Option.isNone_iff_eq_none] at hunset
           simp only [apply, hunset, Option.getD_none]
           rfl)

/-- The row is what the operation read, in the columns that it does not overwrite. -/
def undisturbed [DecidableEq Time] (operation : MetadataOperation Time)
    (info : AppConversationInfo Time) (row : StoredConversationMetadata Time) : Bool :=
  operation.keepsRest row && MetadataColumn.all.all fun column =>
    operation.overwrites column || decide (column.agrees info.toStored row)

variable [DecidableEq Time] {info saved : AppConversationInfo Time}

theorem agrees_of_undisturbed (hundisturbed : operation.undisturbed info row)
    (hread : operation.overwrites column = false) : column.agrees info.toStored row := by
  rw [undisturbed, Bool.and_eq_true, List.all_eq_true] at hundisturbed
  have hcolumn := hundisturbed.2 column column.mem_all
  rw [hread, Bool.false_or] at hcolumn
  exact of_decide_eq_true hcolumn

omit [DecidableEq Time] in
theorem getD_tags_toStored (info : AppConversationInfo Time) :
    info.toStored.tags.getD .empty = info.tags := by
  rw [AppConversationInfo.toStored]
  split
  next hnil => exact (Dict.eq_empty hnil).symm
  next => rfl

theorem eq_of_nonEmpty {text : Option String} (hsome : (nonEmpty text).isSome) :
    nonEmpty text = text := by
  obtain ⟨found, hfound⟩ := Option.isSome_iff_exists.mp hsome
  rw [hfound]
  exact (Option.filter_eq_some_iff.mp hfound).1.symm

/-- What a sandbox says is saved as it is meant to be. -/
theorem agrees_save_onConversationUpdate {update : ConversationUpdate Time}
    (hundisturbed : (onConversationUpdate update).undisturbed info row)
    (hsave : host.save info (.onConversationUpdate update) = some saved) :
    column.agrees saved.toStored ((onConversationUpdate update).apply host row) := by
  have hsame : ∀ column : MetadataColumn, overwrites (.onConversationUpdate update) column = false →
      column.agrees info.toStored row := fun column => agrees_of_undisturbed hundisturbed
  have htitle : info.title = row.title := hsame .title rfl
  have htags : row.tags.getD .empty = info.tags := by
    have htags : info.toStored.tags = row.tags := hsame .tags rfl
    rw [← htags, getD_tags_toStored]
  have hkeeps := (Bool.and_eq_true_iff.mp hundisturbed).1
  rw [MetadataHost.save] at hsave
  split at hsave
  next => cases hsave
  next =>
    cases hsave
    simp only [keepsRest, Bool.and_eq_true, decide_eq_true_eq] at hkeeps
    cases column with
    | title =>
        simp only [apply, ← htitle]
        cases hgiven : nonEmpty info.title with
        | none => rfl
        | some title =>
            have hsome : (nonEmpty info.title).isSome := by rw [hgiven]; rfl
            rw [← eq_of_nonEmpty hsome, hgiven]
            rfl
    | trigger =>
        have htrigger : info.trigger = row.trigger := hsame .trigger rfl
        simp only [apply, htags, ← htrigger]
        rfl
    | tags =>
        simp only [apply, htags]
        rfl
    | createdAt => exact hkeeps.2.symm
    | isPublic => exact hkeeps.1.symm
    | lastUpdatedAt | metrics | llmModel | agentKind | sandboxId => rfl
    | selectedRepository => exact hsame .selectedRepository rfl
    | selectedBranch => exact hsame .selectedBranch rfl
    | gitProvider => exact hsame .gitProvider rfl
    | prNumber => exact hsame .prNumber rfl
    | conversationVersion => exact hsame .conversationVersion rfl
    | parentConversationId => exact hsame .parentConversationId rfl

/-- A column that the operation leaves as it read it. -/
theorem agrees_save_of_unset (hundisturbed : operation.undisturbed info row)
    (hread : operation.overwrites column = false) (hunset : operation.sets row column = false)
    (hsaved : column.agrees saved.toStored info.toStored) :
    column.agrees saved.toStored (operation.apply host row) := by
  have hrow := agrees_of_undisturbed hundisturbed hread
  exact column.agrees.trans' hsaved (column.agrees.trans' hrow (agrees_apply host hunset))

/-- Only the title of the info is replaced. -/
theorem agrees_save_setTitle {title : Option String}
    (hundisturbed : (setTitle title).undisturbed info row)
    (hsave : host.save info (.setTitle title) = some saved) :
    column.agrees saved.toStored ((setTitle title).apply host row) := by
  obtain ⟨given, hgiven, rfl⟩ := Option.map_eq_some_iff.mp hsave
  by_cases htitle : column = .title
  · subst htitle
    exact (Option.filter_eq_some_iff.mp hgiven).1.symm
  · apply agrees_save_of_unset host hundisturbed
    all_goals cases column <;> first | rfl | exact absurd rfl htitle

/-- Only the fields of the request are replaced. -/
theorem agrees_save_updateAppConversation {request : AppConversationUpdateRequest}
    (hundisturbed : (updateAppConversation request).undisturbed info row)
    (hsave : host.save info (.updateAppConversation request) = some saved) :
    column.agrees saved.toStored ((updateAppConversation request).apply host row) := by
  rw [MetadataHost.save] at hsave
  split at hsave
  next =>
    cases hsave
    cases hsets : sets (.updateAppConversation request) row column with
    | true =>
        cases column <;> first
          | cases hsets
          | (obtain ⟨value, hvalue⟩ := Option.isSome_iff_exists.mp hsets
             simp only [apply, AppConversationInfo.toStored, hvalue, Option.getD_some]
             rfl)
    | false =>
        apply agrees_save_of_unset host hundisturbed _ hsets
        · cases column <;> first
            | rfl
            | (simp only [sets, Option.isSome_eq_false_iff, Option.isNone_iff_eq_none] at hsets
               simp only [AppConversationInfo.toStored, hsets, Option.getD_none]
               rfl)
        · cases column <;> first | rfl | exact hsets
  next => cases hsave

/-- What is saved is what the operation makes of the row. -/
theorem agrees_save (hundisturbed : operation.undisturbed info row)
    (hsave : host.save info operation = some saved) :
    column.agrees saved.toStored (operation.apply host row) := by
  cases operation with
  | onConversationUpdate update => exact agrees_save_onConversationUpdate host hundisturbed hsave
  | setTitle title => exact agrees_save_setTitle host hundisturbed hsave
  | updateAppConversation request =>
      exact agrees_save_updateAppConversation host hundisturbed hsave

end MetadataOperation

namespace SavedMetadata

variable {Time : Type}

def sets (saved : SavedMetadata Time) (column : MetadataColumn) : Bool :=
  saved.operation.sets saved.before column

def toWrite (saved : SavedMetadata Time) :
    Write (StoredConversationMetadata Time) MetadataColumn :=
  ⟨saved.before, saved.after, saved.sets⟩

end SavedMetadata

namespace MetadataStore

variable {Time : Type} {host : MetadataHost} {store next : MetadataStore Time}
  {start : StoredConversationMetadata Time} {trace : List (SavedMetadata Time)}

/-- What the operations of a history may do to the row. -/
structure NoLostUpdates (host : MetadataHost) (start : StoredConversationMetadata Time)
    (trace : List (SavedMetadata Time)) (row : StoredConversationMetadata Time) : Prop where
  /-- An operation changes only what it is meant to change. -/
  frame : ∀ saved ∈ trace, ∀ column, saved.sets column = false →
    column.agrees saved.before saved.after
  given : ∀ saved ∈ trace, ∀ column, saved.sets column = true →
    column.agrees saved.after (saved.operation.apply host saved.before)
  unset : ∀ column, (∀ saved ∈ trace, saved.sets column = false) → column.agrees start row
  /-- What the last operation gave that was meant to change a column is still there. -/
  last : ∀ before saved after column, trace = before ++ saved :: after →
    saved.sets column = true → (∀ later ∈ after, later.sets column = false) →
    column.agrees saved.after row

/-- An operation that saves finds what it read, in the columns that it does not overwrite. -/
def savesUndisturbed [DecidableEq Time] (host : MetadataHost) (store : MetadataStore Time) :
    MetadataStep Time → Bool
  | .read _ _ => true
  | .finish index =>
      store.pending[index]?.all fun begun =>
        (host.save begun.2 begun.1).isNone || begun.1.undisturbed begun.2 store.row

/-- The invariant of undisturbed runs. -/
structure Kept (host : MetadataHost) (start : StoredConversationMetadata Time)
    (trace : List (SavedMetadata Time)) (store : MetadataStore Time) : Prop where
  linked : Linked start (trace.map SavedMetadata.toWrite) store.row
  applied : ∀ saved ∈ trace, ∀ column : MetadataColumn,
    column.agrees saved.after (saved.operation.apply host saved.before)

variable [DecidableEq Time]

theorem Kept.step (hkept : Kept host start trace store) {label : MetadataStep Time}
    (hallowed : store.savesUndisturbed host label) {seen : List (SavedMetadata Time)}
    (hstep : store.step host label = some (next, seen)) : Kept host start (trace ++ seen) next := by
  cases label with
  | read operation now =>
      obtain ⟨info, -, heq⟩ := Option.map_eq_some_iff.mp hstep
      cases heq
      rw [List.append_nil]
      exact ⟨hkept.linked, hkept.applied⟩
  | finish index =>
      simp only [MetadataStore.step] at hstep
      split at hstep
      next => cases hstep
      next operation info hpending =>
        split at hstep
        next =>
          cases hstep
          rw [List.append_nil]
          exact ⟨hkept.linked, hkept.applied⟩
        next saved hsave =>
          cases hstep
          have hundisturbed : operation.undisturbed info store.row := by
            simpa [savesUndisturbed, hpending, hsave] using hallowed
          refine ⟨?_, fun other hother column => ?_⟩
          · rw [List.map_append]
            exact hkept.linked.snoc
          · rcases List.mem_append.mp hother with hold | hnew
            · exact hkept.applied other hold column
            · rw [List.mem_singleton.mp hnew]
              exact operation.agrees_save host hundisturbed hsave

/-- Any operations, in any interleaving: no update is lost as long as nobody else changes a
column between the time an operation reads it and the time it writes it back. -/
theorem noLostUpdates_of_runs
    (hruns : ((system host).restrict (savesUndisturbed host)).Runs ⟨start, []⟩ trace store) :
    NoLostUpdates host start trace store.row := by
  have hkept : Kept host start trace store := by
    apply hruns.invariant_restrict (Kept host start)
    · exact ⟨.nil, fun saved hsaved => by cases hsaved⟩
    · intro trace store label next seen hkept hallowed hstep
      exact hkept.step hallowed hstep
  have hframe : ∀ saved ∈ trace, ∀ column, saved.sets column = false →
      column.agrees saved.before saved.after := by
    intro saved hsaved column hunset
    have hgiven := hkept.applied saved hsaved column
    exact column.agrees.trans' (MetadataOperation.agrees_apply host hunset)
      (column.agrees.symm' hgiven)
  have hframed : Framed MetadataColumn.agrees (trace.map SavedMetadata.toWrite) := by
    intro write hwrite column hunset
    obtain ⟨saved, hsaved, rfl⟩ := List.mem_map.mp hwrite
    exact hframe saved hsaved column hunset
  refine ⟨hframe, fun saved hsaved column _ => hkept.applied saved hsaved column, ?_, ?_⟩
  · intro column hunset
    apply hkept.linked.agree_of_unset hframed
    intro write hwrite
    obtain ⟨saved, hsaved, rfl⟩ := List.mem_map.mp hwrite
    exact hunset saved hsaved
  · intro before saved after column htrace _ hlast
    have hsplit : trace.map SavedMetadata.toWrite = before.map SavedMetadata.toWrite ++
        saved.toWrite :: after.map SavedMetadata.toWrite := by
      rw [htrace, List.map_append, List.map_cons]
    apply hkept.linked.agree_of_last hframed hsplit
    intro write hwrite
    obtain ⟨later, hlater, rfl⟩ := List.mem_map.mp hwrite
    exact hlast later hlater

end MetadataStore

section Metadata

open MetadataStore

/-- A shared conversation with a title. -/
def Sample.sharedRow : StoredConversationMetadata Nat where
  selectedRepository := some "owner/repository"
  selectedBranch := some "main"
  gitProvider := some .github
  title := some "Conversation"
  lastUpdatedAt := some 5
  createdAt := some 1
  trigger := some .gui
  prNumber := some []
  metrics := ({} : MetricsSnapshot).toStored
  llmModel := some "model"
  agentKind := some "openhands"
  conversationVersion := "V1"
  sandboxId := some "sandbox"
  parentConversationId := none
  isPublic := some true
  tags := none

def Sample.metadataHost : MetadataHost :=
  ⟨⟨List.replicate 32 'c', by decide, by decide⟩, fun _ => true⟩

def Sample.webhook : ConversationUpdate Nat where
  sandboxId := "sandbox"
  isDeleting := false
  agentKind := "openhands"
  llmModel := "model"
  metrics := {}
  tags := none
  createdNow := 7
  updatedNow := 7

open Sample

/-- A conversation stops being shared, and then its title is found. -/
theorem MetadataStore.noLostUpdates_of_runs_update :
    ∃ trace store, trace.length = 2 ∧
      NoLostUpdates metadataHost sharedRow trace (store : MetadataStore Nat).row :=
  ⟨_, _, rfl, noLostUpdates_of_runs
    ((Runs.single_restrict (by decide +kernel) (show (system metadataHost).step ⟨sharedRow, []⟩
      (.read (.updateAppConversation { isPublic := some (some false) }) 8) = some (_, []) from rfl)
    |>.trans (Runs.single_restrict (by decide +kernel) (show (system metadataHost).step _
      (.finish 0) = some (_, [_]) from rfl))
    |>.trans (Runs.single_restrict (by decide +kernel) (show (system metadataHost).step _
      (.read (.setTitle (some "Title")) 9) = some (_, []) from rfl))
    |>.trans (Runs.single_restrict (by decide +kernel) (show (system metadataHost).step _
      (.finish 0) = some (_, [_]) from rfl))))⟩

/-- A sandbox reports its conversation, which is shared. -/
theorem MetadataStore.not_noLostUpdates_of_webhook :
    ∃ trace store, (system metadataHost).Runs ⟨sharedRow, []⟩ trace store ∧
      ¬NoLostUpdates metadataHost sharedRow trace store.row := by
  refine ⟨_, _, .of_run [.read (.onConversationUpdate webhook) 6, .finish 0] rfl,
    fun hkept => ?_⟩
  have hsame := hkept.unset .isPublic (by decide)
  cases hsame

end Metadata

end ShuttleFlow
