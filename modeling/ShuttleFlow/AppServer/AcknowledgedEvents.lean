import ShuttleFlow.AppServer.EventConfinement
import ShuttleFlow.AppServer.OnEvent

/-! # Whether acknowledged events are stored

A failure is not reported, so what the sender forgets may be lost.
-/

namespace ShuttleFlow

open TransitionSystem

namespace EventHost

variable {Event : Type} (host : EventHost Event)

def IsStored (disk : Disk) (post : EventPost Event) : Prop :=
  disk.files (host.location post) = some (host.modelDumpJson post.event).toUTF8

instance (disk : Disk) (post : EventPost Event) : Decidable (host.IsStored disk post) :=
  inferInstanceAs (Decidable (disk.files _ = _))

/-- No file is written with two events. -/
def consistent [DecidableEq Event] (known batch : List (EventPost Event)) : Bool :=
  batch.all fun post => (known ++ batch).all fun other =>
    host.location other ≠ host.location post || decide (other.event = post.event)

variable {host} {disk next : Disk} {post : EventPost Event}

/-- What is written for an event is what is read for its UUID. -/
theorem getEvent_of_isStored {id : UUID}
    (hreads : ∀ event, host.modelValidateJson (host.modelDumpJson event) = some event)
    (hescapes : ∀ event, '\r' ∉ (host.modelDumpJson event).toList)
    (hproper : host.proper post) (hid : UUID.ofText? (host.id post.event) = some id)
    (hstored : host.IsStored disk post) :
    host.getEvent disk post.service post.conversationId id = some post.event := by
  obtain ⟨name, hlocation, hname⟩ := location_of_proper hproper
  have hfile : String.ofList id.fileName = name := by
    rw [← UUID.eq_fileName (hname.trans hid), String.ofList_toList]
  rw [IsStored, hlocation, ← hfile, directory, ← normParts_join_fileName] at hstored
  have htext := Disk.readText_of_decode hstored (decodeText_toUTF8 (hescapes post.event))
  rw [getEvent, loadEvent, htext]
  exact hreads post.event

end EventHost

namespace EventWebhook

variable {Event Time : Type}

def posts (webhook : EventWebhook Event Time) : List (EventPost Event) :=
  webhook.requests.flatMap fun request => request.batch.posts

end EventWebhook

namespace OnEventHost

variable {Event Time : Type} (host : OnEventHost Event)

/-- A save may fail for a batch that is stored already and is answered, or has no statistics. -/
def harmless (disk : Disk) (request : OnEventRequest Event) : Bool :=
  match request.phase with
  | .answered => true
  | .saving | .stats _ _ =>
      (host.statsEvents request.batch).isEmpty &&
        request.batch.posts.all fun post => decide (host.IsStored disk post)

def allowedSave (disk : Disk) (request : OnEventRequest Event) (post : EventPost Event) :
    SaveOutcome → Bool
  | .attempted => (host.saveEvent disk post).2 || host.harmless disk request
  | .failed none => host.harmless disk request
  | .failed (some _) => false

/-- The statistics can be validated, and stored if there are any of the agent. -/
def storesStats (event : Event) (fails : Bool) (row : Option (StatisticsRow Time)) : Bool :=
  (host.stats? event).join.any fun stats =>
    (stats.usageToMetrics.get? "agent").isNone || (!fails && row.isSome)

def allowed [DecidableEq Event] (webhook : EventWebhook Event Time) :
    OnEventLabel Event Time → Bool
  | .receive batch =>
      (batch.posts.all fun post => host.proper post) &&
        host.consistent webhook.posts batch.posts
  | .save number index outcome =>
      webhook.requests[number]?.all fun request => request.batch.posts[index]?.all fun post =>
        host.allowedSave webhook.disk request post outcome
  | .processStats number fails _ =>
      webhook.requests[number]?.all fun request =>
        match request.phase with
        | .saving | .answered => true
        | .stats event _ =>
            host.storesStats event fails (webhook.rows request.batch.conversationId)
  | .updateRow _ _ => true

/-- Each answered request has its events stored, now and later, and its statistics applied. -/
def Acknowledged (webhook : EventWebhook Event Time) (later : EventWebhook Event Time) : Prop :=
  ∀ request ∈ webhook.requests, request.phase = .answered →
    request.applied = host.statsEvents request.batch ∧
    ∀ event ∈ request.batch.events, ∀ id, UUID.ofText? (host.id event) = some id →
      host.getEvent webhook.disk request.batch.service request.batch.conversationId id =
          some event ∧
        host.getEvent later.disk request.batch.service request.batch.conversationId id =
          some event

/-! ## One request -/

/-- What is still to be done for a request. -/
structure RequestSound (disk : Disk) (request : OnEventRequest Event) : Prop where
  stored : ∀ index post, request.batch.posts[index]? = some post →
    (request.phase = .saving → index ∉ request.unsaved) → host.IsStored disk post
  applied :
    match request.phase with
    | .saving => request.applied = []
    | .stats event rest =>
        request.unsaved = [] ∧ request.applied ++ event :: rest = host.statsEvents request.batch
    | .answered => request.applied = host.statsEvents request.batch

variable {host} {disk next : Disk} {request : OnEventRequest Event} {post : EventPost Event}

theorem RequestSound.of_stored (hsound : host.RequestSound disk request)
    (hstored : ∀ post ∈ request.batch.posts, host.IsStored disk post → host.IsStored next post) :
    host.RequestSound next request where
  stored := by
    intro index post hpost hdone
    exact hstored post (List.mem_of_getElem? hpost) (hsound.stored index post hpost hdone)
  applied := hsound.applied

theorem requestSound_gather (hphase : request.phase = .saving) (happlied : request.applied = [])
    (hstored : ∀ index post, request.batch.posts[index]? = some post → index ∉ request.unsaved →
      host.IsStored disk post) : host.RequestSound disk (host.gather request) := by
  unfold gather
  rw [hphase]
  split
  next hempty =>
    constructor
    · intro index post hpost _
      refine hstored index post hpost ?_
      rw [hempty]
      exact List.not_mem_nil
    · cases hstats : host.statsEvents request.batch with
      | nil => exact happlied
      | cons event rest => exact ⟨hempty, by rw [happlied]; rfl⟩
  next =>
    constructor
    · intro index post hpost hdone
      exact hstored index post hpost (hdone hphase)
    · rw [hphase]
      exact happlied

theorem gather_of_answered (hphase : request.phase = .answered) :
    host.gather request = request := by
  unfold gather
  rw [hphase]

/-- A save that succeeds has stored the event. -/
theorem RequestSound.afterSave (hsound : host.RequestSound disk request) {index : Nat}
    (hunsaved : index ∈ request.unsaved) (hpost : request.batch.posts[index]? = some post)
    (hstored : host.IsStored disk post) :
    host.RequestSound disk (host.afterSave request index true) := by
  unfold OnEventHost.afterSave
  rw [if_pos rfl]
  have happlied := hsound.applied
  cases hphase : request.phase with
  | saving =>
      rw [hphase] at happlied
      refine requestSound_gather rfl happlied fun other otherPost hother hdone => ?_
      by_cases heq : other = index
      · cases heq
        cases hpost.symm.trans hother
        exact hstored
      · refine hsound.stored other otherPost hother fun _ hmem => hdone ?_
        exact List.mem_filter.mpr ⟨hmem, decide_eq_true heq⟩
  | stats event rest =>
      rw [hphase] at happlied
      rw [happlied.1] at hunsaved
      cases hunsaved
  | answered =>
      rw [hphase] at happlied
      rw [gather_of_answered rfl]
      refine ⟨fun other otherPost hother _ => ?_, happlied⟩
      refine hsound.stored other otherPost hother fun hsaving => ?_
      cases hphase.symm.trans hsaving

theorem RequestSound.afterFailure (hsound : host.RequestSound disk request) {index : Nat}
    (hunsaved : index ∈ request.unsaved) (hharmless : host.harmless disk request) :
    host.RequestSound disk (host.afterSave request index false) := by
  unfold OnEventHost.afterSave
  rw [if_neg Bool.false_ne_true]
  unfold harmless at hharmless
  have happlied := hsound.applied
  cases hphase : request.phase with
  | saving =>
      rw [hphase] at hharmless happlied
      obtain ⟨hstats, hall⟩ := Bool.and_eq_true_iff.mp hharmless
      refine ⟨fun other otherPost hother _ => ?_, ?_⟩
      · exact of_decide_eq_true (List.all_eq_true.mp hall otherPost (List.mem_of_getElem? hother))
      · exact happlied.trans (List.isEmpty_iff.mp hstats).symm
  | stats event rest =>
      rw [hphase] at happlied
      rw [happlied.1] at hunsaved
      cases hunsaved
  | answered =>
      rw [hphase] at happlied
      refine ⟨fun other otherPost hother _ => ?_, happlied⟩
      refine hsound.stored other otherPost hother fun hsaving => ?_
      cases hphase.symm.trans hsaving

theorem RequestSound.processStats (hsound : host.RequestSound disk request) {event : Event}
    {rest : List Event} (hphase : request.phase = .stats event rest) :
    host.RequestSound disk
      { request with phase := statsPhase rest, applied := request.applied ++ [event] } := by
  have happlied := hsound.applied
  rw [hphase] at happlied
  refine ⟨fun index post hpost _ => hsound.stored index post hpost fun hsaving => ?_, ?_⟩
  · cases hphase.symm.trans hsaving
  · cases rest with
    | nil => exact happlied.2
    | cons next rest =>
        refine ⟨happlied.1, ?_⟩
        rw [List.append_assoc]
        exact happlied.2

/-! ## All requests -/

/-- The invariant of the runs in which nothing is lost. -/
structure Keeps (host : OnEventHost Event) (webhook : EventWebhook Event Time) : Prop where
  proper : ∀ post ∈ webhook.posts, host.proper post
  consistent : ∀ post ∈ webhook.posts, ∀ other ∈ webhook.posts,
    host.location other = host.location post → other.event = post.event
  sound : ∀ request ∈ webhook.requests, host.RequestSound webhook.disk request

variable {webhook : EventWebhook Event Time} {number index : Nat}

theorem mem_posts {webhook : EventWebhook Event Time} :
    post ∈ webhook.posts ↔ ∃ request ∈ webhook.requests, post ∈ request.batch.posts :=
  List.mem_flatMap

/-- Requests go on, and each keeps its batch. -/
theorem posts_set (hrequest : webhook.requests[number]? = some request)
    {moved : OnEventRequest Event} (hbatch : moved.batch = request.batch) (disk : Disk)
    (rows : UUID → Option (StatisticsRow Time)) :
    (EventWebhook.posts ⟨disk, rows, webhook.requests.set number moved⟩) = webhook.posts := by
  obtain ⟨hlt, rfl⟩ := List.getElem?_eq_some_iff.mp hrequest
  unfold EventWebhook.posts
  rw [List.flatMap_def, List.flatMap_def, List.map_set, hbatch]
  congr 1
  apply List.ext_getElem?
  intro other
  rw [List.getElem?_set]
  split
  next heq =>
    subst heq
    rw [List.length_map, if_pos hlt, List.getElem?_map, List.getElem?_eq_getElem hlt]
    rfl
  next => rfl

theorem Keeps.set (hkeeps : host.Keeps webhook)
    (hrequest : webhook.requests[number]? = some request) {moved : OnEventRequest Event}
    (hbatch : moved.batch = request.batch) {rows : UUID → Option (StatisticsRow Time)}
    (hdisk : ∀ post ∈ webhook.posts, host.IsStored webhook.disk post → host.IsStored next post)
    (hmoved : host.RequestSound next moved) :
    host.Keeps ⟨next, rows, webhook.requests.set number moved⟩ := by
  have hposts := posts_set hrequest hbatch next rows
  refine ⟨?_, ?_, ?_⟩
  · rw [hposts]
    exact hkeeps.proper
  · rw [hposts]
    exact hkeeps.consistent
  · intro other hother
    rcases List.mem_or_eq_of_mem_set hother with hold | rfl
    · exact (hkeeps.sound other hold).of_stored fun post hpost =>
        hdisk post (mem_posts.mpr ⟨other, hold, hpost⟩)
    · exact hmoved

theorem batch_gather (request : OnEventRequest Event) :
    (host.gather request).batch = request.batch := by
  unfold gather
  split <;> rfl

theorem batch_afterSave (request : OnEventRequest Event) (index : Nat) (saved : Bool) :
    (host.afterSave request index saved).batch = request.batch := by
  unfold afterSave
  cases saved
  · rfl
  · exact batch_gather _

theorem trySave_spec {outcome : SaveOutcome} {disk : Disk}
    (hallowed : host.allowedSave disk request post outcome) :
    (host.trySave disk post outcome).1.files =
      if (host.trySave disk post outcome).2 then
        Function.update disk.files (host.location post)
          (some (host.modelDumpJson post.event).toUTF8)
      else disk.files := by
  cases outcome with
  | attempted => exact host.saveEvent_spec disk post
  | failed left =>
      cases left with
      | none => rfl
      | some left => cases hallowed

/-- What is stored stays, as no other event has its file. -/
theorem isStored_of_save {outcome : SaveOutcome} (hkeeps : host.Keeps webhook)
    (hpost : post ∈ webhook.posts)
    (hallowed : host.allowedSave webhook.disk request post outcome) :
    ∀ other ∈ webhook.posts, host.IsStored webhook.disk other →
      host.IsStored (host.trySave webhook.disk post outcome).1 other := by
  intro other hother hstored
  have hspec := trySave_spec hallowed
  unfold EventHost.IsStored at hstored ⊢
  rw [hspec]
  split
  next =>
    rw [Function.update_apply]
    split
    next heq => rw [hkeeps.consistent post hpost other hother heq]
    next => exact hstored
  next => exact hstored

theorem Keeps.receive [DecidableEq Event] (hkeeps : host.Keeps webhook)
    {batch : OnEventBatch Event} (hproper : batch.posts.all fun post => host.proper post)
    (hconsistent : host.consistent webhook.posts batch.posts) :
    host.Keeps (host.receive webhook batch) := by
  have hposts : (host.receive webhook batch).posts = webhook.posts ++ batch.posts := by
    unfold OnEventHost.receive EventWebhook.posts
    rw [List.flatMap_append, List.flatMap_singleton, batch_gather]
  have hsame : ∀ post ∈ batch.posts, ∀ other ∈ webhook.posts ++ batch.posts,
      host.location other = host.location post → other.event = post.event := by
    intro post hpost other hother hlocation
    have hall := List.all_eq_true.mp (List.all_eq_true.mp hconsistent post hpost) other hother
    rcases Bool.or_eq_true_iff.mp hall with hne | heq
    · exact absurd hlocation (of_decide_eq_true hne)
    · exact of_decide_eq_true heq
  refine ⟨?_, ?_, ?_⟩
  · intro post hpost
    rw [hposts] at hpost
    rcases List.mem_append.mp hpost with hold | hnew
    · exact hkeeps.proper post hold
    · exact List.all_eq_true.mp hproper post hnew
  · intro post hpost other hother hlocation
    rw [hposts] at hpost hother
    rcases List.mem_append.mp hpost with hold | hnew
    · rcases List.mem_append.mp hother with holdOther | hnewOther
      · exact hkeeps.consistent post hold other holdOther hlocation
      · exact (hsame other hnewOther post hpost hlocation.symm).symm
    · exact hsame post hnew other hother hlocation
  · intro request hrequest
    rcases List.mem_append.mp hrequest with hold | hnew
    · exact hkeeps.sound request hold
    · rw [List.mem_singleton.mp hnew]
      refine requestSound_gather rfl rfl fun index post hpost hdone => ?_
      obtain ⟨hlt, -⟩ := List.getElem?_eq_some_iff.mp hpost
      rw [OnEventBatch.posts, List.length_map] at hlt
      exact absurd (List.mem_range.mpr hlt) hdone

theorem Keeps.save (hkeeps : host.Keeps webhook) {outcome : SaveOutcome}
    (hrequest : webhook.requests[number]? = some request)
    (hpost : request.batch.posts[index]? = some post) (hunsaved : index ∈ request.unsaved)
    (hallowed : host.allowedSave webhook.disk request post outcome) :
    host.Keeps
      { webhook with
        disk := (host.trySave webhook.disk post outcome).1
        requests := webhook.requests.set number
          (host.afterSave request index (host.trySave webhook.disk post outcome).2) } := by
  have hmem := List.mem_of_getElem? hrequest
  have hstays := isStored_of_save hkeeps
    (mem_posts.mpr ⟨request, hmem, List.mem_of_getElem? hpost⟩) hallowed
  refine hkeeps.set hrequest (batch_afterSave _ _ _) hstays ?_
  have hbatch : ∀ other ∈ request.batch.posts, host.IsStored webhook.disk other →
      host.IsStored (host.trySave webhook.disk post outcome).1 other := fun other hother =>
    hstays other (mem_posts.mpr ⟨request, hmem, hother⟩)
  have hspec := trySave_spec hallowed
  cases hsaved : (host.trySave webhook.disk post outcome).2 with
  | true =>
      rw [hsaved, if_pos rfl] at hspec
      refine ((hkeeps.sound request hmem).of_stored hbatch).afterSave hunsaved hpost ?_
      rw [EventHost.IsStored, hspec, Function.update_self]
  | false =>
      rw [hsaved, if_neg Bool.false_ne_true] at hspec
      have hharmless : host.harmless webhook.disk request := by
        cases outcome with
        | attempted =>
            exact (Bool.or_eq_true_iff.mp hallowed).resolve_left (ne_true_of_eq_false hsaved)
        | failed left =>
            cases left with
            | none => exact hallowed
            | some left => cases hallowed
      refine ((hkeeps.sound request hmem).afterFailure hunsaved hharmless).of_stored ?_
      rw [batch_afterSave]
      exact hbatch

theorem storesStats_spec {event : Event} {fails : Bool} {row : Option (StatisticsRow Time)}
    (hstores : host.storesStats event fails row) (utcNow : Time) :
    (host.processStatsEvent event fails utcNow row).2 = true := by
  unfold storesStats at hstores
  unfold processStatsEvent
  cases hstats : (host.stats? event).join with
  | none =>
      rw [hstats] at hstores
      cases hstores
  | some stats =>
      rw [hstats, Option.any_some] at hstores
      simp only
      split
      next => rfl
      next hagent =>
        rw [Bool.or_eq_true, or_iff_right hagent, Bool.and_eq_true, Bool.not_eq_true'] at hstores
        obtain ⟨hworks, hrow⟩ := hstores
        obtain ⟨stored, rfl⟩ := Option.isSome_iff_exists.mp hrow
        rw [hworks, if_neg Bool.false_ne_true]

theorem Keeps.step [DecidableEq Event] (hkeeps : host.Keeps webhook)
    {label : OnEventLabel Event Time} (hallowed : host.allowed webhook label)
    {later : EventWebhook Event Time} (hstep : host.step webhook label = some later) :
    host.Keeps later := by
  cases label with
  | receive batch =>
      cases hstep
      obtain ⟨hproper, hconsistent⟩ := Bool.and_eq_true_iff.mp hallowed
      exact hkeeps.receive hproper hconsistent
  | save number index outcome =>
      obtain ⟨request, hrequest, hstep⟩ := Option.bind_eq_some_iff.mp hstep
      obtain ⟨post, hpost, hstep⟩ := Option.bind_eq_some_iff.mp hstep
      simp only [allowed, hrequest, hpost, Option.all_some] at hallowed
      split at hstep
      next hunsaved =>
        cases hstep
        exact hkeeps.save hrequest hpost hunsaved hallowed
      next => cases hstep
  | processStats number fails utcNow =>
      obtain ⟨request, hrequest, hstep⟩ := Option.bind_eq_some_iff.mp hstep
      simp only [allowed, hrequest, Option.all_some] at hallowed
      split at hstep
      next => cases hstep
      next => cases hstep
      next event rest hphase =>
        cases hstep
        rw [hphase] at hallowed
        rw [storesStats_spec hallowed utcNow, if_pos rfl]
        have hsound := hkeeps.sound request (List.mem_of_getElem? hrequest)
        refine hkeeps.set hrequest ?_ (fun _ _ hstored => hstored) (hsound.processStats hphase)
        rfl
  | updateRow id row =>
      cases hstep
      exact ⟨hkeeps.proper, hkeeps.consistent, hkeeps.sound⟩

/-- Posting a batch again, or any other one, leaves what is stored as it is. -/
theorem Keeps.stays [DecidableEq Event] (hkeeps : host.Keeps webhook)
    {label : OnEventLabel Event Time} (hallowed : host.allowed webhook label)
    {later : EventWebhook Event Time} (hstep : host.step webhook label = some later) :
    ∀ post ∈ webhook.posts, host.IsStored webhook.disk post →
      post ∈ later.posts ∧ host.IsStored later.disk post := by
  intro post hpost hstored
  cases label with
  | receive batch =>
      cases hstep
      refine ⟨?_, hstored⟩
      unfold OnEventHost.receive EventWebhook.posts
      rw [List.flatMap_append]
      exact List.mem_append_left _ hpost
  | save number index outcome =>
      obtain ⟨request, hrequest, hstep⟩ := Option.bind_eq_some_iff.mp hstep
      obtain ⟨saved, hsaved, hstep⟩ := Option.bind_eq_some_iff.mp hstep
      simp only [allowed, hrequest, hsaved, Option.all_some] at hallowed
      split at hstep
      next =>
        cases hstep
        rw [posts_set hrequest (batch_afterSave _ _ _)]
        refine ⟨hpost, isStored_of_save hkeeps ?_ hallowed post hpost hstored⟩
        exact mem_posts.mpr
          ⟨request, List.mem_of_getElem? hrequest, List.mem_of_getElem? hsaved⟩
      next => cases hstep
  | processStats number fails utcNow =>
      obtain ⟨request, hrequest, hstep⟩ := Option.bind_eq_some_iff.mp hstep
      split at hstep
      next => cases hstep
      next => cases hstep
      next event rest hphase =>
        cases hstep
        rw [posts_set hrequest]
        · exact ⟨hpost, hstored⟩
        · rfl
  | updateRow id row =>
      cases hstep
      exact ⟨hpost, hstored⟩

section Runs

variable {start later : EventWebhook Event Time} {trace after : List Empty}

theorem step_of_system {label : OnEventLabel Event Time} {seen : List Empty}
    (hstep : host.webhookSystem.step webhook label = some (later, seen)) :
    host.step webhook label = some later := by
  obtain ⟨next, hnext, heq⟩ := Option.map_eq_some_iff.mp hstep
  cases heq
  exact hnext

theorem Keeps.runs [DecidableEq Event] (hkeeps : host.Keeps start)
    (hruns : (host.webhookSystem.restrict host.allowed).Runs start trace later) :
    host.Keeps later ∧ ∀ post ∈ start.posts, host.IsStored start.disk post →
      post ∈ later.posts ∧ host.IsStored later.disk post := by
  refine hruns.invariant_restrict
    (fun _ later => host.Keeps later ∧ ∀ post ∈ start.posts, host.IsStored start.disk post →
      post ∈ later.posts ∧ host.IsStored later.disk post)
    ⟨hkeeps, fun _ hpost hstored => ⟨hpost, hstored⟩⟩ ?_
  intro _ webhook label next _ ⟨hkeeps, hstays⟩ hallowed hstep
  have hstep := step_of_system hstep
  refine ⟨hkeeps.step hallowed hstep, fun post hpost hstored => ?_⟩
  obtain ⟨hmem, hstored⟩ := hstays post hpost hstored
  exact hkeeps.stays hallowed hstep post hmem hstored

/-- In a run whose failures are harmless, no answer is followed by a loss. -/
theorem acknowledged_of_runs [DecidableEq Event]
    (hreads : ∀ event, host.modelValidateJson (host.modelDumpJson event) = some event)
    (hescapes : ∀ event, '\r' ∉ (host.modelDumpJson event).toList)
    {disk : Disk} {rows : UUID → Option (StatisticsRow Time)}
    (hruns : (host.webhookSystem.restrict host.allowed).Runs ⟨disk, rows, []⟩ trace webhook)
    (hafter : (host.webhookSystem.restrict host.allowed).Runs webhook after later) :
    host.Acknowledged webhook later := by
  have hstart : host.Keeps (⟨disk, rows, []⟩ : EventWebhook Event Time) := by
    refine ⟨?_, ?_, ?_⟩
    · intro post hpost
      cases hpost
    · intro post hpost
      cases hpost
    · intro request hrequest
      cases hrequest
  obtain ⟨hkeeps, -⟩ := hstart.runs hruns
  obtain ⟨-, hstays⟩ := hkeeps.runs hafter
  intro request hrequest hphase
  have hsound := hkeeps.sound request hrequest
  have happlied := hsound.applied
  rw [hphase] at happlied
  refine ⟨happlied, fun event hevent id hid => ?_⟩
  obtain ⟨index, hindex⟩ := List.mem_iff_getElem?.mp hevent
  have hpost : request.batch.posts[index]? =
      some ⟨request.batch.service, request.batch.conversationId, event⟩ := by
    rw [OnEventBatch.posts, List.getElem?_map, hindex, Option.map_some]
  have hmem := mem_posts.mpr ⟨request, hrequest, List.mem_of_getElem? hpost⟩
  have hstored : host.IsStored webhook.disk _ := hsound.stored index _ hpost fun hsaving => by
    cases hphase.symm.trans hsaving
  have hfound := fun disk (hstored : host.IsStored disk _) =>
    EventHost.getEvent_of_isStored hreads hescapes (hkeeps.proper _ hmem) hid hstored
  exact ⟨hfound webhook.disk hstored, hfound later.disk (hstays _ hmem hstored).2⟩

end Runs

end OnEventHost

section Answers

namespace Sample

def onEventHost : OnEventHost Posted where
  toEventHost := eventHost
  stats? _ := none

def eventBatch : OnEventBatch Posted := ⟨eventService, firstId, [.confined]⟩

def emptyWebhook : EventWebhook Posted Unit := ⟨emptyDisk, fun _ => none, []⟩

end Sample

open Sample

/-- A batch is saved, and posted again; then the disk fails. -/
theorem OnEventHost.acknowledged_of_runs_again :
    ∃ webhook : EventWebhook Posted Unit, webhook.requests.length = 2 ∧
      OnEventHost.Acknowledged onEventHost webhook webhook := by
  have hrun : (((onEventHost.webhookSystem.restrict onEventHost.allowed).run emptyWebhook
      [.receive eventBatch, .save 0 0 .attempted, .receive eventBatch,
        .save 1 0 (.failed none)]).map fun result => result.1.requests.length) = some 2 := by
    decide +kernel
  obtain ⟨⟨webhook, trace⟩, hlast, hlength⟩ := Option.map_eq_some_iff.mp hrun
  exact ⟨webhook, hlength, OnEventHost.acknowledged_of_runs eventHost_reads eventHost_escapes
    (.of_run _ hlast) .refl⟩

/-- The event is not stored, and the answer is a success. -/
theorem OnEventHost.not_acknowledged_when_save_fails :
    ¬∀ (trace : List Empty) (webhook : EventWebhook Posted Unit),
      onEventHost.webhookSystem.Runs emptyWebhook trace webhook →
        OnEventHost.Acknowledged onEventHost webhook webhook := by
  intro hall
  have hrun : onEventHost.webhookSystem.run emptyWebhook
      [.receive eventBatch, .save 0 0 (.failed none)] =
        some (⟨emptyDisk, fun _ => none, [⟨eventBatch, [], .answered, []⟩]⟩, []) := rfl
  obtain ⟨-, hfound⟩ := hall _ _ (.of_run _ hrun) _ (List.mem_singleton_self _) rfl
  obtain ⟨hevent, -⟩ := hfound .confined (List.mem_singleton_self _) eventId (by decide +kernel)
  have hnone : eventHost.getEvent emptyDisk eventService firstId eventId = none := rfl
  cases hnone.symm.trans hevent

end Answers

end ShuttleFlow
