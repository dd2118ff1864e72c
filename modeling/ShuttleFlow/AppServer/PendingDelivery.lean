import Mathlib.Data.List.Nodup
import ShuttleFlow.AppServer.PendingMessages

/-! # Whether each pending message is sent

The pass sends what it reads, and deletes what is there when it has sent that. Nobody looks at
the table afterwards.
-/

namespace ShuttleFlow

open TransitionSystem

theorem UUID.length_str (id : UUID) : id.str.length = 36 := by
  simp [UUID.str, id.length_hex]

theorem ConversationStart.taskIdStr_ne (start : ConversationStart) :
    start.conversationIdStr ≠ start.taskIdStr := by
  intro heq
  have hlength := congrArg List.length heq
  rw [conversationIdStr, UUID.length_str, taskIdStr, List.length_append,
    start.taskId.length_hex] at hlength
  exact absurd hlength (by decide)

namespace PendingTable

variable {Content : Type}

/-- What holds of the messages for a conversation. -/
structure Delivers (start : ConversationStart) (table : PendingTable Content) : Prop where
  once : table.attempts.Nodup
  inOrder : table.attempts.Sublist table.accepted
  attempted : ∀ id ∈ table.deleted, id ∈ table.attempts
  /-- When nothing goes on, all were sent and none is left. -/
  complete : table.pass matches .done → (∀ number, table.requests number = none) →
    table.attempts = table.accepted ∧ ∀ message ∈ table.rows, isFor start message = false
  limit : ∀ id, table.countPendingMessages id ≤ maxPendingMessages

/-- The pass has not yet read the messages under the id of this one. -/
def inTime (start : ConversationStart) (message : PendingMessage Content) :
    PendingPass Content → Bool
  | .waiting => true
  | .rekeying _ | .rekeyed => message.conversationId ≠ start.taskIdStr
  | .sending _ | .deleting _ | .done => !isFor start message

/-- A message is stored in time, while there is room, and after those that were made before. -/
def allowedMessage (start : ConversationStart) (table : PendingTable Content)
    (message : PendingMessage Content) : Bool :=
  inTime start message table.pass &&
    decide (table.countPendingMessages message.conversationId < maxPendingMessages) &&
    (!isFor start message ||
      (table.rows.filter (isFor start)).all fun other =>
        decide (other.createdAt < message.createdAt))

def allowed (start : ConversationStart) (table : PendingTable Content) :
    PendingLabel Content → Bool
  | .commit number =>
      match table.requests number with
      | some (.created message) => table.allowedMessage start message
      | _ => true
  | .rekey =>
      table.countPendingMessages start.taskIdStr +
        table.countPendingMessages start.conversationIdStr ≤ maxPendingMessages
  | _ => true

/-! ## The invariant -/

def live (start : ConversationStart) (table : PendingTable Content) :
    List (PendingMessage Content) :=
  table.rows.filter (isFor start)

/-- Nothing is deleted, and the messages are there as they were accepted. -/
def Intact (start : ConversationStart) (table : PendingTable Content) : Prop :=
  table.deleted = [] ∧ (table.live start).map PendingMessage.id = table.accepted

def Rekeyed (start : ConversationStart) (table : PendingTable Content) : Prop :=
  ∀ message ∈ table.rows, message.conversationId ≠ start.taskIdStr

def Progress (start : ConversationStart) (table : PendingTable Content) :
    PendingPass Content → Prop
  | .waiting => table.Intact start ∧ table.attempts = []
  | .rekeying selected =>
      table.Intact start ∧ table.attempts = [] ∧ selected = table.selectIds start.taskIdStr
  | .rekeyed => table.Intact start ∧ table.attempts = [] ∧ table.Rekeyed start
  | .sending rest =>
      table.Intact start ∧ table.attempts ++ rest.map PendingMessage.id = table.accepted ∧
        table.Rekeyed start
  | .deleting selected =>
      table.Intact start ∧ table.attempts = table.accepted ∧ selected = table.accepted
  | .done =>
      table.attempts = table.accepted ∧ (∀ id ∈ table.deleted, id ∈ table.accepted) ∧
        table.live start = []

structure Orderly (start : ConversationStart) (table : PendingTable Content) : Prop where
  progress : table.Progress start table.pass
  limit : ∀ id, table.countPendingMessages id ≤ maxPendingMessages
  sorted : (table.live start).Pairwise fun first second => first.createdAt < second.createdAt
  unique : (table.rows.map PendingMessage.id).Nodup
  accepted : table.accepted.Nodup
  fresh : ∀ number, (table.requests number).isSome → number < table.started
  notStored : ∀ number, table.started ≤ number ∨ (table.requests number).isSome →
    number ∉ table.rows.map PendingMessage.id ∧ number ∉ table.accepted
  created : ∀ number message, table.requests number = some (.created message) →
    message.id = number

variable {start : ConversationStart} {table next : PendingTable Content}

theorem Progress.attempted (hprogress : table.Progress start table.pass) :
    table.attempts <+: table.accepted ∧ ∀ id ∈ table.deleted, id ∈ table.attempts := by
  have hintact : table.Intact start → ∀ id ∈ table.deleted, id ∈ table.attempts := by
    intro hintact id hid
    rw [hintact.1] at hid
    cases hid
  cases hpass : table.pass with
  | waiting =>
      rw [hpass] at hprogress
      exact ⟨hprogress.2 ▸ List.nil_prefix, hintact hprogress.1⟩
  | rekeying selected | rekeyed =>
      rw [hpass] at hprogress
      exact ⟨hprogress.2.1 ▸ List.nil_prefix, hintact hprogress.1⟩
  | sending rest =>
      rw [hpass] at hprogress
      exact ⟨⟨rest.map PendingMessage.id, hprogress.2.1⟩, hintact hprogress.1⟩
  | deleting selected =>
      rw [hpass] at hprogress
      exact ⟨hprogress.2.1 ▸ List.prefix_refl _, hintact hprogress.1⟩
  | done =>
      rw [hpass] at hprogress
      refine ⟨hprogress.1 ▸ List.prefix_refl _, ?_⟩
      intro id hid
      rw [hprogress.1]
      exact hprogress.2.1 id hid

theorem Orderly.delivers (horderly : table.Orderly start) : table.Delivers start := by
  obtain ⟨hbegins, hdeleted⟩ := horderly.progress.attempted
  refine ⟨horderly.accepted.sublist hbegins.sublist, hbegins.sublist, hdeleted, ?_, horderly.limit⟩
  intro hdone _
  have hprogress := horderly.progress
  cases hpass : table.pass with
  | done =>
      rw [hpass] at hprogress
      refine ⟨hprogress.1, ?_⟩
      intro message hmessage
      exact Bool.eq_false_iff.mpr (List.filter_eq_nil_iff.mp hprogress.2.2 message hmessage)
  | waiting | rekeying | rekeyed | sending | deleting =>
      rw [hpass] at hdone
      cases hdone

/-! ## Requests -/

theorem requests_setRequest (number other : Nat) (request : Option (QueueRequest Content)) :
    (table.setRequest number request).requests other =
      if other = number then request else table.requests other :=
  Function.update_apply table.requests number request other

/-- A request goes on, ends, or is the next one to begin. -/
theorem Orderly.setRequest (horderly : table.Orderly start) {number started clock : Nat}
    {request : Option (QueueRequest Content)} (hstarted : table.started ≤ started)
    (hsome : request.isSome →
      (table.requests number).isSome ∨ number = table.started ∧ number < started)
    (hcreated : ∀ message, request = some (.created message) → message.id = number) :
    Orderly start { table.setRequest number request with started, clock } := by
  have hlive : ∀ other, ((table.setRequest number request).requests other).isSome →
      (table.requests other).isSome ∨ other = table.started ∧ other < started := by
    intro other hother
    rw [requests_setRequest] at hother
    split at hother
    next heq =>
      subst heq
      exact hsome hother
    next => exact .inl hother
  constructor
  · exact horderly.progress
  · exact horderly.limit
  · exact horderly.sorted
  · exact horderly.unique
  · exact horderly.accepted
  · intro other hother
    obtain hold | ⟨-, hlt⟩ := hlive other hother
    · exact (horderly.fresh other hold).trans_le hstarted
    · exact hlt
  · intro other hother
    apply horderly.notStored
    obtain hle | hother := hother
    · exact .inl (hstarted.trans hle)
    · obtain hold | ⟨heq, -⟩ := hlive other hother
      · exact .inr hold
      · exact .inl heq.ge
  · intro other message hother
    change (table.setRequest number request).requests other = _ at hother
    rw [requests_setRequest] at hother
    split at hother
    next heq =>
      subst heq
      exact hcreated message hother
    next => exact horderly.created other message hother

theorem Orderly.beginRequest (horderly : table.Orderly start) (conversationId : List Char)
    (role : String) (content : Content) :
    (table.beginRequest conversationId role content).Orderly start := by
  apply horderly.setRequest (Nat.le_succ _)
  · intro _
    exact .inr ⟨rfl, Nat.lt_succ_self _⟩
  · intro message heq
    cases heq

theorem Orderly.create (horderly : table.Orderly start) {number now : Nat}
    (hcreate : table.create number now = some next) : next.Orderly start := by
  unfold PendingTable.create at hcreate
  split at hcreate
  next conversationId role content count hrequest =>
    split at hcreate
    · cases hcreate
    · split at hcreate
      · cases hcreate
        apply horderly.setRequest le_rfl
        · intro hnone
          cases hnone
        · intro message hnone
          cases hnone
      · cases hcreate
        apply horderly.setRequest le_rfl
        · intro _
          exact .inl (hrequest ▸ rfl)
        · intro message heq
          cases heq
          rfl
  next => cases hcreate


/-! ## Storing -/

theorem countPendingMessages_insertMessage (message : PendingMessage Content) (id : List Char) :
    (table.insertMessage start message).countPendingMessages id =
      table.countPendingMessages id + if message.conversationId = id then 1 else 0 := by
  unfold countPendingMessages insertMessage
  rw [List.countP_append, List.countP_singleton]
  simp only [decide_eq_true_eq]

theorem live_insertMessage (message : PendingMessage Content) :
    (table.insertMessage start message).live start =
      table.live start ++ if isFor start message then [message] else [] := by
  unfold live insertMessage
  rw [List.filter_append]
  cases hfor : isFor start message <;> simp [hfor]

theorem Intact.insertMessage (hintact : table.Intact start) (message : PendingMessage Content) :
    (table.insertMessage start message).Intact start := by
  refine ⟨hintact.1, ?_⟩
  rw [live_insertMessage, List.map_append, hintact.2]
  cases hfor : isFor start message <;> simp [PendingTable.insertMessage, hfor]

theorem selectIds_insertMessage {message : PendingMessage Content} {id : List Char}
    (hne : message.conversationId ≠ id) :
    (table.insertMessage start message).selectIds id = table.selectIds id := by
  unfold selectIds insertMessage
  rw [List.filter_append, List.map_append]
  simp [hne]

theorem Rekeyed.insertMessage (hrekeyed : table.Rekeyed start) {message : PendingMessage Content}
    (hne : message.conversationId ≠ start.taskIdStr) :
    (table.insertMessage start message).Rekeyed start := by
  intro other hother
  obtain hold | hnew := List.mem_append.mp hother
  · exact hrekeyed other hold
  · cases List.mem_singleton.mp hnew
    exact hne

theorem ne_taskIdStr_of_isFor {message : PendingMessage Content}
    (hfor : isFor start message = false) : message.conversationId ≠ start.taskIdStr := by
  intro heq
  simp [isFor, heq] at hfor

theorem accepted_insertMessage {message : PendingMessage Content}
    (hfor : isFor start message = false) :
    (table.insertMessage start message).accepted = table.accepted := by
  simp [insertMessage, hfor]

/-- A message that is late for the pass is not for the conversation. -/
theorem Progress.insertMessage {pass : PendingPass Content} (hprogress : table.Progress start pass)
    {message : PendingMessage Content} (hinTime : inTime start message pass) :
    (table.insertMessage start message).Progress start pass := by
  cases pass with
  | waiting => exact ⟨hprogress.1.insertMessage message, hprogress.2⟩
  | rekeying selected =>
      obtain ⟨hintact, hattempts, hselected⟩ := hprogress
      refine ⟨hintact.insertMessage message, hattempts, hselected.trans ?_⟩
      exact (selectIds_insertMessage (of_decide_eq_true hinTime)).symm
  | rekeyed =>
      obtain ⟨hintact, hattempts, hrekeyed⟩ := hprogress
      refine ⟨hintact.insertMessage message, hattempts, ?_⟩
      exact hrekeyed.insertMessage (of_decide_eq_true hinTime)
  | sending rest =>
      obtain ⟨hintact, hattempts, hrekeyed⟩ := hprogress
      have hfor := (Bool.not_eq_true' _).mp hinTime
      refine ⟨hintact.insertMessage message, ?_, ?_⟩
      · rw [accepted_insertMessage hfor]
        exact hattempts
      · exact hrekeyed.insertMessage (ne_taskIdStr_of_isFor hfor)
  | deleting selected =>
      obtain ⟨hintact, hattempts, hselected⟩ := hprogress
      refine ⟨hintact.insertMessage message, ?_⟩
      rw [accepted_insertMessage ((Bool.not_eq_true' _).mp hinTime)]
      exact ⟨hattempts, hselected⟩
  | done =>
      obtain ⟨hattempts, hdeleted, hlive⟩ := hprogress
      have hfor := (Bool.not_eq_true' _).mp hinTime
      unfold Progress
      rw [accepted_insertMessage hfor, live_insertMessage, hfor]
      refine ⟨hattempts, hdeleted, ?_⟩
      rw [hlive]
      rfl

theorem sorted_insertMessage {message : PendingMessage Content}
    (hsorted : (table.live start).Pairwise fun first second => first.createdAt < second.createdAt)
    (hlater : isFor start message → ∀ other ∈ table.live start,
      other.createdAt < message.createdAt) :
    ((table.insertMessage start message).live start).Pairwise fun first second =>
      first.createdAt < second.createdAt := by
  rw [live_insertMessage]
  cases hfor : isFor start message with
  | false =>
      rw [if_neg Bool.false_ne_true, List.append_nil]
      exact hsorted
  | true =>
      rw [if_pos rfl, List.pairwise_append]
      refine ⟨hsorted, List.pairwise_singleton _ _, ?_⟩
      intro other hother last hlast
      cases List.mem_singleton.mp hlast
      exact hlater hfor other hother

theorem limit_insertMessage (start : ConversationStart) {message : PendingMessage Content}
    (hlimit : ∀ id, table.countPendingMessages id ≤ maxPendingMessages)
    (hroom : table.countPendingMessages message.conversationId < maxPendingMessages)
    (id : List Char) :
    (table.insertMessage start message).countPendingMessages id ≤ maxPendingMessages := by
  rw [countPendingMessages_insertMessage]
  split
  next heq =>
    subst heq
    exact hroom
  next => exact hlimit id

theorem nodup_append_singleton {ids : List Nat} {id : Nat} (hids : ids.Nodup) (hid : id ∉ ids) :
    (ids ++ [id]).Nodup := by
  rw [List.nodup_append]
  refine ⟨hids, List.nodup_singleton _, ?_⟩
  intro other hother last hlast heq
  cases List.mem_singleton.mp hlast
  exact hid (heq ▸ hother)

theorem accepted_insertMessage_cases (start : ConversationStart) (table : PendingTable Content)
    (message : PendingMessage Content) :
    (table.insertMessage start message).accepted = table.accepted ∨
      (table.insertMessage start message).accepted = table.accepted ++ [message.id] := by
  unfold insertMessage
  cases isFor start message
  · exact .inl (List.append_nil _)
  · exact .inr rfl

theorem Orderly.commit (horderly : table.Orderly start) {number : Nat}
    (hallowed : table.allowed start (.commit number))
    (hcommit : table.commit start number = some next) : next.Orderly start := by
  unfold PendingTable.commit at hcommit
  dsimp only [allowed] at hallowed
  split at hcommit
  next message hrequest =>
    cases hcommit
    rw [hrequest] at hallowed
    obtain ⟨hallowed, hlater⟩ := Bool.and_eq_true_iff.mp hallowed
    obtain ⟨hinTime, hroom⟩ := Bool.and_eq_true_iff.mp hallowed
    have hsome : (table.requests number).isSome := hrequest ▸ rfl
    obtain ⟨hrows, haccepted⟩ := horderly.notStored number (.inr hsome)
    cases horderly.created number message hrequest
    have hids : ((table.insertMessage start message).rows.map PendingMessage.id) =
        table.rows.map PendingMessage.id ++ [message.id] := List.map_append
    have hold : ∀ other, ((table.setRequest message.id none).requests other).isSome →
        other ≠ message.id ∧ (table.requests other).isSome := by
      intro other hother
      rw [requests_setRequest] at hother
      split at hother
      · cases hother
      next hne => exact ⟨hne, hother⟩
    constructor
    · exact horderly.progress.insertMessage hinTime
    · exact limit_insertMessage start horderly.limit (of_decide_eq_true hroom)
    · apply sorted_insertMessage horderly.sorted
      intro hfor other hother
      rw [hfor, Bool.not_true, Bool.false_or] at hlater
      exact of_decide_eq_true (List.all_eq_true.mp hlater other hother)
    · change ((table.insertMessage start message).rows.map PendingMessage.id).Nodup
      rw [hids]
      exact nodup_append_singleton horderly.unique hrows
    · change (table.insertMessage start message).accepted.Nodup
      obtain heq | heq := accepted_insertMessage_cases start table message
      · exact heq ▸ horderly.accepted
      · exact heq ▸ nodup_append_singleton horderly.accepted haccepted
    · intro other hother
      exact horderly.fresh other (hold other hother).2
    · intro other hother
      have hne : other ≠ message.id := by
        obtain hle | hother := hother
        · exact ((horderly.fresh message.id hsome).trans_le hle).ne'
        · exact (hold other hother).1
      have hbefore :=
        horderly.notStored other (hother.imp_right fun hother => (hold other hother).2)
      constructor
      · change other ∉ (table.insertMessage start message).rows.map PendingMessage.id
        rw [hids, List.mem_append, List.mem_singleton]
        exact fun hmem => hmem.elim hbefore.1 hne
      · change other ∉ (table.insertMessage start message).accepted
        obtain heq | heq := accepted_insertMessage_cases start table message
        · exact heq ▸ hbefore.2
        · rw [heq, List.mem_append, List.mem_singleton]
          exact fun hmem => hmem.elim hbefore.2 hne
    · intro other otherMessage hother
      change (table.setRequest message.id none).requests other = _ at hother
      rw [requests_setRequest] at hother
      split at hother
      · cases hother
      · exact horderly.created other otherMessage hother
  next => cases hcommit

/-! ## The pass -/

theorem Orderly.selectTask (horderly : table.Orderly start)
    (hselect : table.selectTask start = some next) : next.Orderly start := by
  have hprogress := horderly.progress
  unfold PendingTable.selectTask at hselect
  split at hselect
  next hpass =>
    rw [hpass] at hprogress
    split at hselect
    next hnone =>
      cases hselect
      refine { horderly with progress := ⟨hprogress.1, hprogress.2, ?_⟩ }
      intro message hmessage heq
      have hselected : message.id ∈ table.selectIds start.taskIdStr :=
        List.mem_map_of_mem (List.mem_filter.mpr ⟨hmessage, decide_eq_true heq⟩)
      rw [hnone] at hselected
      cases hselected
    next =>
      cases hselect
      exact { horderly with progress := ⟨hprogress.1, hprogress.2, rfl⟩ }
  next => cases hselect

theorem Orderly.post (horderly : table.Orderly start) (success : Bool)
    (hpost : table.post success = some next) : next.Orderly start := by
  have hprogress := horderly.progress
  unfold PendingTable.post at hpost
  split at hpost
  next message rest hpass =>
    rw [hpass] at hprogress
    cases hpost
    obtain ⟨hintact, hattempts, hrekeyed⟩ := hprogress
    refine { horderly with progress := ⟨hintact, ?_, hrekeyed⟩ }
    rw [← hattempts, List.map_cons, List.append_assoc]
    rfl
  next => cases hpost

/-- When the messages are re-keyed, those for the conversation are those under its id. -/
theorem Rekeyed.live_eq (hrekeyed : table.Rekeyed start) :
    table.live start = table.rows.filter fun message =>
      message.conversationId = start.conversationIdStr := by
  apply List.filter_congr
  intro message hmessage
  simp [isFor, hrekeyed message hmessage]

theorem Orderly.selectConversation (horderly : table.Orderly start)
    (hselect : table.selectConversation start = some next) : next.Orderly start := by
  have hprogress := horderly.progress
  unfold PendingTable.selectConversation at hselect
  split at hselect
  next hpass =>
    rw [hpass] at hprogress
    obtain ⟨hintact, hattempts, hrekeyed⟩ := hprogress
    rw [List.map_nil, List.append_nil] at hattempts
    have hselected : table.selectIds start.conversationIdStr = table.accepted := by
      rw [← hintact.2, hrekeyed.live_eq]
      rfl
    split at hselect
    next hnone =>
      cases hselect
      refine { horderly with progress := ⟨hattempts, ?_, ?_⟩ }
      · intro id hid
        rw [hintact.1] at hid
        cases hid
      · rw [hselected, ← hintact.2, List.map_eq_nil_iff] at hnone
        exact hnone
    next =>
      cases hselect
      exact { horderly with progress := ⟨hintact, hattempts, hselected⟩ }
  next => cases hselect

/-- No two of the messages were made at one time, so that they can be read in one order only. -/
theorem eq_live_of_perm {messages : List (PendingMessage Content)}
    (hsorted : (table.live start).Pairwise fun first second => first.createdAt < second.createdAt)
    (hperm : messages.Perm (table.live start))
    (hmessages : messages.Pairwise fun first second => first.createdAt ≤ second.createdAt) :
    messages = table.live start := by
  have htimes : ((table.live start).map PendingMessage.createdAt).Nodup := by
    rw [List.nodup_iff_pairwise_ne, List.pairwise_map]
    exact hsorted.imp fun hlt => hlt.ne
  apply List.Perm.eq_of_pairwise ?_ hmessages (hsorted.imp fun hlt => hlt.le) hperm
  intro first second hfirst hsecond hle hge
  apply List.inj_on_of_nodup_map htimes (hperm.subset hfirst) hsecond
  exact hle.antisymm hge

theorem Orderly.getPending [DecidableEq Content] (horderly : table.Orderly start)
    {messages : List (PendingMessage Content)}
    (hget : table.getPending start messages = some next) : next.Orderly start := by
  have hprogress := horderly.progress
  unfold PendingTable.getPending at hget
  split at hget
  next hpass =>
    rw [hpass] at hprogress
    obtain ⟨hintact, hattempts, hrekeyed⟩ := hprogress
    dsimp only at hget
    rw [← hrekeyed.live_eq] at hget
    split at hget
    next hmessages =>
      cases hget
      have hlive := eq_live_of_perm horderly.sorted hmessages.1 hmessages.2
      split
      next hnil =>
        have hlive := hlive.symm.trans hnil
        refine { horderly with progress := ⟨?_, ?_, hlive⟩ }
        · rw [hattempts, ← hintact.2, hlive]
          rfl
        · intro id hid
          rw [hintact.1] at hid
          cases hid
      next =>
        refine { horderly with progress := ⟨hintact, ?_, hrekeyed⟩ }
        rw [hattempts, List.nil_append, hlive]
        exact hintact.2
    next => cases hget
  next => cases hget

theorem Orderly.delete (horderly : table.Orderly start)
    (hdelete : table.delete = some next) : next.Orderly start := by
  have hprogress := horderly.progress
  unfold PendingTable.delete at hdelete
  split at hdelete
  next selected hpass =>
    rw [hpass] at hprogress
    cases hdelete
    obtain ⟨hintact, hattempts, hselected⟩ := hprogress
    have hrows := List.filter_sublist (p := fun message : PendingMessage Content =>
      decide (message.id ∉ selected)) (l := table.rows)
    have hlive := hrows.filter (isFor start)
    constructor
    · refine ⟨hattempts, ?_, ?_⟩
      · intro id hid
        rw [hintact.1, List.nil_append] at hid
        exact hselected ▸ hid
      · apply List.filter_eq_nil_iff.mpr
        intro message hmessage hfor
        obtain ⟨hmem, hkept⟩ := List.mem_filter.mp hmessage
        apply of_decide_eq_true hkept
        rw [hselected, ← hintact.2]
        exact List.mem_map_of_mem (List.mem_filter.mpr ⟨hmem, hfor⟩)
    · intro id
      exact (hrows.countP_le).trans (horderly.limit id)
    · exact horderly.sorted.sublist hlive
    · exact horderly.unique.sublist (hrows.map _)
    · exact horderly.accepted
    · exact horderly.fresh
    · intro number hnumber
      obtain ⟨hnot, haccepted⟩ := horderly.notStored number hnumber
      exact ⟨fun hmem => hnot ((hrows.map _).subset hmem), haccepted⟩
    · exact horderly.created
  next => cases hdelete

/-! ## Re-keying -/

def rekeyMessage (start : ConversationStart) (message : PendingMessage Content) :
    PendingMessage Content :=
  if message.conversationId = start.taskIdStr then
    { message with conversationId := start.conversationIdStr }
  else message

theorem id_rekeyMessage (message : PendingMessage Content) :
    (rekeyMessage start message).id = message.id := by
  unfold rekeyMessage
  split <;> rfl

theorem createdAt_rekeyMessage (message : PendingMessage Content) :
    (rekeyMessage start message).createdAt = message.createdAt := by
  unfold rekeyMessage
  split <;> rfl

theorem isFor_rekeyMessage (message : PendingMessage Content) :
    isFor start (rekeyMessage start message) = isFor start message := by
  unfold rekeyMessage
  split
  next heq => simp [isFor, heq]
  next => rfl

theorem rekeyMessage_ne (message : PendingMessage Content) :
    (rekeyMessage start message).conversationId ≠ start.taskIdStr := by
  unfold rekeyMessage
  split
  next => exact start.taskIdStr_ne
  next hne => exact hne

theorem map_rekey (hunique : (table.rows.map PendingMessage.id).Nodup) :
    (table.rows.map fun message =>
      if message.id ∈ table.selectIds start.taskIdStr then
        { message with conversationId := start.conversationIdStr }
      else message) = table.rows.map (rekeyMessage start) := by
  apply List.map_congr_left
  intro message hmessage
  have hiff : message.id ∈ table.selectIds start.taskIdStr ↔
      message.conversationId = start.taskIdStr := by
    constructor
    · intro hmem
      obtain ⟨other, hother, heq⟩ := List.mem_map.mp hmem
      obtain ⟨hother, htask⟩ := List.mem_filter.mp hother
      cases List.inj_on_of_nodup_map hunique hother hmessage heq
      exact of_decide_eq_true htask
    · intro htask
      exact List.mem_map_of_mem (List.mem_filter.mpr ⟨hmessage, decide_eq_true htask⟩)
  simp only [hiff]
  rfl

theorem filter_rekey (start : ConversationStart) (rows : List (PendingMessage Content)) :
    (rows.map (rekeyMessage start)).filter (isFor start) =
      (rows.filter (isFor start)).map (rekeyMessage start) := by
  rw [List.filter_map]
  congr 1
  apply List.filter_congr
  intro message _
  exact isFor_rekeyMessage message

theorem count_rekey_conversation (rows : List (PendingMessage Content)) :
    (rows.map (rekeyMessage start)).countP
        (fun message => message.conversationId = start.conversationIdStr) =
      rows.countP (fun message => message.conversationId = start.taskIdStr) +
        rows.countP (fun message => message.conversationId = start.conversationIdStr) := by
  induction rows with
  | nil => rfl
  | cons message rows ih =>
      have hne := start.taskIdStr_ne
      rw [List.map_cons, List.countP_cons, List.countP_cons, List.countP_cons, ih]
      by_cases htask : message.conversationId = start.taskIdStr
      · simp [rekeyMessage, htask, hne.symm]
        omega
      · simp [rekeyMessage, htask]
        omega

theorem count_rekey_le (rows : List (PendingMessage Content)) {id : List Char}
    (hne : id ≠ start.conversationIdStr) :
    (rows.map (rekeyMessage start)).countP (fun message => message.conversationId = id) ≤
      rows.countP fun message => message.conversationId = id := by
  rw [List.countP_map]
  apply List.countP_mono_left
  intro message _ hid
  change decide ((rekeyMessage start message).conversationId = id) = true at hid
  unfold rekeyMessage at hid
  split at hid
  · exact absurd (of_decide_eq_true hid).symm hne
  · exact hid

theorem Orderly.rekey (horderly : table.Orderly start)
    (hallowed : table.allowed start .rekey)
    (hrekey : table.rekey start = some next) : next.Orderly start := by
  have hprogress := horderly.progress
  unfold PendingTable.rekey at hrekey
  split at hrekey
  next selected hpass =>
    rw [hpass] at hprogress
    obtain ⟨hintact, hattempts, rfl⟩ := hprogress
    rw [map_rekey horderly.unique] at hrekey
    cases hrekey
    have hids : ∀ rows : List (PendingMessage Content),
        (rows.map (rekeyMessage start)).map PendingMessage.id = rows.map PendingMessage.id := by
      intro rows
      rw [List.map_map]
      exact List.map_congr_left fun message _ => id_rekeyMessage message
    have hlive := filter_rekey start table.rows
    constructor
    · refine ⟨⟨hintact.1, ?_⟩, hattempts, ?_⟩
      · unfold live
        rw [hlive, hids]
        exact hintact.2
      · intro message hmessage
        obtain ⟨before, -, rfl⟩ := List.mem_map.mp hmessage
        exact rekeyMessage_ne before
    · intro id
      by_cases heq : id = start.conversationIdStr
      · subst heq
        exact (count_rekey_conversation table.rows).trans_le (of_decide_eq_true hallowed)
      · exact (count_rekey_le table.rows heq).trans (horderly.limit id)
    · unfold live
      rw [hlive, List.pairwise_map]
      simp only [createdAt_rekeyMessage]
      exact horderly.sorted
    · change ((table.rows.map (rekeyMessage start)).map PendingMessage.id).Nodup
      rw [hids]
      exact horderly.unique
    · exact horderly.accepted
    · exact horderly.fresh
    · intro number hnumber
      change number ∉ (table.rows.map (rekeyMessage start)).map PendingMessage.id ∧ _
      rw [hids]
      exact horderly.notStored number hnumber
    · exact horderly.created
  next => cases hrekey

/-! ## Every run -/

theorem Orderly.step [DecidableEq Content] (horderly : table.Orderly start)
    {label : PendingLabel Content} (hallowed : table.allowed start label)
    (hstep : table.step start label = some next) : next.Orderly start := by
  cases label with
  | count conversationId role content =>
      cases hstep
      exact horderly.beginRequest conversationId role content
  | create number now => exact horderly.create hstep
  | commit number => exact horderly.commit hallowed hstep
  | selectTask => exact horderly.selectTask hstep
  | rekey => exact horderly.rekey hallowed hstep
  | getPending messages => exact horderly.getPending hstep
  | post success => exact horderly.post success hstep
  | selectConversation => exact horderly.selectConversation hstep
  | delete => exact horderly.delete hstep

theorem orderly_empty : ({} : PendingTable Content).Orderly start := by
  constructor
  · exact ⟨⟨rfl, rfl⟩, rfl⟩
  · intro id
    exact Nat.zero_le _
  · exact List.Pairwise.nil
  · exact List.nodup_nil
  · exact List.nodup_nil
  · intro number hnone
    cases hnone
  · intro number _
    exact ⟨List.not_mem_nil, List.not_mem_nil⟩
  · intro number message hnone
    cases hnone

/-- While each message comes in time, all are sent once and in order. -/
theorem delivers_in_time [DecidableEq Content] {trace : List Empty}
    (hruns : ((system start).restrict (allowed start)).Runs {} trace table) :
    table.Delivers start := by
  have horderly : table.Orderly start := by
    refine hruns.invariant_restrict (fun _ table => table.Orderly start) orderly_empty ?_
    intro _ before label after seen horderly hallowed hnext
    obtain ⟨next, hstep, heq⟩ := Option.map_eq_some_iff.mp hnext
    cases heq
    exact horderly.step hallowed hstep
  exact horderly.delivers

end PendingTable

section Answers

namespace Sample

def pendingStart : ConversationStart :=
  ⟨⟨List.replicate 32 'a', rfl, rfl⟩, ⟨List.replicate 32 'b', rfl, rfl⟩⟩

def pendingMessage (id : Nat) : PendingMessage Unit where
  id
  conversationId := pendingStart.conversationIdStr
  content := ()
  createdAt := id

/-- A message is queued under an id. -/
def queueMessage (number : Nat) (conversationId : List Char) : List (PendingLabel Unit) :=
  [.count conversationId "user" (), .create number number, .commit number]

def deliverFirst : List (PendingLabel Unit) :=
  queueMessage 0 pendingStart.taskIdStr ++
    [.selectTask, .rekey, .getPending [pendingMessage 0], .post true]

end Sample

open Sample

/-- Messages are queued under both ids and then sent, the second of them without success. -/
theorem PendingTable.delivers_in_time_both_ids :
    ∃ table : PendingTable Unit, table.attempts = [0, 1] ∧ table.Delivers pendingStart := by
  have hrun :
      ((((PendingTable.system pendingStart).restrict (PendingTable.allowed pendingStart)).run {}
        (queueMessage 0 pendingStart.taskIdStr ++
        queueMessage 1 pendingStart.conversationIdStr ++
        [.selectTask, .rekey, .getPending [pendingMessage 0, pendingMessage 1], .post true,
          .post false, .selectConversation, .delete])).map fun result => result.1.attempts) =
      some [0, 1] := by
    decide +kernel
  obtain ⟨⟨table, trace⟩, hlast, hattempts⟩ := Option.map_eq_some_iff.mp hrun
  exact ⟨table, hattempts, PendingTable.delivers_in_time (.of_run _ hlast)⟩

/-- A message that is queued while the first one is sent is deleted with it. -/
theorem PendingTable.not_delivers_when_queued_in_the_pass :
    ¬∀ (trace : List Empty) (table : PendingTable Unit),
      (PendingTable.system pendingStart).Runs {} trace table → table.Delivers pendingStart := by
  intro hall
  have hrun : (((PendingTable.system pendingStart).run {} (deliverFirst ++
      queueMessage 1 pendingStart.conversationIdStr ++ [.selectConversation, .delete])).map
        fun result => (result.1.attempts, result.1.deleted)) = some ([0], [0, 1]) := by
    decide +kernel
  obtain ⟨⟨table, trace⟩, hlast, heq⟩ := Option.map_eq_some_iff.mp hrun
  obtain ⟨hattempts, hdeleted⟩ := Prod.mk.inj heq
  have hattempted := (hall trace table (.of_run _ hlast)).attempted 1
  rw [hdeleted, hattempts] at hattempted
  exact absurd (hattempted (by decide)) (by decide)

end Answers

end ShuttleFlow
