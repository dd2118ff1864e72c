import Mathlib.Data.List.Count
import Mathlib.Data.Nat.Basic
import Mathlib.Logic.Function.Basic
import ShuttleFlow.Library.Transitions

/-! # Live services

A service is open before it is registered, and is taken from the registry before it is closed.
In between, the request that does it waits, and others go on.
-/

namespace ShuttleFlow

open TransitionSystem

variable {Id : Type} [DecidableEq Id]

/-- Why a request has an open service that is not registered. -/
inductive Duty
  | starting
  /-- Startup has failed. -/
  | abandoning
  | deleting
  deriving DecidableEq, Repr

inductive RegistryTask (Id : Type)
  /-- The conversation is copied in another thread. -/
  | forking (id : Id)
  | holding (duty : Duty) (id : Id) (service : Nat)
  deriving DecidableEq

namespace RegistryTask

/-- The request has an open service of the conversation. -/
def holds (id : Id) : RegistryTask Id → Bool
  | forking _ => false
  | holding _ held _ => held = id

omit [DecidableEq Id] in
def handles (service : Nat) : RegistryTask Id → Bool
  | forking _ => false
  | holding _ _ held => held = service

end RegistryTask

/-- The registry, the services by number, and the requests that wait. A request without an
id is one whose id nobody else knows. -/
structure ConversationService (Id : Type) where
  eventServices : Id → Option Nat := fun _ => none
  /-- The conversation that a service has open. -/
  opened : Nat → Option Id := fun _ => none
  created : Nat := 0
  tasks : List (RegistryTask Id) := []

inductive RegistryStep (Id : Type)
  | startConversation (id : Id)
  | forkConversation (source fork : Id)
  | forked (fork : Id)
  | forkFails (fork : Id)
  /-- Subscriptions and the metadata are in place. -/
  | register (id : Id) (service : Nat)
  | startFails (id : Id) (service : Nat)
  | deleteConversation (id : Id)
  | closed (duty : Duty) (id : Id) (service : Nat)
  /-- An exception ends the closing before the service has given its conversation up. -/
  | closeFails (duty : Duty) (id : Id) (service : Nat)

inductive RegistryEvent (Id : Type)
  | returned (id : Id) (service : Nat)
  | opened (id : Id) (service : Nat)
  | refused (id : Id)
  | deleted (id : Id)
  deriving DecidableEq

namespace ConversationService

/-- A new service is started. Nobody else runs until it is open. -/
def startEventService (service : ConversationService Id) (id : Id) :
    ConversationService Id × List (RegistryEvent Id) :=
  ({ service with
      opened := Function.update service.opened service.created (some id)
      created := service.created + 1
      tasks := .holding .starting id service.created :: service.tasks },
    [.opened id service.created])

/-- A service that has started already, if it is open. -/
def findOpen (service : ConversationService Id) (id : Id) : Option Nat :=
  (service.eventServices id).filter fun number => service.opened number = some id

def step (service : ConversationService Id) :
    RegistryStep Id → Option (ConversationService Id × List (RegistryEvent Id))
  | .startConversation id =>
      match service.findOpen id with
      | some number => some (service, [.returned id number])
      | none => some (service.startEventService id)
  | .forkConversation source fork =>
      if (service.eventServices fork).isSome then some (service, [.refused fork])
      else if (service.eventServices source).isSome then
        some ({ service with tasks := .forking fork :: service.tasks }, [])
      else some (service, [])
  | .forked fork =>
      if .forking fork ∈ service.tasks then
        some ({ service with tasks := service.tasks.erase (.forking fork) }.startEventService fork)
      else none
  | .forkFails fork =>
      if .forking fork ∈ service.tasks then
        some ({ service with tasks := service.tasks.erase (.forking fork) }, [])
      else none
  | .register id number =>
      if .holding .starting id number ∈ service.tasks then
        some ({ service with
          eventServices := Function.update service.eventServices id (some number)
          tasks := service.tasks.erase (.holding .starting id number) }, [])
      else none
  | .startFails id number =>
      if .holding .starting id number ∈ service.tasks then
        some ({ service with
          tasks := .holding .abandoning id number ::
            service.tasks.erase (.holding .starting id number) }, [])
      else none
  | .deleteConversation id =>
      match service.eventServices id with
      | none => some (service, [])
      | some number =>
          some ({ service with
            eventServices := Function.update service.eventServices id none
            tasks := .holding .deleting id number :: service.tasks }, [])
  | .closed duty id number =>
      if duty ≠ .starting ∧ .holding duty id number ∈ service.tasks then
        some ({ service with
          opened := Function.update service.opened number none
          tasks := service.tasks.erase (.holding duty id number) },
          if duty = .deleting then [.deleted id] else [])
      else none
  | .closeFails duty id number =>
      if duty ≠ .starting ∧ .holding duty id number ∈ service.tasks then
        some ({ service with tasks := service.tasks.erase (.holding duty id number) }, [])
      else none

def system : TransitionSystem (ConversationService Id) (RegistryStep Id) (RegistryEvent Id) where
  step := step

/-- At most one service of a conversation is open: the one that is registered, or the one that
a single request is starting or closing. Who asks for it is given the one that is registered. -/
structure OneLive (service : ConversationService Id) : Prop where
  unique : ∀ id first second, service.opened first = some id → service.opened second = some id →
    first = second
  accounted : ∀ id number, service.opened number = some id →
    service.eventServices id = some number ∧
        service.tasks.countP (RegistryTask.handles number) = 0 ∨
      service.eventServices id ≠ some number ∧
        service.tasks.countP (RegistryTask.handles number) = 1
  found : ∀ id number, service.eventServices id = some number →
    service.findOpen id = some number

/-- No other request is between opening a service of the conversation and registering it, or
between taking one from the registry and closing it. -/
def undisturbed (service : ConversationService Id) (id : Id) : Bool :=
  service.tasks.countP (RegistryTask.holds id) = 0

/-- A service is opened undisturbed; after a copy, none has been registered meanwhile. -/
def apart (service : ConversationService Id) : RegistryStep Id → Bool
  | .startConversation id => (service.eventServices id).isSome || service.undisturbed id
  | .forked fork => (service.eventServices fork).isNone && service.undisturbed fork
  | .closeFails _ _ _ => false
  | _ => true

/-! ## What holds between two steps -/

structure Orderly (service : ConversationService Id) : Prop where
  registered : ∀ id number, service.eventServices id = some number →
    service.opened number = some id ∧ service.tasks.countP (RegistryTask.holds id) = 0
  alone : ∀ id, service.tasks.countP (RegistryTask.holds id) ≤ 1
  held : ∀ duty id number, .holding duty id number ∈ service.tasks →
    service.opened number = some id
  accounted : ∀ id number, service.opened number = some id →
    service.eventServices id = some number ∨ ∃ duty, .holding duty id number ∈ service.tasks
  fresh : ∀ number, service.created ≤ number → service.opened number = none

variable {service next : ConversationService Id} {id : Id} {number : Nat} {duty : Duty}

theorem holds_holding (duty : Duty) (id : Id) (number : Nat) :
    RegistryTask.holds id (.holding duty id number) = true :=
  decide_eq_true rfl

theorem countP_pos (htask : .holding duty id number ∈ service.tasks) :
    0 < service.tasks.countP (RegistryTask.holds id) :=
  List.countP_pos_iff.mpr ⟨_, htask, holds_holding duty id number⟩

/-- What a request holds is not registered. -/
theorem Orderly.eventServices_eq_none (horderly : Orderly service)
    (htask : .holding duty id number ∈ service.tasks) : service.eventServices id = none := by
  cases hfound : service.eventServices id with
  | none => rfl
  | some other =>
      have hnone := (horderly.registered id other hfound).2
      exact absurd (countP_pos htask) (hnone ▸ Nat.lt_irrefl 0)

/-- Nothing else of the conversation is held once a request is through with it. -/
theorem Orderly.countP_erase (horderly : Orderly service)
    (htask : .holding duty id number ∈ service.tasks) :
    (service.tasks.erase (.holding duty id number)).countP (RegistryTask.holds id) = 0 := by
  have halone := horderly.alone id
  have hpos := countP_pos htask
  rw [List.countP_erase, if_pos ⟨htask, holds_holding duty id number⟩]
  omega

theorem countP_erase_of_ne {other : Id} (hne : id ≠ other) :
    (service.tasks.erase (.holding duty id number)).countP (RegistryTask.holds other) =
      service.tasks.countP (RegistryTask.holds other) := by
  have hnot : RegistryTask.holds other (.holding duty id number) = false :=
    decide_eq_false hne
  rw [List.countP_erase, if_neg, Nat.sub_zero]
  rintro ⟨-, hholds⟩
  rw [hnot] at hholds
  cases hholds

/-- Whoever holds the conversation is the one request that does. -/
theorem Orderly.not_mem_erase (horderly : Orderly service)
    (htask : .holding duty id number ∈ service.tasks) {other : Duty} {held : Nat} :
    .holding other id held ∉ service.tasks.erase (.holding duty id number) := by
  intro hmem
  have hnone := List.countP_eq_zero.mp (horderly.countP_erase htask) _ hmem
  exact hnone (holds_holding other id held)

/-! ## The steps -/

/-- The same services are held, if for other reasons. -/
theorem Orderly.ofTasks (horderly : Orderly service) {tasks : List (RegistryTask Id)}
    (hcount : ∀ id, tasks.countP (RegistryTask.holds id) =
      service.tasks.countP (RegistryTask.holds id))
    (hmem : ∀ id number, (∃ duty, .holding duty id number ∈ tasks) ↔
      ∃ duty, .holding duty id number ∈ service.tasks) : Orderly { service with tasks } := by
  constructor
  · intro id number hfound
    rw [hcount]
    exact horderly.registered id number hfound
  · intro id
    rw [hcount]
    exact horderly.alone id
  · intro duty id number htask
    obtain ⟨before, hbefore⟩ := (hmem id number).mp ⟨duty, htask⟩
    exact horderly.held before id number hbefore
  · intro id number hopened
    exact (horderly.accounted id number hopened).imp_right (hmem id number).mpr
  · exact horderly.fresh

/-- Copies neither open nor hold anything. -/
theorem Orderly.forking (horderly : Orderly service) (fork : Id) :
    Orderly { service with tasks := .forking fork :: service.tasks } := by
  apply horderly.ofTasks
  · intro id
    exact List.countP_cons_of_neg (by simp [RegistryTask.holds])
  · simp

theorem Orderly.eraseForking (horderly : Orderly service) (fork : Id) :
    Orderly { service with tasks := service.tasks.erase (.forking fork) } := by
  apply horderly.ofTasks
  · intro id
    rw [List.countP_erase, if_neg (by simp [RegistryTask.holds]), Nat.sub_zero]
  · intro id number
    exact exists_congr fun duty => List.mem_erase_of_ne (by simp)

theorem Orderly.ne_created (horderly : Orderly service)
    (hopened : service.opened number = some id) : number ≠ service.created := by
  rintro rfl
  rw [horderly.fresh _ le_rfl] at hopened
  cases hopened

theorem Orderly.startEventService (horderly : Orderly service)
    (hnone : service.eventServices id = none) (hundisturbed : service.undisturbed id = true) :
    Orderly (service.startEventService id).1 := by
  have hzero : service.tasks.countP (RegistryTask.holds id) = 0 := of_decide_eq_true hundisturbed
  have hopened {other : Id} {number : Nat} (hother : service.opened number = some other) :
      Function.update service.opened service.created (some id) number = some other := by
    rw [Function.update_of_ne (horderly.ne_created hother)]
    exact hother
  have hcount (other : Id) (hne : id ≠ other) :
      (RegistryTask.holding .starting id service.created :: service.tasks).countP
        (RegistryTask.holds other) = service.tasks.countP (RegistryTask.holds other) :=
    List.countP_cons_of_neg (by simp [RegistryTask.holds, hne])
  constructor
  · intro other number hfound
    have hne : id ≠ other := by
      rintro rfl
      cases hnone.symm.trans hfound
    obtain ⟨hother, hquiet⟩ := horderly.registered other number hfound
    exact ⟨hopened hother, (hcount other hne).trans hquiet⟩
  · intro other
    by_cases hne : id = other
    · subst hne
      change (_ :: service.tasks).countP _ ≤ 1
      rw [List.countP_cons_of_pos (holds_holding _ _ _), hzero]
    · exact Nat.le_trans (Nat.le_of_eq (hcount other hne)) (horderly.alone other)
  · intro duty other number htask
    rcases List.mem_cons.mp htask with heq | hold
    · cases heq
      exact Function.update_self _ _ _
    · exact hopened (horderly.held duty other number hold)
  · intro other number hother
    change Function.update service.opened service.created (some id) number = some other at hother
    by_cases hnew : number = service.created
    · subst hnew
      rw [Function.update_self] at hother
      cases hother
      exact .inr ⟨.starting, List.mem_cons_self⟩
    · rw [Function.update_of_ne hnew] at hother
      apply (horderly.accounted other number hother).imp_right
      rintro ⟨duty, htask⟩
      exact ⟨duty, List.mem_cons_of_mem _ htask⟩
  · intro number hcreated
    have hlt : service.created < number := hcreated
    change Function.update service.opened service.created (some id) number = none
    rw [Function.update_of_ne (Nat.ne_of_gt hlt)]
    exact horderly.fresh number (Nat.le_of_lt hlt)

theorem Orderly.register (horderly : Orderly service)
    (htask : .holding .starting id number ∈ service.tasks) :
    Orderly { service with
      eventServices := Function.update service.eventServices id (some number)
      tasks := service.tasks.erase (.holding .starting id number) } := by
  constructor
  · intro other found hfound
    change Function.update service.eventServices id (some number) other = some found at hfound
    by_cases hne : id = other
    · subst hne
      rw [Function.update_self] at hfound
      cases hfound
      exact ⟨horderly.held _ _ _ htask, horderly.countP_erase htask⟩
    · rw [Function.update_of_ne (Ne.symm hne)] at hfound
      obtain ⟨hother, hquiet⟩ := horderly.registered other found hfound
      exact ⟨hother, (countP_erase_of_ne hne).trans hquiet⟩
  · intro other
    exact Nat.le_trans List.erase_sublist.countP_le (horderly.alone other)
  · intro duty other held hheld
    exact horderly.held duty other held (List.mem_of_mem_erase hheld)
  · intro other found hopened
    change Function.update service.eventServices id (some number) other = some found ∨ _
    by_cases hne : id = other
    · subst hne
      rcases horderly.accounted id found hopened with hfound | ⟨duty, hheld⟩
      · cases (horderly.eventServices_eq_none htask).symm.trans hfound
      · by_cases hsame : RegistryTask.holding duty id found = .holding .starting id number
        · cases hsame
          exact .inl (Function.update_self _ _ _)
        · exact .inr ⟨duty, (List.mem_erase_of_ne hsame).mpr hheld⟩
    · rw [Function.update_of_ne (Ne.symm hne)]
      apply (horderly.accounted other found hopened).imp_right
      rintro ⟨duty, hheld⟩
      exact ⟨duty, (List.mem_erase_of_ne (by simp [Ne.symm hne])).mpr hheld⟩
  · exact horderly.fresh

/-- A request holds the same service for another reason. -/
theorem Orderly.changeDuty (horderly : Orderly service)
    (htask : .holding duty id number ∈ service.tasks) (other : Duty) :
    Orderly { service with
      tasks := .holding other id number :: service.tasks.erase (.holding duty id number) } := by
  apply horderly.ofTasks
  · intro asked
    by_cases hne : id = asked
    · subst hne
      rw [List.countP_cons_of_pos (holds_holding _ _ _), horderly.countP_erase htask]
      have hpos := countP_pos htask
      have halone := horderly.alone id
      omega
    · rw [List.countP_cons_of_neg (by simp [RegistryTask.holds, hne]), countP_erase_of_ne hne]
  · intro asked found
    constructor
    · rintro ⟨kept, hkept⟩
      rcases List.mem_cons.mp hkept with heq | hold
      · cases heq
        exact ⟨duty, htask⟩
      · exact ⟨kept, List.mem_of_mem_erase hold⟩
    · rintro ⟨kept, hkept⟩
      by_cases hsame : RegistryTask.holding kept asked found = .holding duty id number
      · cases hsame
        exact ⟨other, List.mem_cons_self⟩
      · exact ⟨kept, List.mem_cons_of_mem _ ((List.mem_erase_of_ne hsame).mpr hkept)⟩

/-- The service is taken from the registry by the one request that is going to close it. -/
theorem Orderly.delete (horderly : Orderly service)
    (hfound : service.eventServices id = some number) :
    Orderly { service with
      eventServices := Function.update service.eventServices id none
      tasks := .holding .deleting id number :: service.tasks } := by
  obtain ⟨hopened, hquiet⟩ := horderly.registered id number hfound
  have hcount {other : Id} (hne : id ≠ other) :
      (RegistryTask.holding .deleting id number :: service.tasks).countP
        (RegistryTask.holds other) = service.tasks.countP (RegistryTask.holds other) :=
    List.countP_cons_of_neg (by simp [RegistryTask.holds, hne])
  constructor
  · intro other found hother
    change Function.update service.eventServices id none other = some found at hother
    by_cases hne : id = other
    · subst hne
      rw [Function.update_self] at hother
      cases hother
    · rw [Function.update_of_ne (Ne.symm hne)] at hother
      obtain ⟨hheld, hnone⟩ := horderly.registered other found hother
      exact ⟨hheld, (hcount hne).trans hnone⟩
  · intro other
    by_cases hne : id = other
    · subst hne
      change (_ :: service.tasks).countP _ ≤ 1
      rw [List.countP_cons_of_pos (holds_holding _ _ _), hquiet]
    · exact Nat.le_trans (Nat.le_of_eq (hcount hne)) (horderly.alone other)
  · intro duty other held hheld
    rcases List.mem_cons.mp hheld with heq | hold
    · cases heq
      exact hopened
    · exact horderly.held duty other held hold
  · intro other held hheld
    change Function.update service.eventServices id none other = some held ∨ _
    rcases horderly.accounted other held hheld with hregistered | ⟨duty, htask⟩
    · by_cases hne : id = other
      · subst hne
        cases hfound.symm.trans hregistered
        exact .inr ⟨.deleting, List.mem_cons_self⟩
      · rw [Function.update_of_ne (Ne.symm hne)]
        exact .inl hregistered
    · exact .inr ⟨duty, List.mem_cons_of_mem _ htask⟩
  · exact horderly.fresh

/-- What the request held is not open any more, and nobody else held it. -/
theorem Orderly.close (horderly : Orderly service)
    (htask : .holding duty id number ∈ service.tasks) :
    Orderly { service with
      opened := Function.update service.opened number none
      tasks := service.tasks.erase (.holding duty id number) } := by
  have hopened := horderly.held duty id number htask
  have hopen {other : Id} {found : Nat} (hne : found ≠ number) :
      Function.update service.opened number none found = some other ↔
        service.opened found = some other := by
    rw [Function.update_of_ne hne]
  constructor
  · intro other found hfound
    obtain ⟨hother, hnone⟩ := horderly.registered other found hfound
    have hne : found ≠ number := by
      rintro rfl
      cases hopened.symm.trans hother
      cases (horderly.eventServices_eq_none htask).symm.trans hfound
    refine ⟨(hopen hne).mpr hother, ?_⟩
    exact Nat.eq_zero_of_le_zero (hnone ▸ List.erase_sublist.countP_le)
  · intro other
    exact Nat.le_trans List.erase_sublist.countP_le (horderly.alone other)
  · intro kept other found hkept
    have hother := horderly.held kept other found (List.mem_of_mem_erase hkept)
    apply (hopen _).mpr hother
    rintro rfl
    cases hopened.symm.trans hother
    exact horderly.not_mem_erase htask hkept
  · intro other found hother
    change Function.update service.opened number none found = some other at hother
    have hne : found ≠ number := by
      rintro rfl
      rw [Function.update_self] at hother
      cases hother
    apply (horderly.accounted other found ((hopen hne).mp hother)).imp_right
    rintro ⟨kept, hkept⟩
    exact ⟨kept, (List.mem_erase_of_ne (by simp [hne])).mpr hkept⟩
  · intro found hcreated
    change Function.update service.opened number none found = none
    by_cases hsame : found = number
    · rw [hsame, Function.update_self]
    · rw [Function.update_of_ne hsame]
      exact horderly.fresh found hcreated

theorem Orderly.findOpen (horderly : Orderly service)
    (hfound : service.eventServices id = some number) : service.findOpen id = some number := by
  unfold ConversationService.findOpen
  rw [hfound, Option.filter_some, if_pos]
  exact decide_eq_true (horderly.registered id number hfound).1

theorem Orderly.step {label : RegistryStep Id} {seen : List (RegistryEvent Id)}
    (horderly : Orderly service) (hapart : service.apart label = true)
    (hstep : service.step label = some (next, seen)) : Orderly next := by
  cases label with
  | startConversation id =>
      simp only [ConversationService.step] at hstep
      cases hregistered : service.eventServices id with
      | some number =>
          rw [horderly.findOpen hregistered] at hstep
          cases hstep
          exact horderly
      | none =>
          have hnone : service.findOpen id = none := by
            unfold ConversationService.findOpen
            rw [hregistered, Option.filter_none]
          rw [hnone] at hstep
          cases hstep
          apply horderly.startEventService hregistered
          simpa [apart, hregistered] using hapart
  | forkConversation source fork =>
      simp only [ConversationService.step] at hstep
      split at hstep
      · cases hstep
        exact horderly
      · split at hstep <;> cases hstep
        · exact horderly.forking fork
        · exact horderly
  | forked fork =>
      simp only [ConversationService.step, Option.ite_none_right_eq_some] at hstep
      obtain ⟨-, hstep⟩ := hstep
      simp only [apart, Bool.and_eq_true, Option.isNone_iff_eq_none] at hapart
      have hcopied := horderly.eraseForking fork
      cases hstep
      apply hcopied.startEventService hapart.1
      rw [undisturbed, List.countP_erase, if_neg (by simp [RegistryTask.holds]), Nat.sub_zero]
      exact hapart.2
  | forkFails fork =>
      simp only [ConversationService.step, Option.ite_none_right_eq_some] at hstep
      obtain ⟨-, hstep⟩ := hstep
      cases hstep
      exact horderly.eraseForking fork
  | register id number =>
      simp only [ConversationService.step, Option.ite_none_right_eq_some] at hstep
      obtain ⟨htask, hstep⟩ := hstep
      cases hstep
      exact horderly.register htask
  | startFails id number =>
      simp only [ConversationService.step, Option.ite_none_right_eq_some] at hstep
      obtain ⟨htask, hstep⟩ := hstep
      cases hstep
      exact horderly.changeDuty htask .abandoning
  | deleteConversation id =>
      simp only [ConversationService.step] at hstep
      split at hstep
      · cases hstep
        exact horderly
      next number hfound =>
        cases hstep
        exact horderly.delete hfound
  | closed duty id number =>
      simp only [ConversationService.step, Option.ite_none_right_eq_some] at hstep
      obtain ⟨⟨-, htask⟩, hstep⟩ := hstep
      cases hstep
      exact horderly.close htask
  | closeFails duty id number => cases hapart

/-! ## Whole runs -/

theorem countP_handles (horderly : Orderly service)
    (htask : .holding duty id number ∈ service.tasks) :
    service.tasks.countP (RegistryTask.handles number) = 1 := by
  have hopened := horderly.held duty id number htask
  -- whoever handles the service holds its conversation
  have hle : service.tasks.countP (RegistryTask.handles number) ≤
      service.tasks.countP (RegistryTask.holds id) := by
    apply List.countP_mono_left
    intro task hmem hhandles
    cases task with
    | forking fork => cases hhandles
    | holding other held found =>
        obtain rfl : found = number := of_decide_eq_true hhandles
        cases hopened.symm.trans (horderly.held other held found hmem)
        exact holds_holding other id found
  have hpos : 0 < service.tasks.countP (RegistryTask.handles number) :=
    List.countP_pos_iff.mpr ⟨_, htask, decide_eq_true rfl⟩
  have halone := horderly.alone id
  omega

/-- Two requests that hold the conversation are one, with one service. -/
theorem Orderly.held_unique (horderly : Orderly service)
    (htask : .holding duty id number ∈ service.tasks) {other : Duty} {held : Nat}
    (hother : .holding other id held ∈ service.tasks) : held = number := by
  by_contra hne
  apply horderly.not_mem_erase htask
  exact (List.mem_erase_of_ne (by simp [hne])).mpr hother

theorem Orderly.oneLive (horderly : Orderly service) : OneLive service := by
  constructor
  · intro id first second hfirst hsecond
    rcases horderly.accounted id first hfirst with hregistered | ⟨duty, htask⟩
    · rcases horderly.accounted id second hsecond with hother | ⟨other, hother⟩
      · exact Option.some.inj (hregistered.symm.trans hother)
      · cases (horderly.eventServices_eq_none hother).symm.trans hregistered
    · rcases horderly.accounted id second hsecond with hother | ⟨other, hother⟩
      · cases (horderly.eventServices_eq_none htask).symm.trans hother
      · exact horderly.held_unique hother htask
  · intro id number hopened
    rcases horderly.accounted id number hopened with hregistered | ⟨duty, htask⟩
    · refine .inl ⟨hregistered, List.countP_eq_zero.mpr fun task hmem hhandles => ?_⟩
      cases task with
      | forking fork => cases hhandles
      | holding other held found =>
          obtain rfl : found = number := of_decide_eq_true hhandles
          cases hopened.symm.trans (horderly.held other held found hmem)
          cases (horderly.eventServices_eq_none hmem).symm.trans hregistered
    · refine .inr ⟨?_, countP_handles horderly htask⟩
      rw [horderly.eventServices_eq_none htask]
      exact nofun
  · exact fun id number hfound => horderly.findOpen hfound

/-- Any requests, in any interleaving: at most one service of a conversation is open as long as
services are opened while no other request for their conversation is under way. -/
theorem oneLive_of_apart {Id : Type} [DecidableEq Id] {trace : List (RegistryEvent Id)}
    {service : ConversationService Id}
    (hruns : (system.restrict apart).Runs ({} : ConversationService Id) trace service) :
    OneLive service := by
  have horderly : Orderly service := by
    apply hruns.invariant_restrict fun _ service => Orderly service
    · refine ⟨?_, fun id => Nat.zero_le 1, ?_, ?_, fun _ _ => rfl⟩
      · intro id number hfound
        cases hfound
      · intro duty id number htask
        cases htask
      · intro id number hopened
        cases hopened
    · intro trace service label next seen horderly hapart hnext
      exact horderly.step hapart hnext
  exact horderly.oneLive

/-- A conversation is started, asked for again, forked, deleted and started anew. -/
theorem oneLive_of_apart_restarted :
    ∃ trace service, OneLive service ∧ trace =
      [RegistryEvent.opened 7 0, .returned 7 0, .opened 8 1, .deleted 7, .opened 7 2] ∧
        service.findOpen 8 = some 1 := by
  obtain ⟨⟨service, trace⟩, hrun⟩ : ∃ result, (system.restrict apart).run
      ({} : ConversationService Nat)
      [.startConversation 7, .register 7 0, .startConversation 7, .forkConversation 7 8,
        .forked 8, .register 8 1, .deleteConversation 7, .closed .deleting 7 0,
        .startConversation 7] = some result := ⟨_, rfl⟩
  refine ⟨trace, service, oneLive_of_apart (.of_run _ hrun), ?_⟩
  cases hrun
  exact ⟨rfl, rfl⟩

/-- A second request comes before the first has registered its service. -/
theorem not_oneLive_same_id :
    ∃ trace service, system.Runs ({} : ConversationService Nat) trace service ∧
      ¬OneLive service := by
  refine ⟨_, _, .of_run [.startConversation 7, .startConversation 7] rfl, fun honeLive => ?_⟩
  cases honeLive.unique 7 0 1 rfl rfl

end ConversationService

end ShuttleFlow
