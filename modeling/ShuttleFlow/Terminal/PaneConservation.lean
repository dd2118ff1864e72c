import Mathlib.Data.List.Perm.Basic
import Mathlib.Data.List.Nodup
import ShuttleFlow.Terminal.TmuxPanePool

/-! # Permits and panes are conserved

Until the pool is closed, each permit is free or with one thread, and each pane is
available or held by one thread. A permit is lost where a pane cannot be created in
`checkout`, and a thread that is in `checkout` when the pool is closed is not stopped.
-/

namespace ShuttleFlow

open scoped List

namespace PaneSystem

/-- A step that creates the pane it needs in `checkout`, that replaces no pane of a
closed pool, and that does not close the pool on a thread in `checkout`. -/
def sparesCheckouts (system : PaneSystem) (move : Nat × PaneAction) : Bool :=
  match move.2 with
  | .takePane creates => creates || !system.pool.available.isEmpty
  | .replace creates => !creates || !system.pool.closed
  | .markClosed => system.users.all fun user => !user.checksOut
  | _ => true

end PaneSystem

/-- Whether a thread can be where it is, in a pool that is closed or open. -/
def PaneUser.fits (closed : Bool) : PaneUser → Bool
  | .awaitingPermit | .permitted => !closed
  | .clearing => closed
  | _ => true

namespace TmuxPanePool

/-- The books of a pool agree with what its threads hold. -/
structure Consistent (pool : TmuxPanePool) (users : List PaneUser) : Prop where
  permits : pool.closed = false →
    pool.semaphore + users.countP PaneUser.hasPermit = pool.maxPanes
  panes : pool.closed = false → pool.allPanes ~ pool.available ++ users.filterMap PaneUser.pane
  nodup : pool.closed = false → pool.allPanes.Nodup
  created : ∀ terminal ∈ pool.allPanes, terminal < pool.created
  length_le : pool.closed = false → pool.allPanes.length ≤ pool.maxPanes
  fits : ∀ user ∈ users, user.fits pool.closed

variable {pool next : TmuxPanePool} {users others : List PaneUser} {user : PaneUser}
  {terminal oldTerminal : Nat} {creates : Bool}

theorem createPane_eq_some {made : Nat × TmuxPanePool}
    (hcreate : pool.createPane creates = some made) :
    creates = true ∧ made = (pool.created, { pool with created := pool.created + 1 }) := by
  rw [createPane, Option.ite_none_right_eq_some] at hcreate
  exact ⟨hcreate.1, (Option.some.inj hcreate.2).symm⟩

/-- The pane is an available one, or there is none and it is new. -/
theorem takePane_cases (htake : pool.takePane creates = some (terminal, next)) :
    (∃ rest, pool.available = terminal :: rest ∧ next = { pool with available := rest }) ∨
      (pool.available = [] ∧ terminal = pool.created ∧
        next = { pool with
          created := pool.created + 1
          allPanes := pool.allPanes ++ [pool.created] }) := by
  rw [takePane] at htake
  split at htake
  next first rest havailable =>
    cases htake
    exact .inl ⟨rest, havailable, rfl⟩
  next havailable =>
    obtain ⟨made, hmade, heq⟩ := Option.map_eq_some_iff.mp htake
    obtain ⟨-, rfl⟩ := createPane_eq_some hmade
    cases heq
    exact .inr ⟨havailable, rfl, rfl⟩

theorem takePane_eq_none (htake : pool.takePane creates = none) :
    pool.available = [] ∧ creates = false := by
  rw [takePane] at htake
  split at htake
  · cases htake
  next havailable =>
    cases creates with
    | false => exact ⟨havailable, rfl⟩
    | true => cases htake

theorem replace_eq_some (hreplace : pool.replace oldTerminal creates = some (terminal, next)) :
    creates = true ∧ terminal = pool.created ∧
      next = { pool with
        created := pool.created + 1
        allPanes := (pool.allPanes ++ [pool.created]).erase oldTerminal
        available := pool.available.erase oldTerminal } := by
  obtain ⟨made, hmade, heq⟩ := Option.map_eq_some_iff.mp hreplace
  obtain ⟨hcreates, rfl⟩ := createPane_eq_some hmade
  cases heq
  exact ⟨hcreates, rfl, rfl⟩

theorem checkin_of_closed (hclosed : pool.closed = true) :
    pool.checkin terminal = (decide (terminal ∈ pool.allPanes), pool) := by
  rw [checkin, hclosed]
  split
  next hmem => rw [decide_eq_true hmem, if_pos rfl]
  next hmem => rw [decide_eq_false hmem]

theorem checkin_of_mem (hopen : pool.closed = false) (hmem : terminal ∈ pool.allPanes) :
    pool.checkin terminal = (true, { pool with available := pool.available ++ [terminal] }) := by
  rw [checkin, if_pos hmem, if_neg (Bool.eq_false_iff.mp hopen)]

theorem checkin_closed : (pool.checkin terminal).2.closed = pool.closed := by
  rw [checkin]
  split
  · split <;> rfl
  · rfl

@[simp] theorem filterMap_pane_holding :
    (PaneUser.holding terminal :: others).filterMap PaneUser.pane =
      terminal :: others.filterMap PaneUser.pane :=
  List.filterMap_cons_some rfl

namespace Consistent

theorem perm (hpool : pool.Consistent users) (hperm : users ~ others) :
    pool.Consistent others where
  permits hopen := by
    rw [← hperm.countP_eq]
    exact hpool.permits hopen
  panes hopen := (hpool.panes hopen).trans (.append_left _ (hperm.filterMap _))
  nodup := hpool.nodup
  created := hpool.created
  length_le := hpool.length_le
  fits user huser := hpool.fits user (hperm.mem_iff.mpr huser)

/-- Panes in use are not more than the permits in use. -/
theorem length_held_le (users : List PaneUser) :
    (users.filterMap PaneUser.pane).length ≤ users.countP PaneUser.hasPermit := by
  induction users with
  | nil => simp
  | cons user users ih =>
      rw [List.filterMap_cons, List.countP_cons]
      cases user <;> simp [PaneUser.pane, PaneUser.hasPermit, ih] <;> omega

theorem fits_cons {user' : PaneUser} (hpool : pool.Consistent (user :: others))
    (hfits : user'.fits pool.closed) : ∀ user ∈ user' :: others, user.fits pool.closed :=
  List.forall_mem_cons.mpr ⟨hfits, (List.forall_mem_cons.mp hpool.fits).2⟩

/-- Where nobody is in transit, each permit in use is with a pane. -/
theorem length_held_of_settled (hsettled : ∀ user ∈ users, user.inTransit = false) :
    (users.filterMap PaneUser.pane).length = users.countP PaneUser.hasPermit := by
  induction users with
  | nil => rfl
  | cons user users ih =>
      rw [List.forall_mem_cons] at hsettled
      have hrest := ih hsettled.2
      rw [List.filterMap_cons, List.countP_cons]
      cases user with
      | permitted | returning => cases hsettled.1
      | holding terminal => exact congrArg (· + 1) hrest
      | outside | awaitingPermit | closing | clearing => exact hrest

/-- A thread may move on with the same permit and the same pane, if any. -/
theorem move {user' : PaneUser} (hpool : pool.Consistent (user :: others))
    (hpermit : user'.hasPermit = user.hasPermit) (hpane : user'.pane = user.pane)
    (hfits : user'.fits pool.closed) :
    pool.Consistent (user' :: others) where
  permits hopen := by
    have hpermits := hpool.permits hopen
    rw [List.countP_cons] at hpermits ⊢
    rw [hpermit]
    exact hpermits
  panes hopen := by
    have hpanes := hpool.panes hopen
    rw [List.filterMap_cons] at hpanes ⊢
    rw [hpane]
    exact hpanes
  nodup := hpool.nodup
  created := hpool.created
  length_le := hpool.length_le
  fits := hpool.fits_cons hfits

theorem acquire (hpool : pool.Consistent (.awaitingPermit :: others)) (hfree : pool.semaphore ≠ 0) :
    Consistent { pool with semaphore := pool.semaphore - 1 } (.permitted :: others) where
  permits hopen := by
    have hpermits := hpool.permits hopen
    simp only [List.countP_cons, PaneUser.hasPermit, reduceIte, Bool.false_eq_true]
      at hpermits ⊢
    omega
  panes := hpool.panes
  nodup := hpool.nodup
  created := hpool.created
  length_le := hpool.length_le
  fits := hpool.fits_cons (hpool.fits .awaitingPermit List.mem_cons_self)

theorem release (hpool : pool.Consistent (.returning :: others)) :
    Consistent { pool with semaphore := pool.semaphore + 1 } (.outside :: others) where
  permits hopen := by
    have hpermits := hpool.permits hopen
    simp only [List.countP_cons, PaneUser.hasPermit, reduceIte, Bool.false_eq_true]
      at hpermits ⊢
    omega
  panes := hpool.panes
  nodup := hpool.nodup
  created := hpool.created
  length_le := hpool.length_le
  fits := hpool.fits_cons rfl

/-- The panes of an open pool after a new one is appended. -/
theorem nodup_append_created (hpool : pool.Consistent users) (hopen : pool.closed = false) :
    (pool.allPanes ++ [pool.created]).Nodup := by
  refine (List.perm_append_singleton _ _).nodup_iff.mpr
    (List.nodup_cons.mpr ⟨fun hmem => ?_, hpool.nodup hopen⟩)
  exact absurd (hpool.created _ hmem) (Nat.lt_irrefl _)

theorem lt_created_succ (hpool : pool.Consistent users)
    (hterminal : terminal ∈ pool.allPanes ++ [pool.created]) : terminal < pool.created + 1 := by
  rcases List.mem_append.mp hterminal with hold | hnew
  · exact Nat.lt_succ_of_lt (hpool.created _ hold)
  · cases List.mem_singleton.mp hnew
    exact Nat.lt_succ_self _

theorem takePane (hpool : pool.Consistent (.permitted :: others))
    (htake : pool.takePane creates = some (terminal, next)) :
    next.Consistent (.holding terminal :: others) := by
  have hopen : pool.closed = false := Bool.not_eq_true' _ |>.mp (hpool.fits _ List.mem_cons_self)
  have hpermits := hpool.permits hopen
  have hpanes := hpool.panes hopen
  rw [List.countP_cons_of_pos rfl] at hpermits
  rw [List.filterMap_cons_none rfl] at hpanes
  rcases takePane_cases htake with ⟨rest, havailable, rfl⟩ | ⟨havailable, rfl, rfl⟩
  · rw [havailable, List.cons_append] at hpanes
    exact
      { permits := fun _ => by
          rw [List.countP_cons_of_pos rfl]
          exact hpermits
        panes := fun _ => by
          rw [filterMap_pane_holding]
          exact hpanes.trans List.perm_middle.symm
        nodup := hpool.nodup
        created := hpool.created
        length_le := hpool.length_le
        fits := hpool.fits_cons rfl }
  · rw [havailable, List.nil_append] at hpanes
    exact
      { permits := fun _ => by
          rw [List.countP_cons_of_pos rfl]
          exact hpermits
        panes := fun _ => by
          rw [havailable, List.nil_append, filterMap_pane_holding]
          exact (List.perm_append_singleton _ _).trans (hpanes.cons _)
        nodup := fun _ => hpool.nodup_append_created hopen
        created := fun _ => hpool.lt_created_succ
        length_le := fun _ => by
          have hlength := hpanes.length_eq
          have hle := length_held_le others
          rw [List.length_append, List.length_singleton, hlength]
          exact Nat.le_trans (Nat.add_le_add_right hle 1) (hpermits ▸ Nat.le_add_left _ _)
        fits := hpool.fits_cons rfl }

theorem replace (hpool : pool.Consistent (.holding oldTerminal :: others))
    (hspares : creates = false ∨ pool.closed = false)
    (hreplace : pool.replace oldTerminal creates = some (terminal, next)) :
    next.Consistent (.holding terminal :: others) := by
  obtain ⟨rfl, rfl, rfl⟩ := replace_eq_some hreplace
  have hopen : pool.closed = false := by
    rcases hspares with hfails | hopen
    · cases hfails
    · exact hopen
  have hpanes := hpool.panes hopen
  rw [filterMap_pane_holding] at hpanes
  have hmem : oldTerminal ∈ pool.allPanes := hpanes.mem_iff.mpr (by simp)
  have hnotAvailable : oldTerminal ∉ pool.available := by
    have hnodup := hpanes.nodup_iff.mp (hpool.nodup hopen)
    intro havailable
    exact List.disjoint_of_nodup_append hnodup havailable List.mem_cons_self
  exact
    { permits := fun _ => by
        have hpermits := hpool.permits hopen
        rw [List.countP_cons_of_pos rfl] at hpermits ⊢
        exact hpermits
      panes := fun _ => by
        rw [filterMap_pane_holding, List.erase_of_not_mem hnotAvailable]
        have hrest : pool.allPanes.erase oldTerminal ~
            pool.available ++ others.filterMap PaneUser.pane := by
          have herased := (hpanes.trans List.perm_middle).erase oldTerminal
          rw [List.erase_cons_head] at herased
          exact herased
        rw [List.erase_append_left _ hmem]
        exact (List.perm_append_singleton _ _).trans ((hrest.cons _).trans List.perm_middle.symm)
      nodup := fun _ => (hpool.nodup_append_created hopen).erase _
      created := fun _ hterminal => hpool.lt_created_succ (List.mem_of_mem_erase hterminal)
      length_le := fun _ => by
        rw [List.length_erase_of_mem (List.mem_append_left _ hmem), List.length_append,
          List.length_singleton]
        exact hpool.length_le hopen
      fits := hpool.fits_cons rfl }

theorem checkin {releases : Bool} (hpool : pool.Consistent (.holding terminal :: others))
    (hcheckin : pool.checkin terminal = (releases, next)) :
    next.Consistent ((if releases then .returning else .outside) :: others) := by
  cases hclosed : pool.closed with
  | true =>
      rw [checkin_of_closed hclosed] at hcheckin
      cases hcheckin
      exact
        { permits := fun hopen => by cases hopen.symm.trans hclosed
          panes := fun hopen => by cases hopen.symm.trans hclosed
          nodup := hpool.nodup
          created := hpool.created
          length_le := hpool.length_le
          fits := hpool.fits_cons (by split <;> rfl) }
  | false =>
      have hpanes := hpool.panes hclosed
      have hpermits := hpool.permits hclosed
      rw [filterMap_pane_holding] at hpanes
      rw [List.countP_cons_of_pos rfl] at hpermits
      have hmem : terminal ∈ pool.allPanes := hpanes.mem_iff.mpr (by simp)
      rw [checkin_of_mem hclosed hmem] at hcheckin
      cases hcheckin
      exact
        { permits := fun _ => by
            rw [if_pos rfl, List.countP_cons_of_pos rfl]
            exact hpermits
          panes := fun _ => by
            rw [if_pos rfl, List.filterMap_cons_none rfl, List.append_assoc]
            exact hpanes
          nodup := hpool.nodup
          created := hpool.created
          length_le := hpool.length_le
          fits := hpool.fits_cons rfl }

theorem markClosed (hpool : pool.Consistent (.closing :: others))
    (hspares : ∀ user ∈ others, user.checksOut = false) :
    Consistent { pool with closed := true } (.clearing :: others) where
  permits := nofun
  panes := nofun
  nodup := nofun
  created := hpool.created
  length_le := nofun
  fits := List.forall_mem_cons.mpr ⟨rfl, fun user huser => by
    have hchecks := hspares user huser
    cases user with
    | awaitingPermit | permitted => cases hchecks
    | outside | holding _ | returning | closing | clearing => rfl⟩

theorem clearPanes (hpool : pool.Consistent (.clearing :: others)) :
    pool.clearPanes.Consistent (.outside :: others) := by
  have hclosed : pool.closed = true := hpool.fits _ List.mem_cons_self
  exact
    { permits := fun hopen => by cases hopen.symm.trans hclosed
      panes := fun hopen => by cases hopen.symm.trans hclosed
      nodup := fun _ => List.nodup_nil
      created := nofun
      length_le := fun _ => Nat.zero_le _
      fits := hpool.fits_cons rfl }

/-- A step that spares checkouts keeps the books. -/
theorem act {action : PaneAction} {user' : PaneUser} {seen : List PaneEvent} {index : Nat}
    (hpool : pool.Consistent (user :: others))
    (hspares : PaneSystem.sparesCheckouts ⟨pool, user :: others⟩ (index, action))
    (hact : pool.act user action = some (next, user', seen)) :
    next.Consistent (user' :: others) := by
  revert hact
  fun_cases TmuxPanePool.act pool user action <;> intro hact <;> cases hact
  case case1 =>
    exact ⟨hpool.permits, hpool.panes, hpool.nodup, hpool.created, hpool.length_le, hpool.fits⟩
  case case2 => exact hpool
  case case3 hready =>
    exact hpool.move rfl rfl (by simpa [PaneUser.fits] using And.right (by simpa using hready))
  case case5 hfree => exact hpool.acquire hfree
  case case6 => exact hpool.move rfl rfl rfl
  case case8 htake => exact hpool.takePane htake
  case case9 htake =>
    obtain ⟨havailable, rfl⟩ := takePane_eq_none htake
    simp [PaneSystem.sparesCheckouts, havailable] at hspares
  case case10 hreplace =>
    refine hpool.replace ?_ hreplace
    simpa [PaneSystem.sparesCheckouts] using hspares
  case case11 => exact hpool
  case case12 hcheckin => exact hpool.checkin hcheckin
  case case13 hcheckin => exact hpool.checkin hcheckin
  case case14 => exact hpool.release
  case case15 => exact hpool
  case case16 => exact hpool.move rfl rfl rfl
  case case17 =>
    refine hpool.markClosed fun user huser => ?_
    have hout := List.all_eq_true.mp hspares user (List.mem_cons_of_mem _ huser)
    exact Bool.not_eq_true' _ |>.mp hout
  case case18 => exact hpool.clearPanes

end Consistent

/-- What is seen of a step: nothing, a pane of an open pool, or that the pool is closed. -/
theorem act_seen {action : PaneAction} {user' : PaneUser} {seen : List PaneEvent} {index : Nat}
    (hpool : pool.Consistent (user :: others))
    (hspares : PaneSystem.sparesCheckouts ⟨pool, user :: others⟩ (index, action))
    (hact : pool.act user action = some (next, user', seen)) :
    (seen = [] ∧ next.closed = pool.closed) ∨
      (∃ terminal, seen = [.obtained terminal] ∧ pool.closed = false ∧ next.closed = false) ∨
      (seen = [.closed] ∧ next.closed = true) := by
  revert hact
  fun_cases TmuxPanePool.act pool user action <;> intro hact <;> cases hact
  case case8 htake =>
    have hopen : pool.closed = false :=
      Bool.not_eq_true' _ |>.mp (hpool.fits .permitted List.mem_cons_self)
    refine .inr (.inl ⟨_, rfl, hopen, ?_⟩)
    rcases takePane_cases htake with ⟨rest, -, rfl⟩ | ⟨-, -, rfl⟩ <;> exact hopen
  case case10 hreplace =>
    obtain ⟨rfl, -, rfl⟩ := replace_eq_some hreplace
    have hopen : pool.closed = false := by simpa [PaneSystem.sparesCheckouts] using hspares
    exact .inr (.inl ⟨_, rfl, hopen, hopen⟩)
  case case12 hcheckin =>
    have hclosed := @checkin_closed pool
    exact .inl ⟨rfl, by rw [← hclosed, hcheckin]⟩
  case case13 hcheckin =>
    have hclosed := @checkin_closed pool
    exact .inl ⟨rfl, by rw [← hclosed, hcheckin]⟩
  case case17 => exact .inr (.inr ⟨rfl, rfl⟩)
  all_goals exact .inl ⟨rfl, rfl⟩

end TmuxPanePool

namespace PaneSystem

variable {system next : PaneSystem} {trace seen : List PaneEvent}

/-- What all runs keep that spare checkouts. -/
structure Accounted (trace : List PaneEvent) (system : PaneSystem) : Prop where
  consistent : system.pool.Consistent system.users
  closed : .closed ∈ trace → system.pool.closed = true
  obtained : trace.Pairwise fun earlier later =>
    earlier = .closed → ∀ terminal, later ≠ .obtained terminal

theorem accounted_initial (maxPanes : Nat) (hmaxPanes : 1 ≤ maxPanes) (threads : Nat) :
    Accounted [] (initial maxPanes hmaxPanes threads) where
  consistent :=
    { permits := fun _ => by
        have hnone : (List.replicate threads PaneUser.outside).countP PaneUser.hasPermit = 0 :=
          List.countP_eq_zero.mpr fun user huser => by
            rw [List.eq_of_mem_replicate huser]
            exact Bool.false_ne_true
        exact congrArg (maxPanes + ·) hnone
      panes := fun _ => by
        have hnone : (List.replicate threads PaneUser.outside).filterMap PaneUser.pane = [] :=
          List.filterMap_eq_nil_iff.mpr fun user huser => by
            rw [List.eq_of_mem_replicate huser]
            rfl
        exact (congrArg ([] ++ ·) hnone.symm) ▸ List.Perm.refl []
      nodup := fun _ => List.nodup_nil
      created := nofun
      length_le := fun _ => Nat.zero_le _
      fits := fun user huser => by
        rw [List.eq_of_mem_replicate huser]
        rfl }
  closed := nofun
  obtained := .nil

theorem sparesCheckouts_perm {pool : TmuxPanePool} {users others : List PaneUser}
    {move : Nat × PaneAction} (hperm : users ~ others)
    (hspares : sparesCheckouts ⟨pool, users⟩ move) : sparesCheckouts ⟨pool, others⟩ move := by
  rw [sparesCheckouts] at hspares ⊢
  split at hspares
  · exact hspares
  · exact hspares
  · rw [← hperm.all_eq]
    exact hspares
  · rfl

theorem Accounted.step {move : Nat × PaneAction} (haccounted : Accounted trace system)
    (hspares : system.sparesCheckouts move) (hstep : system.step move = some (next, seen)) :
    Accounted (trace ++ seen) next := by
  rw [PaneSystem.step] at hstep
  split at hstep
  · cases hstep
  next user huser =>
    obtain ⟨⟨pool, user', seen'⟩, hact, heq⟩ := Option.map_eq_some_iff.mp hstep
    cases heq
    obtain ⟨hindex, rfl⟩ := List.getElem?_eq_some_iff.mp huser
    -- The order of the threads does not matter, so the one that moves comes first.
    have hperm := List.getElem_cons_eraseIdx_perm hindex
    have hpool := haccounted.consistent.perm hperm.symm
    have hspares' := sparesCheckouts_perm hperm.symm hspares
    have hnext := (hpool.act hspares' hact).perm (List.set_perm_cons_eraseIdx hindex _).symm
    rcases TmuxPanePool.act_seen hpool hspares' hact with
      ⟨rfl, hclosed⟩ | ⟨terminal, rfl, hopen, -⟩ | ⟨rfl, hclosed⟩
    · rw [List.append_nil]
      exact ⟨hnext, fun hmem => hclosed.trans (haccounted.closed hmem), haccounted.obtained⟩
    · have hnone : .closed ∉ trace := fun hmem => by cases (haccounted.closed hmem).symm.trans hopen
      refine ⟨hnext, fun hmem => ?_, List.pairwise_append.mpr
        ⟨haccounted.obtained, List.pairwise_singleton _ _, fun earlier hearlier _ _ heq => ?_⟩⟩
      · rcases List.mem_append.mp hmem with hmem | hmem
        · exact absurd hmem hnone
        · cases List.mem_singleton.mp hmem
      · cases heq
        exact absurd hearlier hnone
    · refine ⟨hnext, fun _ => hclosed, List.pairwise_append.mpr
        ⟨haccounted.obtained, List.pairwise_singleton _ _, fun _ _ later hlater _ _ => ?_⟩⟩
      rw [List.mem_singleton.mp hlater]
      exact nofun

theorem Accounted.conserves (haccounted : Accounted trace system) : Conserves trace system := by
  have hpool := haccounted.consistent
  have hnodup (hopen : system.pool.closed = false) :
      (system.pool.available ++ system.held).Nodup :=
    (hpool.panes hopen).nodup_iff.mp (hpool.nodup hopen)
  exact
    { permits := fun hopen hsettled => by
        rw [held, TmuxPanePool.Consistent.length_held_of_settled hsettled]
        exact hpool.permits hopen
      held_nodup := fun hopen => (List.nodup_append.mp (hnodup hopen)).2.1
      available_nodup := fun hopen => (List.nodup_append.mp (hnodup hopen)).1
      available_disjoint := fun hopen => List.disjoint_of_nodup_append (hnodup hopen)
      length_le := hpool.length_le
      obtained := haccounted.obtained
      not_stuck := fun hclosed _ hblocked _ => by
        have hfits := hpool.fits .awaitingPermit hblocked.1
        rw [hclosed] at hfits
        cases hfits }

/-- In a run that creates each pane it needs in `checkout`, that replaces no pane of a
closed pool, and that never closes the pool while a thread is in `checkout`, permits and
panes are conserved. -/
theorem conserves_of_runs (maxPanes : Nat) (hmaxPanes : 1 ≤ maxPanes) (threads : Nat)
    (hruns : (transitions.restrict sparesCheckouts).Runs (initial maxPanes hmaxPanes threads)
      trace system) :
    Conserves trace system :=
  Accounted.conserves <| hruns.invariant_restrict Accounted
    (accounted_initial maxPanes hmaxPanes threads)
    fun _ _ _ _ _ haccounted hspares hstep => haccounted.step hspares hstep

/-- Two threads with one pane, which the first of them replaces; then the pool is closed. -/
def sharedPane : List (Nat × PaneAction) :=
  [(0, .setUp), (0, .checkout), (0, .acquire), (0, .takePane true), (1, .checkout),
    (0, .replace true), (0, .checkin), (0, .release), (1, .acquire), (1, .takePane false),
    (0, .close), (0, .markClosed), (0, .clearPanes), (1, .checkin)]

theorem conserves_sharedPane :
    ∃ system, Conserves [.obtained 0, .obtained 1, .obtained 1, .closed] system := by
  have hruns := @TransitionSystem.Runs.exists_of_run _ _ _
    (transitions.restrict sparesCheckouts) (initial 1 (Nat.le_refl 1) 2) sharedPane
    [.obtained 0, .obtained 1, .obtained 1, .closed] (by decide +kernel)
  exact hruns.elim fun _ hruns => ⟨_, conserves_of_runs 1 (Nat.le_refl 1) 2 hruns⟩

/-- The only permit is lost with a pane that could not be created. -/
theorem not_conserves_of_failed_creation :
    ¬ ∀ (maxPanes : Nat) (hmaxPanes : 1 ≤ maxPanes) (threads : Nat) (trace : List PaneEvent)
      (system : PaneSystem), transitions.Runs (initial maxPanes hmaxPanes threads) trace system →
      Conserves trace system := by
  intro hall
  have hruns := @TransitionSystem.Runs.of_run _ _ _ transitions (initial 1 (Nat.le_refl 1) 1)
    [(0, .setUp), (0, .checkout), (0, .acquire), (0, .takePane false)] _ _ rfl
  have hpermits := (hall 1 (Nat.le_refl 1) 1 _ _ hruns).permits rfl (by decide)
  revert hpermits
  decide

end PaneSystem

end ShuttleFlow
