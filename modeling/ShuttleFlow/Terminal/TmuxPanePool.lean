import Mathlib.Data.List.Basic
import ShuttleFlow.Library.Transitions

/-! # The pool of tmux panes

Threads check panes out of a shared pool, replace them and check them in. What is
done under the lock of the pool is one step; the semaphore and the flag `_closed`
are read and written between these steps.
-/

namespace ShuttleFlow

/-- A terminal is named by the number of panes created before it. -/
structure TmuxPanePool where
  maxPanes : Nat
  /-- What `__post_init__` checks. -/
  one_le_maxPanes : 1 ≤ maxPanes
  /-- The free permits. -/
  semaphore : Nat
  available : List Nat
  allPanes : List Nat
  initialized : Bool
  closed : Bool
  created : Nat

namespace TmuxPanePool

def postInit (maxPanes : Nat) (hmaxPanes : 1 ≤ maxPanes) : TmuxPanePool where
  maxPanes := maxPanes
  one_le_maxPanes := hmaxPanes
  semaphore := maxPanes
  available := []
  allPanes := []
  initialized := false
  closed := false
  created := 0

/-- Creating a pane may fail, in tmux. -/
def createPane (pool : TmuxPanePool) (succeeds : Bool) : Option (Nat × TmuxPanePool) :=
  if succeeds then some (pool.created, { pool with created := pool.created + 1 }) else none

/-- `checkout`, under the lock. -/
def takePane (pool : TmuxPanePool) (creates : Bool) : Option (Nat × TmuxPanePool) :=
  match pool.available with
  | terminal :: rest => some (terminal, { pool with available := rest })
  | [] =>
      (pool.createPane creates).map fun made =>
        (made.1, { made.2 with allPanes := made.2.allPanes ++ [made.1] })

/-- `checkin`, under the lock. It says whether a permit is to be released. -/
def checkin (pool : TmuxPanePool) (terminal : Nat) : Bool × TmuxPanePool :=
  if terminal ∈ pool.allPanes then
    (true, if pool.closed then pool else { pool with available := pool.available ++ [terminal] })
  else (false, pool)

/-- `replace`, under the lock. -/
def replace (pool : TmuxPanePool) (oldTerminal : Nat) (creates : Bool) :
    Option (Nat × TmuxPanePool) :=
  (pool.createPane creates).map fun made =>
    (made.1, { made.2 with
      allPanes := (made.2.allPanes ++ [made.1]).erase oldTerminal
      available := made.2.available.erase oldTerminal })

/-- `close`, under the lock. -/
def clearPanes (pool : TmuxPanePool) : TmuxPanePool :=
  { pool with allPanes := [], available := [] }

end TmuxPanePool

/-- A thread, by what it does next with the pool. -/
inductive PaneUser
  | outside
  /-- In `checkout`, after its look at `_closed`. -/
  | awaitingPermit
  /-- In `checkout`, with a permit. -/
  | permitted
  /-- Inside `with pool.pane() as handle`. -/
  | holding (terminal : Nat)
  /-- In `checkin`, after the lock is released. -/
  | returning
  /-- In `close`, after its look at `_closed`. -/
  | closing
  /-- In `close`, before the lock is acquired. -/
  | clearing
  deriving DecidableEq

namespace PaneUser

def pane : PaneUser → Option Nat
  | holding terminal => some terminal
  | _ => none

/-- In `checkout`. -/
def checksOut : PaneUser → Bool
  | awaitingPermit | permitted => true
  | _ => false

/-- Between the acquisition of a permit and its release. -/
def hasPermit : PaneUser → Bool
  | permitted | holding _ | returning => true
  | _ => false

/-- With a permit, but without a pane. -/
def inTransit : PaneUser → Bool
  | permitted | returning => true
  | _ => false

end PaneUser

inductive PaneAction
  | setUp
  /-- `checkout` begins. -/
  | checkout
  | acquire
  /-- The timeout of `checkout` expires. -/
  | expire
  | takePane (creates : Bool)
  /-- `handle.terminal = pool.replace(handle.terminal)`. -/
  | replace (creates : Bool)
  | checkin
  | release
  /-- `close` begins. -/
  | close
  | markClosed
  | clearPanes
  deriving DecidableEq

inductive PaneEvent
  | obtained (terminal : Nat)
  | closed
  deriving DecidableEq

namespace TmuxPanePool

/-- One step of a thread: the pool, the thread, and what is seen of it afterwards. -/
def act (pool : TmuxPanePool) :
    PaneUser → PaneAction → Option (TmuxPanePool × PaneUser × List PaneEvent)
  | .outside, .setUp => some ({ pool with initialized := true }, .outside, [])
  | .outside, .checkout =>
      if !pool.initialized || pool.closed then some (pool, .outside, [])
      else some (pool, .awaitingPermit, [])
  | .awaitingPermit, .acquire =>
      if pool.semaphore = 0 then none
      else some ({ pool with semaphore := pool.semaphore - 1 }, .permitted, [])
  | .awaitingPermit, .expire => if pool.semaphore = 0 then some (pool, .outside, []) else none
  | .permitted, .takePane creates =>
      match pool.takePane creates with
      | some (terminal, pool) => some (pool, .holding terminal, [.obtained terminal])
      | none => some (pool, .outside, [])
  | .holding oldTerminal, .replace creates =>
      match pool.replace oldTerminal creates with
      | some (terminal, pool) => some (pool, .holding terminal, [.obtained terminal])
      | none => some (pool, .holding oldTerminal, [])
  | .holding terminal, .checkin =>
      match pool.checkin terminal with
      | (true, pool) => some (pool, .returning, [])
      | (false, pool) => some (pool, .outside, [])
  | .returning, .release =>
      some ({ pool with semaphore := pool.semaphore + 1 }, .outside, [])
  | .outside, .close => if pool.closed then some (pool, .outside, []) else some (pool, .closing, [])
  | .closing, .markClosed => some ({ pool with closed := true }, .clearing, [.closed])
  | .clearing, .clearPanes => some (pool.clearPanes, .outside, [])
  | _, _ => none

end TmuxPanePool

/-- The pool and its threads. -/
structure PaneSystem where
  pool : TmuxPanePool
  users : List PaneUser

namespace PaneSystem

def initial (maxPanes : Nat) (hmaxPanes : 1 ≤ maxPanes) (threads : Nat) : PaneSystem where
  pool := TmuxPanePool.postInit maxPanes hmaxPanes
  users := List.replicate threads .outside

def step (system : PaneSystem) (move : Nat × PaneAction) :
    Option (PaneSystem × List PaneEvent) :=
  match system.users[move.1]? with
  | none => none
  | some user =>
      (system.pool.act user move.2).map fun result =>
        ({ pool := result.1, users := system.users.set move.1 result.2.1 }, result.2.2)

def transitions : TransitionSystem PaneSystem (Nat × PaneAction) PaneEvent where
  step := step

/-- The panes the threads hold. -/
def held (system : PaneSystem) : List Nat :=
  system.users.filterMap PaneUser.pane

/-- No thread is between acquiring and releasing. -/
def Settled (system : PaneSystem) : Prop :=
  ∀ user ∈ system.users, user.inTransit = false

/-- A thread waits in `checkout` for a permit, and there is none. -/
def Blocked (system : PaneSystem) : Prop :=
  PaneUser.awaitingPermit ∈ system.users ∧ system.pool.semaphore = 0

instance (system : PaneSystem) : Decidable system.Settled :=
  inferInstanceAs (Decidable (∀ user ∈ system.users, user.inTransit = false))

/-- What is promised of a run so far. -/
structure Conserves (trace : List PaneEvent) (system : PaneSystem) : Prop where
  permits : system.pool.closed = false → system.Settled →
    system.pool.semaphore + system.held.length = system.pool.maxPanes
  held_nodup : system.pool.closed = false → system.held.Nodup
  available_nodup : system.pool.closed = false → system.pool.available.Nodup
  available_disjoint : system.pool.closed = false → system.pool.available.Disjoint system.held
  length_le : system.pool.closed = false → system.pool.allPanes.length ≤ system.pool.maxPanes
  /-- After `close` no thread obtains a pane. -/
  obtained : trace.Pairwise fun earlier later =>
    earlier = .closed → ∀ terminal, later ≠ .obtained terminal
  /-- After `close` no thread is left waiting for a permit that nobody will release. -/
  not_stuck : system.pool.closed = true → system.Settled → system.Blocked → system.held ≠ []

end PaneSystem

end ShuttleFlow
