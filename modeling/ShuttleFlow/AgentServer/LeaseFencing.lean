import Mathlib.Data.List.Pairwise
import ShuttleFlow.AgentServer.ConversationLease
import ShuttleFlow.Library.Segments

/-! # Fencing by lease generations

A generation keeps older owners out as long as generations grow. They start
again at 1 when the lease file is gone, which a release leaves behind.
-/

namespace ShuttleFlow

namespace LeaseEvent

def claim? : LeaseEvent → Option (String × Int)
  | .claimed owner generation => some (owner, generation)
  | _ => none

def claims (trace : List LeaseEvent) : List (String × Int) := trace.filterMap claim?

/-- The owner and the generation that a call other than a claim succeeds for. -/
def use? : LeaseEvent → Option (String × Int)
  | .claimed _ _ => none
  | .renewed owner generation => some (owner, generation)
  | .wrote owner generation => some (owner, generation)
  | .released owner generation => some (owner, generation)

theorem claims_append (trace later : List LeaseEvent) :
    claims (trace ++ later) = claims trace ++ claims later := List.filterMap_append ..

theorem claims_cons (owner : String) (generation : Int) (later : List LeaseEvent) :
    claims (.claimed owner generation :: later) = (owner, generation) :: claims later := rfl

theorem mem_claims {trace : List LeaseEvent} {owner : String} {generation : Int} :
    (owner, generation) ∈ claims trace ↔ .claimed owner generation ∈ trace := by
  constructor
  · intro hmem
    obtain ⟨event, hevent, hclaim⟩ := List.mem_filterMap.mp hmem
    cases event with
    | claimed other next =>
        cases hclaim
        exact hevent
    | _ => cases hclaim
  · exact fun hmem => List.mem_filterMap.mpr ⟨_, hmem, rfl⟩

theorem claims_of_use {event : LeaseEvent} {use : String × Int} (huse : event.use? = some use) :
    claims [event] = [] := by
  cases event with
  | claimed owner generation => cases huse
  | _ => rfl

/-- What leases are for. -/
structure Fenced (trace : List LeaseEvent) : Prop where
  /-- Nobody else has claimed between a claim and a use of its generation. -/
  unclaimed : ∀ before between after owner generation used,
    trace = before ++ .claimed owner generation :: (between ++ used :: after) →
    used.use? = some (owner, generation) →
    ∀ other next, .claimed other next ∈ between → other = owner
  /-- A new epoch has a greater generation than the claims before it. -/
  increasing : ∀ before between after owner generation other next,
    trace = before ++ .claimed owner generation :: (between ++ .claimed other next :: after) →
    (other ≠ owner ∨ ∃ third found, .claimed third found ∈ between ∧ third ≠ owner) →
    generation < next

/-- Claims grow, and a claim that does not grow is the same claim again. -/
def Growing (granted : List (String × Int)) : Prop :=
  granted.Pairwise fun first second => first = second ∨ first.2 < second.2

theorem Growing.concat {granted : List (String × Int)} (hgrowing : Growing granted)
    {last grant : String × Int} (hlast : granted.getLast? = some last)
    (hgrant : last = grant ∨ last.2 < grant.2) : Growing (granted ++ [grant]) := by
  obtain ⟨earlier, rfl⟩ := List.getLast?_eq_some_iff.mp hlast
  refine List.pairwise_append.mpr ⟨hgrowing, List.pairwise_singleton _ _, ?_⟩
  intro first hfirst second hsecond
  obtain rfl := List.mem_singleton.mp hsecond
  rcases List.mem_append.mp hfirst with hearlier | hsame
  · have hbefore := (List.pairwise_append.mp hgrowing).2.2 first hearlier last
      (List.mem_singleton_self last)
    rcases hbefore with rfl | hlt
    · exact hgrant
    · rcases hgrant with rfl | hlt'
      · exact .inr hlt
      · exact .inr (hlt.trans hlt')
  · obtain rfl := List.mem_singleton.mp hsame
    exact hgrant

/-- Between two equal claims there is only that claim. -/
theorem Growing.eq_between {granted : List (String × Int)} {first second : String × Int}
    {before between after : List (String × Int)} (hgrowing : Growing granted)
    (hgranted : granted = before ++ first :: (between ++ second :: after))
    {claim : String × Int} (hclaim : claim ∈ between) :
    (first = second → claim = first) ∧ (claim ≠ first → first.2 < second.2) := by
  rw [hgranted] at hgrowing
  have htail := (List.pairwise_append.mp hgrowing).2.1
  obtain ⟨hfirst, hrest⟩ := List.pairwise_cons.mp htail
  have hone := hfirst claim (List.mem_append_left _ hclaim)
  have htwo := (List.pairwise_append.mp hrest).2.2 claim hclaim second List.mem_cons_self
  constructor
  · rintro rfl
    rcases hone with heq | hlt
    · exact heq.symm
    · rcases htwo with rfl | hlt'
      · rfl
      · omega
  · intro hne
    rcases hone with heq | hlt
    · exact absurd heq.symm hne
    · rcases htwo with rfl | hlt'
      · exact hlt
      · exact hlt.trans hlt'

/-- Growing claims fence off all uses that go with the last claim. -/
theorem fenced_of_growing {trace : List LeaseEvent} (hgrowing : Growing (claims trace))
    (huses : ∀ before used after use, trace = before ++ used :: after → used.use? = some use →
      (claims before).getLast? = some use) : Fenced trace where
  unclaimed before between after owner generation used htrace huse other next hother := by
    have hlast := huses (before ++ .claimed owner generation :: between) used after
      (owner, generation) (by simp [htrace]) huse
    have hmem : (other, next) ∈ claims between := mem_claims.mpr hother
    rw [claims_append, claims_cons] at hlast
    have hclaims : claims trace =
        claims before ++ (owner, generation) :: (claims between ++ claims after) := by
      have hused : claims (used :: after) = claims after := by
        rw [← List.singleton_append, claims_append, claims_of_use huse, List.nil_append]
      rw [htrace, claims_append, claims_cons, claims_append, hused]
    -- the last claim in between is the same one again
    obtain ⟨middle, last, hbetween⟩ : ∃ middle last, claims between = middle ++ [last] :=
      ⟨_, _, (List.dropLast_append_getLast (List.ne_nil_of_mem hmem)).symm⟩
    rw [hbetween, ← List.cons_append, ← List.append_assoc, List.getLast?_concat] at hlast
    cases hlast
    rw [hbetween] at hmem hclaims
    rcases List.mem_append.mp hmem with hmiddle | hlast
    · rw [List.append_assoc, List.singleton_append] at hclaims
      have hsame := (hgrowing.eq_between hclaims hmiddle).1 rfl
      exact congrArg Prod.fst hsame
    · cases List.mem_singleton.mp hlast
      rfl
  increasing before between after owner generation other next htrace hother := by
    have hclaims : claims trace = claims before ++ (owner, generation) ::
        (claims between ++ (other, next) :: claims after) := by
      simp [htrace, claims, claim?]
    rcases hother with hne | ⟨third, found, hthird, hne⟩
    · have hpairwise := hgrowing
      rw [hclaims] at hpairwise
      have hrest := (List.pairwise_append.mp hpairwise).2.1
      rcases (List.pairwise_cons.mp hrest).1 (other, next)
        (List.mem_append_right _ List.mem_cons_self) with heq | hlt
      · exact absurd (congrArg Prod.fst heq).symm hne
      · exact hlt
    · refine (hgrowing.eq_between hclaims (mem_claims.mpr hthird)).2 fun heq => hne ?_
      exact congrArg Prod.fst heq

end LeaseEvent

namespace LeaseWorld

open LeaseEvent

/-- A claim finds a lease, or nobody else has claimed and the generation is still 1. -/
def continues (world : LeaseWorld) : LeaseCall → Bool
  | .claim lease _ => world.file.readPayload.isSome ||
      world.granted.all fun grant => grant = (lease.ownerInstanceId, 1)
  | _ => true

/-- The invariant of runs whose claims continue. -/
structure Kept (trace : List LeaseEvent) (world : LeaseWorld) : Prop where
  granted : world.granted = claims trace
  growing : Growing (claims trace)
  last : ∀ payload, world.file.readPayload = some payload → claims trace = [] ∨
    (claims trace).getLast? = some (payload.ownerInstanceId, payload.generation)
  uses : ∀ before used after use, trace = before ++ used :: after → used.use? = some use →
    (claims before).getLast? = some use

variable {trace : List LeaseEvent} {world : LeaseWorld}

theorem kept_init (file : LeaseFile) : Kept [] ⟨file, []⟩ where
  granted := rfl
  growing := List.Pairwise.nil
  last payload hpayload := .inl rfl
  uses before used after use htrace := by simp at htrace

/-- The uses of a longer history. -/
theorem Kept.uses_concat (hkept : Kept trace world) {event : LeaseEvent}
    (hevent : ∀ use, event.use? = some use → (claims trace).getLast? = some use) :
    ∀ before used after use, trace ++ [event] = before ++ used :: after →
      used.use? = some use → (claims before).getLast? = some use := by
  intro before used after use htrace huse
  rcases Segments.marker_concat htrace with ⟨rfl, rfl, -⟩ | ⟨earlier, heq, -⟩
  · exact hevent use huse
  · exact hkept.uses before used earlier use heq huse

theorem Kept.use (hkept : Kept trace world) {event : LeaseEvent} {lease : ConversationLease}
    {generation : Int} (huse : event.use? = some (lease.ownerInstanceId, generation))
    (hholds : world.holds lease generation) (howns : lease.owns generation world.file)
    {file : LeaseFile} (hfile : ∀ payload, file.readPayload = some payload →
      (payload.ownerInstanceId, payload.generation) = (lease.ownerInstanceId, generation)) :
    Kept (trace ++ [event]) { world with file := file } := by
  have hclaims : claims (trace ++ [event]) = claims trace := by
    rw [claims_append, claims_of_use huse, List.append_nil]
  obtain ⟨payload, hpayload, howner, hgeneration⟩ := ConversationLease.owns_iff.mp howns
  obtain ⟨grant, hgrant, -⟩ := List.any_eq_true.mp hholds
  have hlast := (hkept.last payload hpayload).resolve_left
    (hkept.granted ▸ List.ne_nil_of_mem hgrant)
  rw [howner, hgeneration] at hlast
  refine ⟨hkept.granted.trans hclaims.symm, hclaims.symm ▸ hkept.growing, ?_,
    hkept.uses_concat fun use heq => ?_⟩
  · intro found hfound
    rw [hclaims, hfile found hfound]
    exact .inr hlast
  · cases huse.symm.trans heq
    exact hlast

theorem Kept.claim (hkept : Kept trace world) {lease : ConversationLease}
    {surroundings : Surroundings} (hcontinues : world.continues (.claim lease surroundings))
    {claim : LeaseClaim} {file : LeaseFile}
    (hclaim : lease.claim surroundings world.file = (.ok claim, file)) :
    Kept (trace ++ [.claimed lease.ownerInstanceId claim.generation])
      ⟨file, world.granted ++ [(lease.ownerInstanceId, claim.generation)]⟩ := by
  have hclaims : claims (trace ++ [.claimed lease.ownerInstanceId claim.generation]) =
      claims trace ++ [(lease.ownerInstanceId, claim.generation)] := claims_append ..
  rcases lease.claim_cases surroundings world.file with ⟨error, heq⟩ | ⟨found, heq, hcases⟩
  · cases hclaim.symm.trans heq
  · cases hclaim.symm.trans heq
    refine ⟨by rw [hkept.granted, hclaims], ?_, ?_, hkept.uses_concat fun use huse => by cases huse⟩
    · rw [hclaims]
      rcases List.eq_nil_or_concat' (claims trace) with hnil | ⟨earlier, last, hlast⟩
      · rw [hnil]
        exact List.pairwise_singleton _ _
      · have hgetLast : (claims trace).getLast? = some last := by
          rw [hlast, List.getLast?_concat]
        refine hkept.growing.concat hgetLast ?_
        rcases hcases with ⟨hnone, hone⟩ | ⟨payload, hpayload, hgeneration⟩
        · -- a generation that starts again is the one claim that there has been
          have hall : ∀ grant ∈ world.granted, grant = (lease.ownerInstanceId, 1) := by
            simpa [continues, hnone] using hcontinues
          have hmem : last ∈ world.granted := by
            rw [hkept.granted, hlast]
            exact List.mem_append_right _ (List.mem_singleton_self last)
          exact .inl (by rw [hall last hmem, hone])
        · have hthere := (hkept.last payload hpayload).resolve_left (by simp [hlast])
          cases hgetLast.symm.trans hthere
          rcases hgeneration with ⟨howner, hsame⟩ | ⟨-, hmore⟩
          · exact .inl (by rw [howner, hsame])
          · refine .inr ?_
            change payload.generation < claim.generation
            omega
    · intro payload hpayload
      rw [ConversationLease.readPayload_writePayload] at hpayload
      cases hpayload
      rw [hclaims, List.getLast?_concat]
      exact .inr rfl

theorem Kept.call (hkept : Kept trace world) {label : LeaseCall}
    (hcontinues : world.continues label) {next : LeaseWorld} {seen : List LeaseEvent}
    (hcall : world.call label = some (next, seen)) : Kept (trace ++ seen) next := by
  cases label with
  | claim lease surroundings =>
      simp only [LeaseWorld.call] at hcall
      split at hcall
      next error file herror =>
        cases hcall
        rcases lease.claim_cases surroundings world.file with ⟨other, heq⟩ | ⟨claim, heq, -⟩
        · cases herror.symm.trans heq
          rw [List.append_nil]
          exact hkept
        · cases herror.symm.trans heq
      next claim file hclaim =>
        cases hcall
        exact hkept.claim hcontinues hclaim
  | renew lease surroundings generation =>
      simp only [LeaseWorld.call, ConversationLease.renew, ConversationLease.assertOwnerLocked]
        at hcall
      split at hcall
      next hholds =>
        by_cases howns : lease.owns generation world.file
        · rw [if_pos howns] at hcall
          cases hcall
          refine hkept.use rfl hholds howns fun payload hpayload => ?_
          rw [ConversationLease.readPayload_writePayload] at hpayload
          cases hpayload
          rfl
        · rw [if_neg howns] at hcall
          cases hcall
          rw [List.append_nil]
          exact hkept
      · cases hcall
  | guardedWrite lease generation =>
      simp only [LeaseWorld.call, ConversationLease.guardedWrite,
        ConversationLease.assertOwnerLocked] at hcall
      split at hcall
      next hholds =>
        by_cases howns : lease.owns generation world.file
        · rw [if_pos howns] at hcall
          cases hcall
          refine hkept.use rfl hholds howns fun payload hpayload => ?_
          obtain ⟨found, hfound, howner, hgeneration⟩ := ConversationLease.owns_iff.mp howns
          cases hfound.symm.trans hpayload
          rw [howner, hgeneration]
        · rw [if_neg howns] at hcall
          cases hcall
          rw [List.append_nil]
          exact hkept
      · cases hcall
  | release lease generation =>
      simp only [LeaseWorld.call, ConversationLease.release] at hcall
      split at hcall
      next hholds =>
        by_cases howns : lease.owns generation world.file
        · rw [if_pos howns, if_pos howns] at hcall
          cases hcall
          exact hkept.use rfl hholds howns fun payload hpayload => by cases hpayload
        · rw [if_neg howns, if_neg howns] at hcall
          cases hcall
          rw [List.append_nil]
          exact hkept
      · cases hcall

/-- Any instances and clocks, in any order of their calls, as long as claims continue. -/
theorem fenced_of_runs {file : LeaseFile}
    (hruns : (instances.restrict continues).Runs ⟨file, []⟩ trace world) : Fenced trace := by
  have hkept : Kept trace world := hruns.invariant_restrict Kept (kept_init file)
    fun _ _ _ _ _ hkept hcontinues hcall => hkept.call hcontinues hcall
  exact fenced_of_growing hkept.growing hkept.uses

def sampleLease (owner : String) : ConversationLease where
  ownerInstanceId := owner
  ttlSeconds := 45

/-- All instances on one host, where no other process runs. -/
def sampleSurroundings (now : ℚ) : Surroundings where
  now := now
  host := "host"
  pid := 1
  found _ := false

/-- A second instance takes over when the lease of the first has expired. -/
theorem fenced_of_runs_takeover :
    Fenced [.claimed "a" 1, .wrote "a" 1, .claimed "b" 2, .renewed "b" 2] :=
  @fenced_of_runs _ ⟨(sampleLease "b").writePayload (sampleSurroundings 60) 2,
    [("a", 1), ("b", 2)]⟩ .missing (TransitionSystem.Runs.of_run
    [.claim (sampleLease "a") (sampleSurroundings 0), .guardedWrite (sampleLease "a") 1,
      .claim (sampleLease "b") (sampleSurroundings 50), .guardedWrite (sampleLease "a") 1,
      .renew (sampleLease "b") (sampleSurroundings 60) 2] (by decide +kernel))

/-- After two releases, the first claim of an instance is valid again. -/
theorem not_fenced_after_releases :
    ∃ trace world, instances.Runs ⟨.missing, []⟩ trace world ∧ ¬Fenced trace := by
  refine ⟨[.claimed "a" 1, .released "a" 1, .claimed "b" 1, .released "b" 1, .claimed "a" 1,
    .wrote "a" 1], ⟨(sampleLease "a").writePayload (sampleSurroundings 0) 1,
    [("a", 1), ("b", 1), ("a", 1)]⟩, .of_run
    [.claim (sampleLease "a") (sampleSurroundings 0), .release (sampleLease "a") 1,
      .claim (sampleLease "b") (sampleSurroundings 0), .release (sampleLease "b") 1,
      .claim (sampleLease "a") (sampleSurroundings 0), .guardedWrite (sampleLease "a") 1]
    (by decide +kernel), ?_⟩
  intro hfenced
  have hsame := hfenced.unclaimed [] [.released "a" 1, .claimed "b" 1, .released "b" 1,
    .claimed "a" 1] [] "a" 1 (.wrote "a" 1) rfl rfl "b" 1 (by simp)
  exact absurd hsame (by decide)

end LeaseWorld

end ShuttleFlow
