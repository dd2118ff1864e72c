import Mathlib.Data.List.DropRight
import ShuttleFlow.Git.CachedRepo

/-! # Fetching extensions

All refs of a url share one repository in the cache, which is where its last call left it.
-/

namespace ShuttleFlow

structure ExtensionFetchError where
  message : String
  deriving DecidableEq, Repr

structure ExtensionCall where
  source : String
  /-- What the source is parsed to. -/
  url : String
  ref : Option String := none
  update : Bool := true
  repoPath : Option String := none
  git : GitHelper
  lockTimesOut : Bool := false
  /-- Whether there is something at a path. -/
  pathExists : String → Bool := fun _ => true

/-- The repositories by their paths. -/
abbrev ExtensionCache := String → Option GitClone

namespace ExtensionCall

variable (call : ExtensionCall)

/-- An empty ref is none. -/
def requestedRef : Option String :=
  call.ref.filter fun ref => ref ≠ ""

/-- `None` when the lock or a git command fails. -/
def tryCachedCloneOrUpdate (repo : Option GitClone) : Bool × Option GitClone :=
  if call.lockTimesOut then (false, repo)
  else
    match call.git.doCloneOrUpdate call.url call.requestedRef call.update repo with
    | (.error _, repo) => (false, repo)
    | (.ok (), repo) => (true, repo)

def subpath (repoPath : String) : String :=
  String.ofList ((repoPath.toList.dropWhile (· == '/')).rdropWhile (· == '/'))

def applySubpath (basePath context : String) : Except ExtensionFetchError String :=
  match call.repoPath.filter fun path => path ≠ "" with
  | none => .ok basePath
  | some repoPath =>
      let finalPath :=
        if subpath repoPath = "" then basePath else basePath ++ "/" ++ subpath repoPath
      if call.pathExists finalPath then .ok finalPath
      else .error ⟨s!"Subdirectory '{repoPath}' not found in {context}"⟩

/-- Without the commit of the repository, the answer is the ref that was asked for. -/
def resolvedRef (repo : Option GitClone) : String :=
  ((repo.bind call.git.headCommit).or call.requestedRef).getD "HEAD"

variable (getCachePath : String → String)

def fetchRemoteSourceWithResolution (cache : ExtensionCache) :
    Except ExtensionFetchError (String × String) × ExtensionCache :=
  let repoCachePath := getCachePath call.url
  match call.tryCachedCloneOrUpdate (cache repoCachePath) with
  | (false, repo) =>
      (.error ⟨s!"Failed to fetch extension from {call.source}"⟩,
        Function.update cache repoCachePath repo)
  | (true, repo) =>
      ((call.applySubpath repoCachePath "extension repository").map fun finalPath =>
          (finalPath, call.resolvedRef repo),
        Function.update cache repoCachePath repo)

end ExtensionCall

/-- What a sequence of calls leaves in the cache. -/
def ExtensionCache.run (getCachePath : String → String) (calls : List ExtensionCall) :
    ExtensionCache :=
  calls.foldl (fun cache call => (call.fetchRemoteSourceWithResolution getCachePath cache).2)
    fun _ => none

/-! ## Whether a call gets the ref it asks for

The repository of a url follows one branch or one tag. Other refs are checked out only when they
came along with it.
-/

/-- The last command of a call that moves the head. -/
inductive GitMove
  | stays
  | checkout (ref : String)
  | reset (branch : String)
  deriving DecidableEq, Repr

namespace GitHelper

variable (git : GitHelper)

/-- A branch that shares its name with a tag is not reset. -/
def checkoutMove (ref : String) (clone : GitClone) : GitMove :=
  if git.fails .checkout ∨ clone.resolve ref = none then .stays
  else if (clone.localBranches ref).isNone ∨ git.fails .currentBranch ∨ git.fails .resetHard ∨
      (clone.tags ref).isSome then .checkout ref
  else .reset ref

def latestMove (clone : GitClone) : GitMove :=
  match clone.head with
  | .branch name =>
      if git.fails .resetHard ∨ (clone.tags name).isSome then .stays else .reset name
  | .detached _ =>
      match git.getDefaultBranch clone with
      | none => .stays
      | some branch =>
          if git.fails .checkout then .stays
          else if git.fails .resetHard then .checkout branch
          else .reset branch

end GitHelper

/-- A branch is reset to what it was on the remote. -/
def GitMove.target (clone : GitClone) : GitMove → Option String
  | stays => clone.headCommit
  | checkout ref => clone.resolve ref
  | reset branch => clone.seen.branches branch

namespace ExtensionCall

variable (call : ExtensionCall)

/-- The repository as it is when the call looks for the ref. -/
def known (clone : GitClone) : GitClone :=
  if call.update then (call.git.fetch clone).getD clone else clone

def move (clone : GitClone) : GitMove :=
  match call.requestedRef with
  | some ref =>
      if call.update ∧ call.git.fetch clone = none then .stays
      else call.git.checkoutMove ref (call.known clone)
  | none =>
      if call.update ∧ call.git.fetch clone ≠ none then call.git.latestMove (call.known clone)
      else .stays

/-- Git fails where that is not swallowed. -/
def GitRaises : Option GitClone → Prop
  | none =>
      call.git.fails .clone ∨ ∃ ref, call.requestedRef = some ref ∧
        (call.git.remotes call.url).branches ref = none ∧
        (call.git.remotes call.url).tags ref = none
  | some clone =>
      match call.requestedRef with
      | some ref =>
          call.update = false ∧ (call.git.fails .checkout ∨ clone.resolve ref = none ∨
            call.git.fails .currentBranch)
      | none =>
          call.update = true ∧ ∃ fetched, call.git.fetch clone = some fetched ∧
            (call.git.fails .currentBranch ∨
              ∃ name, fetched.head = .branch name ∧ fetched.localBranches name = none)

/-- The answer is the commit, or the ref that was asked for happens to be its name. -/
def Reports (commit : String) : Prop :=
  call.git.fails .headCommit = false ∨ call.requestedRef.getD "HEAD" = commit

/-- The call fails, or it ends on what the ref denotes on the remote. -/
def Pinned (basePath : String) (repo : Option GitClone) : Prop :=
  call.lockTimesOut ∨ (∃ error, call.applySubpath basePath "extension repository" = .error error) ∨
    call.GitRaises repo ∨
    match repo with
    | none =>
        ∃ commit, (call.git.remotes call.url).denotes call.requestedRef = some commit ∧
          call.Reports commit
    | some clone =>
        clone.url = call.url ∧
          ∃ commit, (call.known clone).seen.denotes call.requestedRef = some commit ∧
            (call.move clone).target (call.known clone) = some commit ∧ call.Reports commit

end ExtensionCall

/-- The call raises, or its answer and the working tree are what the ref denoted on the remote of
its url at the last clone or fetch. -/
def ExtensionCache.Honours (getCachePath : String → String) (cache : ExtensionCache)
    (call : ExtensionCall) : Prop :=
  match call.fetchRemoteSourceWithResolution getCachePath cache with
  | (.error _, _) => True
  | (.ok (_, resolvedRef), after) =>
      ∃ clone, after (getCachePath call.url) = some clone ∧ clone.url = call.url ∧
        clone.headCommit = some resolvedRef ∧
        clone.seen.denotes call.requestedRef = some resolvedRef

/-! ## What a repository follows -/

namespace GitClone

/-- A repository knows the branch that it follows, as it was on the remote, and no other one. -/
structure Sound (clone : GitClone) : Prop where
  originBranches : ∀ name commit, clone.originBranches name = some commit →
    clone.refspec = some (.branch name) ∧ clone.seen.branches name = some commit
  originBranches_isSome : ∀ name, clone.refspec = some (.branch name) →
    (clone.originBranches name).isSome
  localBranches : ∀ name, (clone.localBranches name).isSome ↔ clone.refspec = some (.branch name)
  originHead : ∀ name, clone.originHead = some name → clone.refspec = some (.branch name)
  head : ∀ name, clone.head = .branch name →
    clone.refspec = none ∨ clone.refspec = some (.branch name)

variable {clone moved : GitClone} {git : GitHelper} {name ref commit : String}

@[simp]
theorem headCommit_moveHead (commit : String) (clone : GitClone) :
    (clone.moveHead commit).headCommit = some commit := by
  cases hhead : clone.head with
  | branch name => simp [moveHead, headCommit, hhead]
  | detached old => simp [moveHead, headCommit, hhead]

@[simp]
theorem url_moveHead : (clone.moveHead commit).url = clone.url := by
  unfold moveHead
  split <;> rfl

@[simp]
theorem seen_moveHead : (clone.moveHead commit).seen = clone.seen := by
  unfold moveHead
  split <;> rfl

theorem Sound.moveHead (hsound : clone.Sound) (hrefspec : clone.refspec ≠ none) :
    (clone.moveHead commit).Sound := by
  unfold GitClone.moveHead
  split
  next name hhead =>
    have hname := (hsound.head name hhead).resolve_left hrefspec
    refine { hsound with localBranches := fun other => ?_ }
    change (Function.update clone.localBranches name (some commit) other).isSome ↔ _
    rw [Function.update_apply]
    split
    next heq =>
      rw [heq]
      exact ⟨fun _ => hname, fun _ => rfl⟩
    next => exact hsound.localBranches other
  next =>
    refine { hsound with head := fun name hhead => ?_ }
    cases hhead

end GitClone

namespace GitHelper

variable {git : GitHelper} {clone moved fetched : GitClone} {url ref name commit : String}

theorem sound_emptyClone (git : GitHelper) (url : String) : (git.emptyClone url).Sound where
  originBranches := by
    intro name commit hcommit
    cases hcommit
  originBranches_isSome := by
    intro name hrefspec
    cases hrefspec
  localBranches := by
    intro name
    exact ⟨fun hsome => absurd hsome Bool.false_ne_true, fun hrefspec => by cases hrefspec⟩
  originHead := by
    intro name hname
    cases hname
  head := fun _ _ => .inl rfl

theorem sound_cloneBranch (hcommit : (git.remotes url).branches name = some commit) :
    (git.cloneBranch url name commit).Sound where
  originBranches := by
    intro other found hfound
    change Function.update (fun _ => none) name (some commit) other = some found at hfound
    rw [Function.update_apply] at hfound
    split at hfound
    next heq =>
      cases hfound
      subst heq
      exact ⟨rfl, hcommit⟩
    next => cases hfound
  originBranches_isSome := by
    intro other hrefspec
    cases hrefspec
    change (Function.update (fun _ => none) name (some commit) name).isSome
    rw [Function.update_self]
    rfl
  localBranches := by
    intro other
    change (Function.update (fun _ => none) name (some commit) other).isSome ↔
      some (GitRefspec.branch name) = some (.branch other)
    rw [Function.update_apply]
    split
    next heq => simp [heq]
    next hne => simp [Ne.symm hne]
  originHead := by
    intro other hother
    change (if _ then some name else none) = some other at hother
    split at hother
    next =>
      cases hother
      rfl
    next => cases hother
  head := by
    intro other hother
    cases hother
    exact .inr rfl

@[simp]
theorem headCommit_cloneBranch (git : GitHelper) (url name commit : String) :
    (git.cloneBranch url name commit).headCommit = some commit := by
  change Function.update (fun _ => none) name (some commit) name = some commit
  rw [Function.update_self]

theorem sound_cloneTag (git : GitHelper) (url name commit : String) :
    (git.cloneTag url name commit).Sound where
  originBranches := by
    intro other found hfound
    cases hfound
  originBranches_isSome := by
    intro other hrefspec
    cases hrefspec
  localBranches := by
    intro other
    exact ⟨fun hsome => absurd hsome Bool.false_ne_true, fun hrefspec => by cases hrefspec⟩
  originHead := by
    intro other hother
    cases hother
  head := by
    intro other hother
    cases hother

theorem clone_eq_some {branch : Option String} (hclone : git.clone url branch = some clone) :
    clone.Sound ∧ clone.url = url ∧ clone.seen = git.remotes url ∧
      clone.headCommit = (git.remotes url).denotes branch := by
  unfold GitHelper.clone at hclone
  split at hclone
  next => cases hclone
  next =>
    split at hclone
    next =>
      split at hclone
      next hnone =>
        cases hclone
        exact ⟨sound_emptyClone git url, rfl, rfl, hnone.symm⟩
      next commit hcommit =>
        cases hclone
        refine ⟨sound_cloneBranch hcommit, rfl, rfl, ?_⟩
        rw [headCommit_cloneBranch, hcommit]
    next name =>
      split at hclone
      next commit hcommit =>
        cases hclone
        refine ⟨sound_cloneBranch hcommit, rfl, rfl, ?_⟩
        rw [headCommit_cloneBranch, GitRemote.denotes, hcommit, Option.some_or]
      next commit hnone hcommit =>
        cases hclone
        refine ⟨sound_cloneTag git url name commit, rfl, rfl, ?_⟩
        rw [GitRemote.denotes, hnone, hcommit, Option.none_or, Option.some_or]
        rfl
      next => cases hclone

theorem clone_eq_none {branch : Option String} :
    git.clone url branch = none ↔ git.fails .clone ∨ ∃ ref, branch = some ref ∧
      (git.remotes url).branches ref = none ∧ (git.remotes url).tags ref = none := by
  unfold GitHelper.clone
  split
  next hfails => exact ⟨fun _ => .inl hfails, fun _ => rfl⟩
  next hfails =>
    split
    next => split <;> simp [hfails]
    next name => split <;> simp_all

theorem fetch_eq_some (hsound : clone.Sound) (hfetch : git.fetch clone = some fetched) :
    fetched.Sound ∧ fetched.url = clone.url ∧ fetched.seen = git.remotes clone.url := by
  unfold GitHelper.fetch at hfetch
  split at hfetch
  next => cases hfetch
  next =>
    split at hfetch
    next hrefspec =>
      cases hfetch
      refine ⟨{ hsound with originBranches := fun name commit hcommit => ?_ }, rfl, rfl⟩
      cases hrefspec.symm.trans (hsound.originBranches name commit hcommit).1
    next name hrefspec =>
      obtain ⟨commit, hcommit, hfetched⟩ := Option.map_eq_some_iff.mp hfetch
      cases hfetched
      refine ⟨?_, rfl, rfl⟩
      refine
        { hsound with
          originBranches := fun other found hfound => ?_
          originBranches_isSome := fun other hother => ?_ }
      · change Function.update clone.originBranches name (some commit) other = some found at hfound
        rw [Function.update_apply] at hfound
        split at hfound
        next heq =>
          cases hfound
          subst heq
          exact ⟨hrefspec, hcommit⟩
        next hne =>
          -- No other branch was known before.
          cases hrefspec.symm.trans (hsound.originBranches other found hfound).1
          exact absurd rfl hne
      · cases hrefspec.symm.trans hother
        change (Function.update clone.originBranches name (some commit) name).isSome
        rw [Function.update_self]
        rfl
    next name hrefspec =>
      obtain ⟨commit, hcommit, hfetched⟩ := Option.map_eq_some_iff.mp hfetch
      cases hfetched
      refine ⟨{ hsound with originBranches := fun other found hfound => ?_ }, rfl, rfl⟩
      cases hrefspec.symm.trans (hsound.originBranches other found hfound).1

/-- What a command that moves the head of a repository leaves. -/
structure Moves (clone moved : GitClone) (commit : Option String) : Prop where
  sound : moved.Sound
  url : moved.url = clone.url
  seen : moved.seen = clone.seen
  headCommit : moved.headCommit = commit

theorem Moves.refl (hsound : clone.Sound) : Moves clone clone clone.headCommit :=
  ⟨hsound, rfl, rfl, rfl⟩

theorem resetHard_eq_none (hsound : clone.Sound) :
    git.resetHard name clone = none ↔
      git.fails .resetHard ∨ clone.refspec ≠ some (.branch name) := by
  unfold resetHard
  split
  next hfails => exact ⟨fun _ => .inl hfails, fun _ => rfl⟩
  next hfails =>
    rw [Option.map_eq_none_iff]
    constructor
    · intro hnone
      refine .inr fun hrefspec => ?_
      have hsome := hsound.originBranches_isSome name hrefspec
      rw [hnone] at hsome
      cases hsome
    · intro hrefspec
      cases horigin : clone.originBranches name with
      | none => rfl
      | some commit =>
          exact absurd (hsound.originBranches name commit horigin).1
            (hrefspec.resolve_left hfails)

theorem resetHard_eq_some (hsound : clone.Sound) (hreset : git.resetHard name clone = some moved) :
    Moves clone moved (clone.seen.branches name) := by
  unfold resetHard at hreset
  split at hreset
  next => cases hreset
  next =>
    obtain ⟨commit, horigin, hmoved⟩ := Option.map_eq_some_iff.mp hreset
    obtain ⟨hrefspec, hseen⟩ := hsound.originBranches name commit horigin
    cases hmoved
    refine ⟨hsound.moveHead ?_, GitClone.url_moveHead, GitClone.seen_moveHead, ?_⟩
    · rw [hrefspec]
      exact Option.some_ne_none _
    · rw [GitClone.headCommit_moveHead, hseen]

theorem checkout_eq_none :
    git.checkout ref clone = none ↔ git.fails .checkout ∨ clone.resolve ref = none := by
  unfold GitHelper.checkout GitClone.resolve
  split
  next hfails => exact ⟨fun _ => .inl hfails, fun _ => rfl⟩
  next hfails =>
    split
    next hlocal =>
      obtain ⟨commit, hcommit⟩ := Option.isSome_iff_exists.mp hlocal
      simp [hfails, hcommit]
    next hlocal =>
      rw [Option.not_isSome_iff_eq_none] at hlocal
      rw [hlocal, Option.none_or]
      split
      next hsome => simp [hfails, hsome]
      next hnone hsome => simp [hfails, hnone, hsome]
      next hnone horigin => simp [hnone, horigin]

/-- The head follows the branch of that name, if the repository has it. -/
theorem checkout_eq_some (hsound : clone.Sound) (hcheckout : git.checkout ref clone = some moved) :
    Moves clone moved (clone.resolve ref) ∧ moved.tags = clone.tags ∧
      moved.localBranches = clone.localBranches ∧ moved.refspec = clone.refspec ∧
      if (clone.localBranches ref).isSome then moved.head = .branch ref
      else ∃ commit, moved.head = .detached commit := by
  unfold GitHelper.checkout at hcheckout
  unfold GitClone.resolve
  split at hcheckout
  next => cases hcheckout
  next =>
    split at hcheckout
    next hlocal =>
      obtain ⟨commit, hcommit⟩ := Option.isSome_iff_exists.mp hlocal
      cases hcheckout
      rw [if_pos hlocal, hcommit, Option.some_or]
      refine ⟨⟨?_, rfl, rfl, hcommit⟩, rfl, rfl, rfl, rfl⟩
      refine { hsound with head := fun name hhead => ?_ }
      cases hhead
      exact .inr ((hsound.localBranches ref).mp hlocal)
    next hlocal =>
      rw [if_neg hlocal]
      rw [Option.not_isSome_iff_eq_none] at hlocal
      rw [hlocal, Option.none_or]
      split at hcheckout
      next commit hcommit =>
        cases hcheckout
        rw [hcommit, Option.some_or]
        refine ⟨⟨?_, rfl, rfl, rfl⟩, rfl, rfl, rfl, commit, rfl⟩
        refine { hsound with head := fun name hhead => ?_ }
        cases hhead
      next commit hnone horigin =>
        -- A branch of the remote that is known has been checked out before.
        have hrefspec := (hsound.originBranches ref commit horigin).1
        have hsome := (hsound.localBranches ref).mpr hrefspec
        rw [hlocal] at hsome
        cases hsome
      next => cases hcheckout

theorem length_lt_length_heads (name : String) : name.length < ("heads/" ++ name).length := by
  rw [String.length_append]
  exact Nat.lt_add_of_pos_left (by decide)

/-- Without a branch of that name, there is nothing to reset to. -/
theorem resetHard_heads (hsound : clone.Sound) (hrefspec : clone.refspec = some (.branch name)) :
    git.resetHard ("heads/" ++ name) clone = none := by
  rw [resetHard_eq_none hsound, hrefspec]
  refine .inr fun heq => ?_
  have hname := GitRefspec.branch.inj (Option.some.inj heq)
  exact (length_lt_length_heads name).ne (congrArg String.length hname)

theorem tryResetToOrigin_moves (git : GitHelper) (hsound : clone.Sound) (name : String)
    (hrefspec : clone.refspec = some (.branch name)) :
    Moves clone (git.tryResetToOrigin name clone)
      (if git.fails .resetHard then clone.headCommit else clone.seen.branches name) := by
  unfold tryResetToOrigin
  cases hreset : git.resetHard name clone with
  | none =>
      rw [if_pos (((resetHard_eq_none hsound).mp hreset).resolve_right (not_not_intro hrefspec))]
      exact Moves.refl hsound
  | some moved =>
      have hfails : ¬git.fails .resetHard := fun hfails =>
        Option.some_ne_none _ (hreset.symm.trans ((resetHard_eq_none hsound).mpr (.inl hfails)))
      rw [if_neg hfails]
      exact resetHard_eq_some hsound hreset

theorem Moves.trans {middle : GitClone} {first second : Option String}
    (hfirst : Moves clone middle first) (hsecond : Moves middle moved second) :
    Moves clone moved second :=
  ⟨hsecond.sound, hsecond.url.trans hfirst.url, hsecond.seen.trans hfirst.seen, hsecond.headCommit⟩

/-- The branch that is checked out is reset, if its name is not one of a tag, too. -/
theorem resetCurrent_moves (git : GitHelper) (hsound : clone.Sound)
    (hrefspec : clone.refspec = some (.branch name)) :
    Moves clone
      (git.tryResetToOrigin (if (clone.tags name).isSome then "heads/" ++ name else name) clone)
      (if git.fails .resetHard ∨ (clone.tags name).isSome then clone.headCommit
        else clone.seen.branches name) := by
  by_cases htag : (clone.tags name).isSome
  · rw [if_pos htag, if_pos (.inr htag), tryResetToOrigin, resetHard_heads hsound hrefspec]
    exact Moves.refl hsound
  · rw [if_neg htag]
    have hmoves := tryResetToOrigin_moves git hsound name hrefspec
    refine { hmoves with headCommit := hmoves.headCommit.trans ?_ }
    exact if_congr (or_iff_left htag).symm rfl rfl

theorem currentBranch_of_branch (hhead : clone.head = .branch name)
    (hlocal : (clone.localBranches name).isSome) (hfails : ¬git.fails .currentBranch) :
    git.currentBranch clone =
      some (some (if (clone.tags name).isSome then "heads/" ++ name else name)) := by
  rw [currentBranch, if_neg hfails, hhead]
  simp only [Option.isNone_iff_eq_none, Option.isSome_iff_ne_none.mp hlocal, if_false]

theorem currentBranch_of_detached (hhead : clone.head = .detached commit)
    (hfails : ¬git.fails .currentBranch) : git.currentBranch clone = some none := by
  rw [currentBranch, if_neg hfails, hhead]

theorem currentBranch_eq_none :
    git.currentBranch clone = none ↔ git.fails .currentBranch ∨
      ∃ name, clone.head = .branch name ∧ clone.localBranches name = none := by
  unfold currentBranch
  split
  next hfails => exact ⟨fun _ => .inl hfails, fun _ => rfl⟩
  next hfails =>
    split
    next hhead => simp [hfails, hhead]
    next name hhead => simp [hfails, hhead]

/-! ## What the functions do -/

theorem checkoutRef_moves (git : GitHelper) (hsound : clone.Sound) (ref : String) :
    Moves clone (git.checkoutRef ref clone).2 ((git.checkoutMove ref clone).target clone) := by
  unfold checkoutRef checkoutMove
  cases hcheckout : git.checkout ref clone with
  | none =>
      rw [if_pos (checkout_eq_none.mp hcheckout)]
      exact Moves.refl hsound
  | some moved =>
      have hdone : ¬(git.fails .checkout ∨ clone.resolve ref = none) := fun hfails =>
        Option.some_ne_none _ (hcheckout.symm.trans (checkout_eq_none.mpr hfails))
      obtain ⟨hmoves, htags, hlocals, hrefspecs, hhead⟩ := checkout_eq_some hsound hcheckout
      rw [if_neg hdone]
      by_cases hfails : git.fails .currentBranch
      · rw [if_pos (.inr (.inl hfails))]
        simp only [currentBranch_eq_none.mpr (.inl hfails)]
        exact hmoves
      · by_cases hlocal : (clone.localBranches ref).isSome
        · rw [if_pos hlocal] at hhead
          have hrefspec := (hsound.localBranches ref).mp hlocal
          simp only [currentBranch_of_branch hhead (hlocals ▸ hlocal) hfails]
          have hreset := resetCurrent_moves git hmoves.sound (hrefspecs.trans hrefspec)
          rw [htags, hmoves.headCommit, hmoves.seen] at hreset
          rw [htags]
          refine { hmoves.trans hreset with headCommit := hreset.headCommit.trans ?_ }
          by_cases hstays : git.fails .resetHard ∨ (clone.tags ref).isSome
          · rw [if_pos hstays, if_pos (.inr (.inr hstays))]
            rfl
          · rw [if_neg hstays, if_neg]
            · rfl
            · rintro (hnone | hcurrent | hreset)
              · exact Option.isSome_iff_ne_none.mp hlocal (Option.isNone_iff_eq_none.mp hnone)
              · exact hfails hcurrent
              · exact hstays hreset
        · rw [if_neg hlocal] at hhead
          obtain ⟨commit, hhead⟩ := hhead
          simp only [currentBranch_of_detached hhead hfails]
          have hnone := Option.isNone_iff_eq_none.mpr (Option.not_isSome_iff_eq_none.mp hlocal)
          rw [if_pos (.inl hnone)]
          exact hmoves

theorem checkoutRef_error (hsound : clone.Sound) (ref : String) :
    (∃ command, (git.checkoutRef ref clone).1 = .error command) ↔
      git.fails .checkout ∨ clone.resolve ref = none ∨ git.fails .currentBranch := by
  unfold checkoutRef
  cases hcheckout : git.checkout ref clone with
  | none => exact ⟨fun _ => or_assoc.mp (.inl (checkout_eq_none.mp hcheckout)), fun _ => ⟨_, rfl⟩⟩
  | some moved =>
      have hdone : ¬(git.fails .checkout ∨ clone.resolve ref = none) := fun hfails =>
        Option.some_ne_none _ (hcheckout.symm.trans (checkout_eq_none.mpr hfails))
      obtain ⟨hmoves, htags, hlocals, hrefspecs, hhead⟩ := checkout_eq_some hsound hcheckout
      rw [← or_assoc, or_iff_right hdone]
      by_cases hfails : git.fails .currentBranch
      · simp only [currentBranch_eq_none.mpr (.inl hfails)]
        exact ⟨fun _ => hfails, fun _ => ⟨_, rfl⟩⟩
      · by_cases hlocal : (clone.localBranches ref).isSome
        · rw [if_pos hlocal] at hhead
          simp only [currentBranch_of_branch hhead (hlocals ▸ hlocal) hfails]
          exact ⟨fun ⟨_, herror⟩ => (by cases herror), fun hcurrent => absurd hcurrent hfails⟩
        · rw [if_neg hlocal] at hhead
          obtain ⟨commit, hhead⟩ := hhead
          simp only [currentBranch_of_detached hhead hfails]
          exact ⟨fun ⟨_, herror⟩ => (by cases herror), fun hcurrent => absurd hcurrent hfails⟩

theorem recoverFromDetachedHead_moves (hsound : clone.Sound)
    (hhead : clone.head = .detached commit) :
    Moves clone (git.recoverFromDetachedHead clone) ((git.latestMove clone).target clone) := by
  unfold recoverFromDetachedHead latestMove
  rw [hhead]
  simp only
  cases hdefault : git.getDefaultBranch clone with
  | none => exact Moves.refl hsound
  | some branch =>
      have hrefspec : clone.refspec = some (.branch branch) := by
        unfold getDefaultBranch at hdefault
        split at hdefault
        next => cases hdefault
        next => exact hsound.originHead branch hdefault
      simp only
      cases hcheckout : git.checkout branch clone with
      | none =>
          have hresolve : clone.resolve branch ≠ none := by
            have hsome := (hsound.localBranches branch).mpr hrefspec
            obtain ⟨found, hfound⟩ := Option.isSome_iff_exists.mp hsome
            rw [GitClone.resolve, hfound, Option.some_or]
            exact Option.some_ne_none _
          rw [if_pos ((checkout_eq_none.mp hcheckout).resolve_right hresolve)]
          exact Moves.refl hsound
      | some moved =>
          have hdone : ¬git.fails .checkout := fun hfails =>
            Option.some_ne_none _ (hcheckout.symm.trans (checkout_eq_none.mpr (.inl hfails)))
          obtain ⟨hmoves, _, _, hrefspecs, _⟩ := checkout_eq_some hsound hcheckout
          have hreset := tryResetToOrigin_moves git hmoves.sound branch (hrefspecs.trans hrefspec)
          rw [hmoves.headCommit, hmoves.seen] at hreset
          refine { hmoves.trans hreset with headCommit := hreset.headCommit.trans ?_ }
          rw [if_neg hdone]
          split <;> rfl

theorem updateRepository_of_fetch_fails (hfetch : git.fetch clone = none) (ref : Option String) :
    git.updateRepository ref clone = (.ok (), clone) := by
  unfold updateRepository
  simp only [hfetch]

theorem updateRepository_ref (hfetch : git.fetch clone = some fetched) (ref : String) :
    git.updateRepository (some ref) clone = (.ok (), git.tryCheckoutAndReset ref fetched) := by
  unfold updateRepository
  simp only [hfetch]

/-- Without a ref, the current branch is brought up to date, whichever it is. -/
theorem updateLatest_moves (hsound : clone.Sound) (hfetch : git.fetch clone = some fetched) :
    Moves fetched (git.updateRepository none clone).2
      (if git.currentBranch fetched = none then fetched.headCommit
        else (git.latestMove fetched).target fetched) := by
  have hfetched := (fetch_eq_some hsound hfetch).1
  unfold updateRepository
  simp only [hfetch]
  by_cases hcurrent : git.currentBranch fetched = none
  · simp only [hcurrent, if_true]
    exact Moves.refl hfetched
  · rw [if_neg hcurrent]
    rw [currentBranch_eq_none, not_or] at hcurrent
    obtain ⟨hfails, hborn⟩ := hcurrent
    cases hhead : fetched.head with
    | detached commit =>
        simp only [currentBranch_of_detached hhead hfails]
        exact recoverFromDetachedHead_moves hfetched hhead
    | branch name =>
        have hlocal : (fetched.localBranches name).isSome :=
          Option.isSome_iff_ne_none.mpr fun hnone => hborn ⟨name, hhead, hnone⟩
        simp only [currentBranch_of_branch hhead hlocal hfails]
        have hreset := resetCurrent_moves git hfetched ((hfetched.localBranches name).mp hlocal)
        refine { hreset with headCommit := hreset.headCommit.trans ?_ }
        unfold latestMove
        rw [hhead]
        simp only
        split <;> rfl

end GitHelper

/-! ## Calls -/

namespace ExtensionCall

variable {call : ExtensionCall} {clone fetched : GitClone}

theorem known_of_fetch (hupdate : call.update = true)
    (hfetch : call.git.fetch clone = some fetched) : call.known clone = fetched := by
  rw [known, if_pos hupdate, hfetch, Option.getD_some]

theorem known_of_not_fetch (hstale : call.update = true → call.git.fetch clone = none) :
    call.known clone = clone := by
  unfold known
  split
  next hupdate => rw [hstale hupdate, Option.getD_none]
  next => rfl

theorem doCloneOrUpdate_error (hsound : clone.Sound) :
    (∃ command, (call.git.doCloneOrUpdate call.url call.requestedRef call.update
        (some clone)).1 = .error command) ↔ call.GitRaises (some clone) := by
  unfold GitHelper.doCloneOrUpdate GitRaises
  cases hupdate : call.update with
  | true =>
      cases hfetch : call.git.fetch clone with
      | none =>
          simp only [GitHelper.updateRepository_of_fetch_fails hfetch]
          cases call.requestedRef <;> simp [hfetch]
      | some fetched =>
          cases call.requestedRef with
          | some ref => simp [GitHelper.updateRepository_ref hfetch]
          | none =>
              unfold GitHelper.updateRepository
              simp only [hfetch, true_and, Option.some.injEq, exists_eq_left']
              rw [← GitHelper.currentBranch_eq_none]
              cases hcurrent : call.git.currentBranch fetched with
              | none => exact ⟨fun _ => rfl, fun _ => ⟨_, rfl⟩⟩
              | some branch => cases branch <;> simp
  | false =>
      cases call.requestedRef with
      | some ref =>
          simp only [true_and]
          exact GitHelper.checkoutRef_error hsound ref
      | none => simp

/-- The head ends where the last command moves it. -/
theorem doCloneOrUpdate_moves (call : ExtensionCall) (hsound : clone.Sound) :
    ∃ moved, (call.git.doCloneOrUpdate call.url call.requestedRef call.update
        (some clone)).2 = some moved ∧ moved.Sound ∧
      (¬call.GitRaises (some clone) →
        GitHelper.Moves (call.known clone) moved ((call.move clone).target (call.known clone))) ∧
      (call.known clone).url = clone.url := by
  unfold GitHelper.doCloneOrUpdate
  cases hupdate : call.update with
  | true =>
      cases hfetch : call.git.fetch clone with
      | none =>
          simp only [GitHelper.updateRepository_of_fetch_fails hfetch]
          rw [known_of_not_fetch fun _ => hfetch]
          refine ⟨clone, rfl, hsound, fun _ => ?_, rfl⟩
          unfold move
          cases call.requestedRef with
          | some ref =>
              simp only [if_pos (And.intro hupdate hfetch)]
              exact GitHelper.Moves.refl hsound
          | none =>
              simp only
              rw [if_neg fun hfetched => hfetched.2 hfetch]
              exact GitHelper.Moves.refl hsound
      | some fetched =>
          obtain ⟨hfetched, hurl, -⟩ := GitHelper.fetch_eq_some hsound hfetch
          have hsome : call.git.fetch clone ≠ none := by
            rw [hfetch]
            exact Option.some_ne_none _
          rw [known_of_fetch hupdate hfetch]
          unfold move GitRaises
          rw [known_of_fetch hupdate hfetch]
          cases call.requestedRef with
          | some ref =>
              have hmoves := GitHelper.checkoutRef_moves call.git hfetched ref
              simp only [GitHelper.updateRepository_ref hfetch,
                if_neg fun hfails : _ ∧ _ => hsome hfails.2]
              exact ⟨_, rfl, hmoves.sound, fun _ => hmoves, hurl⟩
          | none =>
              have hmoves := GitHelper.updateLatest_moves hsound hfetch
              refine ⟨_, rfl, hmoves.sound, fun hfine => ?_, hurl⟩
              rw [if_neg fun hcurrent => hfine ⟨hupdate, fetched, hfetch,
                GitHelper.currentBranch_eq_none.mp hcurrent⟩] at hmoves
              simp only [if_pos (And.intro hupdate hsome)]
              exact hmoves
  | false =>
      have hkept : ¬call.update = true := fun htrue => Bool.false_ne_true (hupdate.symm.trans htrue)
      rw [known_of_not_fetch fun htrue => absurd htrue hkept]
      unfold move
      rw [known_of_not_fetch fun htrue => absurd htrue hkept]
      cases call.requestedRef with
      | some ref =>
          have hmoves := GitHelper.checkoutRef_moves call.git hsound ref
          simp only [if_neg fun hfails : _ ∧ _ => hkept hfails.1]
          exact ⟨_, rfl, hmoves.sound, fun _ => hmoves, trivial⟩
      | none =>
          simp only [if_neg fun hfetched : _ ∧ _ => hkept hfetched.1]
          exact ⟨clone, rfl, hsound, fun _ => GitHelper.Moves.refl hsound, trivial⟩

theorem resolvedRef_eq_iff {wanted : Option String} :
    (clone.headCommit = some (call.resolvedRef (some clone)) ∧
        wanted = some (call.resolvedRef (some clone))) ↔
      ∃ commit, wanted = some commit ∧ clone.headCommit = some commit ∧ call.Reports commit := by
  have hresolved : call.resolvedRef (some clone) =
      ((if call.git.fails .headCommit then none else clone.headCommit).or
        call.requestedRef).getD "HEAD" := rfl
  unfold Reports
  cases hfails : call.git.fails .headCommit with
  | false =>
      rw [hfails, if_neg Bool.false_ne_true] at hresolved
      constructor
      · intro ⟨hhead, hwanted⟩
        exact ⟨_, hwanted, hhead, .inl rfl⟩
      · intro ⟨commit, hwanted, hhead, _⟩
        rw [hhead, Option.some_or, Option.getD_some] at hresolved
        rw [hresolved]
        exact ⟨hhead, hwanted⟩
  | true =>
      rw [hfails, if_pos rfl, Option.none_or] at hresolved
      constructor
      · intro ⟨hhead, hwanted⟩
        exact ⟨_, hwanted, hhead, .inr hresolved.symm⟩
      · intro ⟨commit, hwanted, hhead, hreports⟩
        rw [hresolved, hreports.resolve_left fun htrue => Bool.false_ne_true htrue.symm]
        exact ⟨hhead, hwanted⟩

/-- What a call that does not raise leaves of what was there before. -/
def Leaves (call : ExtensionCall) (moved : GitClone) : Option GitClone → Prop
  | none =>
      moved.url = call.url ∧ moved.seen = call.git.remotes call.url ∧
        moved.headCommit = (call.git.remotes call.url).denotes call.requestedRef
  | some clone =>
      moved.url = clone.url ∧ moved.seen = (call.known clone).seen ∧
        moved.headCommit = (call.move clone).target (call.known clone)

theorem tryCachedCloneOrUpdate_true {repo after : Option GitClone}
    (hsound : ∀ clone, repo = some clone → clone.Sound)
    (htry : call.tryCachedCloneOrUpdate repo = (true, after)) :
    call.lockTimesOut = false ∧ ¬call.GitRaises repo ∧
      ∃ moved, after = some moved ∧ moved.Sound ∧ call.Leaves moved repo := by
  unfold tryCachedCloneOrUpdate at htry
  split at htry
  next => cases htry
  next hlock =>
    refine ⟨Bool.eq_false_iff.mpr hlock, ?_⟩
    split at htry
    next => cases htry
    next hdone =>
      cases htry
      cases repo with
      | none =>
          unfold GitHelper.doCloneOrUpdate at hdone
          unfold GitRaises
          rw [← GitHelper.clone_eq_none]
          cases hclone : call.git.clone call.url call.requestedRef with
          | none =>
              simp only [hclone] at hdone
              cases hdone
          | some clone =>
              simp only [hclone] at hdone
              cases hdone
              obtain ⟨hcloned, hurl, hseen, hhead⟩ := GitHelper.clone_eq_some hclone
              exact ⟨Option.some_ne_none _, clone, rfl, hcloned, hurl, hseen, hhead⟩
      | some clone =>
          obtain ⟨moved, hafter, hmoved, hmoves, hurl⟩ :=
            doCloneOrUpdate_moves call (hsound clone rfl)
          have hfine : ¬call.GitRaises (some clone) := by
            rw [← doCloneOrUpdate_error (hsound clone rfl), hdone]
            intro ⟨command, herror⟩
            cases herror
          rw [hdone] at hafter
          have hmoves := hmoves hfine
          exact ⟨hfine, moved, hafter, hmoved, hmoves.url.trans hurl, hmoves.seen,
            hmoves.headCommit⟩

theorem tryCachedCloneOrUpdate_false {repo after : Option GitClone}
    (hsound : ∀ clone, repo = some clone → clone.Sound)
    (htry : call.tryCachedCloneOrUpdate repo = (false, after)) :
    (call.lockTimesOut ∨ call.GitRaises repo) ∧ ∀ clone, after = some clone → clone.Sound := by
  unfold tryCachedCloneOrUpdate at htry
  split at htry
  next hlock =>
    cases htry
    exact ⟨.inl hlock, hsound⟩
  next =>
    split at htry
    next command left hdone =>
      cases htry
      cases repo with
      | none =>
          unfold GitHelper.doCloneOrUpdate at hdone
          cases hclone : call.git.clone call.url call.requestedRef with
          | none =>
              simp only [hclone] at hdone
              cases hdone
              exact ⟨.inr (GitHelper.clone_eq_none.mp hclone), fun _ hnone => by cases hnone⟩
          | some clone =>
              simp only [hclone] at hdone
              cases hdone
      | some clone =>
          obtain ⟨moved, hafter, hmoved, -⟩ :=
            doCloneOrUpdate_moves call (hsound clone rfl)
          refine ⟨.inr ((doCloneOrUpdate_error (hsound clone rfl)).mp ⟨command, ?_⟩), ?_⟩
          · rw [hdone]
          · intro clone hclone
            rw [hdone] at hafter
            cases hafter.symm.trans hclone
            exact hmoved
    next => cases htry

end ExtensionCall

/-! ## Runs -/

namespace ExtensionCache

variable {getCachePath : String → String} {cache : ExtensionCache}

def Sound (cache : ExtensionCache) : Prop :=
  ∀ path clone, cache path = some clone → clone.Sound

theorem Sound.fetch (hsound : cache.Sound) (call : ExtensionCall) :
    ExtensionCache.Sound (call.fetchRemoteSourceWithResolution getCachePath cache).2 := by
  intro path clone hclone
  unfold ExtensionCall.fetchRemoteSourceWithResolution at hclone
  have hrepo := hsound (getCachePath call.url)
  cases htry : call.tryCachedCloneOrUpdate (cache (getCachePath call.url)) with
  | mk done repo =>
      have hafter : ∀ clone, repo = some clone → clone.Sound := by
        cases done with
        | false => exact (ExtensionCall.tryCachedCloneOrUpdate_false hrepo htry).2
        | true =>
            obtain ⟨-, -, moved, hmoved, hmovedSound, -⟩ :=
              ExtensionCall.tryCachedCloneOrUpdate_true hrepo htry
            intro clone hclone
            cases hmoved.symm.trans hclone
            exact hmovedSound
      have hupdated : Function.update cache (getCachePath call.url) repo path = some clone := by
        cases done <;> simpa only [htry] using hclone
      rw [Function.update_apply] at hupdated
      split at hupdated
      next => exact hafter clone hupdated
      next => exact hsound path clone hupdated

theorem sound_run (getCachePath : String → String) (calls : List ExtensionCall) :
    (run getCachePath calls).Sound := by
  induction calls using List.reverseRecOn with
  | nil =>
      intro path clone hclone
      cases hclone
  | append_singleton calls call ih =>
      rw [run, List.foldl_append]
      exact ih.fetch call

theorem honours_iff_pinned (hsound : cache.Sound) (call : ExtensionCall) :
    cache.Honours getCachePath call ↔
      call.Pinned (getCachePath call.url) (cache (getCachePath call.url)) := by
  unfold Honours ExtensionCall.fetchRemoteSourceWithResolution ExtensionCall.Pinned
  have hrepo := hsound (getCachePath call.url)
  cases htry : call.tryCachedCloneOrUpdate (cache (getCachePath call.url)) with
  | mk done repo =>
      simp only [htry]
      cases done with
      | false =>
          obtain ⟨hraises, -⟩ := ExtensionCall.tryCachedCloneOrUpdate_false hrepo htry
          refine ⟨fun _ => ?_, fun _ => trivial⟩
          exact hraises.elim .inl fun hgit => .inr (.inr (.inl hgit))
      | true =>
          obtain ⟨hlock, hfine, moved, rfl, -, hmoved⟩ :=
            ExtensionCall.tryCachedCloneOrUpdate_true hrepo htry
          rw [hlock, or_iff_right Bool.false_ne_true, or_iff_right hfine]
          simp only
          cases hpath : call.applySubpath (getCachePath call.url) "extension repository" with
          | error error => exact ⟨fun _ => .inl ⟨error, rfl⟩, fun _ => trivial⟩
          | ok finalPath =>
              rw [or_iff_right fun herror => by cases herror.choose_spec]
              simp only [Except.map, Function.update_self, Option.some.injEq, exists_eq_left',
                ExtensionCall.resolvedRef_eq_iff]
              cases hcache : cache (getCachePath call.url) with
              | none =>
                  rw [hcache] at hmoved
                  obtain ⟨hurl, hseen, hhead⟩ := hmoved
                  simp only [hurl, hseen, hhead, true_and]
                  exact ⟨fun ⟨commit, hwanted, _, hreports⟩ => ⟨commit, hwanted, hreports⟩,
                    fun ⟨commit, hwanted, hreports⟩ => ⟨commit, hwanted, hwanted, hreports⟩⟩
              | some clone =>
                  rw [hcache] at hmoved
                  obtain ⟨hurl, hseen, hhead⟩ := hmoved
                  rw [hurl, hseen, hhead]

/-- Whatever was called before, a call gets its ref when its last move leads there. -/
theorem honours_run_iff (getCachePath : String → String) (calls : List ExtensionCall)
    (call : ExtensionCall) :
    (run getCachePath calls).Honours getCachePath call ↔
      call.Pinned (getCachePath call.url) (run getCachePath calls (getCachePath call.url)) :=
  honours_iff_pinned (sound_run getCachePath calls) call

/-- Without a ref, the answer is the branch that an earlier call has checked out. -/
theorem pinned_latest_iff {call : ExtensionCall} {clone : GitClone} {branch : String}
    (basePath : String) (hsound : clone.Sound) (hgit : ∀ command, call.git.fails command = false)
    (hlock : call.lockTimesOut = false) (hpath : call.repoPath = none)
    (hupdate : call.update = true) (href : call.requestedRef = none)
    (hhead : clone.head = .branch branch) (hfollows : clone.refspec = some (.branch branch))
    (htag : ∀ name, clone.tags name = none ∧ call.git.bringsTag name = false)
    (hbranch : ((call.git.remotes clone.url).branches branch).isSome) :
    call.Pinned basePath (some clone) ↔
      clone.url = call.url ∧ (call.git.remotes clone.url).branches branch =
        (call.git.remotes clone.url).denotes none := by
  obtain ⟨commit, hcommit⟩ := Option.isSome_iff_exists.mp hbranch
  have hfetch : call.git.fetch clone = some { call.git.look clone with
      originBranches := Function.update clone.originBranches branch (some commit) } := by
    rw [GitHelper.fetch, hgit, if_neg Bool.false_ne_true, hfollows]
    simp only [hcommit]
    rfl
  have htags : adopt clone.tags (call.git.remotes clone.url).tags call.git.bringsTag branch =
      none := by
    rw [adopt, (htag branch).1, (htag branch).2]
    rfl
  have hknown := ExtensionCall.known_of_fetch hupdate hfetch
  have hmove : call.move clone = .reset branch := by
    unfold ExtensionCall.move
    simp only [href]
    rw [hknown, hfetch, if_pos ⟨hupdate, Option.some_ne_none _⟩]
    unfold GitHelper.latestMove
    simp only [GitHelper.look, hhead, hgit, htags]
    rfl
  have hfine : ¬call.GitRaises (some clone) := by
    unfold ExtensionCall.GitRaises
    simp only [href]
    rintro ⟨-, fetched, hfetched, hfails | ⟨name, hname, hunborn⟩⟩
    · exact Bool.false_ne_true ((hgit _).symm.trans hfails)
    · cases hfetch.symm.trans hfetched
      cases hhead.symm.trans hname
      have hlocal := (hsound.localBranches branch).mpr hfollows
      exact Option.isSome_iff_ne_none.mp hlocal hunborn
  have hplain : call.applySubpath basePath "extension repository" = .ok basePath := by
    rw [ExtensionCall.applySubpath, hpath]
    rfl
  unfold ExtensionCall.Pinned ExtensionCall.Reports
  rw [hlock, hplain, or_iff_right Bool.false_ne_true,
    or_iff_right fun herror => (by cases herror.choose_spec), or_iff_right hfine]
  simp only
  rw [hmove, hknown, href, hgit]
  refine and_congr_right fun _ => ?_
  constructor
  · intro ⟨wanted, hwanted, htarget, _⟩
    exact htarget.trans hwanted.symm
  · intro hsame
    exact ⟨commit, hsame.symm.trans hcommit, hcommit, .inl rfl⟩

def docsRemote : GitRemote where
  defaultBranch := "main"
  branches name := if name = "main" then some "b2c4" else none
  tags name := if name = "v1.0.0" then some "a1d3" else none
  commits _ := none

def docsFetch (ref : Option String) : ExtensionCall where
  source := "https://git.example.org/docs.git"
  url := "https://git.example.org/docs.git"
  ref := ref
  git := { remotes := fun _ => docsRemote }

theorem not_honours_after_tag :
    ¬∀ calls call, (run id calls).Honours id call := by
  intro hall
  obtain ⟨clone, hclone, _, _, hwanted⟩ := hall [docsFetch (some "v1.0.0")] (docsFetch none)
  obtain rfl := Option.some.inj hclone
  exact absurd (Option.some.inj hwanted) (by decide)

end ExtensionCache

end ShuttleFlow
