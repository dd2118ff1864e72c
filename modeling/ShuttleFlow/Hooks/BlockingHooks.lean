import ShuttleFlow.Hooks.HookExecutor
import ShuttleFlow.Library.JsonRoundTrip

/-! # Hooks that have to block

An exit code of two, a denial and a stop block, unless reading the answer goes wrong.
-/

namespace ShuttleFlow.Hooks

namespace HookExecutor

open PythonText (trim)

variable {Float : Type} {json : PythonJson Float}

/-- What is read from the standard output, where it is an object. -/
def output? (json : PythonJson Float) (outcome : ProcessOutcome) : Option (Entries Float) :=
  match json.loads outcome.stdout with
  | .value (.obj output) => some output
  | _ => none

/-- The exit code is two, or an object on the standard output denies or says not to continue. -/
def MustBlock (json : PythonJson Float) (outcome : ProcessOutcome) : Prop :=
  outcome.returncode = 2 ∨ ∃ output, output? json outcome = some output ∧
    (Denies output ∨ output.lookup "continue".toList = some (.bool false))

/-- An error other than that of the decoder: the text is not read at all, or the decision is no
text. -/
def Raises (json : PythonJson Float) (outcome : ProcessOutcome) : Prop :=
  (∃ message, json.loads outcome.stdout = .error message) ∨
    ∃ output, output? json outcome = some output ∧ ¬Decided output

/-- Errors are raised only where nothing has to block, and what counts as false is false, unless
something else has to block. -/
def Answerable (json : PythonJson Float) (outcome : ProcessOutcome) : Prop :=
  (Raises json outcome → ¬MustBlock json outcome) ∧
    (¬Raises json outcome → ∀ output, output? json outcome = some output →
      Stops json output → MustBlock json outcome)

/-- Hooks of one run, and their results. -/
inductive BlocksRightly (json : PythonJson Float) (stopOnBlock : Bool) :
    List ProcessOutcome → List HookResult → Prop
  | done : BlocksRightly json stopOnBlock [] []
  | stop {outcome : ProcessOutcome} {rest : List ProcessOutcome} {result : HookResult}
      {results : List HookResult} (hstop : stopOnBlock = true) (hmust : MustBlock json outcome)
      (hblocks : result.shouldContinue = false) (hlast : results = []) :
      BlocksRightly json stopOnBlock (outcome :: rest) (result :: results)
  | next {outcome : ProcessOutcome} {rest : List ProcessOutcome} {result : HookResult}
      {results : List HookResult} (hgoes : stopOnBlock = true → ¬MustBlock json outcome)
      (hblocks : result.shouldContinue = false ↔ MustBlock json outcome)
      (hrest : BlocksRightly json stopOnBlock rest results) :
      BlocksRightly json stopOnBlock (outcome :: rest) (result :: results)

/-- Each hook is answerable, up to the first one that has to block where a run stops. -/
inductive AllAnswerable (json : PythonJson Float) (stopOnBlock : Bool) : List ProcessOutcome → Prop
  | done : AllAnswerable json stopOnBlock []
  | stop {outcome : ProcessOutcome} {rest : List ProcessOutcome}
      (hanswerable : Answerable json outcome) (hstop : stopOnBlock = true)
      (hmust : MustBlock json outcome) : AllAnswerable json stopOnBlock (outcome :: rest)
  | next {outcome : ProcessOutcome} {rest : List ProcessOutcome}
      (hanswerable : Answerable json outcome) (hrest : AllAnswerable json stopOnBlock rest) :
      AllAnswerable json stopOnBlock (outcome :: rest)

variable {outcome : ProcessOutcome} {rest : List ProcessOutcome} {stopOnBlock : Bool}

theorem shouldContinue_iff {result : HookResult}
    (hdeny : result.decision = some .deny → result.blocked = true) :
    result.shouldContinue = false ↔ result.blocked = true := by
  unfold HookResult.shouldContinue
  cases hblocked : result.blocked with
  | true => simp
  | false =>
      rw [hblocked] at hdeny
      simp only [Bool.false_eq_true, if_false, decide_eq_false_iff_not, not_not, iff_false]
      exact fun heq => absurd (hdeny heq) Bool.false_ne_true

/-- The exit code is two, or an object on the standard output denies or has anything that counts as
a stop. -/
def Blocking (json : PythonJson Float) (outcome : ProcessOutcome) : Prop :=
  outcome.returncode = 2 ∨
    ∃ output, output? json outcome = some output ∧ (Denies output ∨ Stops json output)

/-- How a hook ends whose process did. -/
inductive Executes (json : PythonJson Float) (outcome : ProcessOutcome) (result : HookResult) :
    Prop
  | fails (hraises : Raises json outcome) (hblocked : result.blocked = false)
      (hcontinue : result.shouldContinue = true)
  | decides (hreads : ¬Raises json outcome)
      (hcontinue : result.shouldContinue = false ↔ result.blocked = true)
      (hblocked : result.blocked = true ↔ Blocking json outcome)

theorem blocked_ofOutcome_iff (outcome : ProcessOutcome) :
    (ofOutcome outcome).blocked = true ↔ outcome.returncode = 2 := decide_eq_true_iff

/-- Without an object the exit code decides. -/
theorem executes_plain (hook : HookDefinition)
    (hamend : amend json (ofOutcome outcome) = .ok (ofOutcome outcome))
    (hnone : output? json outcome = none) (hloads : ∀ message, json.loads outcome.stdout ≠
      .error message) : Executes json outcome (execute json hook (.ok outcome)) := by
  have hresult : execute json hook (.ok outcome) = ofOutcome outcome := by rw [execute, hamend]
  rw [hresult]
  refine .decides ?_ (shouldContinue_iff fun hdeny => by cases hdeny)
    ((blocked_ofOutcome_iff outcome).trans ?_)
  · rintro (⟨message, hmessage⟩ | ⟨output, houtput, -⟩)
    · exact hloads message hmessage
    · cases hnone.symm.trans houtput
  · refine (or_iff_left ?_).symm
    rintro ⟨output, houtput, -⟩
    cases hnone.symm.trans houtput

theorem executes_object {output : Entries Float} (hook : HookDefinition)
    (hloads : json.loads outcome.stdout = .value (.obj output))
    (hamend : amend json (ofOutcome outcome) = applyOutput json output (ofOutcome outcome)) :
    Executes json outcome (execute json hook (.ok outcome)) := by
  have houtput : output? json outcome = some output := by rw [output?, hloads]
  have honly : ∀ other, output? json outcome = some other → other = output := by
    intro other hother
    cases houtput.symm.trans hother
    rfl
  rcases @applyDecision_cases _ output (ofOutcome outcome) rfl with
    ⟨hundecided, message, hdecision⟩ | ⟨hdecided, decided, hdecision, hblocked, hdeny⟩
  · have hresult : execute json hook (.ok outcome) =
        failure ("Hook execution failed: " ++ message) := by
      rw [execute, hamend, applyOutput, hdecision]
      rfl
    rw [hresult]
    exact .fails (.inr ⟨output, houtput, hundecided⟩) rfl rfl
  · have hresult : execute json hook (.ok outcome) =
        applyContinue json output (applyTexts json output decided) := by
      rw [execute, hamend, applyOutput, hdecision]
      rfl
    have hall : (applyContinue json output (applyTexts json output decided)).blocked = true ↔
        outcome.returncode = 2 ∨ Denies output ∨ Stops json output := by
      rw [blocked_applyContinue_iff, blocked_applyTexts, hblocked, blocked_ofOutcome_iff, or_assoc]
    rw [hresult]
    refine .decides ?_ (shouldContinue_iff fun hdenies => ?_) (hall.trans (or_congr_right ?_))
    · rintro (⟨message, hmessage⟩ | ⟨other, hother, hundecided⟩)
      · cases hloads.symm.trans hmessage
      · rw [honly other hother] at hundecided
        exact hundecided hdecided
    · rw [decision_applyContinue, decision_applyTexts, hdeny] at hdenies
      exact hall.mpr (.inr (.inl hdenies))
    · constructor
      · exact fun hstops => ⟨output, houtput, hstops⟩
      · rintro ⟨other, hother, hstops⟩
        rwa [honly other hother] at hstops

/-- A hook whose answer cannot be read does not block. Others do exactly if they are blocking. -/
theorem executes (json : PythonJson Float) (hook : HookDefinition) (outcome : ProcessOutcome) :
    Executes json outcome (execute json hook (.ok outcome)) := by
  by_cases hblank : trim outcome.stdout = []
  · have hloads := json.loads_blank _ hblank
    refine executes_plain hook (if_pos hblank) (by rw [output?, hloads]) fun message heq => ?_
    cases hloads.symm.trans heq
  have hwritten : ¬trim (ofOutcome outcome).stdout = [] := hblank
  have hamend : ∀ loaded, json.loads outcome.stdout = loaded →
      (∀ output, loaded ≠ .value (.obj output)) → (∀ message, loaded ≠ .error message) →
      amend json (ofOutcome outcome) = .ok (ofOutcome outcome) := by
    rintro loaded rfl hobject herror
    rw [amend, if_neg hwritten]
    split
    next output hloads => exact absurd hloads (hobject output)
    next => rfl
    next => rfl
    next message hloads => exact absurd hloads (herror message)
  have hvalue : ∀ loaded, json.loads outcome.stdout = loaded →
      (∀ output, loaded ≠ .value (.obj output)) → (∀ message, loaded ≠ .error message) →
      Executes json outcome (execute json hook (.ok outcome)) := by
    intro loaded hloads hobject herror
    refine executes_plain hook (hamend loaded hloads hobject herror) ?_ fun message heq =>
      herror message (hloads.symm.trans heq)
    rw [output?, hloads]
    split
    next output => exact absurd rfl (hobject output)
    next => rfl
  cases hloads : json.loads outcome.stdout with
  | decodeError => exact hvalue _ hloads (by simp) (by simp)
  | error message =>
      have hraised : amend json (ofOutcome outcome) = .error message := by
        rw [amend, if_neg hwritten]
        simp only [ofOutcome, hloads]
        rfl
      rw [execute, hraised]
      exact .fails (.inl ⟨message, hloads⟩) rfl rfl
  | value value =>
      cases value with
      | obj output =>
          refine executes_object hook hloads ?_
          rw [amend, if_neg hwritten]
          simp only [ofOutcome, hloads]
      | _ => exact hvalue _ hloads (by simp) (by simp)

theorem blocking_of_mustBlock (hmust : MustBlock json outcome) : Blocking json outcome := by
  refine hmust.imp_right ?_
  rintro ⟨output, houtput, hdenies | hstops⟩
  · exact ⟨output, houtput, .inl hdenies⟩
  · exact ⟨output, houtput, .inr ⟨_, hstops, rfl⟩⟩

/-- Exactly the answerable hooks block when they have to. -/
theorem blocks_iff_answerable (json : PythonJson Float) (hook : HookDefinition)
    (outcome : ProcessOutcome) :
    ((execute json hook (.ok outcome)).shouldContinue = false ↔ MustBlock json outcome) ↔
      Answerable json outcome := by
  cases executes json hook outcome with
  | fails hraises hblocked hcontinue =>
      rw [hcontinue, Answerable]
      simp [hraises]
  | decides hreads hcontinue hblocked =>
      rw [hcontinue, hblocked, Answerable]
      constructor
      · intro hiff
        exact ⟨fun hraises => absurd hraises hreads, fun _ output houtput hstops =>
          hiff.mp (.inr ⟨output, houtput, .inr hstops⟩)⟩
      · rintro ⟨-, hstops⟩
        refine ⟨?_, blocking_of_mustBlock⟩
        rintro (hcode | ⟨output, houtput, hdenies | hstop⟩)
        · exact .inl hcode
        · exact .inr ⟨output, houtput, .inl hdenies⟩
        · exact hstops hreads output houtput hstop

theorem blocked_eq (json : PythonJson Float) (hook : HookDefinition) (outcome : ProcessOutcome) :
    (execute json hook (.ok outcome)).blocked =
      !(execute json hook (.ok outcome)).shouldContinue := by
  cases executes json hook outcome with
  | fails hraises hblocked hcontinue => rw [hblocked, hcontinue]; rfl
  | decides hreads hcontinue hblocked =>
      cases hresult : (execute json hook (.ok outcome)).blocked with
      | true => rw [hcontinue.mpr hresult]; rfl
      | false =>
          rw [hresult] at hcontinue
          cases hshould : (execute json hook (.ok outcome)).shouldContinue with
          | true => rfl
          | false => exact absurd (hcontinue.mp hshould) Bool.false_ne_true

/-! ## Runs -/

/-- The hooks of a run block when they have to exactly if they are answerable. -/
theorem blocksRightly_iff_answerable (json : PythonJson Float) (stopOnBlock : Bool)
    (hooks : List (HookDefinition × ProcessOutcome)) :
    BlocksRightly json stopOnBlock (hooks.map Prod.snd)
        (executeAll json stopOnBlock (hooks.map fun hook => (hook.1, .ok hook.2))) ↔
      AllAnswerable json stopOnBlock (hooks.map Prod.snd) := by
  induction hooks with
  | nil => exact iff_of_true .done .done
  | cons hook rest ih =>
      obtain ⟨hook, outcome⟩ := hook
      have hone := blocks_iff_answerable json hook outcome
      have hblocked := blocked_eq json hook outcome
      simp only [List.map_cons, executeAll]
      cases hshould : (execute json hook (.ok outcome)).shouldContinue with
      | true =>
          rw [hshould] at hblocked hone
          rw [hblocked, Bool.not_true, Bool.and_false, if_neg Bool.false_ne_true]
          constructor
          · intro hruns
            cases hruns with
            | stop hstop hmust hblocks hlast => rw [hshould] at hblocks; cases hblocks
            | next hgoes hblocks hrest =>
                rw [hshould] at hblocks
                exact .next (hone.mp hblocks) (ih.mp hrest)
          · intro hall
            cases hall with
            | stop hanswerable hstop hmust => cases (hone.mpr hanswerable).mpr hmust
            | next hanswerable hrest =>
                have hblocks := hone.mpr hanswerable
                refine .next (fun _ hmust => ?_) ?_ (ih.mpr hrest)
                · cases hblocks.mpr hmust
                · rwa [hshould]
      | false =>
          rw [hshould] at hblocked hone
          rw [hblocked, Bool.not_false, Bool.and_true]
          cases stopOnBlock with
          | true =>
              rw [if_pos rfl]
              constructor
              · intro hruns
                cases hruns with
                | stop hstop hmust hblocks hlast =>
                    exact .stop (hone.mp (iff_of_true rfl hmust)) rfl hmust
                | next hgoes hblocks hrest =>
                    rw [hshould] at hblocks
                    exact absurd (hblocks.mp rfl) (hgoes rfl)
              · intro hall
                have hanswerable : Answerable json outcome := by
                  cases hall with
                  | stop hanswerable hstop hmust => exact hanswerable
                  | next hanswerable hrest => exact hanswerable
                exact .stop rfl ((hone.mpr hanswerable).mp rfl) hshould rfl
          | false =>
              rw [if_neg Bool.false_ne_true]
              constructor
              · intro hruns
                cases hruns with
                | stop hstop hmust hblocks hlast => cases hstop
                | next hgoes hblocks hrest =>
                    rw [hshould] at hblocks
                    exact .next (hone.mp hblocks) (ih.mp hrest)
              · intro hall
                cases hall with
                | stop hanswerable hstop hmust => cases hstop
                | next hanswerable hrest =>
                    refine .next (by simp) ?_ (ih.mpr hrest)
                    rw [hshould]
                    exact hone.mpr hanswerable

/-! ## A decision that is no text -/

theorem loads_of_space {format : FloatFormat Float} {text : List Char}
    (hblank : trim text = []) : JsonText.loads format text = none := by
  have hspaces : ∀ c ∈ JsonText.skipBlank text, PythonText.isSpace c = true := by
    intro c hc
    have hmem : c ∈ text := (List.dropWhile_suffix _).subset hc
    by_contra hink
    have hink : c ∈ PythonText.ink text := List.mem_filter.mpr ⟨hmem, by simpa using hink⟩
    rw [← PythonText.ink_trim, hblank] at hink
    cases hink
  unfold JsonText.loads
  cases hskip : JsonText.skipBlank text with
  | nil => rfl
  | cons c rest =>
      rw [hskip] at hspaces
      have hspace := hspaces c List.mem_cons_self
      have hne : ∀ other, PythonText.isSpace other = false → c ≠ other := by
        rintro other hother rfl
        rw [hother] at hspace
        cases hspace
      have hword : @JsonText.scanWord Float (c :: rest) = none := by
        have hnot : ∀ word : List Char, ∀ first, word.head? = some first →
            PythonText.isSpace first = false → ¬word <+: c :: rest := by
          intro word first hhead hfirst hprefix
          cases word with
          | nil => cases hhead
          | cons other word =>
              cases hhead
              exact hne first hfirst (List.cons_prefix_cons.mp hprefix).1.symm
        unfold JsonText.scanWord
        rw [if_neg (hnot _ 'n' rfl (by decide)), if_neg (hnot _ 't' rfl (by decide)),
          if_neg (hnot _ 'f' rfl (by decide))]
      have hnumber : JsonText.scanNumber (c :: rest) = none := by
        rw [Option.eq_none_iff_forall_not_mem]
        rintro ⟨whole, tail, behind⟩ hscan
        obtain ⟨first, others, heq, hfirst⟩ := JsonText.head_of_scanNumber hscan
        cases heq
        rcases hfirst with rfl | hdigit
        · exact hne '-' (by decide) rfl
        · rw [PythonText.isSpace_of_isDigit hdigit] at hspace
          cases hspace
      rw [JsonText.scanOnce, if_neg (hne '"' (by decide)), if_neg (hne '[' (by decide)),
        if_neg (hne '{' (by decide)), hword, hnumber]
      rfl

def plainStr : JsonValue (Nat × Fin 10) → List Char
  | .str text => text
  | value => JsonText.dumps .tenths value

def plainJson : PythonJson (Nat × Fin 10) where
  loads text := (JsonText.loads .tenths text).elim .decodeError .value
  isZero value := decide (value.1 = 0 ∧ value.2.val = 0)
  str := plainStr
  loads_blank text hblank := by rw [loads_of_space hblank, Option.elim_none]

def deniedBadly : ProcessOutcome where
  returncode := 2
  stdout := "\x7b\"decision\": 5\x7d".toList
  stderr := "not allowed".toList

/-- The exit code is lost. -/
theorem not_blocksRightly_deniedBadly :
    MustBlock plainJson deniedBadly ∧
      ¬BlocksRightly plainJson true [deniedBadly]
        (executeAll plainJson true [({ command := "check".toList }, .ok deniedBadly)]) := by
  refine ⟨.inl rfl, fun hruns => ?_⟩
  have hgoes : (execute plainJson { command := "check".toList } (.ok deniedBadly)).shouldContinue =
      true := by decide +kernel
  cases hruns with
  | stop hstop hmust hblocks hlast =>
      rw [hgoes] at hblocks
      cases hblocks
  | next hgo hblocks hrest => exact hgo rfl (.inl rfl)

end HookExecutor

end ShuttleFlow.Hooks
