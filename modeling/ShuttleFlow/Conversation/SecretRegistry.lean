import ShuttleFlow.Library.Dict
import ShuttleFlow.Library.Masking
import ShuttleFlow.Library.Transitions

/-! # The secret registry

Texts are lists of characters. What a source gives, and in which order the secrets of a
command are retrieved, is part of the step. `lower` is `str.lower`.
-/

namespace ShuttleFlow

/-- What `get_value` of a source does. -/
inductive Retrieval where
  | failed
  | retrieved (value : Option (List Char))
  deriving DecidableEq

namespace Retrieval

def value : Retrieval → Option (List Char)
  | failed => none
  | retrieved value => value

/-- The value, if it is not empty. -/
def nonempty (retrieval : Retrieval) : Option (List Char) :=
  retrieval.value.filter (· ≠ [])

theorem ne_nil_of_nonempty {retrieval : Retrieval} {value : List Char}
    (hvalue : retrieval.nonempty = some value) : value ≠ [] := by
  rw [nonempty, Option.filter_eq_some_iff] at hvalue
  exact of_decide_eq_true hvalue.2

end Retrieval

structure SecretRegistry (Source : Type) where
  secretSources : Dict (List Char) Source
  /-- The latest value of each secret that was retrieved. -/
  exportedValues : Dict (List Char) (List Char)
  deriving DecidableEq

namespace SecretRegistry

variable {Source : Type}

def empty : SecretRegistry Source :=
  { secretSources := .empty, exportedValues := .empty }

def updateSecrets (secrets : Dict (List Char) Source) (registry : SecretRegistry Source) :
    SecretRegistry Source :=
  { registry with
    secretSources := secrets.entries.foldl (fun sources secret => sources.set secret.1 secret.2)
      registry.secretSources }

/-- The names that the text mentions. -/
def findSecretsInText (lower : List Char → List Char) (text : List Char)
    (registry : SecretRegistry Source) : List (List Char) :=
  registry.secretSources.keys.filter fun key => lower key <:+: lower text

def trackExported (key : List Char) (value : Option (List Char))
    (exportedValues : Dict (List Char) (List Char)) : Dict (List Char) (List Char) :=
  value.elim exportedValues (exportedValues.set key)

/-- The loop over the secrets that were found. A secret that cannot be retrieved is left out. -/
def getSecretsAsEnvVars (found : List (List Char)) (retrieve : List Char → Retrieval)
    (registry : SecretRegistry Source) :
    SecretRegistry Source × Dict (List Char) (List Char) :=
  ({ registry with
      exportedValues := found.foldl
        (fun exported key => trackExported key (retrieve key).nonempty exported)
        registry.exportedValues },
    found.foldl (fun envVars key => trackExported key (retrieve key).nonempty envVars) .empty)

/-- The value is returned even if it is empty. -/
def getSecretValue (name : List Char) (retrieval : Retrieval) (registry : SecretRegistry Source) :
    SecretRegistry Source × Option (List Char) :=
  if (registry.secretSources.get? name).isSome then
    ({ registry with
        exportedValues := trackExported name retrieval.nonempty registry.exportedValues },
      retrieval.value)
  else (registry, none)

def secretHidden : List Char := "<secret-hidden>".toList

/-- The values are replaced in the order in which their secrets were retrieved first. -/
def maskSecretsInOutput (text : List Char) (registry : SecretRegistry Source) : List Char :=
  if text = [] then text
  else Masking.maskAll secretHidden registry.exportedValues.values text

/-- The masked text, with the position in `text` of each character that is left of it. -/
def maskSecretsMarked (text : List Char) (registry : SecretRegistry Source) :
    List (Masking.Marked Char) :=
  Masking.maskMarked secretHidden registry.exportedValues.values (Masking.mark 0 text)

end SecretRegistry

inductive RegistryCall (Source : Type) where
  | updateSecrets (secrets : Dict (List Char) Source)
  | getSecretsAsEnvVars (command : List Char) (found : List (List Char))
      (retrieve : List Char → Retrieval)
  | getSecretValue (name : List Char) (retrieval : Retrieval)

namespace SecretRegistry

variable {Source : Type}

/-- The names found are a set: they may come in any order. -/
def step (lower : List Char → List Char) (registry : SecretRegistry Source) :
    RegistryCall Source → Option (SecretRegistry Source × List (List Char))
  | .updateSecrets secrets => some (registry.updateSecrets secrets, [])
  | .getSecretsAsEnvVars command found retrieve =>
      if found.Perm (registry.findSecretsInText lower command) then
        let result := registry.getSecretsAsEnvVars found retrieve
        some (result.1, result.2.values)
      else none
  | .getSecretValue name retrieval =>
      let result := registry.getSecretValue name retrieval
      some (result.1, (result.2.filter (· ≠ [])).toList)

/-- What is observed are the values that are not empty. -/
def transitions (Source : Type) (lower : List Char → List Char) :
    TransitionSystem (SecretRegistry Source) (RegistryCall Source) (List Char) where
  step := step lower

/-! ## What is remembered -/

variable {lower : List Char → List Char} {registry next : SecretRegistry Source}
  {returned seen : List (List Char)}

/-- The values that are remembered were returned, and are not empty. -/
def Remembers (returned : List (List Char)) (registry : SecretRegistry Source) : Prop :=
  ∀ value ∈ registry.exportedValues.values, value ≠ [] ∧ value ∈ returned

theorem mem_values_trackExported {key value : List Char} {result : Option (List Char)}
    {exported : Dict (List Char) (List Char)}
    (hmem : value ∈ (trackExported key result exported).values) :
    result = some value ∨ value ∈ exported.values := by
  cases result with
  | none => exact .inr hmem
  | some result =>
      refine (Dict.mem_values_set hmem).imp_left fun heq => ?_
      rw [heq]

theorem mem_values_foldl_trackExported {found : List (List Char)}
    {retrieve : List Char → Retrieval} {exported : Dict (List Char) (List Char)}
    {value : List Char} (hmem : value ∈ (found.foldl (fun exported key =>
      trackExported key (retrieve key).nonempty exported) exported).values) :
    (∃ key ∈ found, (retrieve key).nonempty = some value) ∨ value ∈ exported.values := by
  induction found generalizing exported with
  | nil => exact .inr hmem
  | cons key found ih =>
      rcases ih hmem with ⟨other, hother, hvalue⟩ | hmem
      · exact .inl ⟨other, List.mem_cons_of_mem _ hother, hvalue⟩
      rcases mem_values_trackExported hmem with hvalue | hmem
      · exact .inl ⟨key, List.mem_cons_self, hvalue⟩
      · exact .inr hmem

theorem foldl_trackExported (found : List (List Char)) (retrieve : List Char → Retrieval)
    (exported : Dict (List Char) (List Char)) :
    found.foldl (fun exported key => trackExported key (retrieve key).nonempty exported) exported =
      (found.filterMap fun key => (retrieve key).nonempty.map (Prod.mk key)).foldl
        (fun exported entry => exported.set entry.1 entry.2) exported := by
  induction found generalizing exported with
  | nil => rfl
  | cons key found ih =>
      rw [List.foldl_cons, ih, List.filterMap_cons]
      cases (retrieve key).nonempty <;> rfl

/-- What is tracked for a command is exported to it. -/
theorem mem_values_envVars {found : List (List Char)} {retrieve : List Char → Retrieval}
    {key value : List Char} (hkey : key ∈ found)
    (hvalue : (retrieve key).nonempty = some value) :
    value ∈ (registry.getSecretsAsEnvVars found retrieve).2.values := by
  have hentry : (key, value) ∈
      found.filterMap fun key => (retrieve key).nonempty.map (Prod.mk key) :=
    List.mem_filterMap.mpr ⟨key, hkey, by rw [hvalue]; rfl⟩
  have hagree : ∀ first ∈ found.filterMap fun key => (retrieve key).nonempty.map (Prod.mk key),
      ∀ second ∈ found.filterMap fun key => (retrieve key).nonempty.map (Prod.mk key),
        first.1 = second.1 → first = second := by
    intro first hfirst second hsecond hsame
    obtain ⟨firstKey, -, hfirst⟩ := List.mem_filterMap.mp hfirst
    obtain ⟨secondKey, -, hsecond⟩ := List.mem_filterMap.mp hsecond
    obtain ⟨firstValue, hfirst, rfl⟩ := Option.map_eq_some_iff.mp hfirst
    obtain ⟨secondValue, hsecond, rfl⟩ := Option.map_eq_some_iff.mp hsecond
    cases hsame
    cases hfirst.symm.trans hsecond
    rfl
  have hget := (Dict.get?_foldl_set hagree .empty key value).mpr (.inl hentry)
  rw [← foldl_trackExported] at hget
  exact @List.mem_map_of_mem _ _ _ _ Prod.snd (Dict.mem_entries_of_get? hget)

theorem Remembers.step {call : RegistryCall Source} (hremembers : registry.Remembers returned)
    (hstep : registry.step lower call = some (next, seen)) :
    next.Remembers (returned ++ seen) := by
  intro value hmem
  cases call with
  | updateSecrets secrets =>
      cases hstep
      rw [List.append_nil]
      exact hremembers value hmem
  | getSecretsAsEnvVars command found retrieve =>
      rw [SecretRegistry.step, Option.ite_none_right_eq_some] at hstep
      cases hstep.2
      rcases mem_values_foldl_trackExported hmem with ⟨key, hkey, hvalue⟩ | hold
      · exact ⟨Retrieval.ne_nil_of_nonempty hvalue,
          List.mem_append_right _ (mem_values_envVars hkey hvalue)⟩
      · exact (hremembers value hold).imp_right (List.mem_append_left _)
  | getSecretValue name retrieval =>
      cases hstep
      rw [getSecretValue] at hmem ⊢
      split at hmem
      next hsource =>
        rw [if_pos hsource]
        rcases mem_values_trackExported hmem with hvalue | hold
        · refine ⟨Retrieval.ne_nil_of_nonempty hvalue, List.mem_append_right _ ?_⟩
          exact Option.mem_toList.mpr hvalue
        · exact (hremembers value hold).imp_right (List.mem_append_left _)
      next => exact (hremembers value hmem).imp_right (List.mem_append_left _)

theorem remembers_of_runs (hruns : (transitions Source lower).Runs empty returned registry) :
    registry.Remembers returned :=
  hruns.invariant (fun returned registry => registry.Remembers returned) nofun
    fun _ _ _ _ _ hremembers hstep => hremembers.step hstep

end SecretRegistry

end ShuttleFlow
