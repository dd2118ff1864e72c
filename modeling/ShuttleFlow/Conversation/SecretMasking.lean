import ShuttleFlow.Conversation.SecretRegistry

/-! # What masking leaves of the secrets

A value is replaced only while its secret remembers it, and in the order of the secrets.
A value that comes later may be taken apart by one that comes earlier.
-/

namespace ShuttleFlow.SecretRegistry

open Masking

variable {Source : Type} {lower : List Char → List Char} {registry : SecretRegistry Source}
  {returned : List (List Char)} {text : List Char}

/-- The marked text is the masked text. -/
theorem map_maskSecretsMarked (text : List Char) (registry : SecretRegistry Source) :
    (registry.maskSecretsMarked text).map Prod.fst = registry.maskSecretsInOutput text := by
  rw [maskSecretsMarked, map_maskMarked, map_fst_mark, maskSecretsInOutput]
  split
  next hnil =>
    rw [hnil, maskAll]
    induction registry.exportedValues.values with
    | nil => rfl
    | cons value values ih => exact ih
  next => rfl

/-- No character of a value that was returned is left, and no such value is found, unless
it is part of the mask. -/
structure Masks (returned : List (List Char)) (text : List Char)
    (registry : SecretRegistry Source) : Prop where
  covered : ∀ value ∈ returned, ∀ position, value <+: text.drop position →
    ∀ index, position ≤ index → index < position + value.length →
      ∀ c, (c, some index) ∉ registry.maskSecretsMarked text
  absent : ∀ value ∈ returned, ¬ value <:+: secretHidden →
    ¬ value <:+: registry.maskSecretsInOutput text

/-- The text has the values that were returned inside of remembered ones, the remembered ones
do not overlap in it, and no value is partly inside the mask. -/
structure Maskable (returned : List (List Char)) (text : List Char)
    (registry : SecretRegistry Source) : Prop where
  inside : ∀ value ∈ returned, ∀ position, value <+: text.drop position →
    Inside text registry.exportedValues.values position value.length
  apart : Apart text registry.exportedValues.values
  staysOut : ∀ value ∈ returned, StaysOut value secretHidden

theorem secretHidden_ne_nil : secretHidden ≠ [] := by decide +kernel

theorem Remembers.masks (hremembers : registry.Remembers returned)
    (hnonempty : ∀ value ∈ returned, value ≠ []) (hmaskable : registry.Maskable returned text) :
    registry.Masks returned text := by
  have hwords : ∀ value ∈ registry.exportedValues.values,
      value ≠ [] ∧ StaysOut value secretHidden := fun value hmem =>
    (hremembers value hmem).imp_right (hmaskable.staysOut value)
  have hgone : ∀ value ∈ returned, ∀ position, value <+: text.drop position →
      ∀ index, position ≤ index → index < position + value.length →
        Gone text registry.exportedValues.values index :=
    fun value hvalue position hstands index hle hlt =>
      gone_of_inside (hmaskable.inside value hvalue position hstands) hle hlt
  refine ⟨fun value hvalue position hstands index hle hlt c hmem => ?_,
    fun value hvalue hnew hwithin => ?_⟩
  · have hlaid := (laid_maskMarked hmaskable.apart secretHidden_ne_nil hwords).1
    exact hlaid.not_gone hmem (hgone value hvalue position hstands index hle hlt)
  · have hne := hnonempty value hvalue
    rw [← map_maskSecretsMarked, maskSecretsMarked, map_maskMarked, map_fst_mark] at hwithin
    rcases infix_maskAll_cases hmaskable.apart secretHidden_ne_nil hwords hne
      (hmaskable.staysOut value hvalue) hwithin with hmask | ⟨position, hstands, hkept⟩
    · exact hnew hmask
    · have hpos := Nat.lt_add_of_pos_right (n := position) (List.length_pos_iff.mpr hne)
      exact hkept position (Nat.le_refl _) hpos
        (hgone value hvalue position hstands position (Nat.le_refl _) hpos)

theorem ne_nil_of_step {call : RegistryCall Source} {next : SecretRegistry Source}
    {seen : List (List Char)} (hstep : registry.step lower call = some (next, seen)) :
    ∀ value ∈ seen, value ≠ [] := by
  intro value hmem
  cases call with
  | updateSecrets secrets =>
      cases hstep
      cases hmem
  | getSecretsAsEnvVars command found retrieve =>
      rw [SecretRegistry.step, Option.ite_none_right_eq_some] at hstep
      cases hstep.2
      rcases mem_values_foldl_trackExported hmem with ⟨key, -, hvalue⟩ | hempty
      · exact Retrieval.ne_nil_of_nonempty hvalue
      · cases hempty
  | getSecretValue name retrieval =>
      cases hstep
      have hfilter := Option.filter_eq_some_iff.mp (Option.mem_toList.mp hmem)
      exact of_decide_eq_true hfilter.2

/-- After every run, masking is complete for the texts in which the remembered values cover
the others and do not overlap. -/
theorem masks_of_runs (hruns : (transitions Source lower).Runs empty returned registry)
    (hmaskable : registry.Maskable returned text) : registry.Masks returned text := by
  refine (remembers_of_runs hruns).masks ?_ hmaskable
  refine hruns.invariant (fun returned _ => ∀ value ∈ returned, value ≠ []) nofun ?_
  intro trace registry call next seen hnonempty hstep
  exact List.forall_mem_append.mpr ⟨hnonempty, ne_nil_of_step hstep⟩

/-- Every text can be masked where each value that was returned is still remembered, none
overlaps another one or the mask, and none is part of a later one. -/
theorem maskable_of_not_overlaps
    (hreturned : ∀ value ∈ returned, value ∈ registry.exportedValues.values)
    (hstays : ∀ value ∈ returned, StaysOut value secretHidden)
    (hoverlaps : ∀ first ∈ registry.exportedValues.values,
      ∀ second ∈ registry.exportedValues.values, ¬ Overlaps first second)
    (hnested : registry.exportedValues.values.Pairwise
      fun earlier later => earlier <:+: later → earlier = later) :
    registry.Maskable returned text where
  inside value hvalue _ hstands := inside_of_mem (hreturned value hvalue) hstands
  apart := apart_of_not_overlaps hoverlaps hnested
  staysOut := hstays

/-! ## Two secrets -/

/-- A secret is set, and then a command mentions it. -/
def exportCalls (name value : List Char) : List (RegistryCall Unit) :=
  [.updateSecrets (Dict.empty.set name ()),
    .getSecretsAsEnvVars ('$' :: name) [name] fun _ => .retrieved (some value)]

def twoSecrets : SecretRegistry Unit where
  secretSources := (Dict.empty.set ['A'] ()).set ['B'] ()
  exportedValues := (Dict.empty.set ['A'] ['X', 'Y']).set ['B'] ['Z', 'Y']

/-- Values that do not overlap. -/
theorem masks_twoSecrets : ∃ registry : SecretRegistry Unit,
    (transitions Unit id).Runs empty [['X', 'Y'], ['Z', 'Y']] registry ∧
      registry.Maskable [['X', 'Y'], ['Z', 'Y']] ['X', 'Y', 'Z', 'Y'] ∧
      registry.Masks [['X', 'Y'], ['Z', 'Y']] ['X', 'Y', 'Z', 'Y'] := by
  have hruns := @TransitionSystem.Runs.of_run _ _ _ (transitions Unit id) empty
    (exportCalls ['A'] ['X', 'Y'] ++ exportCalls ['B'] ['Z', 'Y'])
    [['X', 'Y'], ['Z', 'Y']] twoSecrets (by decide +kernel)
  have hmaskable : twoSecrets.Maskable [['X', 'Y'], ['Z', 'Y']] ['X', 'Y', 'Z', 'Y'] :=
    maskable_of_not_overlaps (by decide +kernel) (by decide +kernel) (by decide +kernel)
      (by decide +kernel)
  exact ⟨twoSecrets, hruns, hmaskable, masks_of_runs hruns hmaskable⟩

def nestedSecrets : SecretRegistry Unit where
  secretSources := (Dict.empty.set ['A'] ()).set ['B'] ()
  exportedValues := (Dict.empty.set ['A'] ['X', 'Y']).set ['B'] ['X', 'Y', 'Z']

/-- The first value is the beginning of the second one, whose last character is left. -/
theorem not_masks_of_shared_beginning : ¬ ∀ (lower : List Char → List Char)
    (returned : List (List Char)) (registry : SecretRegistry Unit),
    (transitions Unit lower).Runs empty returned registry →
      ∀ text, registry.Masks returned text := by
  intro hmasks
  have hruns := @TransitionSystem.Runs.of_run _ _ _ (transitions Unit id) empty
    (exportCalls ['A'] ['X', 'Y'] ++ exportCalls ['B'] ['X', 'Y', 'Z'])
    [['X', 'Y'], ['X', 'Y', 'Z']] nestedSecrets (by decide +kernel)
  have hcovered := (hmasks id _ _ hruns ['X', 'Y', 'Z']).covered
  exact hcovered ['X', 'Y', 'Z'] (by decide) 0 (List.prefix_refl _) 2 (by decide) (by decide) 'Z'
    (by decide +kernel)

end ShuttleFlow.SecretRegistry
