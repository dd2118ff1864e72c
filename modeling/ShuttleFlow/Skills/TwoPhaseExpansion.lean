import ShuttleFlow.Skills.McpVariables

/-! # Expansion in two phases

A plugin is loaded before secrets are available, so its configuration is expanded twice:
without secrets and defaults, and again with them. The result is that of one expansion
when no secret hides a variable of the environment, when the second expansion finds only
what the first one has left, and when the first one does not mix keys.
-/

namespace ShuttleFlow

open Placeholder (pattern)

/-- What plugin loading does, and what is done once secrets are available. -/
def expandInTwoPhases {Scalar : Type} (config : McpValue Scalar)
    (provided environ getSecret : SecretLookup) : Option (McpValue Scalar) :=
  (expandMcpVariables config provided none environ false).bind fun loaded =>
    expandMcpVariables loaded (fun _ => none) (some getSecret) environ true

/-! ## Texts -/

section Texts

variable (provided environ getSecret : SecretLookup)

/-- What the first phase puts in the place of a placeholder, if anything. -/
def putIn (placeholder : Placeholder) : List (Char ⊕ Placeholder) :=
  ((provided placeholder.varName).or (environ placeholder.varName)).elim [.inr placeholder]
    fun value => value.map .inl

/-- The text after the first phase, with the placeholders that are left. -/
def loadedPieces (text : List Char) : List (Char ⊕ Placeholder) :=
  (pattern.pieces text).flatMap (Sum.elim (fun c => [.inl c]) (putIn provided environ))

/-- No secret is called like a variable of the environment that the first phase puts in,
unless it has the same value. -/
def hidesNoSecret (placeholder : Placeholder) : Bool :=
  (provided placeholder.varName).isSome ||
    (environ placeholder.varName).all fun value => (getSecret placeholder.varName).all (· = value)

/-- A placeholder that stays as it is. -/
def isUnknown (placeholder : Placeholder) : Bool :=
  placeholder.defaultValue = none && getSecret placeholder.varName = none &&
    environ placeholder.varName = none

/-- Outside the placeholders that are left nothing matches, but unknown names. -/
def leavesNoMatch : List (Char ⊕ Placeholder) → Bool
  | [] => true
  | .inl c :: rest =>
      (pattern.find (c :: Pattern.join pattern.covers rest)).all (isUnknown environ getSecret) &&
        leavesNoMatch rest
  | .inr _ :: rest => leavesNoMatch rest

/-- A text that can be expanded in two phases. -/
def textSeparates (text : List Char) : Bool :=
  (pattern.pieces text).all
      (Sum.elim (fun _ => true) (hidesNoSecret provided environ getSecret)) &&
    leavesNoMatch environ getSecret (loadedPieces provided environ text)

end Texts

variable {provided environ getSecret : SecretLookup} {placeholder : Placeholder}

/-- The first phase. -/
theorem join_putIn : Pattern.join pattern.covers (putIn provided environ placeholder) =
    replaceVar provided none environ false placeholder := by
  rw [putIn, replaceVar]
  cases provided placeholder.varName with
  | some value => exact Pattern.join_map_inl value
  | none =>
      cases environ placeholder.varName with
      | some value => exact Pattern.join_map_inl value
      | none => exact List.append_nil _

theorem sub_firstPhase (text : List Char) :
    pattern.sub (replaceVar provided none environ false) text =
      Pattern.join pattern.covers (loadedPieces provided environ text) := by
  rw [Pattern.sub, loadedPieces]
  induction pattern.pieces text with
  | nil => rfl
  | cons piece pieces ih =>
      rw [List.flatMap_cons, Pattern.join_append, ← ih]
      cases piece with
      | inl c => rfl
      | inr placeholder =>
          rw [Pattern.join_inr, ← join_putIn]
          rfl

/-- The second phase, on what the first one puts in or leaves. -/
theorem join_putIn_secondPhase
    (hsecret : hidesNoSecret provided environ getSecret placeholder) :
    Pattern.join (replaceVar (fun _ => none) (some getSecret) environ true)
        (putIn provided environ placeholder) =
      replaceVar provided (some getSecret) environ true placeholder := by
  rw [putIn]
  cases hprovided : provided placeholder.varName with
  | some value =>
      simp only [replaceVar, hprovided]
      exact Pattern.join_map_inl value
  | none =>
      rw [hidesNoSecret, hprovided, Option.isSome_none, Bool.false_or] at hsecret
      cases henviron : environ placeholder.varName with
      | none =>
          refine (List.append_nil _).trans ?_
          change replaceVar (fun _ => none) (some getSecret) environ true placeholder = _
          simp only [replaceVar, hprovided]
      | some value =>
          rw [henviron, Option.all_some] at hsecret
          refine (Pattern.join_map_inl value).trans ?_
          simp only [replaceVar, hprovided, henviron, Option.bind_some]
          cases hgetSecret : getSecret placeholder.varName with
          | none => rfl
          | some secretValue =>
              rw [hgetSecret, Option.all_some] at hsecret
              exact (of_decide_eq_true hsecret).symm

theorem join_secondPhase {text : List Char}
    (hsecrets : (pattern.pieces text).all
      (Sum.elim (fun _ => true) (hidesNoSecret provided environ getSecret))) :
    Pattern.join (replaceVar (fun _ => none) (some getSecret) environ true)
        (loadedPieces provided environ text) =
      pattern.sub (replaceVar provided (some getSecret) environ true) text := by
  rw [Pattern.sub, loadedPieces]
  generalize pattern.pieces text = pieces at hsecrets
  induction pieces with
  | nil => rfl
  | cons piece pieces ih =>
      rw [List.all_cons, Bool.and_eq_true] at hsecrets
      rw [List.flatMap_cons, Pattern.join_append, ih hsecrets.2]
      cases piece with
      | inl c => rfl
      | inr placeholder =>
          rw [Pattern.join_inr]
          exact congrArg (· ++ _) (join_putIn_secondPhase hsecrets.1)

theorem wellFormed_of_mem_loadedPieces {text : List Char}
    (hmem : .inr placeholder ∈ loadedPieces provided environ text) : placeholder.WellFormed := by
  obtain ⟨piece, hpiece, hmem⟩ := List.mem_flatMap.mp hmem
  cases piece with
  | inl c => cases List.mem_singleton.mp hmem
  | inr found =>
      have hsame : placeholder = found := by
        change .inr placeholder ∈ putIn provided environ found at hmem
        rw [putIn] at hmem
        cases hvalue : (provided found.varName).or (environ found.varName) with
        | none =>
            rw [hvalue] at hmem
            cases List.mem_singleton.mp hmem
            rfl
        | some value =>
            rw [hvalue] at hmem
            obtain ⟨_, -, hinl⟩ := List.mem_map.mp hmem
            cases hinl
      obtain ⟨rest, hfind⟩ := Pattern.exists_find_of_mem_pieces hpiece
      exact hsame ▸ (Placeholder.find_sound hfind).1

theorem isUnknown_of_leavesNoMatch {pieces before after : List (Char ⊕ Placeholder)} {c : Char}
    (hleaves : leavesNoMatch environ getSecret pieces) (hsplit : pieces = before ++ .inl c :: after)
    (hfind : pattern.find (c :: Pattern.join pattern.covers after) = some placeholder) :
    isUnknown environ getSecret placeholder := by
  subst hsplit
  induction before with
  | nil =>
      rw [List.nil_append, leavesNoMatch, Bool.and_eq_true, hfind, Option.all_some] at hleaves
      exact hleaves.1
  | cons piece before ih =>
      cases piece with
      | inl _ =>
          rw [List.cons_append, leavesNoMatch, Bool.and_eq_true] at hleaves
          exact ih hleaves.2
      | inr _ => exact ih hleaves

theorem find_eq_none_of_ne {c : Char} {rest : List Char} (hc : c ≠ '$') :
    pattern.find (c :: rest) = none := by
  cases hfind : pattern.find (c :: rest) with
  | none => rfl
  | some found =>
      obtain ⟨-, tail, htail⟩ := Placeholder.find_sound hfind
      exact absurd (List.cons.inj htail).1 hc

/-- A placeholder of an unknown name stays, and nothing matches inside it. -/
theorem inert_of_isUnknown (hwell : placeholder.WellFormed)
    (hunknown : isUnknown environ getSecret placeholder) :
    pattern.Inert (replaceVar (fun _ => none) (some getSecret) environ true) placeholder := by
  rw [isUnknown, Bool.and_eq_true, Bool.and_eq_true, decide_eq_true_eq, decide_eq_true_eq,
    decide_eq_true_eq] at hunknown
  obtain ⟨⟨hdefault, hgetSecret⟩, henviron⟩ := hunknown
  obtain ⟨⟨first, more, hname, hfirst, hmore⟩, -⟩ := hwell
  refine ⟨?_, fun before c after hsplit hbefore rest => find_eq_none_of_ne ?_⟩
  · simp only [replaceVar, Option.bind_some, hgetSecret, henviron, hdefault]
    rfl
  · rintro rfl
    change placeholder.text = _ at hsplit
    rw [Placeholder.text, hname, hdefault] at hsplit
    cases before with
    | nil => exact hbefore rfl
    | cons dollar before =>
        have htail : '{' :: (first :: more ++ Placeholder.ending none) = before ++ '$' :: after :=
          (List.cons.inj hsplit).2
        have hmem : '$' ∈ '{' :: (first :: more ++ Placeholder.ending none) :=
          htail ▸ List.mem_append_right _ List.mem_cons_self
        rw [List.mem_cons, List.mem_append, List.mem_cons] at hmem
        rcases hmem with hbrace | (hname | hname) | hending
        · exact absurd hbrace (by decide)
        · rw [← hname] at hfirst
          exact absurd hfirst (by decide)
        · exact absurd (hmore _ hname) (by decide)
        · exact absurd (List.mem_singleton.mp hending) (by decide)

/-- The two phases on one text. -/
theorem sub_twoPhases {text : List Char}
    (hseparates : textSeparates provided environ getSecret text) :
    pattern.sub (replaceVar (fun _ => none) (some getSecret) environ true)
        (pattern.sub (replaceVar provided none environ false) text) =
      pattern.sub (replaceVar provided (some getSecret) environ true) text := by
  rw [textSeparates, Bool.and_eq_true] at hseparates
  rw [sub_firstPhase, ← join_secondPhase hseparates.1]
  refine Pattern.sub_join_covers _ (fun found hmem => ?_)
    fun before c after hsplit found hfind => ?_
  · exact Placeholder.find_text (wellFormed_of_mem_loadedPieces hmem)
  · exact inert_of_isUnknown (Placeholder.find_sound hfind).1
      (isUnknown_of_leavesNoMatch hseparates.2 hsplit hfind)

/-! ## Configurations -/

section Configurations

variable {Scalar : Type}

theorem McpValue.expandItems_eq_map (expandText : List Char → List Char)
    (items : List (McpValue Scalar)) :
    expandItems expandText items = items.map (expand expandText) := by
  induction items with
  | nil => rfl
  | cons item items ih => rw [expandItems, ih, List.map_cons]

theorem McpValue.expandEntries_eq_map (expandText : List Char → List Char)
    (entries : List (List Char × McpValue Scalar)) :
    expandEntries expandText entries =
      entries.map fun entry => (expandText entry.1, entry.2.expand expandText) := by
  induction entries with
  | nil => rfl
  | cons entry entries ih => rw [expandEntries, ih, List.map_cons, expandEntry]

/-- All texts of a value can be expanded in two phases, and the first one does not mix the
keys of a dictionary. -/
inductive McpValue.Separates (textSeparates : List Char → Bool)
    (first final : List Char → List Char) : McpValue Scalar → Prop
  | text {content : List Char} : textSeparates content → Separates _ _ _ (.text content)
  | list {items : List (McpValue Scalar)} :
      (∀ item ∈ items, Separates textSeparates first final item) → Separates _ _ _ (.list items)
  | dict {entries : List (List Char × McpValue Scalar)} :
      Entries.Unmixed first final (entries.map Prod.fst) →
      (∀ entry ∈ entries, textSeparates entry.1) →
      (∀ entry ∈ entries, Separates textSeparates first final entry.2) →
      Separates _ _ _ (.dict entries)
  | scalar (value : Scalar) : Separates _ _ _ (.scalar value)

/-- What holds of the texts holds of the whole value. -/
theorem McpValue.Separates.expand_expand {textSeparates : List Char → Bool}
    {first second final : List Char → List Char} {value : McpValue Scalar}
    (hseparates : value.Separates textSeparates first final)
    (htexts : ∀ content, textSeparates content → second (first content) = final content) :
    (value.expand first).expand second = value.expand final := by
  induction hseparates with
  | text hcontent => exact congrArg McpValue.text (htexts _ hcontent)
  | list _ ih =>
      rw [expand, expand, expand, expandItems_eq_map, expandItems_eq_map, expandItems_eq_map,
        List.map_map]
      exact congrArg McpValue.list (List.map_congr_left ih)
  | dict hunmixed hkeys _ ih =>
      rw [expand, expand, expand, expandEntries_eq_map, expandEntries_eq_map, expandEntries_eq_map]
      exact congrArg McpValue.dict (Entries.build_build _ hunmixed
        (fun entry hentry => htexts _ (hkeys entry hentry)) ih)
  | scalar value => rfl

theorem McpValue.isDict_expand (value : McpValue Scalar)
    (expandText : List Char → List Char) : (value.expand expandText).isDict = value.isDict := by
  cases value <;> rw [expand] <;> rfl

/-- A configuration whose texts and keys can be expanded in two phases. -/
def SeparatesPhases (config : McpValue Scalar) (provided environ getSecret : SecretLookup) :
    Prop :=
  config.Separates (textSeparates provided environ getSecret)
    (pattern.sub (replaceVar provided none environ false))
    (pattern.sub (replaceVar provided (some getSecret) environ true))

/-- Where no secret hides a variable of the environment, where the second phase finds only
what the first one has left, and where the first one does not mix keys, two phases expand
a configuration as one does. -/
theorem expandInTwoPhases_eq (config : McpValue Scalar)
    (provided environ getSecret : SecretLookup)
    (hseparates : SeparatesPhases config provided environ getSecret) :
    expandInTwoPhases config provided environ getSecret =
      expandMcpVariables config provided (some getSecret) environ true := by
  have htwice := hseparates.expand_expand fun _ => sub_twoPhases
  rw [expandInTwoPhases, expandMcpVariables, expandMcpVariables, McpValue.isDict_expand,
    McpValue.isDict_expand]
  cases hdict : config.isDict with
  | false => rfl
  | true =>
      rw [if_pos rfl, if_pos rfl, Option.bind_some, expandMcpVariables, McpValue.isDict_expand,
        McpValue.isDict_expand, hdict, if_pos rfl]
      exact congrArg some htwice

end Configurations

section

/-- A server whose token is a secret. -/
def serverConfig : McpValue Unit :=
  .dict [("command".toList, .text "${SKILL_ROOT}/run".toList),
    ("token".toList, .list [.text "${TOKEN:-none}".toList])]

def lookupOf (entries : List (String × String)) : SecretLookup := fun varName =>
  (entries.find? fun entry => entry.1.toList = varName).map fun entry => entry.2.toList

theorem expandInTwoPhases_serverConfig :
    expandInTwoPhases serverConfig (lookupOf [("SKILL_ROOT", "/skills")])
        (lookupOf [("HOME", "/root")]) (lookupOf [("TOKEN", "secret")]) =
      expandMcpVariables serverConfig (lookupOf [("SKILL_ROOT", "/skills")])
        (some (lookupOf [("TOKEN", "secret")])) (lookupOf [("HOME", "/root")]) true := by
  refine expandInTwoPhases_eq serverConfig _ _ _ (.dict ?_ ?_ ?_)
  · exact Entries.unmixed_of_nodup (by decide +kernel)
  · decide +kernel
  · simp only [List.forall_mem_cons]
    refine ⟨.text (by decide +kernel), .list ?_, nofun⟩
    exact List.forall_mem_singleton.mpr (.text (by decide +kernel))

/-- A secret that is called like a variable of the environment. -/
theorem not_expandInTwoPhases_eq :
    ¬ ∀ (config : McpValue Unit) (provided environ getSecret : SecretLookup),
      expandInTwoPhases config provided environ getSecret =
        expandMcpVariables config provided (some getSecret) environ true := by
  intro hall
  have hsame := hall (.dict [("token".toList, .text "${TOKEN}".toList)]) (lookupOf [])
    (lookupOf [("TOKEN", "old")]) (lookupOf [("TOKEN", "new")])
  cases hsame

end

end ShuttleFlow
