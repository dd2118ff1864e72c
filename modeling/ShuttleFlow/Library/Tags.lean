import Mathlib.Data.List.DropRight
import Mathlib.Data.List.Infix
import ShuttleFlow.Library.Patterns

/-! # Texts between tags

A text is cut where a marker first occurs. A tag has a name and a body, which ends at the first
closing marker.
-/

namespace ShuttleFlow

variable {α τ : Type}

/-! ## Markers -/

section Infixes

variable {marker : List α}

/-- A marker reaches from one text into another only if the other one goes on with it. -/
theorem prefix_of_prefix_append {first rest : List α} (hne : first ≠ [])
    (hhead : ∀ item ∈ rest.head?, item ∉ marker.tail) (hbegins : marker <+: first ++ rest) :
    marker <+: first := by
  obtain ⟨tail, htail⟩ := hbegins
  rcases List.append_eq_append_iff.mp htail with ⟨middle, hfirst, -⟩ | ⟨middle, hmarker, hrest⟩
  · exact ⟨middle, hfirst.symm⟩
  · cases middle with
    | nil =>
        rw [List.append_nil] at hmarker
        exact hmarker ▸ List.prefix_refl _
    | cons item middle =>
        rw [List.cons_append] at hrest
        have hitem := hhead item (hrest ▸ rfl)
        cases first with
        | nil => exact absurd rfl hne
        | cons first others =>
            rw [hmarker, List.cons_append, List.tail_cons] at hitem
            exact absurd (List.mem_append_right _ List.mem_cons_self) hitem

theorem not_infix_append {first rest : List α} (hfirst : ¬marker <:+: first)
    (hrest : ¬marker <:+: rest) (hhead : ∀ item ∈ rest.head?, item ∉ marker.tail) :
    ¬marker <:+: first ++ rest := by
  induction first with
  | nil => exact hrest
  | cons item first ih =>
      rw [List.infix_cons_iff, not_or] at hfirst
      rw [List.cons_append, List.infix_cons_iff, not_or]
      refine ⟨fun hbegins => hfirst.1 ?_, ih hfirst.2⟩
      exact prefix_of_prefix_append (List.cons_ne_nil _ _) hhead hbegins

end Infixes

/-! ## Where a marker may begin -/

section Beginnings

variable {marker text rest : List α}

/-- No marker begins where its first item does not occur. -/
theorem not_prefix_of_notMem {first item : α} {before after : List α}
    (hhead : marker.head? = some first) (hfirst : first ∉ text)
    (hsplit : text = before ++ item :: after) (rest : List α) :
    ¬marker <+: item :: after ++ rest := by
  cases marker with
  | nil => cases hhead
  | cons head marker =>
      obtain rfl : head = first := Option.some.inj hhead
      intro hbegins
      obtain ⟨heq, -⟩ := List.cons_prefix_cons.mp hbegins
      apply hfirst
      rw [hsplit, heq]
      exact List.mem_append_right _ List.mem_cons_self

/-- No marker begins in a text without it, if what follows does not go on with it. -/
theorem not_prefix_of_absent {item : α} {before after : List α} (hnot : ¬marker <:+: text)
    (hhead : ∀ item ∈ rest.head?, item ∉ marker.tail)
    (hsplit : text = before ++ item :: after) : ¬marker <+: item :: after ++ rest := by
  intro hbegins
  apply hnot
  rw [hsplit]
  exact (prefix_of_prefix_append (List.cons_ne_nil _ _) hhead hbegins).isInfix.trans
    (List.suffix_append _ _).isInfix

theorem not_prefix_append {tag : List α} (hmarker : ¬marker <+: tag) (htag : ¬tag <+: marker)
    (rest : List α) : ¬marker <+: tag ++ rest := by
  intro hbegins
  rcases List.prefix_or_prefix_of_prefix hbegins (List.prefix_append tag rest) with h | h
  · exact hmarker h
  · exact htag h

theorem not_infix_append_of_notMem {first : α} (hhead : marker.head? = some first)
    (hfirst : first ∉ text) (hrest : ¬marker <:+: rest) : ¬marker <:+: text ++ rest := by
  induction text with
  | nil => exact hrest
  | cons item text ih =>
      rw [List.mem_cons, not_or] at hfirst
      rw [List.cons_append, List.infix_cons_iff, not_or]
      refine ⟨?_, ih hfirst.2⟩
      have hsplit : [item] = [] ++ item :: [] := rfl
      exact not_prefix_of_notMem hhead (by simpa using hfirst.1) hsplit (text ++ rest)

/-- The last item of a marker ends it. -/
theorem not_infix_append_of_last {last : α} (hlast : last ∉ marker)
    (htext : ¬marker ++ [last] <:+: text ++ [last]) (hrest : ¬marker ++ [last] <:+: rest) :
    ¬marker ++ [last] <:+: text ++ last :: rest := by
  have hreverse : (text ++ last :: rest).reverse = rest.reverse ++ (text ++ [last]).reverse := by
    simp
  rw [← List.reverse_infix] at htext hrest ⊢
  rw [hreverse]
  apply not_infix_append hrest htext
  intro item hitem
  obtain rfl : last = item := by simpa using hitem
  simpa using hlast

/-- A marker that ends a text begins at its last part. -/
theorem infix_concat_iff {last : α} (hlast : last ∉ text) :
    marker ++ [last] <:+: text ++ [last] ↔ marker <:+ text := by
  constructor
  · rintro ⟨before, after, heq⟩
    rcases List.eq_nil_or_concat after with rfl | ⟨others, item, rfl⟩
    · rw [List.append_nil, ← List.append_assoc] at heq
      exact ⟨before, List.append_cancel_right heq⟩
    · rw [List.concat_eq_append, ← List.append_assoc] at heq
      have hmem : last ∈ before ++ (marker ++ [last]) ++ others := by simp
      rw [(List.append_inj' heq rfl).1] at hmem
      exact absurd hmem hlast
  · rintro ⟨before, rfl⟩
    exact ⟨before, [], by simp⟩

end Beginnings

/-- What is before and behind the first occurrence of a marker. -/
def cutAt [DecidableEq α] (marker : List α) : List α → Option (List α × List α)
  | [] => if marker = [] then some ([], []) else none
  | item :: rest =>
      if marker <+: item :: rest then some ([], (item :: rest).drop marker.length)
      else (cutAt marker rest).map fun found => (item :: found.1, found.2)

section Cuts

variable [DecidableEq α] {marker text before behind : List α}

theorem cutAt_eq (hcut : cutAt marker text = some (before, behind)) :
    before ++ marker ++ behind = text := by
  induction text generalizing before with
  | nil =>
      rw [cutAt] at hcut
      split at hcut
      next hmarker =>
        cases hcut
        rw [hmarker]
        rfl
      next => cases hcut
  | cons item rest ih =>
      rw [cutAt] at hcut
      split at hcut
      next hbegins =>
        cases hcut
        obtain ⟨tail, htail⟩ := hbegins
        rw [← htail, List.drop_left, List.nil_append]
      next =>
        obtain ⟨found, hfound, heq⟩ := Option.map_eq_some_iff.mp hcut
        cases heq
        rw [List.cons_append, List.cons_append, ih hfound]

/-- The first item of the marker stands only at its beginning. -/
theorem cutAt_append (hne : marker ≠ []) (hhead : ∀ item ∈ marker.head?, item ∉ marker.tail)
    (hbefore : ¬marker <:+: before) :
    cutAt marker (before ++ (marker ++ behind)) = some (before, behind) := by
  induction before with
  | nil =>
      rw [List.nil_append]
      cases marker with
      | nil => exact absurd rfl hne
      | cons item tail =>
          have hbegins : item :: tail <+: item :: (tail ++ behind) := List.prefix_append _ behind
          rw [List.cons_append, cutAt, if_pos hbegins]
          exact congrArg (fun rest => some ([], rest)) (@List.drop_left _ (item :: tail) behind)
  | cons other before ih =>
      rw [List.infix_cons_iff, not_or] at hbefore
      have hnot : ¬marker <+: other :: before ++ (marker ++ behind) := by
        intro hbegins
        apply hbefore.1
        apply prefix_of_prefix_append (List.cons_ne_nil _ _) _ hbegins
        intro item hitem
        rw [List.head?_append_of_ne_nil _ hne] at hitem
        exact hhead item hitem
      rw [List.cons_append] at hnot ⊢
      rw [cutAt, if_neg hnot, ih hbefore.2]
      rfl

end Cuts

namespace Pattern

/-! ## Matches -/

/-- `re.search`. -/
def search (pattern : Pattern α τ) : List α → Option τ
  | [] => pattern.find []
  | item :: rest => (pattern.find (item :: rest)).or (search pattern rest)

/-- `re.finditer`. -/
def findAll (pattern : Pattern α τ) (text : List α) : List τ :=
  (pattern.pieces text).filterMap Sum.getRight?

variable {pattern : Pattern α τ}

theorem findAll_of_find {found : τ} {rest : List α}
    (hfind : pattern.find (pattern.covers found ++ rest) = some found) :
    pattern.findAll (pattern.covers found ++ rest) = found :: pattern.findAll rest := by
  rw [findAll, pieces_of_find hfind]
  rfl

/-- Where no match begins the search goes on. -/
theorem findAll_append_of_find_eq_none (text : List α) {rest : List α}
    (hfind : ∀ before item after, text = before ++ item :: after →
      pattern.find (item :: after ++ rest) = none) :
    pattern.findAll (text ++ rest) = pattern.findAll rest := by
  induction text with
  | nil => rfl
  | cons item text ih =>
      have hnone : pattern.find (item :: (text ++ rest)) = none := hfind [] item text rfl
      rw [List.cons_append, findAll, pieces_of_find_eq_none hnone]
      apply ih
      intro before other after hsplit
      exact hfind (item :: before) other after (by rw [hsplit, List.cons_append])

end Pattern

/-! ## Tags -/

/-- An opening marker, a name, a separator and a body up to the first closing marker. -/
def tagPattern [DecidableEq α] (opening : List α) (separator : α) (closing : List α) :
    Pattern α (List α × List α) where
  find text :=
    if opening <+: text then
      let rest := text.drop opening.length
      match rest.takeWhile (· ≠ separator), rest.dropWhile (· ≠ separator) with
      | first :: name, _ :: behind =>
          (cutAt closing behind).map fun found => (first :: name, found.1)
      | _, _ => none
    else none
  covers found := opening ++ found.1 ++ separator :: found.2 ++ closing
  covers_ne_nil := by
    intro text found _ hnil
    simp at hnil
  covers_initial := by
    intro text found hfind
    rw [Option.ite_none_right_eq_some] at hfind
    obtain ⟨⟨rest, rfl⟩, hfind⟩ := hfind
    rw [List.drop_left] at hfind
    dsimp only at hfind
    split at hfind
    next first name last behind hname hbehind =>
      obtain ⟨cut, hcut, heq⟩ := Option.map_eq_some_iff.mp hfind
      cases heq
      have hlast : last = separator := by
        have hhead := List.head?_dropWhile_not (· ≠ separator) rest
        rw [hbehind] at hhead
        simpa using hhead
      have hrest : first :: name ++ separator :: behind = rest := by
        subst hlast
        rw [← hname, ← hbehind]
        exact List.takeWhile_append_dropWhile
      refine ⟨cut.2, ?_⟩
      rw [← hrest, ← cutAt_eq hcut]
      simp
    next => cases hfind

section TagPatterns

variable [DecidableEq α] {opening closing : List α} {separator : α}

theorem span_separator {name : List α} (hplain : separator ∉ name) (rest : List α) :
    (name ++ separator :: rest).takeWhile (· ≠ separator) = name ∧
      (name ++ separator :: rest).dropWhile (· ≠ separator) = separator :: rest := by
  have hname : ∀ item ∈ name, decide (item ≠ separator) = true := by
    intro item hitem
    exact decide_eq_true fun heq => hplain (heq ▸ hitem)
  rw [List.takeWhile_append_of_pos hname, List.dropWhile_append_of_pos hname,
    List.takeWhile_cons_of_neg (by simp), List.dropWhile_cons_of_neg (by simp), List.append_nil]
  exact ⟨rfl, rfl⟩

/-- A tag without a name is none. -/
theorem find_tagPattern {name : List α} (hplain : separator ∉ name) (rest : List α) :
    (tagPattern opening separator closing).find (opening ++ (name ++ separator :: rest)) =
      if name = [] then none else (cutAt closing rest).map fun found => (name, found.1) := by
  obtain ⟨htake, hdrop⟩ := span_separator hplain rest
  unfold tagPattern
  dsimp only
  rw [if_pos (List.prefix_append _ _), List.drop_left, htake, hdrop]
  cases name with
  | nil => rfl
  | cons first name => rfl

theorem find_tagPattern_of_notMem {rest : List α} (hplain : separator ∉ rest) :
    (tagPattern opening separator closing).find (opening ++ rest) = none := by
  have hdrop : rest.dropWhile (· ≠ separator) = [] := by
    rw [List.dropWhile_eq_nil_iff]
    intro item hitem
    exact decide_eq_true fun heq => hplain (heq ▸ hitem)
  unfold tagPattern
  dsimp only
  rw [if_pos (List.prefix_append _ _), List.drop_left, hdrop]
  cases rest.takeWhile (· ≠ separator) <;> rfl

theorem find_tagPattern_of_absent {text : List α} (hnot : ¬opening <+: text) :
    (tagPattern opening separator closing).find text = none :=
  if_neg hnot

/-- What is found has a name. -/
theorem name_ne_nil_of_find {text : List α} {found : List α × List α}
    (hfind : (tagPattern opening separator closing).find text = some found) : found.1 ≠ [] := by
  unfold tagPattern at hfind
  dsimp only at hfind
  rw [Option.ite_none_right_eq_some] at hfind
  obtain ⟨-, hfind⟩ := hfind
  split at hfind
  next =>
    obtain ⟨cut, -, rfl⟩ := Option.map_eq_some_iff.mp hfind
    exact List.cons_ne_nil _ _
  next => cases hfind

theorem name_ne_nil_of_search {text : List α} {found : List α × List α}
    (hsearch : (tagPattern opening separator closing).search text = some found) :
    found.1 ≠ [] := by
  induction text with
  | nil => exact name_ne_nil_of_find hsearch
  | cons item text ih =>
      rw [Pattern.search, Option.or_eq_some_iff] at hsearch
      rcases hsearch with hfind | ⟨-, hlater⟩
      · exact name_ne_nil_of_find hfind
      · exact ih hlater

end TagPatterns

end ShuttleFlow
