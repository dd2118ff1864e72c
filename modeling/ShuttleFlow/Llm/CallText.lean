import ShuttleFlow.Library.Segments
import ShuttleFlow.Llm.FnCallConverter

/-! # The text of a call

Where the tags of a written call begin and end. The name of a parameter may end like the closing
tag of a function.
-/

namespace ShuttleFlow.FnCallConverter

open PythonText (isSpace rstrip trim)

variable {Float : Type} (format : FloatFormat Float)

/-- The lines of the parameters. -/
def paramLines (args : List (List Char × JsonValue Float)) : List Char :=
  args.flatMap fun arg => paramText format arg.1 arg.2 ++ ['\n']

theorem intercalate_newline (first last : List Char) (lines : List (List Char)) :
    List.intercalate ['\n'] (first :: lines ++ [last]) =
      first ++ '\n' :: (lines.flatMap (· ++ ['\n']) ++ last) := by
  induction lines generalizing first with
  | nil => simp [List.intercalate_cons_cons]
  | cons line lines ih =>
      rw [List.cons_append, List.cons_append, List.intercalate_cons_cons, ← List.cons_append, ih]
      simp

theorem callText_eq (name : List Char) (args : List (List Char × JsonValue Float)) :
    callText format name args =
      functionOpening ++ (name ++ '>' :: '\n' :: (paramLines format args ++ functionClosing)) := by
  rw [callText, intercalate_newline, List.flatMap_map]
  simp [paramLines, List.append_assoc]

/-- What the arguments of a call are promised to be. -/
structure Plain (arg : List Char × JsonValue Float) : Prop where
  endless : '>' ∉ arg.1
  unequal : '=' ∉ arg.1
  unmarked : ∀ marker ∈ [functionOpening, functionClosing, paramOpening, paramClosing],
    ¬marker <:+: rendered format arg.2

/-- The name ends like the closing tag of a function. -/
def ClosesEarly (param : List Char) : Prop := "</function".toList <:+ param

instance (param : List Char) : Decidable (ClosesEarly param) :=
  inferInstanceAs (Decidable (_ <:+ _))

section Markers

variable {format} {marker param name rest text : List Char} {value : JsonValue Float}
  {args : List (List Char × JsonValue Float)}

theorem not_infix_paramBody (hnewline : '\n' ∉ marker) (hne : marker ≠ [])
    (hvalue : ¬marker <:+: rendered format value) : ¬marker <:+: paramBody format value := by
  unfold paramBody
  split
  next =>
    rw [List.cons_append, List.infix_cons_iff, not_or]
    constructor
    · intro hbegins
      cases marker with
      | nil => exact hne rfl
      | cons first marker =>
          obtain ⟨rfl, -⟩ := List.cons_prefix_cons.mp hbegins
          exact hnewline List.mem_cons_self
    · apply not_infix_append hvalue
      · intro hoccurs
        cases marker with
        | nil => exact hne rfl
        | cons first marker =>
            have hmem := hoccurs.subset List.mem_cons_self
            rw [List.mem_singleton] at hmem
            exact hnewline (hmem ▸ List.mem_cons_self)
      · rintro item ⟨⟩ hmem
        exact hnewline (List.mem_of_mem_tail hmem)
  next => exact hvalue

/-- Behind its first character the text of a parameter has a marker only in its name. -/
theorem not_infix_paramText_tail (hhead : marker.head? = some '<') (htail : '<' ∉ marker.tail)
    (hnewline : '\n' ∉ marker) (hclosing : ∀ rest, ¬marker <+: paramClosing ++ rest)
    (hparam : ∀ rest, ¬marker <:+: rest → ¬marker <:+: param ++ '>' :: rest)
    (hvalue : ¬marker <:+: rendered format value) (hrest : ¬marker <:+: rest) :
    ¬marker <:+: (paramText format param value ++ '\n' :: rest).tail := by
  have hne : marker ≠ [] := by
    rintro rfl
    cases hhead
  have hopens : paramOpening = '<' :: "parameter=".toList := rfl
  have hcloses : paramClosing = '<' :: "/parameter>".toList := rfl
  have hsplit : (paramText format param value ++ '\n' :: rest).tail =
      "parameter=".toList ++ (param ++ '>' :: (paramBody format value ++
        ('<' :: ("/parameter>".toList ++ (['\n'] ++ rest))))) := by
    simp [paramText, hopens, hcloses, List.append_assoc]
  rw [hsplit]
  apply not_infix_append_of_notMem hhead (by decide)
  apply hparam
  apply not_infix_append (not_infix_paramBody hnewline hne hvalue)
  · rw [List.infix_cons_iff, not_or]
    refine ⟨hclosing _, ?_⟩
    apply not_infix_append_of_notMem hhead (by decide)
    exact not_infix_append_of_notMem hhead (by decide) hrest
  · rintro item ⟨⟩
    exact htail

/-- A marker that begins at no tag of a parameter is in its text only if it is in its name. -/
theorem not_infix_paramText (hhead : marker.head? = some '<') (htail : '<' ∉ marker.tail)
    (hnewline : '\n' ∉ marker) (hopening : ∀ rest, ¬marker <+: paramOpening ++ rest)
    (hclosing : ∀ rest, ¬marker <+: paramClosing ++ rest)
    (hparam : ∀ rest, ¬marker <:+: rest → ¬marker <:+: param ++ '>' :: rest)
    (hvalue : ¬marker <:+: rendered format value) (hrest : ¬marker <:+: rest) :
    ¬marker <:+: paramText format param value ++ '\n' :: rest := by
  have hcons : paramText format param value ++ '\n' :: rest =
      '<' :: (paramText format param value ++ '\n' :: rest).tail := rfl
  have hopens : paramText format param value ++ '\n' :: rest = paramOpening ++
      (param ++ '>' :: (paramBody format value ++ (paramClosing ++ '\n' :: rest))) := by
    simp [paramText, List.append_assoc]
  rw [hcons, List.infix_cons_iff, not_or, ← hcons]
  refine ⟨?_, not_infix_paramText_tail hhead htail hnewline hclosing hparam hvalue hrest⟩
  rw [hopens]
  exact hopening _

theorem not_infix_of_notMem {c : Char} (hmarker : c ∈ marker) (htext : c ∉ text) :
    ¬marker <:+: text := fun hoccurs => htext (hoccurs.subset hmarker)

/-- A marker with an equals sign is not in a name. -/
theorem not_infix_param (hparam : '=' ∉ param) (hmarker : '=' ∈ marker)
    (hhead : marker.head? = some '<') (htail : '>' ∉ marker.tail) {rest : List Char}
    (hrest : ¬marker <:+: rest) : ¬marker <:+: param ++ '>' :: rest := by
  apply not_infix_append (not_infix_of_notMem hmarker hparam)
  · exact @not_infix_append_of_notMem _ _ ['>'] _ _ hhead (by decide) hrest
  · rintro item ⟨⟩
    exact htail

/-- A call opens only once. -/
theorem not_opening_paramLines (hplain : ∀ arg ∈ args, Plain format arg)
    (hrest : ¬functionOpening <:+: rest) :
    ¬functionOpening <:+: paramLines format args ++ rest := by
  induction args with
  | nil => exact hrest
  | cons arg args ih =>
      have harg := hplain arg List.mem_cons_self
      rw [paramLines, List.flatMap_cons, List.append_assoc, List.append_assoc]
      exact not_infix_paramText rfl (by decide) (by decide)
        (not_prefix_append (by decide) (by decide)) (not_prefix_append (by decide) (by decide))
        (fun rest => not_infix_param harg.unequal (by decide) rfl (by decide))
        (harg.unmarked _ (by simp))
        (ih fun other hother => hplain other (List.mem_cons_of_mem _ hother))

theorem not_opening_callText (hname : '=' ∉ name) (hplain : ∀ arg ∈ args, Plain format arg) :
    ¬functionOpening <:+: (callText format name args).tail := by
  have hopens : functionOpening = '<' :: "function=".toList := rfl
  rw [callText_eq, hopens, List.cons_append, List.tail_cons, ← hopens]
  apply not_infix_append_of_notMem rfl (by decide)
  apply not_infix_append (not_infix_of_notMem (c := '=') (by decide) hname)
  · apply @not_infix_append_of_notMem _ _ ['>', '\n'] _ _ rfl (by decide)
    exact not_opening_paramLines hplain (by decide)
  · rintro item ⟨⟩
    decide

/-- Parameters whose names do not close the function do not close it. -/
theorem not_closing_paramLines (hplain : ∀ arg ∈ args, Plain format arg)
    (hopen : ∀ arg ∈ args, ¬ClosesEarly arg.1) (hrest : ¬functionClosing <:+: rest) :
    ¬functionClosing <:+: paramLines format args ++ rest := by
  induction args with
  | nil => exact hrest
  | cons arg args ih =>
      have harg := hplain arg List.mem_cons_self
      rw [paramLines, List.flatMap_cons, List.append_assoc, List.append_assoc]
      apply not_infix_paramText rfl (by decide) (by decide)
        (not_prefix_append (by decide) (by decide)) (not_prefix_append (by decide) (by decide)) _
        (harg.unmarked _ (by simp))
        (ih (fun other hother => hplain other (List.mem_cons_of_mem _ hother))
          fun other hother => hopen other (List.mem_cons_of_mem _ hother))
      intro rest hlater
      have hcloses : functionClosing = "</function".toList ++ ['>'] := rfl
      rw [hcloses] at hlater ⊢
      apply not_infix_append_of_last (by decide) _ hlater
      rw [infix_concat_iff harg.endless]
      exact hopen arg List.mem_cons_self

/-- The arguments up to the first one whose name closes the function. -/
def openArgs (args : List (List Char × JsonValue Float)) : List (List Char × JsonValue Float) :=
  args.takeWhile fun arg => !decide (ClosesEarly arg.1)

/-- What is behind the open arguments, up to the first closing tag: nothing, or the beginning of a
tag whose name closes the function. -/
theorem exists_paramLines_split (hplain : ∀ arg ∈ args, Plain format arg) :
    ∃ last behind, paramLines format args ++ functionClosing =
        paramLines format (openArgs args) ++ last ++ (functionClosing ++ behind) ∧
      ¬functionClosing <:+: paramLines format (openArgs args) ++ last ∧
      (last = [] ∨ ∃ begun, last = paramOpening ++ begun ∧ '>' ∉ begun ∧ '=' ∉ begun) := by
  have hopen : ∀ arg ∈ openArgs args, ¬ClosesEarly arg.1 := fun arg harg => by
    simpa using List.mem_takeWhile_imp harg
  have hplainOpen : ∀ arg ∈ openArgs args, Plain format arg := fun arg harg =>
    hplain arg ((List.takeWhile_sublist _).subset harg)
  cases hrest : args.dropWhile fun arg => !decide (ClosesEarly arg.1) with
  | nil =>
      have hall : openArgs args = args := by
        have happend := @List.takeWhile_append_dropWhile _
          (fun arg : List Char × JsonValue Float => !decide (ClosesEarly arg.1)) args
        rwa [hrest, List.append_nil] at happend
      refine ⟨[], [], by simp [hall], ?_, .inl rfl⟩
      exact not_closing_paramLines hplainOpen hopen (by decide)
  | cons arg later =>
      have hargs : args = openArgs args ++ arg :: later := by
        rw [← hrest]
        exact List.takeWhile_append_dropWhile.symm
      have hcloses : ClosesEarly arg.1 := by
        have hhead := List.head?_dropWhile_not
          (fun arg : List Char × JsonValue Float => !decide (ClosesEarly arg.1)) args
        rw [hrest] at hhead
        simpa using hhead
      obtain ⟨begun, hbegun⟩ := hcloses
      have harg := hplain arg (by rw [hargs]; simp)
      have hendless := harg.endless
      have hunequal := harg.unequal
      rw [← hbegun, List.mem_append, not_or] at hendless hunequal
      refine ⟨paramOpening ++ begun, paramBody format arg.2 ++ (paramClosing ++
        '\n' :: (paramLines format later ++ functionClosing)), ?_, ?_,
        .inr ⟨begun, rfl, hendless.1, hunequal.1⟩⟩
      · conv_lhs => rw [hargs]
        have hclosing : functionClosing = "</function".toList ++ ['>'] := rfl
        rw [paramLines, List.flatMap_append, List.flatMap_cons, paramText, ← hbegun]
        simp only [paramLines, hclosing, List.append_assoc, List.cons_append, List.nil_append]
      · apply not_closing_paramLines hplainOpen hopen
        apply not_infix_of_notMem (c := '>') (by decide)
        rw [List.mem_append, not_or]
        exact ⟨by decide, hendless.1⟩

end Markers

/-! ## Repairs leave the call -/

section Repairs

variable {name body behind text : List Char}

theorem sub_wordBefore_of_absent {word ahead : List Char} {hword : word ≠ []}
    {f : List Char → List Char} (habsent : ¬ahead <:+: text.tail) :
    (wordBefore word ahead hword).sub f text = text := by
  apply Pattern.sub_eq_self_of_find_eq_none
  intro before item after hsplit
  refine if_neg fun hfinds => habsent ?_
  have hahead := hfinds.2
  obtain ⟨length, hlength⟩ :=
    Nat.exists_eq_add_one.mpr (List.length_pos_iff.mpr hword)
  rw [hlength, List.drop_succ_cons] at hahead
  have hafter : after <:+ text.tail := by
    rw [hsplit]
    cases before with
    | nil => exact List.suffix_refl _
    | cons first before => exact ⟨before ++ [item], by simp⟩
  exact hahead.isInfix.trans
    (((List.dropWhile_suffix _).trans (List.drop_suffix _ _)).trans hafter).isInfix

/-- The text of a call, up to its first closing tag. -/
def calledText (name body : List Char) : List Char :=
  functionOpening ++ (name ++ '>' :: '\n' :: body)

theorem find_toolCallClose_of_absent {rest : List Char} (hnot : ¬functionClosing <+: rest) :
    toolCallClosePattern.find rest = none :=
  if_neg fun h => hnot h.1

/-- Before the first closing tag there is none of a tool call to be taken out. -/
theorem find_toolCallClose_calledText (hname : '>' ∉ name) (hbody : ¬functionClosing <:+: body)
    (hnext : ∀ c ∈ (body ++ (functionClosing ++ behind)).head?, isSpace c = false)
    (htool : ¬toolCallClosing <+: body ++ (functionClosing ++ behind))
    {before after : List Char} {item : Char}
    (hsplit : calledText name body = before ++ item :: after) :
    toolCallClosePattern.find (item :: after ++ (functionClosing ++ behind)) = none := by
  have hcalled : calledText name body =
      (functionOpening ++ name ++ ['>']) ++ ('\n' :: body) := by
    simp [calledText]
  rw [hcalled] at hsplit
  rcases Segments.marker_split hsplit with ⟨rest, hfront, rfl⟩ | ⟨middle, -, hbehind⟩
  · -- only the tag of the name may end like a closing tag, and a line ends behind it
    refine if_neg fun hfinds => htool ?_
    obtain ⟨hcloses, hahead⟩ := hfinds
    have hitem : functionClosing = item :: rest := by
      rw [← List.cons_append, List.append_assoc] at hcloses
      obtain ⟨more, hmore⟩ := prefix_of_prefix_append (List.cons_ne_nil item rest)
        (by rintro other ⟨⟩; decide) hcloses
      rcases List.eq_nil_or_concat more with rfl | ⟨others, last, rfl⟩
      · rw [← hmore, List.append_nil]
      · rw [← hmore, List.concat_eq_append, ← List.append_assoc, ← List.append_assoc] at hfront
        have hmem : '>' ∈ before ++ functionClosing ++ others :=
          List.mem_append_left _ (List.mem_append_right _ (by decide))
        rw [← (List.append_inj' hfront rfl).1, List.mem_append] at hmem
        rcases hmem with hmem | hmem
        · exact absurd hmem (by decide)
        · exact absurd hmem hname
    rw [← List.cons_append, ← hitem, List.append_assoc, List.drop_left, List.cons_append,
      List.dropWhile_cons_of_pos (by decide)] at hahead
    cases hrest : body ++ (functionClosing ++ behind) with
    | nil =>
        have hnil := (List.append_eq_nil_iff.mp (List.append_eq_nil_iff.mp hrest).2).1
        exact absurd hnil (by decide)
    | cons c others =>
        rw [hrest] at hahead hnext
        rwa [List.dropWhile_cons_of_neg (by simp [hnext c rfl])] at hahead
  · apply find_toolCallClose_of_absent
    refine not_prefix_of_absent ?_ ?_ hbehind
    · exact @not_infix_append_of_notMem _ _ ['\n'] _ _ rfl (by decide) hbody
    · rintro other ⟨⟩
      decide

/-- The repairs of wrappers leave everything up to the first closing tag. -/
theorem preprocess_calledText (hname : '>' ∉ name) (hbody : ¬functionClosing <:+: body)
    (hnext : ∀ c ∈ (body ++ (functionClosing ++ behind)).head?, isSpace c = false)
    (htool : ¬toolCallClosing <+: body ++ (functionClosing ++ behind))
    (hopening : ¬functionOpening <:+:
      (calledText name body ++ (functionClosing ++ behind)).tail) :
    ∃ later, preprocessModelOutput (calledText name body ++ (functionClosing ++ behind)) =
      calledText name body ++ (functionClosing ++ later) := by
  rw [preprocessModelOutput, thinkPattern, sub_wordBefore_of_absent hopening, toolCallOpenPattern,
    sub_wordBefore_of_absent hopening, Pattern.sub_append_of_find_eq_none _
      fun before item after hsplit =>
        find_toolCallClose_calledText hname hbody hnext htool hsplit]
  cases hfind : toolCallClosePattern.find (functionClosing ++ behind) with
  | none =>
      refine ⟨toolCallClosePattern.sub (fun _ => functionClosing) behind, ?_⟩
      rw [Pattern.sub_append_of_find_eq_none functionClosing]
      intro before item after hsplit
      cases before with
      | nil =>
          rw [List.nil_append] at hsplit
          rw [← hsplit]
          exact hfind
      | cons first before =>
          have htail : "/function>".toList = before ++ item :: after := (List.cons.inj hsplit).2
          apply find_toolCallClose_of_absent
          exact not_prefix_of_notMem rfl (by decide) htail behind
  | some blank =>
      obtain ⟨rest, hrest⟩ := toolCallClosePattern.covers_initial hfind
      refine ⟨toolCallClosePattern.sub (fun _ => functionClosing) rest, ?_⟩
      rw [← hrest] at hfind ⊢
      rw [Pattern.sub_of_find hfind]

theorem rstrip_functionClosing (later : List Char) :
    ∃ rest, rstrip (functionClosing ++ later) = functionClosing ++ rest := by
  by_cases hink : ∃ c ∈ later, isSpace c = false
  · exact ⟨rstrip later, PythonText.rstrip_append_of_ink hink functionClosing⟩
  · refine ⟨[], ?_⟩
    rw [PythonText.rstrip_append_of_blank, List.append_nil]
    · decide
    · intro c hmem
      by_contra hspace
      exact hink ⟨c, hmem, by simpa using hspace⟩

/-- So does the repair of a missing closing tag. -/
theorem fixStopword_calledText (hname : '>' ∉ name) (hbody : ¬functionClosing <:+: body)
    (hnext : ∀ c ∈ (body ++ (functionClosing ++ behind)).head?, isSpace c = false)
    (htool : ¬toolCallClosing <+: body ++ (functionClosing ++ behind))
    (hopening : ¬functionOpening <:+:
      (calledText name body ++ (functionClosing ++ behind)).tail) :
    ∃ later, fixStopword (calledText name body ++ (functionClosing ++ behind)) =
      calledText name body ++ (functionClosing ++ later) := by
  obtain ⟨later, hlater⟩ := preprocess_calledText hname hbody hnext htool hopening
  rw [fixStopword, hlater]
  split
  next =>
    split
    next =>
      have hink : ∃ c ∈ functionClosing ++ later, isSpace c = false :=
        ⟨'<', List.mem_append_left _ (by decide), by decide⟩
      obtain ⟨rest, hrest⟩ := rstrip_functionClosing later
      refine ⟨rest ++ "function>".toList, ?_⟩
      rw [PythonText.rstrip_append_of_ink hink, hrest, List.append_assoc, List.append_assoc]
    next =>
      split
      next => exact ⟨later, rfl⟩
      next => exact ⟨later ++ '\n' :: functionClosing, by simp⟩
  next => exact ⟨later, rfl⟩

end Repairs

/-! ## What is found in the text -/

section Found

variable {format} {name body behind last begun param : List Char} {value : JsonValue Float}
  {args : List (List Char × JsonValue Float)}

theorem search_calledText (hname : '>' ∉ name) (hne : name ≠ [])
    (hbody : ¬functionClosing <:+: body) :
    fnPattern.search (calledText name body ++ (functionClosing ++ behind)) =
      some (name, '\n' :: body) := by
  have hfind : fnPattern.find (calledText name body ++ (functionClosing ++ behind)) =
      some (name, '\n' :: body) := by
    have hlines : ¬functionClosing <:+: '\n' :: body :=
      @not_infix_append_of_notMem _ _ ['\n'] _ _ rfl (by decide) hbody
    have hcut := @cutAt_append _ _ functionClosing ('\n' :: body) behind (by decide)
      (by rintro item ⟨⟩; decide) hlines
    rw [calledText, List.append_assoc, List.append_assoc, List.cons_append, fnPattern,
      find_tagPattern hname, if_neg hne, hcut]
    rfl
  have hcons : calledText name body ++ (functionClosing ++ behind) =
      '<' :: (calledText name body ++ (functionClosing ++ behind)).tail := rfl
  rw [hcons] at hfind ⊢
  rw [Pattern.search, hfind, Option.some_or]

/-- No parameter of a written call has an equals sign behind its name. -/
theorem find_malformed_of_param {rest : List Char} (hparam : '=' ∉ param)
    (hrest : ∀ c ∈ rest.head?, isWordChar c = false ∧ c ≠ '=') :
    malformedPattern.find (paramOpening ++ (param ++ rest)) = none := by
  have hhead : ∀ behind, (param ++ rest).dropWhile isWordChar ≠ '=' :: behind := by
    intro behind hdrop
    rw [List.dropWhile_append] at hdrop
    split at hdrop
    next =>
      cases rest with
      | nil => cases hdrop
      | cons c rest =>
          obtain ⟨hword, hne⟩ := hrest c rfl
          rw [List.dropWhile_cons_of_neg (by simp [hword])] at hdrop
          exact hne (List.cons.inj hdrop).1
    next hsome =>
      cases hfirst : param.dropWhile isWordChar with
      | nil => simp [hfirst] at hsome
      | cons c others =>
          rw [hfirst] at hdrop
          obtain ⟨rfl, -⟩ := List.cons.inj hdrop
          have hmem := (List.dropWhile_suffix isWordChar (l := param)).subset
            (hfirst ▸ List.mem_cons_self)
          exact hparam hmem
  simp only [malformedPattern, List.prefix_append, if_true, List.drop_left]
  split
  next first name behind hname hbehind => exact absurd hbehind (hhead behind)
  next => rfl

/-- Behind the beginning of a parameter no other one begins. -/
theorem not_param_begins {rest before after : List Char} {first item : Char}
    (harg : Plain format (param, value)) (hrest : ∀ c ∈ rest.head?, c = '<')
    (hsplit : paramText format param value ++ ['\n'] = first :: before ++ item :: after) :
    ¬paramOpening <+: item :: after ++ rest := by
  have htail : (paramText format param value ++ '\n' :: []).tail = before ++ item :: after := by
    rw [hsplit]
    rfl
  refine not_prefix_of_absent ?_ ?_ htail
  · exact not_infix_paramText_tail rfl (by decide) (by decide)
      (not_prefix_append (by decide) (by decide))
      (fun rest => not_infix_param harg.unequal (by decide) rfl (by decide))
      (harg.unmarked _ (by simp)) (by decide)
  · intro c hc
    rw [hrest c hc]
    decide

/-- Nor does one behind the beginning of a parameter that is cut off. -/
theorem not_param_begins_begun {before after : List Char} {first item : Char}
    (hbegun : '=' ∉ begun) (hsplit : paramOpening ++ begun = first :: before ++ item :: after) :
    ¬paramOpening <+: item :: after := by
  have htail : "parameter=".toList ++ begun = before ++ item :: after := (List.cons.inj hsplit).2
  have hnot : ¬paramOpening <:+: "parameter=".toList ++ begun := by
    apply @not_infix_append_of_notMem _ paramOpening _ begun '<' rfl (by decide)
    exact not_infix_of_notMem (c := '=') (by decide) hbegun
  have hbegins := @not_prefix_of_absent _ paramOpening _ [] item before after hnot nofun htail
  rwa [List.append_nil] at hbegins

theorem head_paramLines (hlast : last = [] ∨ ∃ begun, last = paramOpening ++ begun) :
    ∀ c ∈ (paramLines format args ++ last).head?, c = '<' := by
  cases args with
  | nil =>
      rcases hlast with rfl | ⟨begun, rfl⟩
      · nofun
      · rintro c ⟨⟩
        rfl
  | cons arg args =>
      rintro c ⟨⟩
      rfl

/-- There is nothing to normalize. -/
theorem normalize_paramLines (hplain : ∀ arg ∈ args, Plain format arg)
    (hlast : last = [] ∨ ∃ begun, last = paramOpening ++ begun ∧ '>' ∉ begun ∧ '=' ∉ begun) :
    normalizeParameterTags (paramLines format args ++ last) = paramLines format args ++ last := by
  have habsent : ∀ text, ¬paramOpening <+: text → malformedPattern.find text = none :=
    fun text hnot => if_neg hnot
  have hlastHead : last = [] ∨ ∃ begun, last = paramOpening ++ begun :=
    hlast.imp_right fun ⟨begun, hbegun, _⟩ => ⟨begun, hbegun⟩
  unfold normalizeParameterTags
  induction args with
  | nil =>
      apply Pattern.sub_eq_self_of_find_eq_none
      intro before item after hsplit
      rcases hlast with rfl | ⟨begun, rfl, -, hbegun⟩
      · simp [paramLines] at hsplit
      · cases before with
        | nil =>
            rw [← List.nil_append (item :: after), ← hsplit]
            have hfind := @find_malformed_of_param begun [] hbegun nofun
            rwa [List.append_nil] at hfind
        | cons first before => exact habsent _ (not_param_begins_begun hbegun hsplit)
  | cons arg args ih =>
      have harg := hplain arg List.mem_cons_self
      have hsplit : paramLines format (arg :: args) ++ last =
          (paramText format arg.1 arg.2 ++ ['\n']) ++ (paramLines format args ++ last) := by
        rw [paramLines, List.flatMap_cons, List.append_assoc]
        rfl
      rw [hsplit, Pattern.sub_append_of_find_eq_none,
        ih fun other hother => hplain other (List.mem_cons_of_mem _ hother)]
      intro before item after hparam
      cases before with
      | nil =>
          rw [← List.nil_append (item :: after), ← hparam]
          have hbegins : paramText format arg.1 arg.2 ++ ['\n'] ++
              (paramLines format args ++ last) = paramOpening ++ (arg.1 ++ ('>' ::
                (paramBody format arg.2 ++ (paramClosing ++ ('\n' ::
                  (paramLines format args ++ last)))))) := by
            simp [paramText, List.append_assoc]
          rw [hbegins]
          apply find_malformed_of_param harg.unequal
          rintro c ⟨⟩
          decide
      | cons first before =>
          exact habsent _ (not_param_begins harg (head_paramLines hlastHead) hparam)

theorem find_param (harg : Plain format (param, value)) (rest : List Char) :
    paramPattern.find (paramText format param value ++ rest) =
      if param = [] then none else some (param, paramBody format value) := by
  have hbody : ¬paramClosing <:+: paramBody format value :=
    not_infix_paramBody (by decide) (by decide) (harg.unmarked _ (by simp))
  have hsplit : paramText format param value ++ rest =
      paramOpening ++ (param ++ '>' :: (paramBody format value ++ (paramClosing ++ rest))) := by
    simp [paramText, List.append_assoc]
  rw [hsplit, paramPattern, find_tagPattern harg.endless,
    cutAt_append (by decide) (by rintro item ⟨⟩; decide) hbody]
  rfl

theorem find_param_of_absent {text : List Char} (hnot : ¬paramOpening <+: text) :
    paramPattern.find text = none := find_tagPattern_of_absent hnot

/-- Each parameter with a name is found, with the text between its tags. -/
theorem findAll_paramLines (hplain : ∀ arg ∈ args, Plain format arg)
    (hlast : last = [] ∨ ∃ begun, last = paramOpening ++ begun ∧ '>' ∉ begun ∧ '=' ∉ begun) :
    paramPattern.findAll (paramLines format args ++ last) =
      (args.filter fun arg => arg.1 ≠ []).map fun arg => (arg.1, paramBody format arg.2) := by
  have hlastHead : last = [] ∨ ∃ begun, last = paramOpening ++ begun :=
    hlast.imp_right fun ⟨begun, hbegun, _⟩ => ⟨begun, hbegun⟩
  induction args with
  | nil =>
      have hnone : paramPattern.findAll (last ++ []) = paramPattern.findAll [] := by
        apply Pattern.findAll_append_of_find_eq_none
        intro before item after hsplit
        rw [List.append_nil]
        rcases hlast with rfl | ⟨begun, rfl, hendless, hbegun⟩
        · simp at hsplit
        · cases before with
          | nil =>
              rw [← List.nil_append (item :: after), ← hsplit]
              exact find_tagPattern_of_notMem hendless
          | cons first before => exact find_param_of_absent (not_param_begins_begun hbegun hsplit)
      rw [List.append_nil] at hnone
      exact hnone
  | cons arg args ih =>
      have harg := hplain arg List.mem_cons_self
      have hlater := ih fun other hother => hplain other (List.mem_cons_of_mem _ hother)
      have hsplit : paramLines format (arg :: args) ++ last =
          paramText format arg.1 arg.2 ++ ('\n' :: (paramLines format args ++ last)) := by
        rw [paramLines, List.flatMap_cons, List.append_assoc, List.append_assoc]
        rfl
      have hnewline : paramPattern.findAll ('\n' :: (paramLines format args ++ last)) =
          paramPattern.findAll (paramLines format args ++ last) := by
        apply @Pattern.findAll_append_of_find_eq_none _ _ _ ['\n']
        intro before item after hline
        exact find_param_of_absent (@not_prefix_of_notMem _ paramOpening ['\n'] '<' item before
          after rfl (by decide) hline _)
      by_cases hempty : arg.1 = []
      · rw [List.filter_cons_of_neg (by simpa using hempty), ← hlater, hsplit]
        have hnone : paramPattern.findAll ((paramText format arg.1 arg.2 ++ ['\n']) ++
            (paramLines format args ++ last)) =
            paramPattern.findAll (paramLines format args ++ last) := by
          apply Pattern.findAll_append_of_find_eq_none
          intro before item after hparam
          cases before with
          | nil =>
              rw [← List.nil_append (item :: after), ← hparam, List.append_assoc,
                find_param harg, if_pos hempty]
          | cons first before =>
              exact find_param_of_absent
                (not_param_begins harg (head_paramLines hlastHead) hparam)
        rwa [List.append_assoc] at hnone
      · rw [List.filter_cons_of_pos (by simpa using hempty), List.map_cons, ← hlater, ← hnewline,
          hsplit]
        have hfind : paramPattern.find (paramPattern.covers (arg.1, paramBody format arg.2) ++
            ('\n' :: (paramLines format args ++ last))) =
            some (arg.1, paramBody format arg.2) := by
          refine (find_param harg _).trans ?_
          rw [if_neg hempty]
        exact Pattern.findAll_of_find hfind

/-- The repairs leave the open arguments of a call. -/
theorem fixStopword_callText (hendless : '>' ∉ name) (hunequal : '=' ∉ name)
    (hplain : ∀ arg ∈ args, Plain format arg) :
    ∃ last later, fixStopword (callText format name args) =
        calledText name (paramLines format (openArgs args) ++ last) ++
          (functionClosing ++ later) ∧
      ¬functionClosing <:+: paramLines format (openArgs args) ++ last ∧
      (last = [] ∨ ∃ begun, last = paramOpening ++ begun ∧ '>' ∉ begun ∧ '=' ∉ begun) := by
  obtain ⟨last, behind, hlines, hbody, hlast⟩ := exists_paramLines_split hplain
  have htext : callText format name args =
      calledText name (paramLines format (openArgs args) ++ last) ++
        (functionClosing ++ behind) := by
    rw [callText_eq, hlines, calledText]
    simp only [List.append_assoc, List.cons_append]
  have hbegins : functionClosing <+: paramLines format (openArgs args) ++ last ++
        (functionClosing ++ behind) ∨
      paramOpening <+: paramLines format (openArgs args) ++ last ++
        (functionClosing ++ behind) := by
    cases openArgs args with
    | nil =>
        rcases hlast with rfl | ⟨begun, rfl, -⟩
        · exact .inl (List.prefix_append _ _)
        · exact .inr ⟨begun ++ (functionClosing ++ behind), (List.append_assoc _ _ _).symm⟩
    | cons arg others =>
        have hparam : paramOpening <+: paramText format arg.1 arg.2 :=
          ⟨arg.1 ++ '>' :: paramBody format arg.2 ++ paramClosing, by simp [paramText]⟩
        rw [paramLines, List.flatMap_cons]
        simp only [List.append_assoc]
        exact .inr (hparam.trans (List.prefix_append _ _))
  have hnext : ∀ c ∈ (paramLines format (openArgs args) ++ last ++
      (functionClosing ++ behind)).head?, isSpace c = false := by
    obtain ⟨rest, hrest⟩ | ⟨rest, hrest⟩ := hbegins
    · rw [← hrest]
      rintro c ⟨⟩
      decide
    · rw [← hrest]
      rintro c ⟨⟩
      decide
  have htool : ¬toolCallClosing <+: paramLines format (openArgs args) ++ last ++
      (functionClosing ++ behind) := by
    obtain ⟨rest, hrest⟩ | ⟨rest, hrest⟩ := hbegins
    · rw [← hrest]
      exact not_prefix_append (by decide) (by decide) rest
    · rw [← hrest]
      exact not_prefix_append (by decide) (by decide) rest
  have hopening := not_opening_callText hunequal hplain
  rw [htext] at hopening ⊢
  obtain ⟨later, hlater⟩ := fixStopword_calledText hendless hbody hnext htool hopening
  exact ⟨last, later, hlater, hbody, hlast⟩

end Found

end ShuttleFlow.FnCallConverter
