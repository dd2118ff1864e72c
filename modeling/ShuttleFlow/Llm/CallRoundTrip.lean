import ShuttleFlow.Library.JsonRoundTrip
import ShuttleFlow.Llm.CallText

/-! # Calls that are written and read

Only integers and arrays are converted when a call is read. Other values stay texts, without the
spaces at their ends.
-/

namespace ShuttleFlow.FnCallConverter

open PythonText (isSpace trim)

variable {Float : Type} {format : FloatFormat Float}

/-! ## Values -/

section Values

theorem isIntDigits_toDigits (value : Nat) : isIntDigits (Nat.toDigits 10 value) = true := by
  have hdigits : ∀ c ∈ Nat.toDigits 10 value, c.isDigit = true := fun c =>
    JsonText.isDigit_toDigits
  have hne : Nat.toDigits 10 value ≠ [] := Nat.toDigits_ne_nil
  have hline : ¬['_', '_'] <:+: Nat.toDigits 10 value := fun hoccurs => by
    cases hdigits '_' (hoccurs.subset List.mem_cons_self)
  have hall : (Nat.toDigits 10 value).all (fun c => c.isDigit || c = '_') = true :=
    List.all_eq_true.mpr fun c hc => by rw [hdigits c hc, Bool.true_or]
  simp only [isIntDigits, Bool.and_eq_true, Bool.not_eq_true', decide_eq_false_iff_not]
  refine ⟨⟨⟨hall, ?_⟩, ?_⟩, hline⟩
  · rw [List.head?_eq_some_head hne]
    exact hdigits _ (List.head_mem hne)
  · rw [List.getLast?_eq_some_getLast hne]
    exact hdigits _ (List.getLast_mem hne)

theorem trim_intText (value : Int) : trim (JsonText.intText value) = JsonText.intText value := by
  have hplain : ∀ c ∈ JsonText.intText value, isSpace c = false := by
    intro c hc
    have hcases : c = '-' ∨ c ∈ Nat.toDigits 10 value.natAbs := by
      unfold JsonText.intText at hc
      split at hc
      · exact List.mem_cons.mp hc
      · exact .inr hc
    rcases hcases with rfl | hdigit
    · decide
    · exact PythonText.isSpace_of_isDigit (JsonText.isDigit_toDigits hdigit)
  exact PythonText.trim_of_ends (fun c hc => hplain c (List.mem_of_mem_head? hc))
    fun c hc => hplain c (List.mem_of_getLast? hc)

theorem ofDigitChars_filter (value : Nat) :
    Nat.ofDigitChars 10 ((Nat.toDigits 10 value).filter Char.isDigit) 0 = value := by
  rw [List.filter_eq_self.mpr fun c => JsonText.isDigit_toDigits, Nat.ofDigitChars_ten_toDigits]

theorem int?_intText (value : Int) : int? (JsonText.intText value) = some value := by
  rw [int?, trim_intText]
  unfold JsonText.intText
  split
  next hneg =>
    have hvalue : -(value.natAbs : Int) = value := by omega
    simp only [List.head?_cons, true_or, if_true, List.tail_cons, isIntDigits_toDigits,
      ofDigitChars_filter, hvalue]
  next hneg =>
    have hvalue : (value.natAbs : Int) = value := by omega
    have hsign : ∀ sign : Char, sign.isDigit = false →
        (Nat.toDigits 10 value.natAbs).head? ≠ some sign := by
      intro sign hsign hhead
      rw [JsonText.isDigit_toDigits (List.mem_of_mem_head? hhead)] at hsign
      cases hsign
    have hminus := hsign '-' rfl
    have hplus := hsign '+' rfl
    simp only [hminus, hplus, or_self, if_false, isIntDigits_toDigits, if_true,
      ofDigitChars_filter, hvalue]

theorem getLast?_append_dumpItems (text : List Char) (items : List (JsonValue Float)) :
    (text ++ JsonText.dumpItems format items).getLast? = some ']' := by
  induction items generalizing text with
  | nil => rw [JsonText.dumpItems, List.getLast?_concat]
  | cons item items ih =>
      have hsplit : text ++ JsonText.dumpItems format (item :: items) =
          (text ++ ',' :: ' ' :: JsonText.dumps format item) ++
            JsonText.dumpItems format items := by
        rw [JsonText.dumpItems]
        simp
      rw [hsplit]
      exact ih _

theorem trim_dumps_arr (items : List (JsonValue Float)) :
    trim (JsonText.dumps format (.arr items)) = JsonText.dumps format (.arr items) := by
  cases items with
  | nil => rfl
  | cons first rest =>
      rw [JsonText.dumps, ← List.cons_append]
      apply PythonText.trim_of_ends
      · rintro c ⟨⟩
        decide
      · rw [getLast?_append_dumpItems]
        rintro c ⟨⟩
        decide

theorem trim_paramBody (value : JsonValue Float) :
    trim (paramBody format value) = trim (rendered format value) := by
  unfold paramBody
  split
  next => exact PythonText.trim_newlines _
  next => rfl

end Values

/-! ## Arguments -/

section Arguments

/-- The value is one of the declared type. Without one of those that are named it may be any. -/
def Matches (type : Option ParamType) (value : JsonValue Float) : Prop :=
  match type with
  | some .string => ∃ text, value = .str text
  | some .integer => ∃ number, value = .int number
  | some .boolean => ∃ bool, value = .bool bool
  | some .number => (∃ number, value = .int number) ∨ ∃ number, value = .float number
  | some .array => ∃ items, value = .arr items
  | some .object => ∃ entries, value = .obj entries
  | some .other | none => True

/-- The value of an integer or an array, or a text without spaces at its ends. -/
def Survives (schema : ParamSchema Float) (value : JsonValue Float) : Prop :=
  (schema.type = some .integer ∨ schema.type = some .array ∨
    ∃ text, value = .str text ∧ trim text = text) ∧
  ∀ accepts ∈ schema.enum, accepts value = true

variable {param text : List Char} {type : ParamType} {value decoded : JsonValue Float}
  {schema : ParamSchema Float} {tool : FnCallTool Float} {fnName : List Char}

theorem convertParam_text (hinteger : type ≠ .integer) (harray : type ≠ .array) :
    convertParam format type param text = .ok (.str text) := by
  unfold convertParam
  split
  next => exact absurd rfl hinteger
  next => exact absurd rfl harray
  next => rfl

theorem convertParam_eq_ok_iff (hmatches : Matches schema.type value) (hvalid : value.Valid) :
    convertParam format (schema.type.getD .string) param (trim (rendered format value)) =
        .ok value ↔
      schema.type = some .integer ∨ schema.type = some .array ∨
        ∃ text, value = .str text ∧ trim text = text := by
  by_cases hinteger : schema.type = some .integer
  · rw [hinteger] at hmatches ⊢
    obtain ⟨number, rfl⟩ := hmatches
    have hconvert : convertParam format .integer param (trim (JsonText.intText number)) =
        .ok (.int number) := by
      rw [convertParam, trim_intText, int?_intText]
      rfl
    exact iff_of_true hconvert (.inl rfl)
  by_cases harray : schema.type = some .array
  · rw [harray] at hmatches ⊢
    obtain ⟨items, rfl⟩ := hmatches
    have hconvert : convertParam format .array param
        (trim (JsonText.dumps format (.arr items))) = .ok (.arr items) := by
      rw [convertParam, trim_dumps_arr, JsonText.loads_dumps hvalid]
      rfl
    exact iff_of_true hconvert (.inr (.inl rfl))
  · have hgetD : ∀ type, type ≠ ParamType.string → schema.type ≠ some type →
        schema.type.getD .string ≠ type := by
      intro type hstring hne heq
      cases htype : schema.type with
      | none => exact hstring (by rw [← heq, htype]; rfl)
      | some declared =>
          rw [htype, Option.getD_some] at heq
          exact hne (heq ▸ htype)
    rw [convertParam_text (hgetD _ (by decide) hinteger) (hgetD _ (by decide) harray),
      Except.ok.injEq, or_iff_right hinteger, or_iff_right harray]
    constructor
    · intro htext
      exact ⟨_, htext.symm, PythonText.trim_trim _⟩
    · rintro ⟨text, rfl, htext⟩
      rw [rendered, htext]

theorem valid_of_convertParam (hconvert : convertParam format type param text = .ok value) :
    value.Valid := by
  unfold convertParam at hconvert
  split at hconvert
  next =>
    split at hconvert
    next => cases hconvert; exact .int _
    next => cases hconvert
  next =>
    split at hconvert
    next hloads => cases hconvert; exact JsonText.valid_of_loads hloads
    next => cases hconvert
  next => cases hconvert; exact .str _

theorem extractParam_eq_ok_iff {found : List Char × List Char} :
    extractParam format tool fnName found = .ok value ↔
      (tool.properties.entries ≠ [] → found.1 ∈ tool.properties.keys) ∧
      convertParam format ((((tool.properties.get? found.1).getD {}).type).getD .string) found.1
        (trim found.2) = .ok value ∧
      ∀ accepts ∈ ((tool.properties.get? found.1).getD {}).enum, accepts value = true := by
  unfold extractParam
  split
  next hallowed => exact iff_of_false (fun h => by cases h) fun h => hallowed.2 (h.1 hallowed.1)
  next hallowed =>
    have hkeys : tool.properties.entries ≠ [] → found.1 ∈ tool.properties.keys := fun hne =>
      by_contra fun hnot => hallowed ⟨hne, hnot⟩
    dsimp only
    split
    next error herror =>
      exact iff_of_false (fun h => by cases h) fun h => by cases herror.symm.trans h.2.1
    next other hother =>
      split
      next henum =>
        refine iff_of_false (fun h => by cases h) fun h => ?_
        cases hother.symm.trans h.2.1
        obtain ⟨accepts, haccepts, hrejects⟩ := (Option.any_eq_true _ _).mp henum
        rw [h.2.2 accepts haccepts] at hrejects
        cases hrejects
      next henum =>
        constructor
        · rintro ⟨⟩
          refine ⟨hkeys, hother, fun accepts haccepts => ?_⟩
          rw [haccepts] at henum
          simpa using henum
        · intro h
          exact hother.symm.trans h.2.1

theorem extractParam_paramBody (hkey : param ∈ tool.properties.keys)
    (hmatches : Matches ((tool.properties.get? param).getD {}).type value)
    (hvalid : value.Valid) :
    extractParam format tool fnName (param, paramBody format value) = .ok value ↔
      Survives ((tool.properties.get? param).getD {}) value := by
  rw [extractParam_eq_ok_iff, trim_paramBody, convertParam_eq_ok_iff hmatches hvalid]
  exact and_iff_right fun _ => hkey

end Arguments

/-! ## Reading all of them -/

section Parameters

variable {tool : FnCallTool Float} {fnName : List Char}
  {params read : Dict (List Char) (JsonValue Float)}
  {founds : List (List Char × List Char)} {args : List (List Char × JsonValue Float)}

/-- What is read comes from a parameter that was found. -/
theorem mem_of_extractParams (hread : extractParams format tool fnName founds params = .ok read)
    {key : List Char} {value : JsonValue Float} (hget : read.get? key = some value) :
    params.get? key = some value ∨
      ∃ found ∈ founds, found.1 = key ∧ extractParam format tool fnName found = .ok value := by
  induction founds generalizing params with
  | nil =>
      cases hread
      exact .inl hget
  | cons found founds ih =>
      rw [extractParams] at hread
      split at hread
      next => cases hread
      next other hother =>
        rcases ih hread with hset | ⟨later, hlater, hkey, hvalue⟩
        · rw [Dict.get?_set] at hset
          split at hset
          next hkey =>
            cases hset
            exact .inr ⟨found, List.mem_cons_self, hkey.symm, hother⟩
          next => exact .inl hset
        · exact .inr ⟨later, List.mem_cons_of_mem _ hlater, hkey, hvalue⟩

/-- Distinct parameters that can be read are read in their order. -/
theorem extractParams_of_survives (hnodup : (args.map Prod.fst).Nodup)
    (hnew : ∀ arg ∈ args, arg.1 ∉ params.keys)
    (hextract : ∀ arg ∈ args,
      extractParam format tool fnName (arg.1, paramBody format arg.2) = .ok arg.2) :
    ∃ read, extractParams format tool fnName
        (args.map fun arg => (arg.1, paramBody format arg.2)) params = .ok read ∧
      read.entries = params.entries ++ args := by
  induction args generalizing params with
  | nil => exact ⟨params, rfl, (List.append_nil _).symm⟩
  | cons arg args ih =>
      rw [List.map_cons, List.nodup_cons] at hnodup
      have harg : arg.1 ∉ params.keys := hnew arg List.mem_cons_self
      have hlater : ∀ other ∈ args, other.1 ∉ (params.set arg.1 arg.2).keys := by
        intro other hother hmem
        rw [Dict.keys_set_of_notMem harg, List.mem_append, List.mem_singleton] at hmem
        rcases hmem with hmem | hsame
        · exact hnew other (List.mem_cons_of_mem _ hother) hmem
        · exact hnodup.1 (hsame ▸ List.mem_map_of_mem hother)
      obtain ⟨read, hread, hentries⟩ := ih hnodup.2 hlater fun other hother =>
        hextract other (List.mem_cons_of_mem _ hother)
      refine ⟨read, ?_, ?_⟩
      · rw [List.map_cons, extractParams, hextract arg List.mem_cons_self]
        exact hread
      · rw [hentries, Dict.entries_set_of_notMem harg, List.append_assoc]
        rfl

theorem valid_of_extractParams
    (hread : extractParams format tool fnName founds Dict.empty = .ok read) :
    (JsonValue.obj read.entries).Valid := by
  refine .obj read.nodup ?_
  rintro ⟨key, value⟩ hentry
  rcases mem_of_extractParams hread (Dict.get?_of_mem_entries hentry) with
    hempty | ⟨found, -, -, hvalue⟩
  · cases hempty
  · exact valid_of_convertParam (extractParam_eq_ok_iff.mp hvalue).2.1

theorem extractAndValidateParams_eq_ok_iff :
    extractAndValidateParams format tool founds fnName = .ok read ↔
      extractParams format tool fnName founds Dict.empty = .ok read ∧
      ∀ param ∈ tool.required, param ≠ "security_risk".toList → param ∈ read.keys := by
  have hmissing : ∀ params : Dict (List Char) (JsonValue Float),
      (tool.required.filter fun param =>
        decide (param ∉ params.keys ∧ param ≠ "security_risk".toList)) = [] ↔
      ∀ param ∈ tool.required, param ≠ "security_risk".toList → param ∈ params.keys := by
    intro params
    rw [List.filter_eq_nil_iff]
    refine forall₂_congr fun param _ => ?_
    rw [decide_eq_true_eq, not_and', not_not]
  unfold extractAndValidateParams
  split
  next error herror =>
    exact iff_of_false (fun h => by cases h) fun h => by cases herror.symm.trans h.1
  next params hparams =>
    dsimp only
    split
    next hnone =>
      constructor
      · rintro ⟨⟩
        exact ⟨hparams, (hmissing _).mp hnone⟩
      · rintro ⟨hread, -⟩
        exact hparams.symm.trans hread
    next hsome =>
      refine iff_of_false (fun h => by cases h) fun h => hsome ?_
      cases hparams.symm.trans h.1
      exact (hmissing _).mpr h.2

end Parameters

/-! ## Calls -/

section Calls

variable {tools : List (FnCallTool Float)} {tool : FnCallTool Float} {name : List Char}
  {args : List (List Char × JsonValue Float)}

/-- The parameters that are found in the text of a call. -/
def foundParams (format : FloatFormat Float) (args : List (List Char × JsonValue Float)) :
    List (List Char × List Char) :=
  ((openArgs args).filter fun arg => arg.1 ≠ []).map fun arg => (arg.1, paramBody format arg.2)

theorem convertAssistantToFncall_callText (hendless : '>' ∉ name) (hunequal : '=' ∉ name)
    (hplain : ∀ arg ∈ args, Plain format arg) (hfound : findTool tools name = some tool)
    (hne : name ≠ []) (message : FnMessage) (counter : Nat) :
    ∃ before, convertAssistantToFncall format message (callText format name args) tools counter =
      (extractAndValidateParams format tool (foundParams format args) name).map fun params =>
        ({ role := .assistant
           content := some before
           toolCalls := some
             [{ id := some (toolUseId counter)
                type := some "function".toList
                function := some
                  { name := name
                    arguments := JsonText.dumps format (.obj params.entries) } }] },
          counter + 1) := by
  obtain ⟨last, later, hfixed, hbody, hlast⟩ := fixStopword_callText hendless hunequal hplain
  have hresolve : resolveToolName tools name = .ok (name, tool) := by
    rw [resolveToolName, hfound]
    rfl
  have hopen : ∀ arg ∈ openArgs args, Plain format arg := fun arg harg =>
    hplain arg ((List.takeWhile_sublist _).subset harg)
  refine ⟨trim (textBefore functionOpening (fixStopword (callText format name args))), ?_⟩
  unfold convertAssistantToFncall
  rw [hfixed]
  dsimp only
  rw [search_calledText hendless hne hbody]
  dsimp only
  rw [hresolve]
  dsimp only
  rw [dropNewline, List.head?_cons, if_pos rfl, List.tail_cons, normalize_paramLines hopen hlast,
    findAll_paramLines hopen hlast, ← foundParams]
  cases extractAndValidateParams format tool (foundParams format args) name with
  | error error => rfl
  | ok params => rfl

/-- A tool without a name is not called. -/
theorem name_ne_nil_of_resolve {fnName : List Char} (hname : fnName ≠ [])
    (hresolve : resolveToolName tools fnName = .ok (name, tool)) : name ≠ [] := by
  have haliases : ∀ entry ∈ toolNameAliases, entry.2 ≠ [] := by decide
  unfold resolveToolName at hresolve
  split at hresolve
  next => cases hresolve; exact hname
  next =>
    dsimp only at hresolve
    split at hresolve
    next =>
      cases hresolve
      cases hlookup : toolNameAliases.lookup fnName with
      | none => exact hname
      | some found =>
          obtain ⟨before, after, heq, -⟩ := List.lookup_eq_some_iff.mp hlookup
          exact haliases (fnName, found) (by rw [heq]; simp)
    next => cases hresolve

theorem name_ne_nil_of_convert {message converted : FnMessage} {content : List Char}
    {counter next : Nat} {toolCall : FnToolCall} {function : FnCall}
    (hconvert : convertAssistantToFncall format message content tools counter =
      .ok (converted, next)) (hmessage : message.toolCalls = none)
    (hcall : converted.toolCalls = some [toolCall])
    (hfunction : toolCall.function = some function) : function.name ≠ [] := by
  unfold convertAssistantToFncall at hconvert
  dsimp only at hconvert
  split at hconvert
  next =>
    cases hconvert
    rw [hmessage] at hcall
    cases hcall
  next fnName raw hsearch =>
    split at hconvert
    next => cases hconvert
    next resolved found hresolve =>
      split at hconvert
      next => cases hconvert
      next =>
        cases hconvert
        cases hcall
        cases hfunction
        exact name_ne_nil_of_resolve (name_ne_nil_of_search hsearch) hresolve

/-- What is promised of a call that is written. -/
structure Promised (format : FloatFormat Float) (tools : List (FnCallTool Float))
    (toolCall : FnToolCall) (tool : FnCallTool Float) (name : List Char)
    (args : List (List Char × JsonValue Float)) : Prop where
  whole : ∃ id arguments, toolCall =
      { id := some id, type := some "function".toList, function := some ⟨name, arguments⟩ } ∧
    JsonText.loads format arguments = some (.obj args)
  found : findTool tools name = some tool
  endless : '>' ∉ name
  unequal : '=' ∉ name
  plain : ∀ arg ∈ args, Plain format arg
  declared : ∀ arg ∈ args, arg.1 ∈ tool.properties.keys
  matching : ∀ arg ∈ args, Matches ((tool.properties.get? arg.1).getD {}).type arg.2
  required : ∀ param ∈ tool.required, param ∈ args.map Prod.fst

/-- The text of the call is read as a call of the same function with the same arguments. -/
def RoundTrips (format : FloatFormat Float) (tools : List (FnCallTool Float))
    (toolCall : FnToolCall) (name : List Char) (args : List (List Char × JsonValue Float))
    (counter : Nat) : Prop :=
  ∃ text converted next call arguments read,
    convertToolCallToString format toolCall = .ok text ∧
    convertAssistantToFncall format { role := .assistant, content := some text } text tools
      counter = .ok (converted, next) ∧
    converted.toolCalls = some [call] ∧
    call.function = some { name := name, arguments := arguments } ∧
    JsonText.loads format arguments = some (.obj read) ∧ ∀ arg, arg ∈ read ↔ arg ∈ args

/-- The function and each parameter have names, no name closes the function, and each value is
read as it was. -/
def Readable (tool : FnCallTool Float) (name : List Char)
    (args : List (List Char × JsonValue Float)) : Prop :=
  name ≠ [] ∧ ∀ arg ∈ args, arg.1 ≠ [] ∧ ¬ClosesEarly arg.1 ∧
    Survives ((tool.properties.get? arg.1).getD {}) arg.2

variable {toolCall : FnToolCall}

namespace Promised

variable (promised : Promised format tools toolCall tool name args)
include promised

theorem valid : (JsonValue.obj args).Valid := by
  obtain ⟨id, arguments, -, hloads⟩ := promised.whole
  exact JsonText.valid_of_loads hloads

theorem keys_nodup : (args.map Prod.fst).Nodup := by
  cases promised.valid with
  | obj hkeys hvalues => exact hkeys

theorem valid_of_mem {arg : List Char × JsonValue Float} (harg : arg ∈ args) : arg.2.Valid := by
  cases promised.valid with
  | obj hkeys hvalues => exact hvalues arg harg

theorem convertToolCallToString_eq :
    convertToolCallToString format toolCall = .ok (callText format name args) := by
  obtain ⟨id, arguments, rfl, hloads⟩ := promised.whole
  simp only [convertToolCallToString, ne_eq, not_true_eq_false, if_false, hloads]
  rfl

theorem extractParam_iff {arg : List Char × JsonValue Float} (harg : arg ∈ args) :
    extractParam format tool name (arg.1, paramBody format arg.2) = .ok arg.2 ↔
      Survives ((tool.properties.get? arg.1).getD {}) arg.2 :=
  extractParam_paramBody (promised.declared arg harg) (promised.matching arg harg)
    (promised.valid_of_mem harg)

theorem readable_of_roundTrips {counter : Nat}
    (hroundTrips : RoundTrips format tools toolCall name args counter) :
    Readable tool name args := by
  obtain ⟨text, converted, next, call, arguments, read, htext, hconvert, hcalls, hfunction, hloads,
    hsame⟩ := hroundTrips
  cases promised.convertToolCallToString_eq.symm.trans htext
  have hne : name ≠ [] := name_ne_nil_of_convert hconvert rfl hcalls hfunction
  obtain ⟨before, heq⟩ := convertAssistantToFncall_callText promised.endless promised.unequal
    promised.plain promised.found hne
    { role := .assistant, content := some (callText format name args) } counter
  rw [heq] at hconvert
  cases hparams : extractAndValidateParams format tool (foundParams format args) name with
  | error error =>
      rw [hparams] at hconvert
      cases hconvert
  | ok params =>
      rw [hparams] at hconvert
      cases hconvert
      cases hcalls
      cases hfunction
      have hextract := (extractAndValidateParams_eq_ok_iff.mp hparams).1
      rw [JsonText.loads_dumps (valid_of_extractParams hextract)] at hloads
      cases hloads
      refine ⟨hne, fun arg harg => ?_⟩
      have hget := Dict.get?_of_mem_entries ((hsame arg).mpr harg)
      rcases mem_of_extractParams hextract hget with hempty | ⟨found, hfound, hkey, hvalue⟩
      · cases hempty
      obtain ⟨other, hother, rfl⟩ := List.mem_map.mp hfound
      obtain ⟨hopen, hother⟩ := List.mem_filter.mp hother
      have hargs : other ∈ args := (List.takeWhile_sublist _).subset hopen
      obtain rfl : other = arg :=
        List.inj_on_of_nodup_map promised.keys_nodup hargs harg hkey
      refine ⟨by simpa using hother, ?_, (promised.extractParam_iff harg).mp hvalue⟩
      simpa using List.mem_takeWhile_imp hopen

theorem roundTrips_of_readable (hreadable : Readable tool name args) (counter : Nat) :
    RoundTrips format tools toolCall name args counter := by
  obtain ⟨hne, hargs⟩ := hreadable
  have hopen : openArgs args = args :=
    List.takeWhile_eq_self_iff.mpr fun arg harg => by simpa using (hargs arg harg).2.1
  have hfounds : foundParams format args =
      args.map fun arg => (arg.1, paramBody format arg.2) := by
    rw [foundParams, hopen,
      List.filter_eq_self.mpr fun arg harg => by simpa using (hargs arg harg).1]
  obtain ⟨read, hread, hentries⟩ := @extractParams_of_survives _ format tool name Dict.empty args
    promised.keys_nodup (fun arg harg => List.not_mem_nil)
    fun arg harg => (promised.extractParam_iff harg).mpr (hargs arg harg).2.2
  rw [Dict.empty, List.nil_append] at hentries
  rw [← hfounds] at hread
  have hvalidate : extractAndValidateParams format tool (foundParams format args) name =
      .ok read := by
    refine extractAndValidateParams_eq_ok_iff.mpr ⟨hread, fun param hparam _ => ?_⟩
    rw [Dict.keys, hentries]
    exact promised.required param hparam
  obtain ⟨before, hconvert⟩ := convertAssistantToFncall_callText promised.endless promised.unequal
    promised.plain promised.found hne
    { role := .assistant, content := some (callText format name args) } counter
  rw [hvalidate] at hconvert
  refine ⟨_, _, _, _, _, _, promised.convertToolCallToString_eq, hconvert, rfl, rfl,
    JsonText.loads_dumps (valid_of_extractParams hread), fun arg => ?_⟩
  rw [hentries]

end Promised

/-! ## A terminal -/

def terminal : FnCallTool (Nat × Fin 10) where
  name := "terminal".toList
  properties :=
    { entries :=
        [("command".toList, { type := some .string }),
          ("is_input".toList, { type := some .boolean })]
      nodup := by decide }
  required := ["command".toList]

def terminalCall (arguments : String) : FnToolCall where
  id := some "toolu_01".toList
  type := some "function".toList
  function := some { name := "terminal".toList, arguments := arguments.toList }

theorem promised_command :
    Promised .tenths [terminal] (terminalCall "\x7b\"command\": \"ls\"\x7d") terminal "terminal".toList
      [("command".toList, .str "ls".toList)] where
  whole := ⟨_, _, rfl, rfl⟩
  found := rfl
  endless := by decide
  unequal := by decide
  plain := by
    rintro arg harg
    obtain rfl := List.mem_singleton.mp harg
    exact ⟨by decide, by decide, by decide⟩
  declared := by
    rintro arg harg
    obtain rfl := List.mem_singleton.mp harg
    decide
  matching := by
    rintro arg harg
    obtain rfl := List.mem_singleton.mp harg
    exact ⟨_, rfl⟩
  required := by decide

theorem roundTrips_iff_readable (promised : Promised format tools toolCall tool name args)
    (counter : Nat) :
    RoundTrips format tools toolCall name args counter ↔ Readable tool name args :=
  ⟨promised.readable_of_roundTrips, fun hreadable =>
    promised.roundTrips_of_readable hreadable counter⟩

theorem roundTrips_command :
    RoundTrips .tenths [terminal] (terminalCall "\x7b\"command\": \"ls\"\x7d") "terminal".toList
      [("command".toList, .str "ls".toList)] 1 := by
  refine (roundTrips_iff_readable promised_command 1).mpr ⟨by decide, ?_⟩
  simp only [List.forall_mem_cons]
  exact ⟨⟨by decide, by decide, .inr (.inr ⟨_, rfl, rfl⟩), fun _ h => by cases h⟩,
    fun _ h => absurd h List.not_mem_nil⟩

theorem promised_flag : Promised .tenths [terminal]
    (terminalCall "\x7b\"command\": \"y\", \"is_input\": true\x7d") terminal "terminal".toList
    [("command".toList, .str "y".toList), ("is_input".toList, .bool true)] where
  whole := ⟨_, _, rfl, rfl⟩
  found := rfl
  endless := by decide
  unequal := by decide
  plain := by
    simp only [List.forall_mem_cons]
    exact ⟨⟨by decide, by decide, by decide⟩, ⟨by decide, by decide, by decide⟩,
      fun _ h => absurd h List.not_mem_nil⟩
  declared := by
    simp only [List.forall_mem_cons]
    exact ⟨by decide, by decide, fun _ h => absurd h List.not_mem_nil⟩
  matching := by
    simp only [List.forall_mem_cons]
    exact ⟨⟨_, rfl⟩, ⟨_, rfl⟩, fun _ h => absurd h List.not_mem_nil⟩
  required := by decide

/-- A flag is read as a text. -/
theorem not_roundTrips_flag :
    Promised .tenths [terminal] (terminalCall "\x7b\"command\": \"y\", \"is_input\": true\x7d")
        terminal "terminal".toList
        [("command".toList, .str "y".toList), ("is_input".toList, .bool true)] ∧
      ¬RoundTrips .tenths [terminal] (terminalCall "\x7b\"command\": \"y\", \"is_input\": true\x7d")
        "terminal".toList [("command".toList, .str "y".toList), ("is_input".toList, .bool true)]
        1 := by
  refine ⟨promised_flag, fun hroundTrips => ?_⟩
  have hreadable := (promised_flag.readable_of_roundTrips hroundTrips).2
  obtain ⟨-, -, hsurvives, -⟩ := hreadable _ (.tail _ List.mem_cons_self)
  obtain htype | htype | ⟨text, htext, -⟩ := hsurvives
  · cases htype
  · cases htype
  · cases htext

end Calls

end ShuttleFlow.FnCallConverter
