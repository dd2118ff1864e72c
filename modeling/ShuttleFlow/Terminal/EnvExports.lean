import ShuttleFlow.Library.BashReading
import ShuttleFlow.Library.Dict
import Mathlib.Data.List.TakeWhile

/-! # The command that exports secrets to a session

`readExports` reads the command as bash does. A name that is exported has to be an identifier, but
the pattern that says so also takes an identifier with a newline behind it.
-/

namespace ShuttleFlow

open BashReading

/-- `str.replace` for a single character. -/
def replaceChar (old : Char) (new text : List Char) : List Char :=
  text.flatMap fun c => if c = old then new else [c]

namespace TerminalExecutor

/-! ## Building the command -/

def powershellQuote (value : List Char) : List Char :=
  let escaped := replaceChar '\'' "''".toList value
  '\'' :: escaped ++ ['\'']

/-- A value in `$'...'`. -/
def bashQuote (value : List Char) : List Char :=
  let escaped := replaceChar '\\' ['\\', '\\'] value
  let escaped := replaceChar '\'' ['\\', '\''] escaped
  let escaped := replaceChar '\n' ['\\', 'n'] escaped
  let escaped := replaceChar '\r' ['\\', 'r'] escaped
  let escaped := replaceChar '\t' ['\\', 't'] escaped
  '$' :: '\'' :: escaped ++ ['\'']

/-- `_ENV_VAR_NAME_RE`. Its `$` also matches in front of a newline at the end. -/
def envVarName (key : List Char) : Bool :=
  match key with
  | [] => false
  | c :: rest =>
      let behind := rest.dropWhile isNameChar
      isNameStart c && (behind = [] || behind = ['\n'])

/-- `_build_env_exports`. -/
def buildEnvExports (isPowershell : Bool) (envVars : Dict (List Char) (List Char)) : List Char :=
  let valid := envVars.entries.filter fun entry => envVarName entry.1
  if valid = [] then []
  else if isPowershell then
    let assignments := valid.map fun entry =>
      "$env:".toList ++ entry.1 ++ " = ".toList ++ powershellQuote entry.2
    "; ".toList.intercalate assignments
  else
    let assignments := valid.map fun entry =>
      "export ".toList ++ entry.1 ++ ['='] ++ bashQuote entry.2
    " && ".toList.intercalate assignments

/-! ## What the replacements make of a character -/

def bashEscape (c : Char) : List Char :=
  if c = '\\' then ['\\', '\\']
  else if c = '\'' then ['\\', '\'']
  else if c = '\n' then ['\\', 'n']
  else if c = '\r' then ['\\', 'r']
  else if c = '\t' then ['\\', 't']
  else [c]

theorem bashEscape_cases (c : Char) :
    (∃ letter, bashEscape c = ['\\', letter] ∧ simpleEscape letter = some c ∧ letter ≠ '\n') ∨
      (bashEscape c = [c] ∧ c ≠ '\\' ∧ c ≠ '\'' ∧ c ≠ '\n' ∧ c ≠ '\r' ∧ c ≠ '\t') := by
  by_cases hbackslash : c = '\\'
  · subst hbackslash
    exact .inl ⟨'\\', rfl, rfl, by decide⟩
  by_cases hquote : c = '\''
  · subst hquote
    exact .inl ⟨'\'', rfl, rfl, by decide⟩
  by_cases hnewline : c = '\n'
  · subst hnewline
    exact .inl ⟨'n', rfl, rfl, by decide⟩
  by_cases hreturn : c = '\r'
  · subst hreturn
    exact .inl ⟨'r', rfl, rfl, by decide⟩
  by_cases htab : c = '\t'
  · subst htab
    exact .inl ⟨'t', rfl, rfl, by decide⟩
  · refine .inr ⟨?_, hbackslash, hquote, hnewline, hreturn, htab⟩
    rw [bashEscape, if_neg hbackslash, if_neg hquote, if_neg hnewline, if_neg hreturn,
      if_neg htab]

theorem escapes_bashEscape (numbered : List Char → Option (List Char × List Char)) :
    Escapes numbered bashEscape where
  reads := by
    intro c fuel rest
    rcases bashEscape_cases c with ⟨letter, hescape, hsimple, -⟩ | ⟨hself, hbackslash, hquote, -⟩
    · have hletter : readEscape numbered (letter :: rest) = some ([c], rest) := by
        rw [readEscape, hsimple]
      rw [hescape, List.cons_append, List.cons_append, List.nil_append, readQuoted,
        if_neg (by decide), if_pos rfl, hletter]
      rfl
    · rw [hself, List.singleton_append, readQuoted, if_neg hquote, if_neg hbackslash]
  written := by
    intro c
    rcases bashEscape_cases c with ⟨letter, hescape, -⟩ | ⟨hself, -⟩
    · rw [hescape]
      exact List.cons_ne_nil _ _
    · rw [hself]
      exact List.cons_ne_nil _ _

/-- The replacements do not get in each other's way. -/
theorem bashQuote_eq (value : List Char) :
    bashQuote value = '$' :: '\'' :: (value.flatMap bashEscape ++ ['\'']) := by
  have hescaped : replaceChar '\t' ['\\', 't'] (replaceChar '\r' ['\\', 'r']
      (replaceChar '\n' ['\\', 'n'] (replaceChar '\'' ['\\', '\'']
        (replaceChar '\\' ['\\', '\\'] value)))) = value.flatMap bashEscape := by
    induction value with
    | nil => rfl
    | cons c value ih =>
        simp only [replaceChar] at ih
        simp only [replaceChar, List.flatMap_cons, List.flatMap_append, ih]
        congr 1
        by_cases hbackslash : c = '\\'
        · subst hbackslash
          rfl
        by_cases hquote : c = '\''
        · subst hquote
          rfl
        by_cases hnewline : c = '\n'
        · subst hnewline
          rfl
        by_cases hreturn : c = '\r'
        · subst hreturn
          rfl
        by_cases htab : c = '\t'
        · subst htab
          rfl
        · simp [bashEscape, hbackslash, hquote, hnewline, hreturn, htab]
  rw [bashQuote, hescaped]
  rfl

theorem newline_notMem_flatMap (value : List Char) : '\n' ∉ value.flatMap bashEscape := by
  intro hmem
  obtain ⟨c, -, hc⟩ := List.mem_flatMap.mp hmem
  rcases bashEscape_cases c with ⟨letter, hescape, -, hletter⟩ | ⟨hself, -, -, hnewline, -⟩
  · rw [hescape] at hc
    rcases List.mem_cons.mp hc with hfirst | hsecond
    · exact absurd hfirst (by decide)
    · exact hletter (List.mem_singleton.mp hsecond).symm
  · rw [hself] at hc
    exact hnewline (List.mem_singleton.mp hc).symm

/-! ## Names -/

theorem dropWhile_eq_nil_iff (rest : List Char) :
    rest.dropWhile isNameChar = [] ↔ rest.all isNameChar = true := by
  rw [List.dropWhile_eq_nil_iff, List.all_eq_true]

theorem envVarName_of_identifier {key : List Char} (hkey : isIdentifier key = true) :
    envVarName key = true := by
  cases key with
  | nil => cases hkey
  | cons c rest =>
      rw [isIdentifier, Bool.and_eq_true] at hkey
      have hbehind := (dropWhile_eq_nil_iff rest).mpr hkey.2
      simp [envVarName, hkey.1, hbehind]

theorem envVarName_of_newline {key : List Char} (hkey : isIdentifier key = true) :
    envVarName (key ++ ['\n']) = true := by
  cases key with
  | nil => cases hkey
  | cons c rest =>
      rw [isIdentifier, Bool.and_eq_true, List.all_eq_true] at hkey
      have hbehind : (rest ++ ['\n']).dropWhile isNameChar = ['\n'] := by
        rw [List.dropWhile_append_of_pos hkey.2, List.dropWhile_cons_of_neg (by decide)]
      rw [List.cons_append, envVarName, hbehind, hkey.1]
      rfl

theorem envVarName_cases {key : List Char} (hkey : envVarName key = true) :
    isIdentifier key = true ∨ ∃ name, isIdentifier name = true ∧ key = name ++ ['\n'] := by
  cases key with
  | nil => cases hkey
  | cons c rest =>
      simp only [envVarName, Bool.and_eq_true, Bool.or_eq_true, decide_eq_true_eq] at hkey
      obtain ⟨hstart, hnil | hnewline⟩ := hkey
      · refine .inl ?_
        rw [isIdentifier, hstart, (dropWhile_eq_nil_iff rest).mp hnil]
        rfl
      · refine .inr ⟨c :: rest.takeWhile isNameChar, ?_, ?_⟩
        · rw [isIdentifier, hstart, List.all_takeWhile]
          rfl
        · rw [List.cons_append, ← hnewline, List.takeWhile_append_dropWhile]

/-! ## Reading the command back -/

/-- The secrets whose names can be assigned to. -/
def namedSecrets (envVars : Dict (List Char) (List Char)) : List (List Char × List Char) :=
  envVars.entries.filter fun entry => isIdentifier entry.1

/-- The command is a single line, and assigns the named secrets and nothing else. -/
def InjectionFree (numbered : List Char → Option (List Char × List Char))
    (envVars : Dict (List Char) (List Char)) : Prop :=
  '\n' ∉ buildEnvExports false envVars ∧
    readExports numbered (buildEnvExports false envVars) = some (namedSecrets envVars)

theorem assignment_eq (entry : List Char × List Char) :
    "export ".toList ++ entry.1 ++ ['='] ++ bashQuote entry.2 = exportText bashEscape entry := by
  have hquote : quoteStart = ['=', '$', '\''] := rfl
  rw [bashQuote_eq, exportText, exportWord, hquote, List.append_assoc, List.append_assoc]
  rfl

theorem newline_notMem_exportText {entry : List Char × List Char}
    (hname : isIdentifier entry.1 = true) : '\n' ∉ exportText bashEscape entry := by
  have hword : '\n' ∉ exportWord := by decide
  have hstart : '\n' ∉ quoteStart := by decide
  have hletters : '\n' ∉ entry.1 := by
    intro hmem
    exact absurd (isNameChar_of_identifier hname _ hmem) (by decide)
  have hend : '\n' ∉ ['\''] := by decide
  rw [exportText, List.mem_append, List.mem_append, List.mem_append, List.mem_append]
  rintro (hmem | hmem | hmem | hmem | hmem)
  · exact hword hmem
  · exact hletters hmem
  · exact hstart hmem
  · exact newline_notMem_flatMap _ hmem
  · exact hend hmem

theorem mem_intercalate {c : Char} {sign : List Char} {parts : List (List Char)}
    (hmem : c ∈ sign.intercalate parts) : c ∈ sign ∨ ∃ part ∈ parts, c ∈ part := by
  induction parts with
  | nil => cases hmem
  | cons first rest ih =>
      cases rest with
      | nil =>
          rw [List.intercalate_singleton] at hmem
          exact .inr ⟨first, List.mem_cons_self, hmem⟩
      | cons second later =>
          rw [List.intercalate_cons_cons, List.mem_append, List.mem_append] at hmem
          rcases hmem with (hfirst | hsign) | hlater
          · exact .inr ⟨first, List.mem_cons_self, hfirst⟩
          · exact .inl hsign
          · rcases ih hlater with hsign | ⟨part, hpart, hc⟩
            · exact .inl hsign
            · exact .inr ⟨part, .tail _ hpart, hc⟩

theorem mem_intercalate_of_part {c : Char} {sign part : List Char} {parts : List (List Char)}
    (hpart : part ∈ parts) (hc : c ∈ part) : c ∈ sign.intercalate parts := by
  induction parts with
  | nil => cases hpart
  | cons first rest ih =>
      cases rest with
      | nil =>
          obtain rfl := List.mem_singleton.mp hpart
          rwa [List.intercalate_singleton]
      | cons second later =>
          rw [List.intercalate_cons_cons, List.mem_append, List.mem_append]
          rcases List.mem_cons.mp hpart with rfl | hlater
          · exact .inl (.inl hc)
          · exact .inr (ih hlater)

theorem buildEnvExports_bash (envVars : Dict (List Char) (List Char)) :
    buildEnvExports false envVars = andSign.intercalate
      ((envVars.entries.filter fun entry => envVarName entry.1).map (exportText bashEscape)) := by
  have hassignments : (fun entry : List Char × List Char =>
      "export ".toList ++ entry.1 ++ ['='] ++ bashQuote entry.2) = exportText bashEscape := by
    funext entry
    exact assignment_eq entry
  rw [buildEnvExports]
  simp only [hassignments, Bool.false_eq_true, if_false]
  split
  next hnone =>
    rw [hnone]
    rfl
  next => rfl

/-- Without a newline behind an identifier, the pattern takes just the identifiers. -/
theorem filter_envVarName {envVars : Dict (List Char) (List Char)}
    (hlines : ∀ name, isIdentifier name = true → name ++ ['\n'] ∉ envVars.keys) :
    (envVars.entries.filter fun entry => envVarName entry.1) = namedSecrets envVars := by
  refine List.filter_congr fun entry hentry => ?_
  rw [Bool.eq_iff_iff]
  constructor
  · intro hvalid
    rcases envVarName_cases hvalid with hname | ⟨name, hname, heq⟩
    · exact hname
    · exact absurd (heq ▸ List.mem_map_of_mem hentry) (hlines name hname)
  · exact envVarName_of_identifier

theorem newline_mem_buildEnvExports {envVars : Dict (List Char) (List Char)} {name : List Char}
    (hname : isIdentifier name = true) (hmem : name ++ ['\n'] ∈ envVars.keys) :
    '\n' ∈ buildEnvExports false envVars := by
  obtain ⟨entry, hentry, hkey⟩ := List.mem_map.mp hmem
  have hvalid : envVarName entry.1 = true := by
    rw [hkey]
    exact envVarName_of_newline hname
  rw [buildEnvExports_bash]
  refine mem_intercalate_of_part
    (List.mem_map_of_mem (List.mem_filter.mpr ⟨hentry, hvalid⟩)) ?_
  rw [exportText, hkey]
  simp only [List.mem_append, List.mem_singleton, true_or, or_true]

theorem readExports_intercalate (numbered : List Char → Option (List Char × List Char))
    {entries : List (List Char × List Char)}
    (hnames : ∀ entry ∈ entries, isIdentifier entry.1 = true) :
    readExports numbered (andSign.intercalate (entries.map (exportText bashEscape))) =
      some entries := by
  cases entries with
  | nil => rfl
  | cons first rest =>
      have hlong : ∀ entries : List (List Char × List Char), entries.length ≤
          (andSign.intercalate (entries.map (exportText bashEscape))).length := by
        intro entries
        induction entries with
        | nil => exact Nat.le_refl _
        | cons entry later ih =>
            have hword : exportWord.length = 7 := rfl
            have hentry : 7 ≤ (exportText bashEscape entry).length := by
              rw [exportText, List.length_append, hword]
              exact Nat.le_add_right _ _
            cases later with
            | nil =>
                rw [List.map_singleton, List.intercalate_singleton, List.length_singleton]
                omega
            | cons second later =>
                rw [List.map_cons] at ih ⊢
                rw [List.map_cons, List.intercalate_cons_cons, List.length_append,
                  List.length_append, List.length_cons]
                omega
      have hread := readChain_intercalate (escapes_bashEscape numbered) hnames
        (List.cons_ne_nil _ _) (hlong (first :: rest))
      have hpositive : 0 < (andSign.intercalate
          ((first :: rest).map (exportText bashEscape))).length :=
        Nat.lt_of_lt_of_le (Nat.succ_pos _) (hlong (first :: rest))
      rw [readExports, if_neg (List.ne_nil_of_length_pos hpositive), hread]

/-- The command is free of injections exactly when no name is an identifier with a newline
behind it. -/
theorem injectionFree_iff (numbered : List Char → Option (List Char × List Char))
    (envVars : Dict (List Char) (List Char)) :
    InjectionFree numbered envVars ↔
      ∀ name, isIdentifier name = true → name ++ ['\n'] ∉ envVars.keys := by
  constructor
  · intro hfree name hname hmem
    exact hfree.1 (newline_mem_buildEnvExports hname hmem)
  · intro hlines
    have hnames : ∀ entry ∈ namedSecrets envVars, isIdentifier entry.1 = true := by
      intro entry hentry
      exact (List.mem_filter.mp hentry).2
    rw [InjectionFree, buildEnvExports_bash, filter_envVarName hlines]
    refine ⟨?_, readExports_intercalate numbered hnames⟩
    intro hmem
    rcases mem_intercalate hmem with hsign | ⟨part, hpart, hnewline⟩
    · exact absurd hsign (by decide)
    · obtain ⟨entry, hentry, rfl⟩ := List.mem_map.mp hpart
      exact newline_notMem_exportText (hnames entry hentry) hnewline

def secretWithNewline : Dict (List Char) (List Char) :=
  Dict.empty.set ['A', '\n'] ['1']

theorem not_injectionFree_newline : ¬ InjectionFree (fun _ => none) secretWithNewline := by
  rintro ⟨hline, -⟩
  exact hline (by decide)

/-- A quote and a backslash in a value are read back. -/
example : readExports (fun _ => none)
    (buildEnvExports false (Dict.empty.set ['A'] ['x', '\\', '\'', '\n'])) =
      some [(['A'], ['x', '\\', '\'', '\n'])] := by decide +kernel

end TerminalExecutor

end ShuttleFlow
