import ShuttleFlow.FileEditor.FileLines
import ShuttleFlow.FileEditor.FileView
import ShuttleFlow.FileEditor.OnePlace

/-! # The numbers of lines that are shown

The number in front of a line is the one by which the commands know it, except where a row is no
line of the file at all.
-/

namespace ShuttleFlow.FileChecks

open FileEditor (fileLines textLines LinesEnd)

/-- The commands that show a text. -/
inductive ShowingCommand
  | view (viewRange : List Int)
  | strReplace (oldStr newStr : List Char)
  | insert (insertLine : Int) (newStr : List Char)

/-- What a command shows, and the editor afterwards. -/
def showing (checks : FileChecks) (path : List Char) (editor : FileEditor) :
    ShowingCommand → Except CheckedError (NumberedOutput × FileEditor)
  | .view viewRange => (checks.view path viewRange editor).map fun output => (output, editor)
  | .strReplace oldStr newStr => checks.strReplaceOutput path oldStr newStr editor
  | .insert insertLine newStr => checks.insertOutput path insertLine newStr editor

/-- The lines of a range that is asked for. -/
def linesBetween (text : List Char) (startLine asked : Int) : List (List Char) :=
  ((textLines text).take (endLine (fileLines text).length asked).toNat).drop
    (startLine.toNat - 1)

/-- Every row is the line of its number, and a range is shown as it is asked for. -/
structure ShowsRight (text : List Char) (command : ShowingCommand) (output : NumberedOutput) :
    Prop where
  numbers : ∀ row ∈ output.rows, 1 ≤ row.2 ∧ (textLines text)[row.2 - 1]? = some row.1
  range : ∀ startLine asked, command = .view [startLine, asked] →
    output.rows = (linesBetween text startLine asked).zipIdx startLine.toNat

/-- The lines stop at an open end of the text, or in front of an empty line. -/
def StopsRight (text : List Char) (lines : Nat × Nat) : Prop :=
  (textLines text)[lines.2]? = some [] ∨
    (lines.1 ≤ (fileLines text).length ∧ (fileLines text).length ≤ lines.2 ∧ ¬LinesEnd text)

/-- What a command has to find in the text. -/
def Showable (path text : List Char) : ShowingCommand → Prop
  | .view [] => ¬LinesEnd text
  | .view [startLine, asked] =>
      ∀ line ∈ linesBetween text startLine asked, ∀ c ∈ line, isLineBreak c = false
  | .view _ => True
  | .strReplace oldStr newStr =>
      ∀ newText, FileEditor.strReplace path oldStr newStr text = .ok newText →
        StopsRight (translateNewlines newText) (replacedLines oldStr newStr text)
  | .insert insertLine newStr =>
      ∀ newText oldText, FileEditor.insertLines insertLine newStr text = .ok (newText, oldText) →
        StopsRight (translateNewlines newText) (insertedLines insertLine newStr text)

section Rows

variable {text : List Char} {startLine endLine : Nat}

/-- The lines from one to another as they are read. -/
def linesText (text : List Char) (startLine endLine : Nat) : List Char :=
  (((fileLines text).take endLine).drop (startLine - 1)).flatten

theorem fileLines_linesText (text : List Char) (startLine endLine : Nat) :
    fileLines (linesText text startLine endLine) =
      ((fileLines text).take endLine).drop (startLine - 1) := by
  have htake := FileEditor.fileLines_take endLine text
  have hdrop := FileEditor.fileLines_drop (startLine - 1)
    ((fileLines text).take endLine).flatten
  rw [htake] at hdrop
  rw [linesText, hdrop]

theorem textLines_linesText (text : List Char) (startLine endLine : Nat) :
    textLines (linesText text startLine endLine) =
      ((textLines text).take endLine).drop (startLine - 1) := by
  rw [textLines, fileLines_linesText, List.map_drop, List.map_take, textLines]

/-- All lines but the last one have an end. -/
theorem linesEnd_take_of_lt (hlt : endLine < (fileLines text).length) :
    LinesEnd ((fileLines text).take endLine).flatten := by
  induction text using @Lines.text_induction _ '\n' generalizing endLine with
  | nil => exact absurd hlt (Nat.not_lt_zero _)
  | part body hne hbody =>
      rw [FileEditor.fileLines_of_notMem hne hbody, List.length_singleton] at hlt
      obtain rfl : endLine = 0 := by omega
      exact .inl rfl
  | line body rest hbody ih =>
      rw [FileEditor.fileLines_line hbody] at hlt ⊢
      cases endLine with
      | zero => exact .inl rfl
      | succ endLine =>
          rw [List.take_succ_cons, List.flatten_cons, List.append_assoc, List.singleton_append,
            FileEditor.linesEnd_line_iff]
          exact ih (Nat.lt_of_succ_lt_succ hlt)

theorem linesEnd_append_iff {body rest : List Char} (hne : rest ≠ []) :
    LinesEnd (body ++ rest) ↔ LinesEnd rest := by
  unfold LinesEnd
  rw [List.getLast?_append_of_ne_nil _ hne]
  simp [hne]

/-- The lines that are read stop where the text stops, or at the end of a line. -/
theorem linesEnd_linesText_iff (hone : 1 ≤ startLine) (hle : startLine ≤ endLine) :
    LinesEnd (linesText text startLine endLine) ↔
      ¬(startLine ≤ (fileLines text).length ∧ (fileLines text).length ≤ endLine ∧
        ¬LinesEnd text) := by
  have hlength := congrArg List.length (fileLines_linesText text startLine endLine)
  rw [List.length_drop, List.length_take] at hlength
  by_cases hstart : startLine ≤ (fileLines text).length
  · have hne : linesText text startLine endLine ≠ [] := by
      intro hnil
      rw [hnil, FileEditor.fileLines_nil, List.length_nil] at hlength
      omega
    have hsplit : (((fileLines text).take endLine).take (startLine - 1)).flatten ++
        linesText text startLine endLine = ((fileLines text).take endLine).flatten := by
      rw [linesText, ← List.flatten_append, List.take_append_drop]
    rw [← linesEnd_append_iff hne, hsplit, and_iff_right hstart]
    rcases Nat.lt_or_ge endLine (fileLines text).length with hlt | hge
    · exact iff_of_true (linesEnd_take_of_lt hlt) fun hboth => absurd hboth.1 (by omega)
    · rw [List.take_of_length_le hge, FileEditor.flatten_fileLines, and_iff_right hge, not_not]
  · have hnil : linesText text startLine endLine = [] := by
      rw [linesText, List.drop_eq_nil_of_le (by rw [List.length_take]; omega)]
      rfl
    rw [hnil]
    exact iff_of_true (.inl rfl) fun hboth => hstart hboth.1

/-- The rows of lines have the numbers of the lines. -/
theorem rows_right_iff (lines extra : List (List Char)) (hone : 1 ≤ startLine) :
    (∀ row ∈ ((lines.take endLine).drop (startLine - 1) ++ extra).zipIdx startLine,
        1 ≤ row.2 ∧ lines[row.2 - 1]? = some row.1) ↔
      ∀ row ∈ extra.zipIdx (startLine + (min endLine lines.length - (startLine - 1))),
        lines[row.2 - 1]? = some row.1 := by
  rw [List.zipIdx_append, List.length_drop, List.length_take]
  constructor
  · exact fun hall row hrow => (hall row (List.mem_append_right _ hrow)).2
  · rintro hextra ⟨line, number⟩ hrow
    rcases List.mem_append.mp hrow with hline | hline
    · rw [List.mk_mem_zipIdx_iff_le_and_getElem?_sub, List.getElem?_drop] at hline
      obtain ⟨hnumber, hline⟩ := hline
      obtain ⟨hlt, -⟩ := List.getElem?_eq_some_iff.mp hline
      rw [List.length_take] at hlt
      rw [List.getElem?_take_of_lt (by omega)] at hline
      refine ⟨hone.trans hnumber, ?_⟩
      rw [← hline]
      congr 1
      dsimp only
      omega
    · refine ⟨?_, hextra _ hline⟩
      have hnumber := (List.mk_mem_zipIdx_iff_le_and_getElem?_sub.mp hline).1
      dsimp only
      omega

/-- Rows that end with an end of a line have one row too many, unless it is the next line. -/
theorem rows_linesText_iff (text : List Char) (hone : 1 ≤ startLine) (hle : startLine ≤ endLine) :
    (∀ row ∈ ((linesText text startLine endLine).splitOn '\n').zipIdx startLine,
        1 ≤ row.2 ∧ (textLines text)[row.2 - 1]? = some row.1) ↔
      StopsRight text (startLine, endLine) := by
  have hlength := FileEditor.length_textLines text
  have hends := @linesEnd_linesText_iff text _ _ hone hle
  rw [FileEditor.splitOn_eq_textLines, textLines_linesText, rows_right_iff _ _ hone, StopsRight]
  by_cases hend : LinesEnd (linesText text startLine endLine)
  · rw [if_pos hend, or_iff_left (hends.mp hend)]
    simp only [List.zipIdx_singleton, List.mem_singleton, forall_eq]
    rcases Nat.lt_or_ge endLine (textLines text).length with hlt | hge
    · have hindex : startLine + (min endLine (textLines text).length - (startLine - 1)) - 1 =
          endLine := by omega
      rw [hindex]
    · rw [List.getElem?_eq_none hge, List.getElem?_eq_none (by omega)]
  · rw [if_neg hend]
    exact iff_of_true (fun row hrow => absurd hrow List.not_mem_nil)
      (.inr (not_not.mp (hends.not.mp hend)))

end Rows

section Splitting

variable {body rest text : List Char} {lines : List (List Char)}

theorem splitlines_line (hbody : ∀ c ∈ body, isLineBreak c = false) (rest : List Char) :
    splitlines (body ++ '\n' :: rest) = body :: splitlines rest := by
  induction body with
  | nil => rfl
  | cons first body ih =>
      rw [List.forall_mem_cons] at hbody
      have hfirst : first ≠ '\r' := by
        rintro rfl
        exact absurd hbody.1 (by decide)
      rw [List.cons_append, splitlines.eq_3 _ _ (fun later hreturn _ => hfirst hreturn),
        ih hbody.2, hbody.1]
      rfl

theorem splitlines_of_plain (hne : body ≠ []) (hbody : ∀ c ∈ body, isLineBreak c = false) :
    splitlines body = [body] := by
  induction body with
  | nil => exact absurd rfl hne
  | cons first body ih =>
      rw [List.forall_mem_cons] at hbody
      have hfirst : first ≠ '\r' := by
        rintro rfl
        exact absurd hbody.1 (by decide)
      rw [splitlines.eq_3 _ _ (fun later hreturn _ => hfirst hreturn), hbody.1]
      cases body with
      | nil => rfl
      | cons second body => rw [ih (List.cons_ne_nil _ _) hbody.2]; rfl

theorem plain_of_mem_splitlines {line : List Char} (hline : line ∈ splitlines text) :
    ∀ c ∈ line, isLineBreak c = false := by
  induction text using splitlines.induct generalizing line with
  | case1 => exact absurd hline List.not_mem_nil
  | case2 rest ih =>
      rcases List.mem_cons.mp hline with rfl | hline
      · exact fun c hc => absurd hc List.not_mem_nil
      · exact ih hline
  | case3 first rest hpair hbreak ih =>
      rw [splitlines.eq_3 _ _ hpair, if_pos hbreak] at hline
      rcases List.mem_cons.mp hline with rfl | hline
      · exact fun c hc => absurd hc List.not_mem_nil
      · exact ih hline
  | case4 first rest hpair hbreak hnil ih =>
      rw [splitlines.eq_3 _ _ hpair, if_neg hbreak, hnil] at hline
      obtain rfl := List.mem_singleton.mp hline
      rw [List.forall_mem_singleton]
      exact Bool.eq_false_iff.mpr hbreak
  | case5 first rest hpair hbreak line lines hsome ih =>
      rw [splitlines.eq_3 _ _ hpair, if_neg hbreak, hsome] at hline
      rw [hsome] at ih
      rcases List.mem_cons.mp hline with rfl | hline
      · rw [List.forall_mem_cons]
        exact ⟨Bool.eq_false_iff.mpr hbreak, ih List.mem_cons_self⟩
      · exact ih (List.mem_cons_of_mem _ hline)

theorem splitlines_eq_textLines
    (hlines : ∀ line ∈ textLines text, ∀ c ∈ line, isLineBreak c = false) :
    splitlines text = textLines text := by
  induction text using @Lines.text_induction _ '\n' with
  | nil => rfl
  | part body hne hbody =>
      rw [FileEditor.textLines_of_notMem hne hbody, List.forall_mem_singleton] at hlines
      rw [splitlines_of_plain hne hlines, FileEditor.textLines_of_notMem hne hbody]
  | line body rest hbody ih =>
      rw [FileEditor.textLines_line hbody, List.forall_mem_cons] at hlines
      rw [splitlines_line hlines.1, ih hlines.2, FileEditor.textLines_line hbody]

/-- Lines that are joined by newlines are split again. -/
theorem splitOn_splitlines (hne : text ≠ []) :
    (List.intercalate ['\n'] (splitlines text)).splitOn '\n' = splitlines text := by
  refine List.splitOn_intercalate '\n' (fun line hline hmem => ?_) ?_
  · exact absurd (plain_of_mem_splitlines hline '\n' hmem) (by decide)
  · intro hnil
    induction text using splitlines.induct with
    | case1 => exact hne rfl
    | case2 rest ih => exact List.cons_ne_nil _ _ hnil
    | case3 first rest hpair hbreak ih =>
        rw [splitlines.eq_3 _ _ hpair, if_pos hbreak] at hnil
        exact List.cons_ne_nil _ _ hnil
    | case4 first rest hpair hbreak hrest ih =>
        rw [splitlines.eq_3 _ _ hpair, if_neg hbreak, hrest] at hnil
        exact List.cons_ne_nil _ _ hnil
    | case5 first rest hpair hbreak line lines hrest ih =>
        rw [splitlines.eq_3 _ _ hpair, if_neg hbreak, hrest] at hnil
        exact List.cons_ne_nil _ _ hnil

end Splitting

section Commands

variable {checks : FileChecks} {editor later : FileEditor} {path text : List Char}
  {lines : Nat × Nat} {output : NumberedOutput}

theorem readFile_eq_ok (hread : checks.readFile path none editor = .ok text) :
    text = editor.readFile path := by
  unfold readFile at hread
  split at hread
  · cases hread
  · cases hread
  · exact (Except.ok.inj hread).symm

theorem readFile_lines_eq_ok (hread : checks.readFile path (some lines) editor = .ok text) :
    text = linesText (editor.readFile path) lines.1 lines.2 := by
  unfold readFile at hread
  split at hread
  · cases hread
  · cases hread
  · exact (Except.ok.inj hread).symm

theorem readFile_of_files {content : List Char} (hfile : editor.files path = some content) :
    editor.readFile path = translateNewlines content := by
  rw [FileEditor.readFile, hfile, Option.getD_some]

theorem rows_of_short (hshort : output.snippetContent.length ≤ maxResponseLenChar) :
    output.rows = (output.snippetContent.splitOn '\n').zipIdx output.startLine := by
  rw [NumberedOutput.rows, NumberedOutput.truncated, PythonText.maybeTruncate, if_pos (.inr hshort)]

theorem writeFile_eq_ok {newText : List Char}
    (hwrite : checks.writeFile path newText editor = (.ok (), later)) :
    later = editor.writeFile path newText := by
  unfold writeFile at hwrite
  split at hwrite
  · cases hwrite
  · cases hwrite
  · exact (Prod.mk.inj hwrite).2.symm

theorem strReplace_eq_ok {oldStr newStr : List Char} {result : EditorResult}
    (hedit : checks.strReplace path oldStr newStr editor = (.ok result, later)) :
    ∃ newText, FileEditor.strReplace path oldStr newStr (editor.readFile path) = .ok newText ∧
      later.files path = some newText := by
  unfold strReplace at hedit
  split at hedit
  · cases hedit
  next fileContent hread =>
    rw [← readFile_eq_ok hread]
    split at hedit
    · cases hedit
    next newText hreplace =>
      refine ⟨newText, hreplace, ?_⟩
      split at hedit
      · cases hedit
      next written hwrite =>
        dsimp only at hedit
        split at hedit
        · cases hedit
        · rw [← (Prod.mk.inj hedit).2, writeFile_eq_ok hwrite]
          exact files_writeFile path newText editor

theorem insert_eq_ok {insertLine : Int} {newStr : List Char} {result : EditorResult}
    (hedit : checks.insert path insertLine newStr editor = (.ok result, later)) :
    ∃ newText oldText,
      FileEditor.insertLines insertLine newStr (editor.readFile path) = .ok (newText, oldText) ∧
      later.files path = some newText := by
  unfold insert at hedit
  split at hedit
  · cases hedit
  · cases hedit
  · dsimp only at hedit
    split at hedit
    · cases hedit
    next newText oldText hinsert =>
      refine ⟨newText, oldText, hinsert, ?_⟩
      split at hedit
      · cases hedit
      · split at hedit
        · cases hedit
        · split at hedit
          · cases hedit
          · rw [← (Prod.mk.inj hedit).2]
            exact files_writeFile path newText editor

/-- The rows are lines of the text, from one to another. -/
structure ShowsLines (editor : FileEditor) (path : List Char)
    (lines : Nat × Nat) (output : NumberedOutput) : Prop where
  startLine : output.startLine = lines.1
  content : output.snippetContent = linesText (editor.readFile path) lines.1 lines.2

theorem strReplaceOutput_eq_ok {oldStr newStr : List Char}
    (hshow : checks.strReplaceOutput path oldStr newStr editor = .ok (output, later)) :
    ∃ newText, FileEditor.strReplace path oldStr newStr (editor.readFile path) = .ok newText ∧
      later.readFile path = translateNewlines newText ∧
      ShowsLines later path (replacedLines oldStr newStr (editor.readFile path)) output := by
  unfold strReplaceOutput at hshow
  split at hshow
  · cases hshow
  next result edited hedit =>
    obtain ⟨newText, hreplace, hfile⟩ := strReplace_eq_ok hedit
    dsimp only at hshow
    cases hread : checks.readFile path
        (some (replacedLines oldStr newStr (editor.readFile path))) edited with
    | error error => rw [hread] at hshow; cases hshow
    | ok snippet =>
        rw [hread] at hshow
        obtain ⟨rfl, rfl⟩ := Prod.mk.inj (Except.ok.inj hshow)
        exact ⟨newText, hreplace, readFile_of_files hfile, rfl, readFile_lines_eq_ok hread⟩

theorem insertOutput_eq_ok {insertLine : Int} {newStr : List Char}
    (hshow : checks.insertOutput path insertLine newStr editor = .ok (output, later)) :
    ∃ newText oldText,
      FileEditor.insertLines insertLine newStr (editor.readFile path) = .ok (newText, oldText) ∧
      later.readFile path = translateNewlines newText ∧
      ShowsLines later path (insertedLines insertLine newStr (editor.readFile path)) output := by
  unfold insertOutput at hshow
  split at hshow
  · cases hshow
  next result edited hedit =>
    obtain ⟨newText, oldText, hinsert, hfile⟩ := insert_eq_ok hedit
    dsimp only at hshow
    cases hread : checks.readFile path
        (some (insertedLines insertLine newStr (editor.readFile path))) edited with
    | error error => rw [hread] at hshow; cases hshow
    | ok snippet =>
        rw [hread] at hshow
        obtain ⟨rfl, rfl⟩ := Prod.mk.inj (Except.ok.inj hshow)
        exact ⟨newText, oldText, hinsert, readFile_of_files hfile, rfl,
          readFile_lines_eq_ok hread⟩

theorem showsLines_iff {command : ShowingCommand}
    (hlines : ShowsLines editor path lines output)
    (hshort : output.snippetContent.length ≤ maxResponseLenChar) (hone : 1 ≤ lines.1)
    (hle : lines.1 ≤ lines.2) (hrange : ∀ startLine asked, command ≠ .view [startLine, asked]) :
    ShowsRight (editor.readFile path) command output ↔
      StopsRight (editor.readFile path) lines := by
  rw [← rows_linesText_iff _ hone hle, ← hlines.content, ← hlines.startLine,
    ← rows_of_short hshort]
  exact ⟨ShowsRight.numbers, fun hnumbers =>
    ⟨hnumbers, fun startLine asked heq => absurd heq (hrange startLine asked)⟩⟩

theorem stopsRight_whole_iff (text : List Char) :
    StopsRight text (1, (fileLines text).length + 1) ↔ ¬LinesEnd text := by
  have hlength := FileEditor.length_textLines text
  rw [StopsRight, List.getElem?_eq_none (by rw [hlength]; exact Nat.le_succ _),
    and_iff_right (Nat.le_succ _)]
  constructor
  · rintro (hnone | ⟨-, hend⟩)
    · cases hnone
    · exact hend
  · intro hend
    refine .inr ⟨?_, hend⟩
    by_contra hnil
    have hflat := FileEditor.flatten_fileLines text
    rw [List.length_eq_zero_iff.mp (by omega : (fileLines text).length = 0)] at hflat
    exact hend (.inl hflat.symm)

theorem linesText_whole (text : List Char) :
    linesText text 1 ((fileLines text).length + 1) = text := by
  rw [linesText, List.take_of_length_le (Nat.le_succ _)]
  exact FileEditor.flatten_fileLines text

/-- What is shown of a file, by the range that is asked for. -/
inductive Views (text : List Char) : List Int → NumberedOutput → Prop
  | whole (output : NumberedOutput) (hcontent : output.snippetContent = text)
      (hstart : output.startLine = 1) : Views text [] output
  | range (startLine asked : Int) (output : NumberedOutput) (hone : 1 ≤ startLine)
      (hlast : startLine ≤ (fileLines text).length)
      (hle : startLine ≤ endLine (fileLines text).length asked)
      (hcontent : output.snippetContent = List.intercalate ['\n']
        (splitlines (linesText text startLine.toNat
          (endLine (fileLines text).length asked).toNat)))
      (hstart : output.startLine = startLine.toNat) : Views text [startLine, asked] output

theorem checkRange_eq_ok {numLines : Nat} {viewRange : List Int} {first last : Int}
    (hcheck : checkRange numLines viewRange = .ok (first, last)) :
    viewRange = [first, last] ∧ 1 ≤ first ∧ first ≤ numLines ∧ first ≤ endLine numLines last := by
  unfold checkRange at hcheck
  split at hcheck
  next startLine asked =>
    split at hcheck
    · cases hcheck
    next hstart =>
      split at hcheck
      · cases hcheck
      next hend =>
        obtain ⟨rfl, rfl⟩ := Prod.mk.inj (Except.ok.inj hcheck)
        exact ⟨rfl, by omega, by omega, by omega⟩
  · cases hcheck

theorem views_of_view {viewRange : List Int}
    (hview : checks.view path viewRange editor = .ok output) :
    Views (editor.readFile path) viewRange output := by
  unfold view at hview
  split at hview
  · cases hview
  · cases hview
  · dsimp only at hview
    split at hview
    next hnil =>
      subst hnil
      cases hread : checks.readFile path none editor with
      | error error => rw [hread] at hview; cases hview
      | ok fileContent =>
          rw [hread] at hview
          obtain rfl := Except.ok.inj hview
          exact .whole _ (readFile_eq_ok hread) rfl
    next hne =>
      split at hview
      · cases hview
      next startLine asked hcheck =>
        obtain ⟨rfl, hone, hlast, hle⟩ := checkRange_eq_ok hcheck
        cases hread : checks.readFile path (some (startLine.toNat,
            (endLine (fileLines (editor.readFile path)).length asked).toNat)) editor with
        | error error => rw [hread] at hview; cases hview
        | ok fileContent =>
            rw [hread] at hview
            obtain rfl := Except.ok.inj hview
            refine .range startLine asked _ hone hlast hle ?_ rfl
            rw [← readFile_lines_eq_ok hread]

/-- A range is shown as it is asked for where no line is split further. -/
theorem showsRange_iff {startLine asked : Int} (hone : 1 ≤ startLine)
    (hlast : startLine ≤ (fileLines text).length)
    (hle : startLine ≤ endLine (fileLines text).length asked)
    (hcontent : output.snippetContent = List.intercalate ['\n']
      (splitlines (linesText text startLine.toNat
        (endLine (fileLines text).length asked).toNat)))
    (hstart : output.startLine = startLine.toNat)
    (hshort : output.snippetContent.length ≤ maxResponseLenChar) :
    ShowsRight text (.view [startLine, asked]) output ↔
      ∀ line ∈ linesBetween text startLine asked, ∀ c ∈ line, isLineBreak c = false := by
  have hlines := textLines_linesText text startLine.toNat
    (endLine (fileLines text).length asked).toNat
  have hne : linesText text startLine.toNat (endLine (fileLines text).length asked).toNat ≠ [] := by
    intro hnil
    have hlength := congrArg List.length hlines
    rw [hnil, FileEditor.textLines_nil, List.length_nil, List.length_drop, List.length_take,
      FileEditor.length_textLines] at hlength
    omega
  have hrows := rows_of_short hshort
  rw [hcontent, splitOn_splitlines hne, hstart] at hrows
  rw [linesBetween, ← hlines]
  constructor
  · intro hshows line hline
    have hrange := hshows.range startLine asked rfl
    rw [hrows, linesBetween, ← hlines] at hrange
    have hsplit := congrArg (List.map Prod.fst) hrange
    rw [List.zipIdx_map_fst, List.zipIdx_map_fst] at hsplit
    rw [← hsplit] at hline
    exact plain_of_mem_splitlines hline
  · intro hplain
    rw [splitlines_eq_textLines hplain, hlines] at hrows
    constructor
    · intro row hrow
      rw [hrows] at hrow
      have hright := (@rows_right_iff startLine.toNat
        (endLine (fileLines text).length asked).toNat (textLines text) [] (by omega)).mpr
        (fun row hrow => absurd hrow List.not_mem_nil)
      rw [List.append_nil] at hright
      exact hright row hrow
    · rintro first last heq
      obtain ⟨rfl, rfl⟩ : startLine = first ∧ asked = last := by simpa using heq
      rw [hrows, linesBetween]

theorem replacedLines_le (oldStr newStr text : List Char) :
    1 ≤ (replacedLines oldStr newStr text).1 ∧
      (replacedLines oldStr newStr text).1 ≤ (replacedLines oldStr newStr text).2 := by
  unfold replacedLines snippetContextWindow FileEditor.lineNumber
  dsimp only
  omega

theorem insertedLines_le {insertLine : Int} (hle : insertLine ≤ (fileLines text).length)
    (newStr : List Char) :
    1 ≤ (insertedLines insertLine newStr text).1 ∧
      (insertedLines insertLine newStr text).1 ≤ (insertedLines insertLine newStr text).2 := by
  have hne : (newStr.splitOn '\n').length ≠ 0 :=
    fun hzero => Lines.splitOn_ne_nil newStr (List.length_eq_zero_iff.mp hzero)
  unfold insertedLines snippetContextWindow
  dsimp only
  omega

end Commands

/-- Exactly where the lines that are read stop right, and are not split further, each line is
shown with its number. -/
theorem showsRight_iff_showable (checks : FileChecks) (editor later : FileEditor)
    (path : List Char) (command : ShowingCommand) (output : NumberedOutput)
    (hshow : checks.showing path editor command = .ok (output, later))
    (hshort : output.snippetContent.length ≤ maxResponseLenChar) :
    ShowsRight (later.readFile path) command output ↔
      Showable path (editor.readFile path) command := by
  cases command with
  | view viewRange =>
      have hview : checks.view path viewRange editor = .ok output ∧ editor = later := by
        simp only [showing] at hshow
        cases hview : checks.view path viewRange editor with
        | error error => rw [hview] at hshow; cases hshow
        | ok shown =>
            rw [hview] at hshow
            obtain ⟨rfl, rfl⟩ := Prod.mk.inj (Except.ok.inj hshow)
            exact ⟨rfl, rfl⟩
      obtain ⟨hview, rfl⟩ := hview
      cases views_of_view hview with
      | whole output hcontent hstart =>
          have hlines : ShowsLines editor path
              (1, (fileLines (editor.readFile path)).length + 1) output :=
            ⟨hstart, hcontent.trans (linesText_whole _).symm⟩
          rw [showsLines_iff hlines hshort le_rfl (Nat.le_add_left 1 _)
            (fun _ _ heq => by cases heq), stopsRight_whole_iff]
          rfl
      | range startLine asked output hone hlast hle hcontent hstart =>
          exact showsRange_iff hone hlast hle hcontent hstart hshort
  | strReplace oldStr newStr =>
      obtain ⟨newText, hreplace, hfile, hlines⟩ := strReplaceOutput_eq_ok hshow
      obtain ⟨hone, hle⟩ := replacedLines_le oldStr newStr (editor.readFile path)
      rw [showsLines_iff hlines hshort hone hle (fun _ _ heq => by cases heq), hfile]
      simp only [Showable, hreplace, Except.ok.injEq, forall_eq']
  | insert insertLine newStr =>
      obtain ⟨newText, oldText, hinsert, hfile, hlines⟩ := insertOutput_eq_ok hshow
      have hline : insertLine ≤ (fileLines (editor.readFile path)).length := by
        by_contra hlt
        unfold FileEditor.insertLines at hinsert
        dsimp only at hinsert
        rw [if_pos (.inr (not_le.mp hlt))] at hinsert
        cases hinsert
      obtain ⟨hone, hle⟩ := insertedLines_le hline newStr
      rw [showsLines_iff hlines hshort hone hle (fun _ _ heq => by cases heq), hfile]
      simp only [Showable, hinsert, Except.ok.injEq, Prod.mk.injEq, and_imp, forall_eq',
        forall_apply_eq_imp_iff]

theorem showsRight_view :
    ShowsRight ((FileEditor.init FileEditor.oneFile).readFile "/a".toList) (.view [1, -1])
      { snippetContent := "x".toList, snippetDescription := "/a".toList, startLine := 1 } := by
  refine (showsRight_iff_showable fourCharacters (.init FileEditor.oneFile)
    (.init FileEditor.oneFile) "/a".toList (.view [1, -1])
    { snippetContent := "x".toList, snippetDescription := "/a".toList, startLine := 1 } rfl
    (by decide)).mpr ?_
  have hlines : linesBetween ((FileEditor.init FileEditor.oneFile).readFile "/a".toList) 1 (-1) =
      [['x']] := by decide
  intro line hline c hc
  rw [hlines, List.mem_singleton] at hline
  rw [hline, List.mem_singleton] at hc
  rw [hc]
  rfl

/-- There is no line behind the last newline. -/
theorem not_showsRight_ended :
    ∃ (editor : FileEditor) (output : NumberedOutput),
      fourCharacters.showing "/a".toList editor (.view []) = .ok (output, editor) ∧
        output.snippetContent.length ≤ maxResponseLenChar ∧
        ¬ShowsRight (editor.readFile "/a".toList) (.view []) output := by
  refine ⟨.init (Function.update FileEditor.oneFile "/a".toList (some "x\n".toList)),
    { snippetContent := "x\n".toList, snippetDescription := "/a".toList, startLine := 1 },
    rfl, by decide, fun hshows => ?_⟩
  have hrow := hshows.numbers ([], 2) (by decide)
  exact absurd hrow.2 (by decide)

end ShuttleFlow.FileChecks
