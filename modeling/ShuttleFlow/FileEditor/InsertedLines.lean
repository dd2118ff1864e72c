import ShuttleFlow.FileEditor.EditorAtomicity
import ShuttleFlow.FileEditor.FileLines

/-! # Lines that are inserted

Each new line gets an end, and the line in front of them none.
-/

namespace ShuttleFlow.FileChecks

open FileEditor (fileLines textLines LinesEnd)

/-- The new lines are between the old ones, and the old text is pushed on the history. -/
structure InsertsLines (editor : FileEditor) (path content : List Char) (insertLine : Nat)
    (newStr : List Char) (later : FileEditor) : Prop where
  lines : ∃ newText, later.files path = some newText ∧ textLines newText =
    (textLines content).take insertLine ++ newStr.splitOn '\n' ++
      (textLines content).drop insertLine
  history : later.historyManager = editor.historyManager.addHistory path content

/-- The text of the file with the new lines in it. -/
def insertedText (content : List Char) (insertLine : Nat) (newStr : List Char) : List Char :=
  ((fileLines content).take insertLine).flatten ++ (newStr.splitOn '\n').flatMap (· ++ ['\n']) ++
    ((fileLines content).drop insertLine).flatten

/-- The text with the new lines can be encoded, and read around them. -/
def Insertable (checks : FileChecks) (path content : List Char) (insertLine : Nat)
    (newStr : List Char) : Prop :=
  checks.unencodable path content (insertedText content insertLine newStr) = none ∧
    checks.Readable path (insertedText content insertLine newStr)
      (some (insertedLines insertLine newStr content))

section Texts

variable {content newStr : List Char} {insertLine : Nat}

theorem insertLines_eq_ok (hle : insertLine ≤ (textLines content).length) :
    FileEditor.insertLines insertLine newStr content =
      .ok (insertedText content insertLine newStr, content) := by
  rw [FileEditor.length_textLines] at hle
  have hcontent : ((fileLines content).take insertLine).flatten ++
      ((fileLines content).drop insertLine).flatten = content := by
    rw [← List.flatten_append, List.take_append_drop, FileEditor.flatten_fileLines]
  unfold FileEditor.insertLines
  dsimp only
  rw [if_neg (by omega), Int.toNat_natCast, hcontent, insertedText]

/-- The lines are where they belong, unless the last line is open and they come behind it. -/
theorem textLines_insertedText_iff (hle : insertLine ≤ (textLines content).length) :
    textLines (insertedText content insertLine newStr) =
        (textLines content).take insertLine ++ newStr.splitOn '\n' ++
          (textLines content).drop insertLine ↔
      insertLine < (textLines content).length ∨ LinesEnd content := by
  have hlines : ∀ line ∈ newStr.splitOn '\n', '\n' ∉ line := fun line =>
    Lines.notMem_of_mem_splitOn
  rw [FileEditor.length_textLines] at hle ⊢
  constructor
  · intro heq
    by_contra hnot
    rw [not_or, not_lt] at hnot
    obtain rfl : insertLine = (fileLines content).length := Nat.le_antisymm hle hnot.1
    obtain ⟨first, rest, hsplit⟩ :=
      List.exists_cons_of_ne_nil (@Lines.splitOn_ne_nil _ '\n' _ newStr)
    rw [hsplit] at hlines heq
    have hrest : ∀ line ∈ rest, '\n' ∉ line := fun line hline =>
      hlines line (List.mem_cons_of_mem _ hline)
    have hlength := congrArg List.length heq
    rw [insertedText, hsplit, List.take_length, FileEditor.flatten_fileLines, List.drop_length,
      List.flatten_nil, List.append_nil, List.flatMap_cons, List.append_assoc,
      List.singleton_append, FileEditor.length_textLines_append hnot.2
        (hlines first List.mem_cons_self), ← List.append_nil (List.flatMap _ rest),
      FileEditor.textLines_flatMap_append hrest] at hlength
    simp [FileEditor.length_textLines] at hlength
  · intro hend
    rw [insertedText, List.append_assoc, FileEditor.textLines_take_append hle hend,
      FileEditor.textLines_flatMap_append hlines, FileEditor.textLines_drop, List.append_assoc]

end Texts

variable {checks : FileChecks} {editor : FileEditor} {path content newStr : List Char}
  {insertLine : Nat}

theorem addHistory_ne (manager : FileHistoryManager) (path content : List Char) :
    manager ≠ manager.addHistory path content := by
  intro heq
  have hcounter := congrArg (fun later : FileHistoryManager =>
    (FileHistoryManager.getMetadata path later.cache).2) heq
  simp [FileHistoryManager.addHistory, FileHistoryManager.getMetadata, Dict.get?_set] at hcounter

/-- What an insertion leaves. -/
theorem insert_later (hplain : '\r' ∉ content) (hfile : editor.files path = some content)
    (hreadable : checks.Readable path content none)
    (hle : insertLine ≤ (textLines content).length) :
    (¬checks.Insertable path content insertLine newStr ∧
        (checks.insert path insertLine newStr editor).2.historyManager = editor.historyManager) ∨
      checks.Insertable path content insertLine newStr ∧
        (checks.insert path insertLine newStr editor).2.files path =
          some (insertedText content insertLine newStr) ∧
        (checks.insert path insertLine newStr editor).2.historyManager =
          editor.historyManager.addHistory path content := by
  have htext : editor.readFile path = content := by
    rw [FileEditor.readFile, hfile, Option.getD_some, translateNewlines_of_notMem hplain]
  have hmoved := files_writeFile path (insertedText content insertLine newStr) editor
  simp only [insert, Insertable, validateFile_of_readable hfile hreadable, decode, hfile,
    Option.getD_some, hreadable.decodes, htext, insertLines_eq_ok hle]
  cases hencode : checks.unencodable path content (insertedText content insertLine newStr) with
  | some message => exact .inl ⟨fun hboth => (by cases hboth.1), rfl⟩
  | none =>
      by_cases hpart : checks.Readable path (insertedText content insertLine newStr)
        (some (insertedLines insertLine newStr content))
      · refine .inr ⟨⟨rfl, hpart⟩, ?_⟩
        obtain ⟨snippet, hsnippet⟩ := readFile_of_readable hmoved hpart
        simp only [hsnippet]
        split <;> exact ⟨hmoved, rfl⟩
      · refine .inl ⟨fun hboth => hpart hboth.2, ?_⟩
        obtain ⟨error, hread⟩ := readFile_of_not_readable hmoved hpart
        simp only [hread]
        rfl

/-- Exactly where no line is open in front of them the new lines are inserted between the old
ones. -/
theorem insertsLines_iff (checks : FileChecks) (host : HostPaths) (editor : FileEditor)
    (path content newStr : List Char) (insertLine : Nat) (hplain : '\r' ∉ content)
    (hvalid : FileEditor.validatePath host editor.files path
      (.insert (some insertLine) (some newStr)) = .ok ())
    (hfile : editor.files path = some content) (hreadable : checks.Readable path content none)
    (hle : insertLine ≤ (textLines content).length) :
    InsertsLines editor path content insertLine newStr
        (checks.call host editor path (.insert (some insertLine) (some newStr))).2 ↔
      checks.Insertable path content insertLine newStr ∧
        (insertLine < (textLines content).length ∨ LinesEnd content) := by
  simp only [call, hvalid]
  rcases insert_later hplain hfile hreadable hle with
    ⟨hnot, hhistory⟩ | ⟨hinsertable, hnew, hhistory⟩
  · refine iff_of_false (fun hinserts => ?_) fun hboth => hnot hboth.1
    exact addHistory_ne editor.historyManager path content
      (hhistory.symm.trans hinserts.history)
  · rw [and_iff_right hinsertable, ← textLines_insertedText_iff hle]
    constructor
    · intro hinserts
      obtain ⟨newText, hfound, hlines⟩ := hinserts.lines
      rw [hnew] at hfound
      rwa [← Option.some.inj hfound] at hlines
    · exact fun hlines => ⟨⟨_, hnew, hlines⟩, hhistory⟩

theorem insertsLines_first :
    InsertsLines (.init FileEditor.oneFile) "/a".toList "x".toList 0 "y".toList
      (fourCharacters.call FileEditor.plainHost (.init FileEditor.oneFile) "/a".toList
        (.insert (some 0) (some "y".toList))).2 := by
  refine (insertsLines_iff fourCharacters FileEditor.plainHost (.init FileEditor.oneFile)
    "/a".toList "x".toList "y".toList 0 (by decide) rfl rfl ⟨rfl, rfl⟩ (by decide)).mpr ?_
  exact ⟨⟨rfl, ⟨by decide, rfl⟩⟩, .inl (by decide)⟩

/-- The new line goes on with the last one. -/
theorem not_insertsLines_last :
    ¬InsertsLines (.init FileEditor.oneFile) "/a".toList "x".toList 1 "y".toList
      (fourCharacters.call FileEditor.plainHost (.init FileEditor.oneFile) "/a".toList
        (.insert (some 1) (some "y".toList))).2 := by
  intro hinserts
  obtain ⟨newText, hfound, hlines⟩ := hinserts.lines
  have hnew : (fourCharacters.call FileEditor.plainHost (.init FileEditor.oneFile) "/a".toList
      (.insert (some 1) (some "y".toList))).2.files "/a".toList = some "xy\n".toList := by
    decide +kernel
  rw [hnew] at hfound
  rw [← Option.some.inj hfound] at hlines
  exact absurd hlines (by decide)

end ShuttleFlow.FileChecks
