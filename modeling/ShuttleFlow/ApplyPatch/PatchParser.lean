import ShuttleFlow.Library.Dict
import ShuttleFlow.Library.PythonText

/-! # Parsing patches

A patch adds, deletes and updates files. An update names the lines around each change, and these
are looked up in the file.
-/

namespace ShuttleFlow

abbrev Line : Type := List Char

inductive PatchError
  /-- A `DiffError`, with its text. -/
  | diff (message : String)
  | assertion
  | index
  /-- The file system refuses an operation. -/
  | os
  deriving DecidableEq, Repr

structure Chunk where
  origIndex : Nat
  delLines : List Line
  insLines : List Line
  deriving DecidableEq, Repr

inductive PatchAction
  | add (newFile : List Char)
  | delete
  /-- Without a move, the path to move to is empty. -/
  | update (chunks : List Chunk) (movePath : List Char)
  deriving DecidableEq, Repr

namespace PatchParser

def diffError {α : Type} (message : String) (text : List Char) : Except PatchError α :=
  .error (.diff (message ++ String.ofList text))

def startsWith (text : String) (line : Line) : Bool :=
  text.toList <+: line

def startsWithAny (texts : List String) (line : Line) : Bool :=
  texts.any fun text => startsWith text line

/-- `"\n".join`. -/
def joinLines (lines : List Line) : List Char :=
  ['\n'].intercalate lines

/-! ## Where the lines of a change are in the file -/

def findFrom (norm : Line → Line) (lines context : List Line) (start : Nat) : Option Nat :=
  (List.range' start (lines.length - start)).find? fun i =>
    ((lines.drop i).take context.length).map norm = context.map norm

/-- The place of the context, and how far the match is from exact. -/
def findContextCore (lines context : List Line) (start : Nat) : Option Nat × Nat :=
  if context = [] then (some start, 0)
  else
    match findFrom id lines context start with
    | some i => (some i, 0)
    | none =>
        match findFrom PythonText.rstrip lines context start with
        | some i => (some i, 1)
        | none =>
            match findFrom PythonText.trim lines context start with
            | some i => (some i, 100)
            | none => (none, 0)

/-- At the end of the file the context is tried there first. A context that is longer than the file
is nowhere. -/
def findContext (lines context : List Line) (start : Nat) (eof : Bool) : Option Nat × Nat :=
  if eof then
    match findContextCore lines context (lines.length - context.length) with
    | (some i, fuzz) => (some i, fuzz)
    | (none, _) =>
        let (newIndex, fuzz) := findContextCore lines context start
        (newIndex, fuzz + 10000)
  else findContextCore lines context start

/-! ## Sections -/

inductive LineMode
  | keep | add | delete
  deriving DecidableEq, Repr

/-- A section as far as it has been read. -/
structure PatchSection where
  old : List Line := []
  delLines : List Line := []
  insLines : List Line := []
  chunks : List Chunk := []
  mode : LineMode := .keep

namespace PatchSection

def flush (part : PatchSection) : PatchSection :=
  let chunks :=
    if part.insLines = [] ∧ part.delLines = [] then part.chunks
    else part.chunks ++
      [⟨part.old.length - part.delLines.length, part.delLines, part.insLines⟩]
  { part with chunks, delLines := [], insLines := [] }

def add (part : PatchSection) (mode : LineMode) (text : Line) : PatchSection :=
  let part := if mode = .keep ∧ part.mode ≠ .keep then part.flush else part
  let part := { part with mode }
  match mode with
  | .delete => { part with delLines := part.delLines ++ [text], old := part.old ++ [text] }
  | .add => { part with insLines := part.insLines ++ [text] }
  | .keep => { part with old := part.old ++ [text] }

end PatchSection

/-- An empty line is kept. -/
def readMode : Line → Option (LineMode × Line)
  | [] => some (.keep, [])
  | '+' :: text => some (.add, text)
  | '-' :: text => some (.delete, text)
  | ' ' :: text => some (.keep, text)
  | _ :: _ => none

def fileMarks : List String :=
  ["*** End Patch", "*** Update File:", "*** Delete File:", "*** Add File:"]

def sectionMarks : List String := fileMarks ++ ["*** End of File"]

/-- Read the lines of a section, and return how many there are. -/
def readSection (part : PatchSection) : List Line → Except PatchError (PatchSection × Nat)
  | [] => .ok (part, 0)
  | line :: rest =>
      if startsWithAny ("@@" :: sectionMarks) line || line = "***".toList then .ok (part, 0)
      else if startsWith "***" line then diffError "Invalid Line: " line
      else
        match readMode line with
        | none => diffError "Invalid Line: " line
        | some (mode, text) =>
            (readSection (part.add mode text) rest).map fun result => (result.1, result.2 + 1)

/-- The lines before the change, the changes, where the section ends, and whether it is at the end
of the file. -/
def peekNextSection (lines : List Line) (index : Nat) :
    Except PatchError (List Line × List Chunk × Nat × Bool) :=
  match readSection {} (lines.drop index) with
  | .error error => .error error
  | .ok (part, count) =>
      let part := part.flush
      let stop := index + count
      if lines[stop]? = some "*** End of File".toList then
        .ok (part.old, part.chunks, stop + 1, true)
      else if count = 0 then
        match lines[index]? with
        | none => .error .index
        | some line =>
            diffError ("Nothing in this section - index=" ++ toString index ++ " ") line
      else .ok (part.old, part.chunks, stop, false)

/-! ## The parser -/

end PatchParser

structure PatchParser where
  currentFiles : Dict (List Char) (List Char) := .empty
  lines : List Line
  index : Nat := 0
  actions : Dict (List Char) PatchAction := .empty
  fuzz : Nat := 0

namespace PatchParser

def isDone (parser : PatchParser) (marks : List String) : Bool :=
  match parser.lines[parser.index]? with
  | none => true
  | some line => startsWithAny marks line

/-- The rest of a line that starts like this is read, and otherwise nothing. -/
def readStr (parser : PatchParser) (start : String) :
    Except PatchError (List Char × PatchParser) :=
  match parser.lines[parser.index]? with
  | none => .error .assertion
  | some line =>
      if startsWith start line then
        .ok (line.drop start.length, { parser with index := parser.index + 1 })
      else .ok ([], parser)

/-- The first line that is like this, unless there was one before the place already. -/
def seek (same : Line → Bool) (lines : List Line) (index : Nat) : Option Nat :=
  if (lines.take index).any same then none
  else ((lines.drop index).findIdx? same).map (index + ·)

/-- Where a section is to be looked for, and the fuzz of that. -/
def seekSection (lines : List Line) (index : Nat) (defStr : Line) : Nat × Nat :=
  if PythonText.trim defStr = [] then (index, 0)
  else
    match seek (· = defStr) lines index with
    | some i => (i + 1, 0)
    | none =>
        match seek (fun line => PythonText.trim line = PythonText.trim defStr) lines index with
        | some i => (i + 1, 1)
        | none => (index, 0)

/-- One section of an update: its changes, where it ends in the file, and the parser after it. -/
def parseSection (parser : PatchParser) (lines : List Line) (index : Nat) :
    Except PatchError (List Chunk × Nat × PatchParser) :=
  match parser.readStr "@@ " with
  | .error error => .error error
  | .ok (defStr, parser) =>
      match parser.lines[parser.index]? with
      | none => if defStr = [] then .error .index else peek parser defStr
      | some line =>
          if defStr = [] ∧ line = "@@".toList then
            peek { parser with index := parser.index + 1 } defStr
          else if defStr = [] ∧ index ≠ 0 then diffError "Invalid Line:\n" line
          else peek parser defStr
where
  peek (parser : PatchParser) (defStr : Line) :
      Except PatchError (List Chunk × Nat × PatchParser) :=
    let (index, defFuzz) := seekSection lines index defStr
    match peekNextSection parser.lines parser.index with
    | .error error => .error error
    | .ok (context, chunks, stop, eof) =>
        match findContext lines context index eof with
        | (none, _) =>
            let kind := if eof then "Invalid EOF Context " else "Invalid Context "
            diffError (kind ++ toString index ++ ":\n") (joinLines context)
        | (some newIndex, fuzz) =>
            .ok (chunks.map fun chunk => { chunk with origIndex := chunk.origIndex + newIndex },
              newIndex + context.length,
              { parser with index := stop, fuzz := parser.fuzz + defFuzz + fuzz })

/-- The sections of an update. Each has a line at least, so that `fuel` lasts when it starts as the
number of lines. -/
def parseSections (lines : List Line) :
    Nat → PatchParser → Nat → List Chunk → Except PatchError (List Chunk × PatchParser)
  | 0, parser, _, chunks => .ok (chunks, parser)
  | fuel + 1, parser, index, chunks =>
      if parser.isDone sectionMarks then .ok (chunks, parser)
      else
        match parser.parseSection lines index with
        | .error error => .error error
        | .ok (more, index, parser) => parseSections lines fuel parser index (chunks ++ more)

def parseUpdateFile (parser : PatchParser) (text : List Char) :
    Except PatchError (List Chunk × PatchParser) :=
  parseSections (text.splitOn '\n') parser.lines.length parser 0 []

/-- The lines of a new file, and how many there are. -/
def addedLines : List Line → Except PatchError (List Line)
  | [] => .ok []
  | line :: rest =>
      if startsWithAny fileMarks line then .ok []
      else
        match line with
        | '+' :: text => (addedLines rest).map (text :: ·)
        | _ => diffError "Invalid Add File Line: " line

def parseAddFile (parser : PatchParser) : Except PatchError (List Char × PatchParser) :=
  (addedLines (parser.lines.drop parser.index)).map fun lines =>
    (joinLines lines, { parser with index := parser.index + lines.length })

def parseUpdate (parser : PatchParser) (path : List Char) : Except PatchError PatchParser :=
  if (parser.actions.get? path).isSome then diffError "Update File Error: Duplicate Path: " path
  else
    match parser.readStr "*** Move to: " with
    | .error error => .error error
    | .ok (moveTo, parser) =>
        match parser.currentFiles.get? path with
        | none => diffError "Update File Error: Missing File: " path
        | some text =>
            (parser.parseUpdateFile text).map fun (chunks, parser) =>
              { parser with actions := parser.actions.set path (.update chunks moveTo) }

def parseDelete (parser : PatchParser) (path : List Char) : Except PatchError PatchParser :=
  if (parser.actions.get? path).isSome then diffError "Delete File Error: Duplicate Path: " path
  else if (parser.currentFiles.get? path).isNone then
    diffError "Delete File Error: Missing File: " path
  else .ok { parser with actions := parser.actions.set path .delete }

def parseAdd (parser : PatchParser) (path : List Char) : Except PatchError PatchParser :=
  if (parser.actions.get? path).isSome then diffError "Add File Error: Duplicate Path: " path
  else
    parser.parseAddFile.map fun (newFile, parser) =>
      { parser with actions := parser.actions.set path (.add newFile) }

/-- The headers of an action, in the order in which they are tried. -/
def headers : List (String × (PatchParser → List Char → Except PatchError PatchParser)) :=
  [("*** Update File: ", parseUpdate), ("*** Delete File: ", parseDelete),
    ("*** Add File: ", parseAdd)]

/-- One action. A header without a path is skipped. -/
def parseAction (parser : PatchParser) :
    List (String × (PatchParser → List Char → Except PatchError PatchParser)) →
      Except PatchError PatchParser
  | [] =>
      match parser.lines[parser.index]? with
      | none => .error .index
      | some line => diffError "Unknown Line: " line
  | (header, parseBody) :: rest =>
      match parser.readStr header with
      | .error error => .error error
      | .ok ([], parser) => parser.parseAction rest
      | .ok (path, parser) => parseBody parser path

/-- Every action has a line at least. -/
def parseActions : Nat → PatchParser → Except PatchError PatchParser
  | 0, parser => .ok parser
  | fuel + 1, parser =>
      if parser.isDone ["*** End Patch"] then .ok parser
      else
        match parser.parseAction headers with
        | .error error => .error error
        | .ok parser => parseActions fuel parser

def parse (parser : PatchParser) : Except PatchError PatchParser :=
  match parseActions parser.lines.length parser with
  | .error error => .error error
  | .ok parser =>
      match parser.lines[parser.index]? with
      | none => .error .assertion
      | some line =>
          if startsWith "*** End Patch" line then .ok { parser with index := parser.index + 1 }
          else .error (.diff "Missing End Patch")

/-! ## The fuel lasts -/

/-- The parser has read some lines of the same patch. -/
structure Reads (count : Nat) (before after : PatchParser) : Prop where
  lines : after.lines = before.lines
  index : before.index + count ≤ after.index

variable {parser after : PatchParser}

theorem Reads.trans {first second : Nat} {middle : PatchParser} (hfirst : Reads first parser middle)
    (hsecond : Reads second middle after) : Reads (first + second) parser after := by
  refine ⟨hsecond.lines.trans hfirst.lines, ?_⟩
  have hindex := hfirst.index
  have hlater := hsecond.index
  omega

theorem Reads.mono {count fewer : Nat} (hreads : Reads count parser after) (hle : fewer ≤ count) :
    Reads fewer parser after := by
  refine ⟨hreads.lines, ?_⟩
  have hindex := hreads.index
  omega

theorem isDone_of_length_le (marks : List String) (hlength : parser.lines.length ≤ parser.index) :
    parser.isDone marks := by
  unfold isDone
  rw [List.getElem?_eq_none hlength]

theorem readStr_reads {start : String} {text : List Char}
    (hread : parser.readStr start = .ok (text, after)) :
    Reads (if text = [] then 0 else 1) parser after := by
  unfold readStr at hread
  split at hread
  next => cases hread
  next line hline =>
    split at hread
    next =>
      cases hread
      refine ⟨rfl, ?_⟩
      dsimp only
      split <;> omega
    next =>
      cases hread
      exact ⟨rfl, Nat.le_refl _⟩

theorem lt_of_peekNextSection {lines context : List Line} {index stop : Nat} {chunks : List Chunk}
    {eof : Bool} (hpeek : peekNextSection lines index = .ok (context, chunks, stop, eof)) :
    index < stop := by
  unfold peekNextSection at hpeek
  split at hpeek
  next => cases hpeek
  next part count hsection =>
    dsimp only at hpeek
    split at hpeek
    next =>
      cases hpeek
      omega
    next =>
      split at hpeek
      next =>
        split at hpeek
        next => cases hpeek
        next => cases hpeek
      next hcount =>
        cases hpeek
        omega

theorem peek_reads {lines : List Line} {index next : Nat} {defStr : Line} {chunks : List Chunk}
    (hpeek : parseSection.peek lines index parser defStr = .ok (chunks, next, after)) :
    Reads 1 parser after := by
  unfold parseSection.peek at hpeek
  dsimp only at hpeek
  split at hpeek
  next => cases hpeek
  next context found stop eof hfound =>
    split at hpeek
    next => cases hpeek
    next =>
      cases hpeek
      exact ⟨rfl, lt_of_peekNextSection hfound⟩

theorem parseSection_reads {lines : List Line} {index next : Nat} {chunks : List Chunk}
    (hparse : parser.parseSection lines index = .ok (chunks, next, after)) :
    Reads 1 parser after := by
  unfold parseSection at hparse
  split at hparse
  next => cases hparse
  next defStr middle hread =>
    have hmiddle : Reads 0 parser middle := (readStr_reads hread).mono (Nat.zero_le _)
    split at hparse
    next =>
      split at hparse
      next => cases hparse
      next => exact (hmiddle.trans (peek_reads hparse)).mono (by omega)
    next line hline =>
      split at hparse
      next =>
        have hpeek := peek_reads hparse
        refine ⟨hpeek.lines.trans hmiddle.lines, ?_⟩
        have hindex := hmiddle.index
        have hlater := hpeek.index
        dsimp only at hlater
        omega
      next =>
        split at hparse
        next => cases hparse
        next => exact (hmiddle.trans (peek_reads hparse)).mono (by omega)

/-- An update is read up to its end. -/
theorem parseSections_isDone {lines : List Line} {fuel index : Nat} {chunks all : List Chunk}
    (hfuel : parser.lines.length ≤ parser.index + fuel)
    (hparse : parseSections lines fuel parser index chunks = .ok (all, after)) :
    after.isDone sectionMarks ∧ Reads 0 parser after := by
  induction fuel generalizing parser index chunks with
  | zero =>
      cases hparse
      exact ⟨isDone_of_length_le _ hfuel, rfl, Nat.le_refl _⟩
  | succ fuel ih =>
      unfold parseSections at hparse
      split at hparse
      next hdone =>
        cases hparse
        exact ⟨hdone, rfl, Nat.le_refl _⟩
      next =>
        split at hparse
        next => cases hparse
        next more next middle hsection =>
          have hmiddle := parseSection_reads hsection
          have hindex := hmiddle.index
          have hmore : middle.lines.length ≤ middle.index + fuel := by
            rw [hmiddle.lines]
            omega
          obtain ⟨hdone, hreads⟩ := ih hmore hparse
          exact ⟨hdone, (hmiddle.trans hreads).mono (Nat.zero_le _)⟩

theorem parseUpdate_reads {path : List Char} (hparse : parser.parseUpdate path = .ok after) :
    Reads 0 parser after := by
  unfold parseUpdate at hparse
  split at hparse
  next => cases hparse
  next =>
    split at hparse
    next => cases hparse
    next moveTo middle hread =>
      have hmiddle : Reads 0 parser middle := (readStr_reads hread).mono (Nat.zero_le _)
      split at hparse
      next => cases hparse
      next text _ =>
        cases hfile : middle.parseUpdateFile text with
        | error error =>
            rw [hfile] at hparse
            cases hparse
        | ok result =>
            rw [hfile] at hparse
            cases hparse
            have hreads := (parseSections_isDone (Nat.le_add_left _ _) hfile).2
            have hboth := hmiddle.trans hreads
            exact ⟨hboth.lines, hboth.index⟩

theorem parseDelete_reads {path : List Char} (hparse : parser.parseDelete path = .ok after) :
    Reads 0 parser after := by
  unfold parseDelete at hparse
  split at hparse
  next => cases hparse
  next =>
    split at hparse
    next => cases hparse
    next =>
      cases hparse
      exact ⟨rfl, Nat.le_refl _⟩

theorem parseAdd_reads {path : List Char} (hparse : parser.parseAdd path = .ok after) :
    Reads 0 parser after := by
  unfold parseAdd parseAddFile at hparse
  split at hparse
  next => cases hparse
  next =>
    cases hlines : addedLines (parser.lines.drop parser.index) with
    | error error =>
        rw [hlines] at hparse
        cases hparse
    | ok lines =>
        rw [hlines] at hparse
        cases hparse
        exact ⟨rfl, Nat.le_add_right _ _⟩

theorem parseAction_reads
    {headers : List (String × (PatchParser → List Char → Except PatchError PatchParser))}
    (hbodies : ∀ header ∈ headers, ∀ before path after, header.2 before path = .ok after →
      Reads 0 before after)
    (hparse : parser.parseAction headers = .ok after) : Reads 1 parser after := by
  induction headers generalizing parser with
  | nil =>
      unfold parseAction at hparse
      split at hparse
      next => cases hparse
      next => cases hparse
  | cons header rest ih =>
      unfold parseAction at hparse
      split at hparse
      next => cases hparse
      next middle hread =>
        have hmiddle := readStr_reads hread
        have hrest := ih (fun other hmem => hbodies other (.tail _ hmem)) hparse
        exact (hmiddle.trans hrest).mono (Nat.le_add_left _ _)
      next path middle hpath hread =>
        have hmiddle := readStr_reads hread
        have hsome : path ≠ [] := by
          rintro rfl
          exact hpath rfl
        rw [if_neg hsome] at hmiddle
        exact hmiddle.trans (hbodies header List.mem_cons_self _ _ _ hparse)

theorem headers_reads : ∀ header ∈ headers, ∀ before path after, header.2 before path = .ok after →
    Reads 0 before after := by
  intro header hmem before path after hbody
  simp only [headers, List.mem_cons, List.not_mem_nil, or_false] at hmem
  rcases hmem with rfl | rfl | rfl
  · exact parseUpdate_reads hbody
  · exact parseDelete_reads hbody
  · exact parseAdd_reads hbody

end PatchParser

end ShuttleFlow
