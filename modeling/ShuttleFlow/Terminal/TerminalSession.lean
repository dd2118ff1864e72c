import ShuttleFlow.Terminal.CmdOutputMetadata
import ShuttleFlow.Terminal.QueryFilter

/-! # What a session makes of a completed command

The screen shows the output of the command and the prompts around it. The last prompt tells how
the command ended.
-/

namespace ShuttleFlow

open CmdOutputMetadata (Ps1Block MetadataReader DecodeFailure fromPs1Match)
open PythonText (lstrip rstrip trim removePrefix maybeTruncate isSpace)

inductive TerminalCommandStatus
  | continue | completed | interrupted | noChangeTimeout | hardTimeout
  deriving DecidableEq

structure TerminalObservation where
  command : List Char
  text : List Char
  metadata : CmdOutputMetadata
  exitCode : Int

/-- What the session asks its terminal, and `str.upper` for one character. -/
structure TerminalInterface where
  isPowershell : Bool
  upper : Char → List Char

structure TerminalSession where
  cwd : List Char
  prevStatus : Option TerminalCommandStatus := none
  prevOutput : List Char := []
  /-- What the query filter holds back. -/
  pending : List Char := []

def maxCmdOutputSize : Nat := 30000

/-! ## The command in the output -/

def removeCommandPrefix (commandOutput command : List Char) : List Char :=
  lstrip (removePrefix (lstrip command) (lstrip commandOutput))

/-- Behind `PS `: the last `>` stands on the same line, and spaces follow. -/
def endsPrompt (text : List Char) : Bool :=
  match (rstrip text).reverse with
  | '>' :: behind => behind.all fun c => c ≠ '\r' && c ≠ '\n'
  | _ => false

def beginsPrompt : List Char → Bool
  | 'P' :: 'S' :: ' ' :: rest => endsPrompt rest
  | _ => false

/-- A prompt, or a prompt on a new line. -/
def matchesPrompt : List Char → Bool
  | '\r' :: '\n' :: rest => beginsPrompt rest
  | '\n' :: rest => beginsPrompt rest
  | text => beginsPrompt text

/-- `re.sub` with a pattern that only matches at the end of the text. -/
def removePrompt : List Char → List Char
  | [] => []
  | first :: rest => if matchesPrompt (first :: rest) then [] else first :: removePrompt rest

/-- What stands behind the first newline. -/
def behindLine (text : List Char) : List Char :=
  (text.dropWhile (· ≠ '\n')).tail

def removePowershellEcho (commandOutput command : List Char) : List Char :=
  let output := lstrip commandOutput
  let command := lstrip command
  let firstLine := (splitlines output).headD []
  lstrip (removePrompt
    (if command ≠ [] ∧ command <:+: firstLine then behindLine output else output))

namespace TerminalSession

/-! ## The output -/

def isSpecialKey (command : List Char) : Bool :=
  "C-".toList <+: trim command && (trim command).length = 3

/-- The cleaned output, and what becomes of the metadata and of the session. -/
def getCommandOutput (terminal : TerminalInterface) (session : TerminalSession)
    (command rawCommandOutput : List Char) (metadata : CmdOutputMetadata)
    (continuePrefix : List Char) (isFinal : Bool) :
    List Char × CmdOutputMetadata × TerminalSession :=
  let goesOn := session.prevOutput ≠ []
  let output :=
    if goesOn then removePrefix session.prevOutput rawCommandOutput else rawCommandOutput
  let cleaned :=
    if terminal.isPowershell then removePowershellEcho output command
    else removeCommandPrefix output command
  let (filtered, pending) := TerminalQueryFilter.filter session.pending cleaned
  let filtered := if isFinal then filtered ++ TerminalQueryFilter.flush pending else filtered
  (rstrip filtered,
    if goesOn then { metadata with outputPrefix := continuePrefix } else metadata,
    { session with
      prevOutput := rawCommandOutput
      pending := if isFinal then [] else pending })

/-- `content[start:stop]`, when the positions are in order. -/
def slice (content : List Char) (start stop : Nat) : List Char :=
  (content.take stop).drop start

/-- The output in front of each block but the first, a newline behind each. -/
def outputsBetween (content : List Char) : List Ps1Block → List Char
  | first :: second :: rest =>
      slice content (first.stop + 1) second.start ++ '\n' ::
        outputsBetween content (second :: rest)
  | _ => []

def combineOutputsBetweenMatches (content : List Char) (ps1Matches : List Ps1Block)
    (getContentBeforeLastMatch : Bool) : List Char :=
  match ps1Matches with
  | [] => content
  | [only] =>
      if getContentBeforeLastMatch then content.take only.start else content.drop (only.stop + 1)
  | first :: second :: rest =>
      outputsBetween content (first :: second :: rest) ++
        content.drop (((second :: rest).getLastD second).stop + 1)

/-! ## Completion -/

def unknownExitCode : List Char :=
  ("\n[The command completed but the exit code could not be determined. Terminal output may " ++
    "have corrupted the PS1 metadata markers.]").toList

def truncatedNotice (numLines : Nat) : List Char :=
  ("[Previous command outputs are truncated. Showing the last " ++ toString numLines ++
    " lines of the output below.]\n").toList

def completedSuffix (exitCode : Int) (key : Option (List Char)) : List Char :=
  match key with
  | none => ("\n[The command completed with exit code " ++ toString exitCode ++ ".]").toList
  | some key =>
      ("\n[The command completed with exit code " ++ toString exitCode ++ ". CTRL+").toList ++
        key ++ " was sent.]".toList

/-- `command[-1].upper()` for a special key. -/
def sentKey (terminal : TerminalInterface) (command : List Char) :
    Except DecodeFailure (Option (List Char)) :=
  if isSpecialKey command then
    match command.getLast? with
    | none => .error .indexError
    | some letter => .ok (some (terminal.upper letter))
  else .ok none

/-- The observation, and the session that is ready for the next command. -/
def complete (terminal : TerminalInterface) (session : TerminalSession)
    (command rawCommandOutput : List Char) (metadata : CmdOutputMetadata) :
    Except DecodeFailure TerminalObservation × TerminalSession :=
  let (output, metadata, session) :=
    getCommandOutput terminal session command rawCommandOutput metadata [] true
  (.ok {
    command, metadata
    text := maybeTruncate output maxCmdOutputSize defaultTruncateNotice
    exitCode := metadata.exitCode },
    { session with prevStatus := some .completed, prevOutput := [], pending := [] })

def changedCwd (session : TerminalSession) (metadata : CmdOutputMetadata) : TerminalSession :=
  match metadata.workingDir with
  | none => session
  | some cwd => if cwd ≠ session.cwd ∧ cwd ≠ [] then { session with cwd } else session

/-- What is shown for the metadata of the last block. -/
def completeWith (terminal : TerminalInterface) (session : TerminalSession)
    (command content : List Char) (ps1Matches : List Ps1Block) (metadata : CmdOutputMetadata) :
    Except DecodeFailure TerminalObservation × TerminalSession :=
  let getContentBeforeLastMatch := decide (ps1Matches.length = 1)
  let session := session.changedCwd metadata
  let raw := combineOutputsBetweenMatches content ps1Matches getContentBeforeLastMatch
  match sentKey terminal command with
  | .error failure => (.error failure, session)
  | .ok key =>
      complete terminal session command raw
        { metadata with
          outputPrefix :=
            if getContentBeforeLastMatch then truncatedNotice (splitlines raw).length
            else metadata.outputPrefix
          outputSuffix := completedSuffix metadata.exitCode key }

def handleCompletedCommand {Float : Type} (reader : MetadataReader Float)
    (terminal : TerminalInterface) (session : TerminalSession) (command content : List Char)
    (ps1Matches : List Ps1Block) : Except DecodeFailure TerminalObservation × TerminalSession :=
  match ps1Matches.getLast? with
  | none =>
      complete terminal session command content
        { workingDir := some session.cwd, outputSuffix := unknownExitCode }
  | some last =>
      match fromPs1Match reader last with
      | .error failure => (.error failure, session)
      | .ok metadata => completeWith terminal session command content ps1Matches metadata

end TerminalSession

end ShuttleFlow
