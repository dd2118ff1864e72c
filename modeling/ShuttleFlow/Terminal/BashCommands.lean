import ShuttleFlow.Library.Patterns
import ShuttleFlow.Library.PythonText

/-! # Splitting and escaping bash commands

What the parser for bash makes of a command is a parameter. Positions count characters.
-/

namespace ShuttleFlow

inductive SyntaxNode
  | node (type : String) (isNamed : Bool) (start stop : Nat) (children : List SyntaxNode)

namespace SyntaxNode

def type : SyntaxNode → String
  | node type .. => type

def isNamed : SyntaxNode → Bool
  | node _ isNamed .. => isNamed

def start : SyntaxNode → Nat
  | node _ _ start .. => start

def stop : SyntaxNode → Nat
  | node _ _ _ stop _ => stop

def children : SyntaxNode → List SyntaxNode
  | node _ _ _ _ children => children

end SyntaxNode

structure SyntaxTree where
  hasError : Bool
  rootNode : SyntaxNode

namespace BashCommands

open PythonText (rstrip isSpace)

/-- Statements behind a newline begin anew. -/
def boundaries (source : List Char) : List SyntaxNode → List Nat
  | cur :: next :: rest =>
      if '\n' ∈ (source.take next.start).drop cur.stop then
        next.start :: boundaries source (next :: rest)
      else boundaries source (next :: rest)
  | _ => [source.length]

def splitBashCommands (parse : List Char → SyntaxTree) (commands : List Char) :
    List (List Char) :=
  if commands.all isSpace then [[]]
  else if (parse commands).hasError then [commands]
  else
    match (parse commands).rootNode.children.filter fun child =>
      child.isNamed && child.type ≠ "comment" with
    | [] => [commands]
    | statement :: statements =>
        let starts := statement.start :: boundaries commands (statement :: statements)
        (starts.zip starts.tail).map fun range =>
          rstrip ((commands.take range.2).drop range.1)

/-- Their contents are taken verbatim. -/
def preserveTypes : List String :=
  ["string", "raw_string", "ansi_c_string", "translated_string", "command_substitution",
    "expansion", "simple_expansion", "heredoc_body", "comment"]

mutual

def collect : SyntaxNode → List (Nat × Nat)
  | .node type _ start stop children =>
      if type ∈ preserveTypes then [(start, stop)] else collectAll children

def collectAll : List SyntaxNode → List (Nat × Nat)
  | [] => []
  | child :: children => collect child ++ collectAll children

end

def escapePattern : Pattern Char (List Char) :=
  .ofLength fun text =>
    match text with
    | '\\' :: operator :: _ => if operator ∈ [';', '&', '|', '<', '>'] then some 2 else none
    | _ => none

def doubleEscapes (text : List Char) : List Char :=
  escapePattern.sub (fun found => '\\' :: found) text

def escapeFrom (source : List Char) : (cursor : Nat) → List (Nat × Nat) → List Char
  | cursor, [] => doubleEscapes (source.drop cursor)
  | cursor, (start, stop) :: preserved =>
      doubleEscapes ((source.take start).drop cursor) ++ (source.take stop).drop start ++
        escapeFrom source stop preserved

def escapeBashSpecialChars (parse : List Char → SyntaxTree) (command : List Char) : List Char :=
  if command.all isSpace then []
  else if (parse command).hasError then command
  else escapeFrom command 0 (collect (parse command).rootNode)

end BashCommands

end ShuttleFlow
