/-!
# Shell scripts

Programs on a disk are scripts for the shell. A command is a list of words with redirections, or is
made of other commands; a word is a list of pieces, of which some are quoted and some are filled in
when the command runs.
-/

namespace Starfilm

namespace Shell

/-- Where a stream is directed to. -/
inductive Direction where
  /-- Write to a file, anew. -/
  | over
  /-- Write to a file, at its end. -/
  | behind
  /-- Read from a file. -/
  | from
  /-- Where the stream of a given number goes. -/
  | along
  deriving DecidableEq, Repr

/-- What joins two commands. -/
inductive Joint where
  /-- One after the other. -/
  | next
  /-- The second if the first succeeds. -/
  | and
  /-- The second if the first fails. -/
  | or
  /-- What the first writes is what the second reads. -/
  | pipe
  deriving DecidableEq, Repr

mutual

/-- A piece of a word. Pieces that are not quoted are split into words again when they have been
filled in. -/
inductive Piece where
  | literal (text : List Char) (quoted : Bool)
  | parameter (name : List Char) (quoted : Bool)
  /-- What a command writes. -/
  | output (c : Command) (quoted : Bool)

/-- A command. -/
inductive Command where
  | simple (words : List (List Piece))
  | join (j : Joint) (a b : Command)
  | negate (c : Command)
  /-- A command of its own, whose variables are forgotten afterwards. -/
  | nested (c : Command)
  | branch (test yes no : Command)
  /-- Again and again while a test succeeds, or fails. -/
  | loop (test : Command) (whileTrue : Bool) (body : Command)
  /-- Once for each of some words. -/
  | each (name : List Char) (words : List (List Piece)) (body : Command)
  /-- A command with a stream that is a file. The number is that of the stream. -/
  | redirect (c : Command) (stream : Nat) (d : Direction) (file : List Piece)
  /-- Nothing at all. -/
  | skip

end

instance : Inhabited Command := ⟨.skip⟩

end Shell

end Starfilm
