/-
# Script trees

A script is a sequence of commands and a command a sequence of words.  A word
is either a text between braces or a sequence of pieces to be substituted.
Where the source breaks a rule the tree has a `fail` node: what stands before it
is still run, so the error arises when the run gets there and not before.
-/

namespace CommandBridge

/-- The rules of script text that a source can break. -/
inductive ScriptError where
  | missingBracket
  | missingBrace
  | missingQuote
  | missingParenthesis
  | missingNameBrace
  | afterBrace
  | afterQuote
deriving DecidableEq, Repr

/-- The wording of the errors. -/
def ScriptError.message : ScriptError → String
  | .missingBracket => "missing close-bracket"
  | .missingBrace => "missing close-brace"
  | .missingQuote => "missing \""
  | .missingParenthesis => "missing )"
  | .missingNameBrace => "missing close-brace for variable name"
  | .afterBrace => "extra characters after close-brace"
  | .afterQuote => "extra characters after close-quote"

mutual

/-- The commands of a script. -/
inductive Script where
  | done
  | fail (error : ScriptError)
  | command (words : Words) (rest : Script)

/-- The words of a command. -/
inductive Words where
  | done
  | fail (error : ScriptError)
  | literal (text : String) (rest : Words)
  | word (pieces : Pieces) (rest : Words)

/-- The pieces of a word. -/
inductive Pieces where
  | done
  | cons (piece : Piece) (rest : Pieces)

/-- One piece of a word: a character, a variable, an array element whose key is
substituted itself, or a script whose result is taken. -/
inductive Piece where
  | fail (error : ScriptError)
  | char (c : Char)
  | var (name : String)
  | elem (name : String) (key : Pieces)
  | script (script : Script)

end

end CommandBridge
