import BacktestAudit.Syntax.Glyph

/-!
Tokens of the analysed language, and the ways in which a text can fail to be a sequence of them.
-/
namespace BacktestAudit.Syntax

inductive TokenKind where
  | name
  | keyword
  | number
  | string
  | operator
  | newline
  | indent
  | dedent
  | finish
  deriving DecidableEq, Repr

/-- A token. `depth` counts the brackets that are open after it; `lexeme` holds the glyphs. -/
structure Token where
  kind : TokenKind
  text : String
  lexeme : List Glyph
  start : Nat
  stop : Nat
  firstLine : Nat
  lastLine : Nat
  depth : Nat

namespace Token

/-- Whether the token stands for a line or block boundary and not for characters of the text. -/
def isLayout (t : Token) : Bool :=
  match t.kind with
  | .newline | .indent | .dedent | .finish => true
  | _ => false

end Token

/-- Why a text is not a sequence of tokens, or a sequence of tokens not a program. -/
inductive Cause where
  | invalidSyntax
  | invalidCharacter (c : Char)
  | invalidNumber
  | unterminatedString
  | malformedString
  | unmatchedBracket (c : Char)
  | unclosedBracket
  | tooManyBrackets
  | strayContinuation
  | unexpectedEnd
  | unexpectedIndent
  | missingBlock
  | inconsistentDedent
  | inconsistentTabs
  | tooManyIndents
  | invalidTarget
  | nullCharacter
  | nestingTooDeep
  deriving DecidableEq, Repr

def Cause.message : Cause → String
  | .invalidSyntax => "invalid syntax"
  | .invalidCharacter c => s!"invalid character {c}"
  | .invalidNumber => "invalid number"
  | .unterminatedString => "unterminated string"
  | .malformedString => "malformed string"
  | .unmatchedBracket c => s!"unmatched {c}"
  | .unclosedBracket => "bracket was never closed"
  | .tooManyBrackets => "too many nested parentheses"
  | .strayContinuation => "unexpected character after line continuation character"
  | .unexpectedEnd => "unexpected end of text"
  | .unexpectedIndent => "unexpected indent"
  | .missingBlock => "expected an indented block"
  | .inconsistentDedent => "unindent does not match any outer indentation level"
  | .inconsistentTabs => "inconsistent use of tabs and spaces in indentation"
  | .tooManyIndents => "too many levels of indentation"
  | .invalidTarget => "cannot assign here"
  | .nullCharacter => "text contains a null character"
  | .nestingTooDeep => "expression nesting too deep"

structure Fault where
  line : Nat
  cause : Cause
  deriving DecidableEq, Repr

/-- Where the token sequence breaks off. A `prevailing` fault is reported even when the tokens
before it are no program. `openBracket` is the line of the innermost bracket that is open there. -/
structure LexicalFault where
  fault : Fault
  prevailing : Bool
  openBracket : Option Nat

/-- The tokens of a text, up to the fault if there is one. -/
structure TokenStream where
  tokens : Array Token
  ending : Option LexicalFault

end BacktestAudit.Syntax
