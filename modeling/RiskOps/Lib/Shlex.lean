import RiskOps.Lib.PyJson

/-!
# RiskOps.Lib.Shlex — Python's `shlex.split`

The lexer in POSIX mode, split at blanks and without comments. A word is entered by a character or a
quote, so it is empty only when it was quoted. Text that ends inside quotes or behind a backslash
raises `ValueError`.
-/

namespace RiskOps.Lib.Shlex

/-- The state of the lexer. -/
inductive Mode
  | blank
  | word
  | single
  | double
  /-- Behind a backslash, in double quotes or not. -/
  | escape (quoted : Bool)
  deriving Repr, DecidableEq

/-- `whitespace`. -/
def isBlank (c : Nat) : Bool := c = 32 || c = 9 || c = 13 || c = 10

/-- The tokens behind `token` of a text, the next character of which is read in a state. -/
def tokens : Mode → Str → Str → Option (List Str)
  | .blank, _, [] => some []
  | .word, token, [] => some [token]
  | _, _, [] => none
  | .blank, _, c :: rest =>
    if isBlank c then tokens .blank [] rest
    else if c = 92 then tokens (.escape false) [] rest
    else if c = 39 then tokens .single [] rest
    else if c = 34 then tokens .double [] rest
    else tokens .word [c] rest
  | .word, token, c :: rest =>
    if isBlank c then (tokens .blank [] rest).map (token :: ·)
    else if c = 39 then tokens .single token rest
    else if c = 34 then tokens .double token rest
    else if c = 92 then tokens (.escape false) token rest
    else tokens .word (token ++ [c]) rest
  | .single, token, c :: rest =>
    if c = 39 then tokens .word token rest else tokens .single (token ++ [c]) rest
  | .double, token, c :: rest =>
    if c = 34 then tokens .word token rest
    else if c = 92 then tokens (.escape true) token rest
    else tokens .double (token ++ [c]) rest
  -- In double quotes a backslash escapes itself and the quote only.
  | .escape true, token, c :: rest =>
    if c = 92 || c = 34 then tokens .double (token ++ [c]) rest
    else tokens .double (token ++ [92, c]) rest
  | .escape false, token, c :: rest => tokens .word (token ++ [c]) rest

/-- `shlex.split(line)`. -/
def split (line : Str) : Option (List Str) := tokens .blank [] line

end RiskOps.Lib.Shlex
