import RiskOps.Lib.PyJson
import RiskOps.Lib.PyText
import RiskOps.Storage.AuditTimeline

/-!
# RiskOps.Pipeline.SshdConfig — settings as sshd reads them

Model of `tools/sshd_config.py`: **for each keyword the first value is used.** A file is read line
by line; a line is a keyword and a value, with blanks or one `=` between them. Lines behind a
`Match` are conditional. What an `Include` adds depends on the other files of the host: it is the parameter
`included`.

Keywords and the values they are compared with are ASCII, so letters beyond it are left as they are
when a text is lowered. Where a line stands is only reported, and left out.
-/

namespace RiskOps.Pipeline.Sshd

open RiskOps.Lib
open RiskOps.Lib.PyJson (isDigit)
open RiskOps.Storage (isBreak splitlines)

/-! ### Texts -/

/-- `str.isspace` of a code point. -/
def isBlankCode (c : Nat) : Bool := isSpace (Char.ofNat c)

/-- `s.strip()`. -/
def trim (s : Str) : Str := ((s.dropWhile isBlankCode).reverse.dropWhile isBlankCode).reverse

/-- `s.strip('"')`. -/
def unquote (s : Str) : Str := ((s.dropWhile (· = 34)).reverse.dropWhile (· = 34)).reverse

/-- `s.lower()`. -/
def lower (s : Str) : Str := s.map fun c => if 65 ≤ c && c ≤ 90 then c + 32 else c

/-- A text in universal newlines, as `read_text` gives it. -/
def universal : Str → Str
  | 13 :: 10 :: s => 10 :: universal s
  | c :: s => (if c = 13 then 10 else c) :: universal s
  | [] => []

/-! ### Lines -/

/-- `[A-Za-z]`. -/
def isLetter (c : Nat) : Bool := (65 ≤ c && c ≤ 90) || (97 ≤ c && c ≤ 122)

/-- `[A-Za-z0-9]`. -/
def isWordCode (c : Nat) : Bool := isLetter c || isDigit c

/-- A line with something on it that is no comment. -/
def relevant (text : Str) : Bool := text ≠ [] && text.head? ≠ some 35

/-- `_LINE.fullmatch` of a trimmed line: the word and the value, which is not empty. -/
def parseLine (text : Str) : Option (Str × Str) :=
  let word := text.takeWhile isWordCode
  let rest := text.dropWhile isWordCode
  let value := match rest.dropWhile isBlankCode with
    | 61 :: s => s.dropWhile isBlankCode
    | s => s
  if word.head?.any isLetter && rest.head?.any (fun c => isBlankCode c || c = 61) && value ≠ [] then
    some (word, value)
  else none

/-- `CANONICAL`, by keyword. -/
inductive Setting where
  | permitRootLogin
  | passwordAuthentication
  | kbdInteractiveAuthentication
  | pubkeyAuthentication
  deriving DecidableEq

/-- The label of a setting. -/
def Setting.label : Setting → Str
  | permitRootLogin => Str.ofString "PermitRootLogin"
  | passwordAuthentication => Str.ofString "PasswordAuthentication"
  | kbdInteractiveAuthentication => Str.ofString "KbdInteractiveAuthentication"
  | pubkeyAuthentication => Str.ofString "PubkeyAuthentication"

/-- The keyword of a setting. -/
def Setting.name (s : Setting) : Str := lower s.label

/-- `DEFAULTS`. -/
def Setting.default : Setting → Str
  | permitRootLogin => Str.ofString "prohibit-password"
  | passwordAuthentication => Str.ofString "yes"
  | kbdInteractiveAuthentication => Str.ofString "yes"
  | pubkeyAuthentication => Str.ofString "yes"

/-- `keyword(word)`. -/
def keyword (word : Str) : Str :=
  if lower word = Str.ofString "challengeresponseauthentication" then
    Setting.kbdInteractiveAuthentication.name
  else lower word

def matchWord : Str := Str.ofString "match"

def includeWord : Str := Str.ofString "include"

/-! ### Configurations -/

/-- `Directive`. -/
structure Directive where
  keyword : Str
  value : Str
  matched : Option Str

/-- `Config`. -/
structure Config where
  directives : List Directive
  problems : List Str

/-- What is read of one file behind another. -/
def Config.append (a b : Config) : Config :=
  ⟨a.directives ++ b.directives, a.problems ++ b.problems⟩

section Reader

variable (included : Option Str → Str → Config)

/-- The lines of `_read_file` behind a `Match`, if any. -/
def readLines : Option Str → List Str → Config
  | _, [] => ⟨[], []⟩
  | current, text :: rest =>
    match parseLine text with
    | none => Config.append ⟨[], [text]⟩ (readLines current rest)
    | some (word, value) =>
      if keyword word = matchWord then readLines (some (Str.ofString "Match " ++ value)) rest
      else if keyword word = includeWord then
        Config.append (included current value) (readLines current rest)
      else Config.append ⟨[⟨keyword word, unquote value, current⟩], []⟩ (readLines current rest)

/-- The lines that count of a file. -/
def texts (file : Str) : List Str := ((splitlines (universal file)).map trim).filter relevant

/-- `read` of a file. -/
def read (file : Str) : Config := readLines included none (texts file)

end Reader

/-- `config.effective(name)`. -/
def Config.effective (config : Config) (s : Setting) : Str :=
  match config.directives.find? fun d => d.keyword = s.name && d.matched.isNone with
  | some d => lower d.value
  | none => s.default

/-- `config.conditional(name)`. -/
def Config.conditional (config : Config) (s : Setting) : List Directive :=
  config.directives.filter fun d => d.keyword = s.name && d.matched.isSome

end RiskOps.Pipeline.Sshd
