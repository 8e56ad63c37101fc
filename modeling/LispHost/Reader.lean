import LispHost.Arena
import LispHost.Boxed
import LispHost.Symbols

/-!
# The Reader

One form of source text is read into words: the text is cut into tokens, a preflight
counts the cells the first form would need, and a recursive descent over the tokens
builds the pairs back to front while it interns symbols and stores string literals. The
functions follow the source one by one; `fuel` bounds the mutual recursion of
`parseForm` and `parseList`.

## Main definitions

* `Token`, `tokenize`: the tokenizer, with its string and atom loops.
* `requiredConsCells`: the preflight.
* `parseForm`, `parseList`, `readOne`: the parser and the reader's entry point.
-/

namespace LispHost

open Effects

/-- Why a text is not read. -/
inductive ReadError where
  | unexpectedEof
  | unexpectedCloseParen
  | unterminatedString
  | trailingInput (rest : String)
  | arenaCapacityExceeded (required capacity : Nat)
deriving DecidableEq, Repr

/-- The tokens of a text. An atom has its characters, and a literal its value. -/
inductive Token where
  | open
  | close
  | atom (text : String)
  | str (text : String)
deriving DecidableEq, Repr

/-! ### The tokenizer -/

/-- The Unicode property `White_Space`. -/
def isWhitespace (c : Char) : Bool :=
  (0x09 ≤ c.toNat && c.toNat ≤ 0x0D) || c.toNat == 0x20 || c.toNat == 0x85 ||
    c.toNat == 0xA0 || c.toNat == 0x1680 || (0x2000 ≤ c.toNat && c.toNat ≤ 0x200A) ||
    c.toNat == 0x2028 || c.toNat == 0x2029 || c.toNat == 0x202F || c.toNat == 0x205F ||
    c.toNat == 0x3000

/-- The characters at which an atom ends. -/
def endsAtom (c : Char) : Bool := isWhitespace c || c == '(' || c == ')' || c == '"'

/-- The inner loop over a string literal, from behind its opening quote: the literal's
value and the text behind its closing quote, or `none` if there is no closing quote. Only
an escaped quote and an escaped backslash are unescaped. -/
def takeString : List Char → Option (List Char × List Char)
  | [] => none
  | '"' :: rest => some ([], rest)
  | ['\\'] => none
  | '\\' :: '"' :: rest => (takeString rest).map fun r => ('"' :: r.1, r.2)
  | '\\' :: '\\' :: rest => (takeString rest).map fun r => ('\\' :: r.1, r.2)
  | '\\' :: other :: rest => (takeString rest).map fun r => ('\\' :: other :: r.1, r.2)
  | other :: rest => (takeString rest).map fun r => (other :: r.1, r.2)

/-- The outer loop of the tokenizer. Every turn takes at least one character, so that the
length of the text is enough fuel. -/
def tokenizeLoop : Nat → List Char → Except ReadError (List Token)
  | 0, _ => .ok []
  | _ + 1, [] => .ok []
  | fuel + 1, c :: rest =>
      if isWhitespace c then
        tokenizeLoop fuel rest
      else if c = '(' then
        (tokenizeLoop fuel rest).map (.open :: ·)
      else if c = ')' then
        (tokenizeLoop fuel rest).map (.close :: ·)
      else if c = '"' then
        match takeString rest with
        | none => .error .unterminatedString
        | some (value, rest) =>
            (tokenizeLoop fuel rest).map (.str (String.ofList value) :: ·)
      else
        let atom := (c :: rest).takeWhile fun c => !endsAtom c
        let rest := (c :: rest).dropWhile fun c => !endsAtom c
        (tokenizeLoop fuel rest).map (.atom (String.ofList atom) :: ·)

/-- The tokens of a whole text. -/
def tokenize (source : String) : Except ReadError (List Token) :=
  tokenizeLoop source.toList.length source.toList

/-! ### Atoms -/

/-- The number that a non-empty list of decimal digits denotes. -/
def digitsValue (digits : List Char) : Option Nat :=
  if digits ≠ [] ∧ digits.all (·.isDigit) then
    some (digits.foldl (fun n c => 10 * n + (c.toNat - '0'.toNat)) 0)
  else none

/-- `str::parse::<i64>`: an optional sign, decimal digits, and a value in range. -/
def parseI64 (text : String) : Option Word :=
  match text.toList with
  | '-' :: digits =>
      (digitsValue digits).bind fun n =>
        if n ≤ 2 ^ 63 then some (BitVec.ofInt 64 (-n)) else none
  | '+' :: digits =>
      (digitsValue digits).bind fun n =>
        if n < 2 ^ 63 then some (BitVec.ofNat 64 n) else none
  | digits =>
      (digitsValue digits).bind fun n =>
        if n < 2 ^ 63 then some (BitVec.ofNat 64 n) else none

/-! ### The preflight -/

/-- The loop of the preflight, with the index of the token, the nesting depth and the
count so far. -/
def requiredLoop : List Token → Nat → Nat → Nat → Option Nat
  | [], _, _, _ => none
  | .open :: tokens, index, depth, required =>
      requiredLoop tokens (index + 1) (depth + 1)
        (if index ≠ 0 then required + 1 else required)
  | .close :: tokens, index, depth, required =>
      match depth with
      | 0 => none
      | depth + 1 =>
          if depth = 0 then some required else requiredLoop tokens (index + 1) depth required
  | .atom _ :: tokens, index, depth, required =>
      requiredLoop tokens (index + 1) depth (required + 1)
  | .str _ :: tokens, index, depth, required =>
      requiredLoop tokens (index + 1) depth (required + 1)

/-- The number of cells of the first form, when the tokens complete one. -/
def requiredConsCells (tokens : List Token) : Option Nat :=
  match tokens with
  | .open :: _ => requiredLoop tokens 0 0 0
  | _ => some 0

/-! ### The parser -/

/-- What the reader can change: the arena and the two tables of the session. -/
structure ReaderState where
  arena : Arena
  symbols : SymbolTable
  boxed : BoxedTable

/-- The reader's state in a new session with an empty arena. -/
def ReaderState.new : ReaderState where
  arena := { next := 0, memory := fun _ => 0, next_le := Nat.zero_le _ }
  symbols := .new
  boxed := .new

variable (P : Platform)

/-- `wsm_cons` on the reader's arena. When the arena is full the nucleus ends the
process. -/
def wsmCons (car cdr : Word) : Program Exit ReaderState ReadError Word := fun s =>
  match s.arena.cons P car cdr with
  | some (word, arena) => (.ok word, { s with arena := arena })
  | none => (.abort (.wsmFail .outOfMemory), s)

/-- The word of a symbol, in the table of the session. -/
def internSymbol (name : String) : Program Exit ReaderState ReadError Word := fun s =>
  match s.symbols.intern name with
  | some (word, symbols) => (.ok word, { s with symbols := symbols })
  | none => (.abort .allocation, s)

/-- The word of a literal, under a new handle. -/
def addStringLiteral (text : String) : Program Exit ReaderState ReadError Word :=
  (BoxedTable.addString P text).zoom ReaderState.boxed fun s boxed => { s with boxed := boxed }

/-- The word of an atom: that of a number, or that of a symbol. -/
def atomToWord (atom : String) : Program Exit ReaderState ReadError Word :=
  if atom = "()" then
    pure wordNil
  else
    match parseI64 atom with
    | some value => pure (encodeFixnum value)
    | none => internSymbol atom

mutual

/-- Parse the form at `pos`; the result is its word and the position behind it. -/
def parseForm (tokens : List Token) :
    Nat → Nat → Program Exit ReaderState ReadError (Word × Nat)
  | 0, _ => Program.timeout
  | fuel + 1, pos =>
      match tokens[pos]? with
      | none => Program.throw .unexpectedEof
      | some .close => Program.throw .unexpectedCloseParen
      | some (.atom a) => do
          let word ← atomToWord a
          pure (word, pos + 1)
      | some (.str s) => do
          let word ← addStringLiteral P s
          pure (word, pos + 1)
      | some .open => parseList tokens fuel (pos + 1)

/-- Parse the elements of a list from `pos` to its closing parenthesis. The pairs are
allocated when the elements behind them have been. -/
def parseList (tokens : List Token) :
    Nat → Nat → Program Exit ReaderState ReadError (Word × Nat)
  | 0, _ => Program.timeout
  | fuel + 1, pos =>
      match tokens[pos]? with
      | none => Program.throw .unexpectedEof
      | some .close => pure (wordNil, pos + 1)
      | some _ => do
          let head ← parseForm tokens fuel pos
          let tail ← parseList tokens fuel head.2
          let word ← wsmCons P head.1 tail.1
          pure (word, tail.2)

end

section Equations

variable {tokens : List Token} {pos : Nat} (fuel : Nat)

/-- A form does not begin behind the last token. -/
theorem parseForm_eof (h : tokens[pos]? = none) :
    parseForm P tokens (fuel + 1) pos = Program.throw .unexpectedEof := by
  rw [parseForm, h]

/-- Nor with a closing parenthesis. -/
theorem parseForm_close (h : tokens[pos]? = some .close) :
    parseForm P tokens (fuel + 1) pos = Program.throw .unexpectedCloseParen := by
  rw [parseForm, h]

/-- An atom is a form. -/
theorem parseForm_atom {text : String} (h : tokens[pos]? = some (.atom text)) :
    parseForm P tokens (fuel + 1) pos =
      (atomToWord text >>= fun word => pure (word, pos + 1)) := by
  rw [parseForm, h]

/-- So is a literal. -/
theorem parseForm_str {text : String} (h : tokens[pos]? = some (.str text)) :
    parseForm P tokens (fuel + 1) pos =
      (addStringLiteral P text >>= fun word => pure (word, pos + 1)) := by
  rw [parseForm, h]

/-- An opening parenthesis begins a list. -/
theorem parseForm_open (h : tokens[pos]? = some .open) :
    parseForm P tokens (fuel + 1) pos = parseList P tokens fuel (pos + 1) := by
  rw [parseForm, h]

/-- A list does not end behind the last token. -/
theorem parseList_eof (h : tokens[pos]? = none) :
    parseList P tokens (fuel + 1) pos = Program.throw .unexpectedEof := by
  rw [parseList, h]

/-- A closing parenthesis ends it. -/
theorem parseList_close (h : tokens[pos]? = some .close) :
    parseList P tokens (fuel + 1) pos = pure (wordNil, pos + 1) := by
  rw [parseList, h]

/-- Before that, an item is read, then the others, and then a pair is made of both. -/
theorem parseList_item {token : Token} (h : tokens[pos]? = some token)
    (hclose : token ≠ .close) :
    parseList P tokens (fuel + 1) pos =
      (parseForm P tokens fuel pos >>= fun head =>
        parseList P tokens fuel head.2 >>= fun tail =>
          wsmCons P head.1 tail.1 >>= fun word => pure (word, tail.2)) := by
  rw [parseList, h]
  cases token with
  | close => exact absurd rfl hclose
  | «open» | atom | str => rfl

end Equations

/-- The fuel that parsing a token list cannot use up. -/
def parseFuel (tokens : List Token) : Nat := 2 * tokens.length + 2

/-- `wsm_arena_capacity`. -/
def wsmArenaCapacity : Nat := arenaCells

/-- One character of a debug-formatted string. -/
def debugChar (c : Char) : String :=
  if c = '"' then "\\\""
  else if c = '\\' then "\\\\"
  else if c = '\n' then "\\n"
  else if c = '\r' then "\\r"
  else if c = '\t' then "\\t"
  else if c.toNat = 0 then "\\0"
  else if P.debugEscapes c then
    "\\u\x7b" ++ String.ofList (Nat.toDigits 16 c.toNat) ++ "\x7d"
  else String.singleton c

/-- The `Debug` rendering of a string. -/
def debugString (text : String) : String :=
  "\"" ++ String.join (text.toList.map (debugChar P)) ++ "\""

/-- How a token that follows the first form is echoed. -/
def Token.echo : Token → String
  | .open => "("
  | .close => ")"
  | .atom text => text
  | .str text => debugString P text

/-- Parse the tokens as one form with nothing behind it. -/
def readTokens (tokens : List Token) : Program Exit ReaderState ReadError Word :=
  match requiredConsCells tokens with
  | some required =>
      if required > wsmArenaCapacity then
        Program.throw (.arenaCapacityExceeded required wsmArenaCapacity)
      else parseTokens
  | none => parseTokens
where
  /-- The part behind the preflight. -/
  parseTokens : Program Exit ReaderState ReadError Word := do
    let form ← parseForm P tokens (parseFuel tokens) 0
    if form.2 ≠ tokens.length then
      Program.throw
        (.trailingInput (" ".intercalate ((tokens.drop form.2).map (Token.echo P))))
    else
      pure form.1

/-- Read exactly one form from the text. -/
def readOne (source : String) : Program Exit ReaderState ReadError Word :=
  match tokenize source with
  | .error e => Program.throw e
  | .ok tokens => readTokens P tokens

end LispHost
