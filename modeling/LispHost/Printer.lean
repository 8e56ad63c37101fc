import LispHost.Arena
import LispHost.Boxed
import LispHost.Symbols

/-!
# The Printer

A value is printed by walking its word: fixnums in decimal, symbols by name, strings in
quotes, fractions as `N/D`, game handles without their token, and lists with their
elements. A word that a table does not know is printed raw. The walk is over arena words,
so that it is bounded by fuel, and a raw accessor can end the process.

## Main definitions

* `writeValue`, `writeTail`: the two parts of the walk.
* `valueToString`: the text of a word.
-/

namespace LispHost

open Effects

variable (P : Platform)

/-- `{:#x}`. -/
def hexText (word : Word) : String := "0x" ++ String.ofList (Nat.toDigits 16 word.toNat)

/-- The decimal text of an `i64`. -/
def decimalText (value : Word) : String := toString value.toInt

/-- The text of a word that is neither a pair nor `()`. -/
def atomText (symbols : SymbolTable) (boxed : BoxedTable) (word : Word) : String :=
  if tagOf word = tagFixnum then
    decimalText (decodeFixnum word)
  else if tagOf word = tagSymbol then
    match symbols.nameOf word with
    | some name => name
    | none => "#<unknown-symbol:" ++ hexText word ++ ">"
  else if tagOf word = tagBoxed then
    match boxed.entry P word with
    | some ⟨.str text, _⟩ => "\"" ++ text ++ "\""
    | some ⟨.gameHandle _, _⟩ => "#<game-handle>"
    | some ⟨.rational numerator denominator, _⟩ =>
        decimalText numerator ++ "/" ++ decimalText denominator
    | none => "#<unknown-boxed:" ++ hexText word ++ ">"
  else
    "#<unprintable-tag:" ++ toString (tagOf word).toNat ++ ">"

/-- The outcome of a walk over arena words. -/
abbrev Walk : Type := Outcome Exit Empty String

/-- Continue a walk with the word an accessor loads. -/
def Walk.load (word : Except Exit Word) (next : Word → Walk) : Walk :=
  match word with
  | .ok word => next word
  | .error exit => .abort exit

/-- Continue a walk with the text of its first part. -/
def Walk.andThen (walk : Walk) (next : String → Walk) : Walk :=
  match walk with
  | .ok text => next text
  | other => other

mutual

/-- `write_value`. -/
def writeValue (arena : Arena) (symbols : SymbolTable) (boxed : BoxedTable) :
    Nat → Word → Walk
  | 0, _ => .timeout
  | fuel + 1, word =>
      if tagOf word = tagNil then
        .ok "()"
      else if tagOf word = tagCons then
        (writeTail arena symbols boxed fuel word true).andThen fun text =>
          .ok ("(" ++ text ++ ")")
      else
        .ok (atomText P symbols boxed word)

/-- The loop of `write_list` from the pair `current` on; `first` says that no element has
been written yet. -/
def writeTail (arena : Arena) (symbols : SymbolTable) (boxed : BoxedTable) :
    Nat → Word → Bool → Walk
  | 0, _, _ => .timeout
  | fuel + 1, current, first =>
      if tagOf current = tagNil then
        .ok ""
      else if tagOf current = tagCons then
        Walk.load (wsmCar P arena current) fun head =>
          (writeValue arena symbols boxed fuel head).andThen fun headText =>
            Walk.load (wsmCdr P arena current) fun rest =>
              (writeTail arena symbols boxed fuel rest false).andThen fun restText =>
                .ok ((if first then "" else " ") ++ headText ++ restText)
      else
        (writeValue arena symbols boxed fuel current).andThen fun text =>
          .ok ((if first then "" else " ") ++ ". " ++ text)

end

/-- The fuel that printing a value of one arena cannot use up. -/
def printFuel : Nat := 4 * arenaCells + 8

/-- `value_to_string`. -/
def valueToString (arena : Arena) (symbols : SymbolTable) (boxed : BoxedTable)
    (word : Word) : Walk :=
  writeValue P arena symbols boxed printFuel word

end LispHost
