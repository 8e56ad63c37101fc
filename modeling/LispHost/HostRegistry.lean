import LispHost.Lib.Scan
import LispHost.Lib.TextList
import Mathlib.Data.Fintype.Basic

/-!
# The Host Registries

Two scripts of the adapter project a registry file to a C++ header. `GenerateHostOperations.cmake`
reads the `(cp:NNNN …)` entries of `host-operations/2`, `GenerateHostBindings.cmake` the
`(cpb:NNNN …)` entries of the host bindings. Both scan the whole text twice: once for what begins
like an ID, and once for what matches the pattern of a whole entry. Only what the second scan
matched is read field by field, checked and emitted, and it passes through a list in one text.

## Main definitions

* `Registry.Format`: what a script knows of its registry.
* `Registry.Format.matchEntry`, `Registry.Format.readEntry`: the pattern of an entry, and the
  fields of what it matched.
* `Registry.Format.project`: the script, up to the text of the header.
* `Registry.hostOperations`, `Registry.hostBindings`: the two registries.
* `Registry.generateHostOperations`, `Registry.generateHostBindings`: the files they write.
-/

namespace LispHost

open Effects

namespace Registry

/-- What is read of an entry; `N` has the names of the fields. -/
@[ext] structure Entry (N : Type) where
  id : List Char
  value : N → List Char

/-- `[0-9][0-9][0-9][0-9]`. -/
def IsId (id : List Char) : Prop := id.length = 4 ∧ id.all (·.isDigit) = true

instance (id : List Char) : Decidable (IsId id) := inferInstanceAs (Decidable (_ ∧ _))

/-- What a pattern looks for: an open parenthesis and a name. -/
def IsOpening (s : List Char) : Prop :=
  s.head? = some '(' ∧ s.tail.all (fun c => c ∉ ['(', ';', '[', ']', '\\']) = true

instance (s : List Char) : Decidable (IsOpening s) := inferInstanceAs (Decidable (_ ∧ _))

/-- What a script knows of its registry. No two patterns match at one place. -/
structure Format (N : Type) where
  /-- What the messages call the registry. -/
  noun : List Char
  schema : Option (List Char)
  /-- In front of the digits of an ID. -/
  tag : List Char
  /-- The fields in the order of the pattern of an entry. -/
  fields : List N
  opening : N → List Char
  inValue : N → Char → Bool
  surface : N
  /-- The message about an entry that is not admitted. -/
  check : Entry N → Option (List Char)
  isOpening_tag : IsOpening tag
  isOpening_opening : ∀ n, IsOpening (opening n)
  opening_injective : ∀ n m, opening n <+: opening m → n = m
  tag_apart : ∀ n, ¬ tag <+: opening n ∧ ¬ opening n <+: tag
  mem_fields : ∀ n, n ∈ fields
  nodup_fields : fields.Nodup
  inValue_close : ∀ n, inValue n ')' = false

namespace Format

variable {N : Type} (F : Format N)

/-! ### The patterns -/

/-- The tag and the four digits; with them comes the rest of the text. -/
def matchId (text : List Char) : Option (List Char × List Char) :=
  (text.dropPrefix? F.tag).bind fun rest =>
    if IsId (rest.take 4) then some (rest.take 4, rest.drop 4) else none

/-- `\(name ([^)]+)\)`: no character of a value is a closing parenthesis. -/
def matchValue (n : N) (text : List Char) : Option (List Char × List Char) :=
  (text.dropPrefix? (F.opening n)).bind fun rest =>
    if rest.takeWhile (F.inValue n) = [] then none
    else ((rest.dropWhile (F.inValue n)).dropPrefix? [')']).map fun behind =>
      (rest.takeWhile (F.inValue n), behind)

/-- The fields of an entry one behind the other, with a space in front of each. -/
def matchFields : List N → List Char → Option (List Char)
  | [], text => some text
  | n :: ns, text =>
      (text.dropPrefix? [' ']).bind fun rest =>
        (F.matchValue n rest).bind fun found => matchFields ns found.2

/-- The pattern of an entry; the result is the length of the match. -/
def matchEntry (text : List Char) : Option Nat :=
  (F.matchId text).bind fun found =>
    (F.matchFields F.fields found.2).bind fun rest =>
      (rest.dropPrefix? [')']).map fun behind => text.length - behind.length

/-- `[^ \\r\\n)]` of the scripts: between the brackets of a CMake pattern a backslash stands for
itself, and so do the two letters. -/
def idChar (c : Char) : Bool := c != ' ' && c != '\\' && c != 'r' && c != 'n' && c != ')'

/-- What begins like an ID; the result is the length of the match. -/
def matchDeclared (text : List Char) : Option Nat :=
  (text.dropPrefix? F.tag).map fun rest => F.tag.length + (rest.takeWhile idChar).length

/-- `^\(cp:[0-9][0-9][0-9][0-9]$`. -/
def IsDeclaredId (declared : List Char) : Prop := ∃ id, IsId id ∧ declared = F.tag ++ id

instance (declared : List Char) : Decidable (F.IsDeclaredId declared) :=
  decidable_of_iff (IsId (declared.drop F.tag.length) ∧ F.tag <+: declared) <| by
    constructor
    · rintro ⟨hid, id, rfl⟩
      exact ⟨id, by simpa using hid, rfl⟩
    · rintro ⟨id, hid, rfl⟩
      exact ⟨by simpa using hid, List.prefix_append _ _⟩

/-! ### The script -/

/-- The elements that `foreach(… IN LISTS …)` visits. -/
def elements (found : List (List Char)) : List (List Char) :=
  if joinItems found = [] then [] else expandList (joinItems found)

/-- The IDs of the first scan. -/
def declaredIds (text : List Char) : List (List Char) :=
  elements (allMatches F.matchDeclared text)

/-- The texts of the second scan. -/
def entries (text : List Char) : List (List Char) := elements (allMatches F.matchEntry text)

/-- `string(REGEX REPLACE ".*\\(name ([^)]+)\\).*" "\\1" …)` for each field: the value at the
last place of the field, and the whole text where there is none. -/
def readEntry (piece : List Char) : Entry N where
  id := lastFound (fun s => (F.matchId s).map Prod.fst) piece
  value n := lastFound (fun s => (F.matchValue n s).map Prod.fst) piece

/-- The ID or the surface of an entry is in one of the lists. An empty element counts, which is
what `list(FIND)` does under the `NEW` behaviour of policy CMP0007; the `OLD` one ignores it. -/
def Repeats (ids surfaces : List Char) (entry : Entry N) : Prop :=
  hasItem ids entry.id = true ∨ hasItem surfaces (entry.value F.surface) = true

instance (ids surfaces : List Char) (entry : Entry N) : Decidable (F.Repeats ids surfaces entry) :=
  inferInstanceAs (Decidable (_ ∨ _))

/-- The loop over the entries, with its lists `ids` and `surfaces`. -/
def projectEntries (ids surfaces : List Char) :
    List (List Char) → Except (List Char) (List (Entry N))
  | [] => .ok []
  | piece :: pieces =>
      match F.check (F.readEntry piece) with
      | some reason => .error (reason ++ ": ".toList ++ piece)
      | none =>
          if F.Repeats ids surfaces (F.readEntry piece) then
            .error (F.noun ++ " has duplicate ID or surface: ".toList ++ piece)
          else
            (projectEntries (appendItem ids (F.readEntry piece).id)
              (appendItem surfaces ((F.readEntry piece).value F.surface)) pieces).map
                (F.readEntry piece :: ·)

/-- The list of the schema begins somewhere in the text, if the script asks for one. -/
def DeclaresSchema (text : List Char) : Prop := ∀ name ∈ F.schema, '(' :: name <:+: text

instance (text : List Char) : Decidable (F.DeclaresSchema text) :=
  inferInstanceAs (Decidable (∀ _ ∈ _, _))

/-- The script on the text of the file `input`: the entries that it emits, or the message with
which it aborts. -/
def project (input text : List Char) : Except (List Char) (List (Entry N)) :=
  if ¬ F.DeclaresSchema text then
    .error (F.noun ++ " must declare ".toList ++ F.schema.getD [] ++ ": ".toList ++ input)
  else
    match (F.declaredIds text).find? (fun declared => ¬ F.IsDeclaredId declared) with
    | some declared => .error (F.noun ++ " has unknown ID format: ".toList ++ declared)
    | none =>
        if allMatches F.matchEntry text = [] then
          .error (F.noun ++ " has no valid entries: ".toList ++ input)
        else F.projectEntries [] [] (F.entries text)

end Format

/-- A text between the quotes of a C++ literal. -/
def quoted (s : List Char) : List Char := '"' :: s ++ ['"']

/-- Texts with a separator between them. -/
def separated (separator : String) (texts : List (List Char)) : List Char :=
  separator.toList.intercalate texts

/-! ### The host operations -/

/-- The fields of an operation. -/
inductive OperationField
  | semanticId | surface | arity | effect | input | result | owner | ffi | status | evidence
deriving DecidableEq

namespace OperationField

instance : Fintype OperationField where
  elems := {semanticId, surface, arity, effect, input, result, owner, ffi, status, evidence}
  complete n := by cases n <;> decide

/-- What the pattern of a field begins with. -/
def opening : OperationField → List Char
  | semanticId => "(semantic-id ".toList
  | surface => "(surface uk ".toList
  | arity => "(arity ".toList
  | effect => "(effect ".toList
  | input => "(input ".toList
  | result => "(result ".toList
  | owner => "(owner ".toList
  | ffi => "(ffi ".toList
  | status => "(status ".toList
  | evidence => "(evidence ".toList

/-- `[0-9]` for the arity, `[^)]` for the others. -/
def inValue : OperationField → Char → Bool
  | arity, c => c.isDigit
  | _, c => c != ')'

end OperationField

/-- The effects of an operation. -/
def effects : List (List Char) :=
  ["inspect".toList, "read".toList, "invoke-readonly".toList, "mutate".toList]

/-- The owners of an operation. -/
def owners : List (List Char) := ["my-lisp".toList, "cyberpunk-host".toList, "REDengine".toList]

/-- The kinds of values that both an input and a result can have. -/
def valueKinds : List (List Char) :=
  ["truth".toList, "fixnum".toList, "symbol".toList, "string".toList, "rational".toList,
    "game-handle".toList]

/-- The checks of an operation, in the order of the script. -/
def checkOperation (entry : Entry OperationField) : Option (List Char) :=
  if ¬ (entry.value .semanticId = "none".toList ∨ IsId (entry.value .semanticId)) then
    some "host operation registry has invalid semantic-id".toList
  else if entry.value .effect ∉ effects then
    some "host operation registry has invalid effect".toList
  else if entry.value .owner ∉ owners then
    some "host operation registry has invalid owner".toList
  else if entry.value .input ∉ "none".toList :: valueKinds then
    some "host operation registry has invalid input kind".toList
  else if entry.value .result ∉ "nil".toList :: valueKinds then
    some "host operation registry has invalid result kind".toList
  else if entry.value .arity = "0".toList then
    if entry.value .input ≠ "none".toList then
      some ("host operation registry arity/input mismatch: ".toList ++
        "nullary operation declares input '".toList ++ entry.value .input ++ "'".toList)
    else none
  else if entry.value .arity = "1".toList then
    if entry.value .input = "none".toList then
      some "host operation registry arity/input mismatch: unary operation declares no input".toList
    else none
  else some "host operation registry has unsupported arity for scalar input metadata".toList

/-- The registry of `GenerateHostOperations.cmake`. -/
def hostOperations : Format OperationField where
  noun := "host operation registry".toList
  schema := some "host-operations/2".toList
  tag := "(cp:".toList
  fields :=
    [.semanticId, .surface, .arity, .effect, .input, .result, .owner, .ffi, .status, .evidence]
  opening := OperationField.opening
  inValue := OperationField.inValue
  surface := .surface
  check := checkOperation
  isOpening_tag := by decide
  isOpening_opening := by decide
  opening_injective := by decide
  tag_apart := by decide
  mem_fields := by decide
  nodup_fields := by decide
  inValue_close := by decide

/-- The beginning of the header. -/
def operationsPrologue : List Char :=
  "// Generated from adapter/host-operations.wsm. DO NOT EDIT.\n#pragma once\n\n".toList ++
    "namespace host_operations \x7b\nstruct Operation \x7b const char* id; ".toList ++
    "const char* semanticId; const char* surface; unsigned arity; const char* effect; ".toList ++
    "const char* input; const char* result; const char* owner; const char* ffi; ".toList ++
    "const char* status; const char* evidence; \x7d;\n".toList

/-- The line of an operation in the header. -/
def operationLine (entry : Entry OperationField) : List Char :=
  "inline constexpr Operation OP_CP_".toList ++ entry.id ++ "\x7b".toList ++
    separated ", "
      [quoted ("cp:".toList ++ entry.id), quoted (entry.value .semanticId),
        quoted (entry.value .surface), entry.value .arity, quoted (entry.value .effect),
        quoted (entry.value .input), quoted (entry.value .result), quoted (entry.value .owner),
        quoted (entry.value .ffi), quoted (entry.value .status),
        quoted (entry.value .evidence)] ++ "\x7d;\n".toList

/-- The beginning of the table. -/
def markdownPrologue : List Char :=
  "# Generated Cyberpunk host operations\n\n| ID | Surface | Arity | Effect | Input | ".toList ++
    "Result | Owner | FFI | Status | Evidence |\n| --- | --- | ---: | --- | --- | --- | ".toList ++
    "--- | --- | --- | --- |\n".toList

/-- The row of an operation. -/
def markdownLine (entry : Entry OperationField) : List Char :=
  "| ".toList ++
    separated " | "
      ["cp:".toList ++ entry.id, entry.value .surface, entry.value .arity, entry.value .effect,
        entry.value .input, entry.value .result, entry.value .owner, entry.value .ffi,
        entry.value .status, entry.value .evidence] ++ " |\n".toList

/-- The header and, if `MARKDOWN_OUTPUT` is defined, the table. What an aborted run has written
is not used: the build stops with it. -/
def generateHostOperations (input text : List Char) (markdown : Bool) :
    Except (List Char) (List Char × Option (List Char)) :=
  (hostOperations.project input text).map fun entries =>
    (operationsPrologue ++ entries.flatMap operationLine ++
        "\x7d // namespace host_operations\n".toList,
      if markdown then some (markdownPrologue ++ entries.flatMap markdownLine) else none)

/-! ### The host bindings -/

/-- The fields of a binding. -/
inductive BindingField
  | surface | kind | owner
deriving DecidableEq

namespace BindingField

instance : Fintype BindingField where
  elems := {surface, kind, owner}
  complete n := by cases n <;> decide

/-- What the pattern of a field begins with; the surfaces that count are the Ukrainian ones. -/
def opening : BindingField → List Char
  | surface => "(surface uk ".toList
  | kind => "(kind ".toList
  | owner => "(owner ".toList

end BindingField

/-- The script for the bindings checks no value. -/
def hostBindings : Format BindingField where
  noun := "host binding registry".toList
  schema := none
  tag := "(cpb:".toList
  fields := [.surface, .kind, .owner]
  opening := BindingField.opening
  inValue _ c := c != ')'
  surface := .surface
  check _ := none
  isOpening_tag := by decide
  isOpening_opening := by decide
  opening_injective := by decide
  tag_apart := by decide
  mem_fields := by decide
  nodup_fields := by decide
  inValue_close := by decide

/-- The beginning of the header. -/
def bindingsPrologue : List Char :=
  "// Generated from adapter/host-bindings.lisp. DO NOT EDIT.\n#pragma once\n\n".toList ++
    "namespace host_bindings \x7b\nstruct Binding \x7b const char* id; ".toList ++
    "const char* surface; const char* kind; const char* owner; \x7d;\n".toList

/-- The line of a binding in the header. -/
def bindingLine (entry : Entry BindingField) : List Char :=
  "inline constexpr Binding CPB_".toList ++ entry.id ++ "\x7b".toList ++
    separated ", "
      [quoted ("cpb:".toList ++ entry.id), quoted (entry.value .surface),
        quoted (entry.value .kind), quoted (entry.value .owner)] ++ "\x7d;\n".toList

/-- The header of the bindings. This script writes no table. -/
def generateHostBindings (input text : List Char) : Except (List Char) (List Char) :=
  (hostBindings.project input text).map fun entries =>
    bindingsPrologue ++ entries.flatMap bindingLine ++ "\x7d // namespace host_bindings\n".toList

end Registry

end LispHost
