import Mathlib.Algebra.Order.Field.Rat
import Mathlib.Tactic.NormNum

/-!
# Cross-Checking Two Observations

`crosscheck.lisp` compares what two channels observed of one fact: a record from the memory of
the game and one from the screen. The functions follow the Lisp text one by one, over the data
of the canonical Lisp; an error of the evaluation is `none`. Numbers are exact rationals.

## Main definitions

* `Datum`, and the primitives that the text uses.
* `classifyCrosscheck`: the classification.
* `Observation`: a record with fields in any order.
* `Classifies`: what a classification is for.

## Main results

* `classifyCrosscheck_eq`: the classification of two records, from their validity and values.
* `classifies_iff`: where it does what it is for.
-/

namespace LispHost

namespace Crosscheck

/-- Lisp data, as far as records hold them. -/
inductive Datum where
  | nil
  | symbol (name : String)
  | number (value : ℚ)
  | string (text : String)
  | cons (car cdr : Datum)
deriving DecidableEq

namespace Datum

/-- The first part of a pair. -/
def car : Datum → Option Datum
  | cons a _ => some a
  | _ => none

/-- The second part of a pair. -/
def cdr : Datum → Option Datum
  | cons _ d => some d
  | _ => none

/-- `eq`. Pairs are not compared here: one side is always a symbol. -/
def eq (a b : Datum) : Bool :=
  match b with
  | cons _ _ => false
  | _ => a = b

/-- `<`. -/
def lt : Datum → Datum → Option Bool
  | number a, number b => some (a < b)
  | _, _ => none

/-- `-`. -/
def sub : Datum → Datum → Option Datum
  | number a, number b => some (number (a - b))
  | _, _ => none

/-- `list`. -/
def list : List Datum → Datum := List.foldr cons nil

end Datum

open Datum

/-! ### The text -/

/-- `find-field`. -/
def findField : Datum → String → Option Datum
  | .cons first rest, name => do
      let key ← first.car
      if key.eq (symbol name) then
        let value ← first.cdr
        value.car
      else
        findField rest name
  | _, _ => some nil

/-- `obs-field`. -/
def obsField (record : Datum) (name : String) : Option Datum := do
  let fields ← record.cdr
  findField fields name

/-- `obs-valid?`. -/
def obsValid (record : Datum) : Option Bool := do
  let validity ← obsField record "validity"
  pure (validity.eq (symbol "valid"))

/-- `abs-diff`. -/
def absDiff (a b : Datum) : Option Datum := do
  if ← lt a b then sub b a else sub a b

/-- `within-tolerance?`. -/
def withinTolerance (a b tolerance : Datum) : Option Bool := do
  let difference ← absDiff a b
  lt difference tolerance

/-- `classify-crosscheck`. -/
def classifyCrosscheck (memoryRec screenRec tolerance : Datum) : Option Datum := do
  if ← obsValid memoryRec then
    if ← obsValid screenRec then
      let memory ← obsField memoryRec "value"
      let screen ← obsField screenRec "value"
      if ← withinTolerance memory screen tolerance then
        pure (symbol "confirmed")
      else
        pure (symbol "broken")
    else
      pure (symbol "partial")
  else if ← obsValid screenRec then
    pure (symbol "partial")
  else
    pure (symbol "broken")

/-- `make-crosscheck`. -/
def makeCrosscheck (memoryRec screenRec tolerance : Datum) : Option Datum := do
  let fact ← obsField memoryRec "fact"
  let classification ← classifyCrosscheck memoryRec screenRec tolerance
  pure (list [symbol "observation-crosscheck/1",
    list [symbol "fact", fact],
    list [symbol "classification", classification],
    list [symbol "tolerance", tolerance],
    list [symbol "memory", memoryRec],
    list [symbol "screen", screenRec]])

/-! ### Records -/

/-- A field of a record: a name, a value, and what stands behind them. -/
structure Field where
  name : String
  value : Datum
  rest : Datum := nil
deriving DecidableEq

/-- A field as the script reads it: its name, its value, and what follows them. -/
def Field.datum (field : Field) : Datum :=
  .cons (symbol field.name) (.cons field.value field.rest)

/-- The value of the first field of that name, and `()` if there is none. -/
def lookup (fields : List Field) (name : String) : Datum :=
  ((fields.find? fun field => field.name == name).map Field.value).getD nil

/-- A `game-observation/1` record. A valid one has a number for its value. -/
structure Observation where
  fields : List Field
  numeric : lookup fields "validity" = symbol "valid" →
    ∃ value, lookup fields "value" = number value

namespace Observation

/-- The record as the script reads it. -/
def datum (obs : Observation) : Datum :=
  .cons (symbol "game-observation/1") (list (obs.fields.map Field.datum))

/-- The record says that it is valid. -/
def Valid (obs : Observation) : Prop := lookup obs.fields "validity" = symbol "valid"

instance (obs : Observation) : Decidable obs.Valid :=
  inferInstanceAs (Decidable (lookup obs.fields "validity" = symbol "valid"))

/-- The fact that the record is about. -/
def fact (obs : Observation) : Datum := lookup obs.fields "fact"

/-- The number that a valid record reports. -/
def value (obs : Observation) : ℚ :=
  match lookup obs.fields "value" with
  | .number value => value
  | _ => 0

end Observation

/-! ### What the text computes -/

@[simp] theorem eq_symbol (a : Datum) (name : String) :
    a.eq (symbol name) = decide (a = symbol name) := rfl

/-- A search looks at the first field, and then at the others. -/
theorem findField_cons (field : Field) (rest : Datum) (name : String) :
    findField (.cons field.datum rest) name =
      if field.name = name then some field.value else findField rest name := by
  by_cases hname : field.name = name <;> simp [findField, Field.datum, car, cdr, hname]

/-- **The first field of the name is found**, behind any others. -/
theorem findField_list (fields : List Field) (name : String) :
    findField (list (fields.map Field.datum)) name = some (lookup fields name) := by
  induction fields with
  | nil => rfl
  | cons field fields ih =>
      rw [List.map_cons, list, List.foldr_cons, findField_cons, ← list, ih, lookup, lookup]
      by_cases hname : field.name = name
      · rw [if_pos hname, List.find?_cons_of_pos (by simpa using hname)]
        rfl
      · rw [if_neg hname, List.find?_cons_of_neg (by simpa using hname)]

variable (obs memory screen : Observation)

/-- A field of a record is found by its name. -/
theorem obsField_datum (name : String) :
    obsField obs.datum name = some (lookup obs.fields name) := by
  simp [obsField, Observation.datum, cdr, findField_list]

/-- The script sees whether a record is valid. -/
theorem obsValid_datum : obsValid obs.datum = some (decide obs.Valid) := by
  rw [obsValid, obsField_datum]
  rfl

/-- The value of a valid record is a number. -/
theorem lookup_value (h : obs.Valid) : lookup obs.fields "value" = number obs.value := by
  obtain ⟨value, hvalue⟩ := obs.numeric h
  rw [Observation.value, hvalue]

/-- The difference of two numbers, without its sign. -/
theorem absDiff_number (a b : ℚ) : absDiff (number a) (number b) = some (number |a - b|) := by
  by_cases hlt : a < b
  · have habs : |a - b| = b - a := by rw [abs_sub_comm, abs_of_nonneg (sub_nonneg.mpr hlt.le)]
    simp [absDiff, lt, sub, hlt, habs]
  · have habs : |a - b| = a - b := abs_of_nonneg (sub_nonneg.mpr (not_lt.mp hlt))
    simp [absDiff, lt, sub, hlt, habs]

/-- Two numbers agree if they differ by less than the tolerance. -/
theorem withinTolerance_number (a b tolerance : ℚ) :
    withinTolerance (number a) (number b) (number tolerance) =
      some (decide (|a - b| < tolerance)) := by
  simp [withinTolerance, absDiff_number, lt]

/-- The classification of two records. -/
def classification (tolerance : ℚ) : String :=
  if memory.Valid then
    if screen.Valid then
      if |memory.value - screen.value| < tolerance then "confirmed" else "broken"
    else "partial"
  else if screen.Valid then "partial"
  else "broken"

/-- **What `classify-crosscheck` computes.** The fact of the records plays no part in it. -/
theorem classifyCrosscheck_eq (tolerance : ℚ) :
    classifyCrosscheck memory.datum screen.datum (number tolerance) =
      some (symbol (classification memory screen tolerance)) := by
  by_cases hmemory : memory.Valid <;> by_cases hscreen : screen.Valid
  · by_cases hwithin : |memory.value - screen.value| < tolerance <;>
      simp [classifyCrosscheck, classification, obsValid_datum, obsField_datum, lookup_value,
        withinTolerance_number, hmemory, hscreen, hwithin]
  all_goals simp [classifyCrosscheck, classification, obsValid_datum, hmemory, hscreen]

/-- The result carries the classification and both records as they are. -/
theorem makeCrosscheck_eq (tolerance : ℚ) :
    ∃ result, makeCrosscheck memory.datum screen.datum (number tolerance) = some result ∧
      obsField result "classification" = some (symbol (classification memory screen tolerance)) ∧
      obsField result "memory" = some memory.datum ∧
      obsField result "screen" = some screen.datum := by
  let fields : List Field := [⟨"fact", memory.fact, nil⟩,
    ⟨"classification", symbol (classification memory screen tolerance), nil⟩,
    ⟨"tolerance", number tolerance, nil⟩, ⟨"memory", memory.datum, nil⟩,
    ⟨"screen", screen.datum, nil⟩]
  have hfield : ∀ name, obsField (.cons (symbol "observation-crosscheck/1")
      (list (fields.map Field.datum))) name = some (lookup fields name) :=
    findField_list fields
  refine ⟨_, ?_, hfield "classification", hfield "memory", hfield "screen"⟩
  rw [makeCrosscheck, obsField_datum, classifyCrosscheck_eq]
  rfl

/-- The order of the two records does not matter. -/
theorem classification_comm (tolerance : ℚ) :
    classification screen memory tolerance = classification memory screen tolerance := by
  rw [classification, classification, abs_sub_comm]
  by_cases hmemory : memory.Valid <;> by_cases hscreen : screen.Valid <;>
    simp [hmemory, hscreen]

/-! ### What it is for -/

/-- **A cross-check that never fakes agreement**, and finds it where it is exact: `confirmed`
needs two valid records of the same fact within the tolerance, and is the answer for equal
values; `partial` is for one valid record; everything else is `broken`; and the order of the
records does not matter. -/
def Classifies (tolerance : ℚ) : Prop :=
  ∃ answer, classifyCrosscheck memory.datum screen.datum (number tolerance) =
      some (symbol answer) ∧
    (answer = "confirmed" → memory.Valid ∧ screen.Valid ∧ memory.fact = screen.fact ∧
      |memory.value - screen.value| ≤ tolerance) ∧
    (memory.Valid → screen.Valid → memory.fact = screen.fact → memory.value = screen.value →
      answer = "confirmed") ∧
    (answer = "partial" ↔ Xor memory.Valid screen.Valid) ∧
    (answer = "broken" ↔ answer ≠ "confirmed" ∧ answer ≠ "partial") ∧
    classifyCrosscheck screen.datum memory.datum (number tolerance) = some (symbol answer)

variable {memory screen}

/-- A fact is confirmed by two valid records whose values agree. -/
theorem classification_eq_confirmed_iff {tolerance : ℚ} :
    classification memory screen tolerance = "confirmed" ↔
      memory.Valid ∧ screen.Valid ∧ |memory.value - screen.value| < tolerance := by
  by_cases hmemory : memory.Valid <;> by_cases hscreen : screen.Valid <;>
    simp [classification, hmemory, hscreen]

/-- It is partial when exactly one of the records is valid. -/
theorem classification_eq_partial_iff {tolerance : ℚ} :
    classification memory screen tolerance = "partial" ↔ Xor memory.Valid screen.Valid := by
  by_cases hwithin : |memory.value - screen.value| < tolerance <;>
    by_cases hmemory : memory.Valid <;> by_cases hscreen : screen.Valid <;>
      simp [classification, hmemory, hscreen, hwithin]

/-- It is broken in all other cases. -/
theorem classification_eq_broken_iff {tolerance : ℚ} :
    classification memory screen tolerance = "broken" ↔
      classification memory screen tolerance ≠ "confirmed" ∧
        classification memory screen tolerance ≠ "partial" := by
  by_cases hwithin : |memory.value - screen.value| < tolerance <;>
    by_cases hmemory : memory.Valid <;> by_cases hscreen : screen.Valid <;>
      simp [classification, hmemory, hscreen, hwithin]

/-- What a classification of two valid records would have to keep to. -/
theorem Classifies.spec {tolerance : ℚ} (h : Classifies memory screen tolerance)
    (hmemory : memory.Valid) (hscreen : screen.Valid) :
    (memory.fact ≠ screen.fact → tolerance ≤ |memory.value - screen.value|) ∧
      (memory.fact = screen.fact → memory.value = screen.value → 0 < tolerance) := by
  obtain ⟨answer, hanswer, hsound, hcomplete, -⟩ := h
  rw [classifyCrosscheck_eq] at hanswer
  obtain rfl := Datum.symbol.inj (Option.some.inj hanswer)
  constructor
  · intro hfact
    by_contra hlt
    have hconfirmed := classification_eq_confirmed_iff.mpr ⟨hmemory, hscreen, not_le.mp hlt⟩
    exact hfact (hsound hconfirmed).2.2.1
  · intro hfact hvalue
    have hconfirmed := hcomplete hmemory hscreen hfact hvalue
    obtain ⟨-, -, hwithin⟩ := classification_eq_confirmed_iff.mp hconfirmed
    rwa [hvalue, sub_self, abs_zero] at hwithin

/-- **Where the classification does what it is for.** Two valid records of different facts have
to differ by the tolerance at least, and for two of the same fact with the same value the
tolerance has to be positive. -/
theorem classifies_iff (memory screen : Observation) (tolerance : ℚ) :
    Classifies memory screen tolerance ↔
      (memory.Valid → screen.Valid →
        (memory.fact ≠ screen.fact → tolerance ≤ |memory.value - screen.value|) ∧
        (memory.fact = screen.fact → memory.value = screen.value → 0 < tolerance)) := by
  refine ⟨Classifies.spec, fun h => ?_⟩
  refine ⟨_, classifyCrosscheck_eq memory screen tolerance, ?_, ?_,
    classification_eq_partial_iff, classification_eq_broken_iff, ?_⟩
  · intro hconfirmed
    obtain ⟨hmemory, hscreen, hwithin⟩ := classification_eq_confirmed_iff.mp hconfirmed
    refine ⟨hmemory, hscreen, ?_, hwithin.le⟩
    by_contra hfact
    exact absurd hwithin (not_lt.mpr ((h hmemory hscreen).1 hfact))
  · intro hmemory hscreen hfact hvalue
    refine classification_eq_confirmed_iff.mpr ⟨hmemory, hscreen, ?_⟩
    rw [hvalue, sub_self, abs_zero]
    exact (h hmemory hscreen).2 hfact hvalue
  · rw [classifyCrosscheck_eq, classification_comm]

/-- A valid record with four fields. -/
def validRecord (source fact : String) (value : ℚ) : Observation where
  fields := [⟨"source", symbol source, nil⟩, ⟨"fact", symbol fact, nil⟩,
    ⟨"value", number value, nil⟩, ⟨"validity", symbol "valid", nil⟩]
  numeric _ := ⟨value, by simp [lookup]⟩

/-- Two facts whose values are close are confirmed, and a fact that both channels report alike is
not confirmed exactly. -/
theorem not_classifies_facts_or_exact :
    ¬ Classifies (validRecord "memory" "player-health-ratio" (4 / 5))
        (validRecord "screen" "player-armor-ratio" (4 / 5)) (1 / 20) ∧
      ¬ Classifies (validRecord "memory" "player-level" 7) (validRecord "screen" "player-level" 7)
        0 := by
  have hvalid : ∀ source fact value, (validRecord source fact value).Valid := by
    intro source fact value
    simp [validRecord, Observation.Valid, lookup]
  have hvalue : ∀ source fact value, (validRecord source fact value).value = value := by
    intro source fact value
    simp [validRecord, Observation.value, lookup]
  have hfact : ∀ source fact value, (validRecord source fact value).fact = symbol fact := by
    intro source fact value
    simp [validRecord, Observation.fact, lookup]
  constructor
  · intro h
    obtain ⟨hfacts, -⟩ := h.spec (hvalid _ _ _) (hvalid _ _ _)
    have hdiffer := hfacts (by simp [hfact])
    rw [hvalue, hvalue] at hdiffer
    norm_num at hdiffer
  · intro h
    obtain ⟨-, hexact⟩ := h.spec (hvalid _ _ _) (hvalid _ _ _)
    exact lt_irrefl 0 (hexact (by simp [hfact]) (by simp [hvalue]))

end Crosscheck

end LispHost
