import LispHost.ReaderSpec
import LispHost.Session

/-!
# The Safe-Evaluation Boundary

Can a source text end the process through `wsm_cons_oom`? The preflight of the reader
rejects a complete form that needs more cells than the arena has. It has no verdict on a
text that ends inside its first form, and such a text still makes the parser allocate the
lists that are closed by then. `closedElements` counts their elements, and the boundary
holds for a text exactly when that count fits the arena or the preflight has a verdict.

## Main definitions

* `closedElements`: the elements of all lists that the tokens close.

## Main results

* `Unclosed.closedElements_eq`: it counts what the parser allocates.
* `evalPrint_stops`: evaluating and printing never allocate a cell.
* `evalStr_eq_outOfMemory_iff`: when a call runs out of cells.
* `evalStr_cells_safe_iff`: for which texts no call does.
-/

namespace LispHost

open Effects

/-! ### The count -/

/-- One more element for the innermost open list. -/
def countElement : List Nat → List Nat
  | [] => []
  | count :: counts => (count + 1) :: counts

/-- The loop of `closedElements`, with the number of elements read so far of each open
list, the innermost first. -/
def closedLoop : List Nat → List Token → Nat
  | _, [] => 0
  | counts, .open :: tokens => closedLoop (0 :: counts) tokens
  | [], .close :: _ => 0
  | count :: counts, .close :: tokens => count + closedLoop (countElement counts) tokens
  | counts, .atom _ :: tokens => closedLoop (countElement counts) tokens
  | counts, .str _ :: tokens => closedLoop (countElement counts) tokens

/-- The number of elements, over all nesting levels, of the lists that the tokens close. -/
def closedElements (tokens : List Token) : Nat := closedLoop [] tokens

/-- A derived phrase contributes the elements of its tree. -/
theorem Parses.closedLoop_eq {n : Nonterminal} {tokens rest : List Token} {tree : Sexp Unit}
    (h : Parses n tokens tree rest) (count : Nat) (counts : List Nat) :
    (n = .form → closedLoop counts tokens =
        tree.cells + closedLoop (countElement counts) rest) ∧
      (n = .items → closedLoop (count :: counts) tokens =
        count + tree.cells + closedLoop (countElement counts) rest) := by
  induction h generalizing count counts with
  | atom text rest =>
      refine ⟨fun _ => ?_, by simp⟩
      rw [closedLoop, cells_atomSexp, Nat.zero_add]
  | str text rest =>
      refine ⟨fun _ => ?_, by simp⟩
      simp only [closedLoop, Sexp.cells, Nat.zero_add]
  | list _ ih =>
      refine ⟨fun _ => ?_, by simp⟩
      rw [closedLoop, (ih 0 counts).2 rfl, Nat.zero_add]
  | close rest =>
      refine ⟨by simp, fun _ => ?_⟩
      simp only [closedLoop, Sexp.cells, Nat.add_zero]
  | @item tokens mid rest head tail _ _ ihh iht =>
      refine ⟨by simp, fun _ => ?_⟩
      rw [(ihh count (count :: counts)).1 rfl, countElement, (iht (count + 1) counts).2 rfl,
        Sexp.cells]
      omega

/-- **What an unclosed text allocates.** -/
theorem Unclosed.closedElements_eq {n : Nonterminal} {tokens : List Token} {k : Nat}
    (h : Unclosed n tokens k) (counts : List Nat) : closedLoop counts tokens = k := by
  induction h generalizing counts with
  | eof n => rw [closedLoop]
  | list _ ih => rw [closedLoop, ih]
  | head _ ih => exact ih counts
  | tail hform _ ih => rw [(hform.closedLoop_eq 0 counts).1 rfl, ih]

/-- The texts that end inside a form are those with no verdict, up to the empty text. -/
theorem unclosed_iff {tokens : List Token} {k : Nat} :
    Unclosed .form tokens k ↔
      (tokens = [] ∨ requiredConsCells tokens = none) ∧ k = closedElements tokens := by
  constructor
  · intro h
    refine ⟨?_, (h.closedElements_eq []).symm⟩
    cases h with
    | eof => exact .inl rfl
    | list hitems => exact .inr hitems.requiredConsCells_eq_none
  · rintro ⟨hnone, rfl⟩
    rcases (parses_or_unclosed tokens).1 with ⟨tree, rest, h⟩ | ⟨k, h⟩ | h
    · rcases hnone with rfl | hnone
      · cases h
      · rw [h.requiredConsCells_eq] at hnone
        cases hnone
    · rw [closedElements, h.closedElements_eq []]
      exact h
    · cases tokens with
      | nil => simp at h
      | cons token tokens =>
          obtain rfl : token = .close := by simpa using h
          simp [requiredConsCells] at hnone

/-- A text has at most as many tokens as characters. -/
theorem length_le_of_tokenizeLoop {fuel : Nat} {chars : List Char} {tokens : List Token}
    (h : tokenizeLoop fuel chars = .ok tokens) : tokens.length ≤ fuel := by
  induction fuel generalizing chars tokens with
  | zero =>
      rw [tokenizeLoop] at h
      cases h
      exact le_rfl
  | succ fuel ih =>
      have hmap : ∀ {rest : List Char} {token : Token},
          (tokenizeLoop fuel rest).map (token :: ·) = .ok tokens →
            tokens.length ≤ fuel + 1 := by
        intro rest token hmap
        cases hrest : tokenizeLoop fuel rest with
        | error e =>
            rw [hrest] at hmap
            cases hmap
        | ok tokens' =>
            rw [hrest] at hmap
            cases hmap
            exact Nat.succ_le_succ (ih hrest)
      cases chars with
      | nil =>
          rw [tokenizeLoop] at h
          cases h
          exact Nat.zero_le _
      | cons c rest =>
          rw [tokenizeLoop] at h
          split at h
          · exact (ih h).trans (Nat.le_succ _)
          split at h
          · exact hmap h
          split at h
          · exact hmap h
          split at h
          · split at h
            · cases h
            · exact hmap h
          · exact hmap h

/-! ### Evaluating and printing allocate no cell -/

/-- A stop that is not for want of a cell. -/
def NotOutOfMemory (stop : Stop Exit) : Prop := stop ≠ .abort (.wsmFail .outOfMemory)

section Stops

variable {σ : Type} (P : Platform)

/-- A raw accessor does not fail for want of a cell. -/
def KeepsCells (access : Word → Except Exit Word) : Prop :=
  ∀ word, access word ≠ .error (.wsmFail .outOfMemory)

/-- The first accessor allocates nothing. -/
theorem keepsCells_wsmCar (arena : Arena) : KeepsCells (wsmCar P arena) := by
  intro word
  rw [wsmCar, Arena.load]
  split
  · split <;> simp
  · simp

/-- Nor does the second one. -/
theorem keepsCells_wsmCdr (arena : Arena) : KeepsCells (wsmCdr P arena) := by
  intro word
  rw [wsmCdr, Arena.load]
  split
  · split <;> simp
  · simp

/-- So a load does not run out of cells. -/
theorem load_stops {access : Word → Except Exit Word} (h : KeepsCells access) (word : Word) :
    Program.StopsOnly NotOutOfMemory (load (σ := σ) (access word)) := by
  cases hload : access word with
  | ok value => exact .pure _
  | error e => exact .abort fun heq => h word (by rw [hload, Stop.abort.inj heq])

variable (Γ : EvalContext σ)

/-- Nor does a symbol. -/
theorem evalSymbol_stops (word : Word) :
    Program.StopsOnly NotOutOfMemory (evalSymbol Γ word) := by
  intro s r h
  rw [evalSymbol] at h
  cases hname : Γ.symbols.nameOf word with
  | none =>
      simp only [hname] at h
      cases h
  | some name =>
      simp only [hname] at h
      by_cases ht : name = "t"
      · rw [if_pos ht] at h
        cases h
      · rw [if_neg ht] at h
        cases hvalue : s.world.bindings.value name with
        | none | some =>
            simp only [hvalue] at h
            cases h

/-- Nor does a call of a primitive. -/
theorem callPrimitive_keepsCells (name : String) (args : List Word) :
    Program.StopsOnly NotOutOfMemory (callPrimitive Γ.primitives name args) := by
  refine (callPrimitive_stops Γ.primitives name args).imp fun stop hstop heq => ?_
  cases hstop.symm.trans heq

/-- Nor does the check of a single argument. -/
theorem singleArgument_stops (list : Word) (form : String) :
    Program.StopsOnly NotOutOfMemory (singleArgument P Γ list form) := by
  rw [singleArgument]
  split
  · exact .throw _
  refine (load_stops (keepsCells_wsmCar P _) _).bind fun argument => ?_
  refine (load_stops (keepsCells_wsmCdr P _) _).bind fun tail => ?_
  split
  · exact .throw _
  · exact .pure _

/-- Nor does the check of a clause. -/
theorem condClause_stops (clause : Word) :
    Program.StopsOnly NotOutOfMemory (condClause P Γ clause) := by
  rw [condClause]
  split
  · exact .throw _
  refine (load_stops (keepsCells_wsmCar P _) _).bind fun test => ?_
  refine (load_stops (keepsCells_wsmCdr P _) _).bind fun body => ?_
  split
  · exact .throw _
  refine (load_stops (keepsCells_wsmCar P _) _).bind fun result => ?_
  refine (load_stops (keepsCells_wsmCdr P _) _).bind fun tail => ?_
  split
  · exact .throw _
  · exact .pure _

/-- What is shown about the five functions at one amount of fuel. -/
structure EvalStops (fuel : Nat) : Prop where
  eval : ∀ word, Program.StopsOnly NotOutOfMemory (eval P Γ fuel word)
  list : ∀ word, Program.StopsOnly NotOutOfMemory (evalList P Γ fuel word)
  accessor : ∀ list name access, KeepsCells access →
    Program.StopsOnly NotOutOfMemory (evalCheckedAccessor P Γ fuel list name access)
  args : ∀ list, Program.StopsOnly NotOutOfMemory (evalArgs P Γ fuel list)
  cond : ∀ clauses, Program.StopsOnly NotOutOfMemory (evalCond P Γ fuel clauses)

/-- Nor does any part of the evaluator with one more unit of fuel. -/
theorem evalStops_succ {fuel : Nat} (ih : EvalStops P Γ fuel) : EvalStops P Γ (fuel + 1) := by
  constructor
  · intro word
    rw [eval]
    split
    · exact .pure _
    split
    · exact evalSymbol_stops Γ word
    split
    · exact ih.list word
    · exact .pure _
  · intro word
    rw [evalList]
    refine (load_stops (keepsCells_wsmCar P _) _).bind fun head => ?_
    refine (load_stops (keepsCells_wsmCdr P _) _).bind fun rest => ?_
    split
    · exact .throw _
    split
    · exact .panic
    split
    · exact ih.cond rest
    split
    · exact singleArgument_stops P Γ rest _
    split
    · exact ih.accessor rest _ _ (keepsCells_wsmCar P _)
    split
    · exact ih.accessor rest _ _ (keepsCells_wsmCdr P _)
    · exact (ih.args rest).bind fun args => callPrimitive_keepsCells Γ _ args
  · intro list name access haccess
    rw [evalCheckedAccessor]
    refine (singleArgument_stops P Γ list name).bind fun argument => ?_
    refine (ih.eval argument).bind fun value => ?_
    split
    · exact .throw _
    · exact load_stops haccess value
  · intro list
    rw [evalArgs]
    split
    · exact .pure _
    refine (load_stops (keepsCells_wsmCar P _) _).bind fun item => ?_
    refine (ih.eval item).bind fun value => ?_
    refine (load_stops (keepsCells_wsmCdr P _) _).bind fun rest => ?_
    exact (ih.args rest).bind fun values => .pure _
  · intro clauses
    rw [evalCond]
    split
    · exact .pure _
    split
    · exact .throw _
    refine (load_stops (keepsCells_wsmCar P _) _).bind fun clause => ?_
    refine (condClause_stops P Γ clause).bind fun forms => ?_
    refine (ih.eval forms.1).bind fun test => ?_
    split
    · exact ih.eval forms.2
    · exact (load_stops (keepsCells_wsmCdr P _) _).bind fun rest => ih.cond rest

/-- **The evaluator allocates no cell.** -/
theorem evalStops (fuel : Nat) : EvalStops P Γ fuel := by
  induction fuel with
  | zero =>
      have htimeout : NotOutOfMemory .timeout := by rintro ⟨⟩
      constructor
      · intro word
        rw [eval]
        exact .timeout htimeout
      · intro word
        rw [evalList]
        exact .timeout htimeout
      · intro list name access _
        rw [evalCheckedAccessor]
        exact .timeout htimeout
      · intro list
        rw [evalArgs]
        exact .timeout htimeout
      · intro clauses
        rw [evalCond]
        exact .timeout htimeout
  | succ fuel ih => exact evalStops_succ P Γ ih

/-- A walk does not fail for want of a cell. -/
def Walk.KeepsCells (walk : Walk) : Prop := ∀ stop, walk.stop = some stop → NotOutOfMemory stop

/-- A walk over a load runs out of no cells, if what is behind it does not. -/
theorem Walk.KeepsCells.load {access : Word → Except Exit Word} (h : LispHost.KeepsCells access)
    (word : Word) {next : Word → Walk} (hnext : ∀ value, (next value).KeepsCells) :
    (Walk.load (access word) next).KeepsCells := by
  cases hload : access word with
  | ok value => exact hnext value
  | error e =>
      intro stop hstop
      obtain rfl : Stop.abort e = stop := Option.some.inj hstop
      exact fun heq => h word (by rw [hload, Stop.abort.inj heq])

/-- A walk of two parts runs out of no cells, if neither part does. -/
theorem Walk.KeepsCells.andThen {walk : Walk} (h : walk.KeepsCells) {next : String → Walk}
    (hnext : ∀ text, (next text).KeepsCells) : (walk.andThen next).KeepsCells := by
  cases walk with
  | ok text => exact hnext text
  | err e => exact e.elim
  | panic | abort | timeout => exact h

/-- **The printer allocates no cell.** -/
theorem write_keepsCells (arena : Arena) (symbols : SymbolTable) (boxed : BoxedTable)
    (fuel : Nat) :
    (∀ word, (writeValue P arena symbols boxed fuel word).KeepsCells) ∧
      ∀ current first, (writeTail P arena symbols boxed fuel current first).KeepsCells := by
  have hok : ∀ text, Walk.KeepsCells (.ok text) := by rintro text stop ⟨⟩
  induction fuel with
  | zero =>
      constructor
      · intro word stop h
        obtain rfl : Stop.timeout = stop := Option.some.inj h
        rintro ⟨⟩
      · intro current first stop h
        obtain rfl : Stop.timeout = stop := Option.some.inj h
        rintro ⟨⟩
  | succ fuel ih =>
      obtain ⟨hvalue, htail⟩ := ih
      constructor
      · intro word
        rw [writeValue]
        split
        · exact hok _
        split
        · exact (htail word true).andThen fun text => hok _
        · exact hok _
      · intro current first
        rw [writeTail]
        split
        · exact hok _
        split
        · refine .load (keepsCells_wsmCar P arena) current fun head => ?_
          refine (hvalue head).andThen fun headText => ?_
          refine .load (keepsCells_wsmCdr P arena) current fun rest => ?_
          exact (htail rest false).andThen fun restText => hok _
        · exact (hvalue current).andThen fun text => hok _

/-- Evaluating and printing a word never runs out of cells. -/
theorem evalPrint_stops (word : Word) :
    Program.StopsOnly NotOutOfMemory (evalPrint (σ := σ) P word) := by
  rw [evalPrint]
  refine .bind ?_ fun result => ?_
  · intro m r h
    refine (evalStops P m.context evalFuel).eval word m.evalState r ?_
    rw [evalWord, Program.attempt, Program.zoom] at h
    generalize eval P m.context evalFuel word m.evalState = run at h ⊢
    obtain ⟨o, s⟩ := run
    cases o with
    | ok | err | panic => cases h
    | abort | timeout => exact h
  · cases result with
    | ok value =>
        intro m r h
        exact (write_keepsCells P _ _ _ _).1 _ r h
    | error e => exact .pure _

end Stops

/-! ### The boundary -/

section Boundary

variable {P : Platform}

/-- **When the reader runs out of cells**, starting with all of them: the text ends inside
its first form, and the lists that it closes have more elements than the arena has
cells. -/
theorem unclosed_of_outOfMemory {text : String} {s : ReaderState} (hreset : s.arena.next = 0)
    (h : (readOne P text s).1 = .abort (.wsmFail .outOfMemory)) :
    ∃ tokens k, tokenize text = .ok tokens ∧ Unclosed .form tokens k ∧ arenaCells < k := by
  rw [readOne] at h
  cases htokens : tokenize text with
  | error e =>
      rw [htokens] at h
      cases h
  | ok tokens =>
      rw [htokens] at h
      rcases (parses_or_unclosed tokens).1 with ⟨tree, rest, hparses⟩ | ⟨k, hunclosed⟩ | hclose
      · obtain ⟨-, heq⟩ | ⟨hle, result, hresult, heq⟩ := readTokens_of_parses (P := P) hparses s
        · simp only [heq] at h
          cases h
        · simp only [heq] at h
          cases hresult with
          | ok =>
              by_cases hrest : rest = []
              · simp only [if_pos hrest] at h
                cases h
              · simp only [if_neg hrest] at h
                cases h
          | outOfMemory hfull => omega
          | allocation => cases h
      · obtain ⟨result, hresult, heq⟩ := readTokens_of_unclosed (P := P) hunclosed s
        simp only [heq] at h
        cases hresult with
        | eof => cases h
        | outOfMemory hfull => exact ⟨tokens, k, rfl, hunclosed, by omega⟩
        | allocation => cases h
      · simp only [readTokens_of_close hclose] at h
        cases h

/-- Such a text does run out of cells, unless the tables cannot grow. -/
theorem outOfMemory_of_unclosed {text : String} {tokens : List Token} {k : Nat}
    {s : ReaderState} (htokens : tokenize text = .ok tokens)
    (hunclosed : Unclosed .form tokens k) (hk : arenaCells < k) (hroom : s.Room tokens.length) :
    (readOne P text s).1 = .abort (.wsmFail .outOfMemory) := by
  obtain ⟨result, hresult, heq⟩ := readTokens_of_unclosed (P := P) hunclosed s
  rw [readOne, htokens]
  simp only [heq]
  cases hresult with
  | eof hnext =>
      rename_i s'
      have hle := s'.arena.next_le
      omega
  | outOfMemory => rfl
  | allocation hfull => exact absurd hroom hfull

/-- A call runs out of cells exactly when its reader does. -/
theorem evalStr_eq_outOfMemory_iff {σ : Type} (text : String) (m : Machine σ) :
    (evalStr P text m).1 = .abort (.wsmFail .outOfMemory) ↔
      (readOne P text m.start.reader).1 = .abort (.wsmFail .outOfMemory) := by
  rw [evalStr_eq]
  rcases readOne P text m.start.reader with ⟨o, s⟩
  cases o with
  | ok word =>
      simp only [afterRead, reduceCtorEq, iff_false]
      intro h
      have hstops : Program.StopsOnly NotOutOfMemory (evalPrint P word >>= finish (σ := σ)) :=
        (evalPrint_stops P word).bind fun result => (Program.StopsOnly.modify _).bind fun _ =>
          .pure _
      exact hstops (m.start.setReader s) _ (by rw [h]; rfl) rfl
  | err | panic | abort | timeout => simp [afterRead]

/-- **The boundary.** No call on a text runs out of cells exactly when, in case the text
has tokens for which the preflight has no verdict, the lists that they close have at most
as many elements as the arena has cells. -/
theorem evalStr_cells_safe_iff (text : String) (hlength : text.toList.length < addressSpace) :
    (∀ {σ : Type} (m : Machine σ),
        (evalStr P text m).1 ≠ .abort (.wsmFail .outOfMemory)) ↔
      ∀ tokens, tokenize text = .ok tokens → requiredConsCells tokens = none →
        closedElements tokens ≤ arenaCells := by
  constructor
  · intro h tokens htokens hnone
    by_contra hlarge
    have hunclosed : Unclosed .form tokens (closedElements tokens) :=
      unclosed_iff.mpr ⟨.inr hnone, rfl⟩
    have hlen : tokens.length ≤ text.toList.length := length_le_of_tokenizeLoop htokens
    refine h (Machine.init (Session.init (fun _ => none) []) ()) ?_
    rw [evalStr_eq_outOfMemory_iff]
    refine outOfMemory_of_unclosed htokens hunclosed (by omega) ⟨?_, ?_⟩
    · change 0 + tokens.length < addressSpace
      omega
    · change 0 + tokens.length < addressSpace
      omega
  · intro h σ m hoom
    rw [evalStr_eq_outOfMemory_iff] at hoom
    obtain ⟨tokens, k, htokens, hunclosed, hk⟩ := unclosed_of_outOfMemory rfl hoom
    rcases unclosed_iff.mp hunclosed with ⟨rfl | hnone, rfl⟩
    · exact absurd hk (by decide)
    · have hle := h tokens htokens hnone
      omega

/-- The boundary for a small complete form. -/
theorem evalStr_cells_safe_call :
    "(f 7)".toList.length < addressSpace ∧ ∀ {σ : Type} (m : Machine σ),
      (evalStr .standard "(f 7)" m).1 ≠ .abort (.wsmFail .outOfMemory) := by
  refine ⟨by decide, fun m => (evalStr_cells_safe_iff "(f 7)" (by decide)).mpr ?_ m⟩
  intro tokens htokens hnone
  obtain rfl : [.open, .atom "f", .atom "7", .close] = tokens := by
    have hrun : tokenize "(f 7)" = .ok [.open, .atom "f", .atom "7", .close] := by decide
    exact Except.ok.inj (hrun.symm.trans htokens)
  exact absurd hnone (by decide)

/-- Two opening parentheses, the given number of atoms, and one closing parenthesis. -/
def unclosedText (atoms : Nat) : String :=
  String.ofList ('(' :: '(' :: (List.replicate atoms ['a', ' ']).flatten ++ [')'])

/-- One atom and the blank behind it. -/
theorem tokenizeLoop_atom (fuel : Nat) (rest : List Char) :
    tokenizeLoop (fuel + 2) ('a' :: ' ' :: rest) =
      (tokenizeLoop fuel rest).map (.atom "a" :: ·) := rfl

/-- The tokens of the inner list. -/
theorem tokenizeLoop_atoms (atoms : Nat) :
    tokenizeLoop (1 + 2 * atoms) ((List.replicate atoms ['a', ' ']).flatten ++ [')']) =
      .ok (List.replicate atoms (.atom "a") ++ [.close]) := by
  induction atoms with
  | zero => rfl
  | succ atoms ih =>
      have hchars : (List.replicate (atoms + 1) ['a', ' ']).flatten ++ [')'] =
          'a' :: ' ' :: ((List.replicate atoms ['a', ' ']).flatten ++ [')']) := by
        rw [List.replicate_succ]
        rfl
      rw [hchars, show 1 + 2 * (atoms + 1) = (1 + 2 * atoms) + 2 by omega,
        tokenizeLoop_atom, ih]
      rfl

/-- The tokens of the text, whose first form is never closed. -/
theorem tokenize_unclosedText (atoms : Nat) :
    tokenize (unclosedText atoms) =
      .ok (.open :: .open :: (List.replicate atoms (.atom "a") ++ [.close])) := by
  rw [tokenize, unclosedText, String.toList_ofList]
  have hlength : ('(' :: '(' :: (List.replicate atoms ['a', ' ']).flatten ++ [')']).length =
      (1 + 2 * atoms) + 2 := by
    simp
    omega
  have hopen : ∀ fuel rest, tokenizeLoop (fuel + 2) ('(' :: '(' :: rest) =
      ((tokenizeLoop fuel rest).map (.open :: ·)).map (.open :: ·) := fun _ _ => rfl
  rw [hlength, List.cons_append, List.cons_append, hopen, tokenizeLoop_atoms]
  rfl

/-- A list of atoms has as many pairs as atoms. -/
theorem parses_atoms (atoms : Nat) :
    ∃ tree, tree.cells = atoms ∧
      Parses .items (List.replicate atoms (.atom "a") ++ [.close]) tree [] := by
  induction atoms with
  | zero => exact ⟨.nil, rfl, .close []⟩
  | succ atoms ih =>
      obtain ⟨tree, hcells, hparses⟩ := ih
      refine ⟨.pair () (atomSexp "a") tree, ?_, ?_⟩
      · rw [Sexp.cells, cells_atomSexp, hcells, Nat.zero_add]
      · rw [List.replicate_succ]
        exact .item (.atom "a" _) hparses

/-- **A text that ends the process.** It is malformed, but the list inside it is closed and
has one element more than the arena has cells. -/
theorem evalStr_unclosedText :
    (evalStr .standard (unclosedText 257) (Machine.init (Session.init (fun _ => none) []) ())).1 =
      .abort (.wsmFail .outOfMemory) := by
  obtain ⟨tree, hcells, hparses⟩ := parses_atoms 257
  have hunclosed := Unclosed.list (.tail (.list hparses) (.eof .items))
  rw [evalStr_eq_outOfMemory_iff]
  have hlength : (Token.open :: .open :: (List.replicate 257 (.atom "a") ++ [.close])).length =
      260 := by
    rw [List.length_cons, List.length_cons, List.length_append, List.length_replicate,
      List.length_singleton]
  refine outOfMemory_of_unclosed (tokenize_unclosedText 257) hunclosed ?_ ?_
  · rw [hcells]
    decide
  · rw [hlength]
    exact ⟨by decide, by decide⟩

end Boundary

end LispHost
