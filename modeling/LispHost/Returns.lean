import LispHost.Reference

/-!
# Calls Return

The fuel of the model never runs out: where the host hands out no pairs, a call of
`wsm_eval_string` returns a text or ends the process. What is read is a tree of at most one
arena, what is evaluated is a part of that tree or a word of the host's, and printing walks
such a value once.

## Main results

* `write_of_represents`: printing a held tree succeeds.
* `wsmEvalString_returns`: a call returns a text, or ends the process.
* `wsmEvalString_returns_text`: a call on a small form returns a text, where no primitive ends
  the process.
-/

namespace LispHost

open Effects

variable {σ : Type} {P : Platform}

/-! ### Printing -/

/-- Printing a word that is no pair succeeds, as a value and as the rest of a list. -/
theorem write_of_tagOf_ne (arena : Arena) (symbols : SymbolTable) (boxed : BoxedTable)
    {fuel : Nat} (hfuel : 2 ≤ fuel) {word : Word} (h : tagOf word ≠ tagCons) :
    (∃ text, writeValue P arena symbols boxed fuel word = .ok text) ∧
      ∀ first, ∃ text, writeTail P arena symbols boxed fuel word first = .ok text := by
  obtain ⟨fuel, rfl⟩ : ∃ n, fuel = n + 2 := ⟨fuel - 2, by omega⟩
  have hvalue : ∀ fuel, ∃ text, writeValue P arena symbols boxed (fuel + 1) word = .ok text := by
    intro fuel
    rw [writeValue, if_neg h]
    by_cases hnil : tagOf word = tagNil
    · exact ⟨_, if_pos hnil⟩
    · exact ⟨_, if_neg hnil⟩
  refine ⟨hvalue (fuel + 1), fun first => ?_⟩
  obtain ⟨text, htext⟩ := hvalue fuel
  rw [writeTail, if_neg h, htext]
  by_cases hnil : tagOf word = tagNil
  · exact ⟨_, if_pos hnil⟩
  · exact ⟨_, if_neg hnil⟩

/-- **Printing a tree that the heap holds succeeds**, as a value and as the rest of a list,
with two steps of fuel for each pair. The tables do not matter. -/
theorem write_of_represents {s : ReaderState} {d : Sexp Word} (h : Represents P s d)
    (symbols : SymbolTable) (boxed : BoxedTable) {fuel : Nat} (hfuel : 2 * d.cells + 2 ≤ fuel) :
    (∃ text, writeValue P s.arena symbols boxed fuel d.word = .ok text) ∧
      ∀ first, ∃ text, writeTail P s.arena symbols boxed fuel d.word first = .ok text := by
  have htag := h.tagOf_word
  induction d generalizing fuel with
  | fixnum | symbol | string | nil =>
      refine write_of_tagOf_ne _ _ _ (by omega) ?_
      rw [htag, Sexp.tag]
      decide
  | pair label head tail ihh iht =>
      obtain ⟨hcar, hcdr⟩ := h.accessors
      obtain ⟨-, hhead, htail⟩ := h
      have hlabel : tagOf label = tagCons := htag
      have hnil : ¬ tagOf label = tagNil := by
        rw [hlabel]
        decide
      rw [Sexp.cells] at hfuel
      have hwalk : ∀ fuel, 2 * (head.cells + tail.cells) + 3 ≤ fuel → ∀ first, ∃ text,
          writeTail P s.arena symbols boxed fuel label first = .ok text := by
        intro fuel hfuel first
        obtain ⟨fuel, rfl⟩ : ∃ n, fuel = n + 1 := ⟨fuel - 1, by omega⟩
        have hheadFuel : 2 * head.cells + 2 ≤ fuel := by omega
        have htailFuel : 2 * tail.cells + 2 ≤ fuel := by omega
        obtain ⟨⟨headText, hheadText⟩, -⟩ := ihh hhead hheadFuel hhead.tagOf_word
        obtain ⟨-, hrest⟩ := iht htail htailFuel htail.tagOf_word
        obtain ⟨tailText, htailText⟩ := hrest false
        rw [writeTail, if_neg hnil, if_pos hlabel, hcar, hcdr]
        simp only [Walk.load, hheadText, Walk.andThen, htailText]
        exact ⟨_, rfl⟩
      constructor
      · obtain ⟨fuel, rfl⟩ : ∃ n, fuel = n + 1 := ⟨fuel - 1, by omega⟩
        obtain ⟨text, htext⟩ := hwalk fuel (by omega) true
        rw [writeValue, Sexp.word, if_neg hnil, if_pos hlabel, htext]
        exact ⟨_, rfl⟩
      · exact hwalk fuel (by omega)

/-- Printing a value succeeds. -/
theorem Value.Held.valueToString {s : ReaderState} {v : Value} (h : v.Held P s)
    (symbols : SymbolTable) (boxed : BoxedTable) :
    ∃ text, LispHost.valueToString P s.arena symbols boxed v.word = .ok text := by
  rw [LispHost.valueToString]
  cases v with
  | host word => exact (write_of_tagOf_ne _ _ _ (by decide) h).1
  | datum d =>
      have hfits := h.fits
      refine (write_of_represents h.represents symbols boxed ?_).1
      rw [printFuel]
      omega

/-! ### Calls -/

/-- The reader ends on every text. -/
theorem readOne_ne_timeout (text : String) (s : ReaderState) :
    (readOne P text s).1 ≠ .timeout := by
  rw [readOne]
  cases tokenize text with
  | error e => rintro ⟨⟩
  | ok tokens =>
      simp only
      rcases (parses_or_unclosed tokens).1 with ⟨tree, rest, hparses⟩ | ⟨k, hunclosed⟩ | hclose
      · obtain ⟨-, heq⟩ | ⟨-, result, hresult, heq⟩ := readTokens_of_parses (P := P) hparses s
        · rw [heq]
          rintro ⟨⟩
        · rw [heq]
          cases hresult with
          | ok =>
              by_cases hrest : rest = []
              · simp only [if_pos hrest]
                rintro ⟨⟩
              · simp only [if_neg hrest]
                rintro ⟨⟩
          | outOfMemory => rintro ⟨⟩
          | allocation => rintro ⟨⟩
      · obtain ⟨result, hresult, heq⟩ := readTokens_of_unclosed (P := P) hunclosed s
        rw [heq]
        cases hresult with
        | eof | outOfMemory | allocation => rintro ⟨⟩
      · rw [readTokens_of_close hclose]
        rintro ⟨⟩

/-- Evaluating and printing what was read stops only where a call of a primitive does. -/
theorem evalPrint_stop {m : Machine σ} {d : Sexp Word} (h : d.Held P m.reader)
    (hprimitives : m.session.primitives.NonCons) (hbindings : m.session.bindings.NonCons)
    {R : Stop Exit → Prop}
    (hcall : ∀ name args, Program.StopsOnly R (callPrimitive m.session.primitives name args))
    (stop : Stop Exit) (hstop : ((evalPrint P d.word >>= finish) m).1.stop = some stop) :
    R stop := by
  have hstate : m.evalState.world.bindings.NonCons := hbindings
  obtain ⟨-, hagree, heval⟩ := h.eval hprimitives hstate (le_refl evalFuel)
  have hlive := heval R hcall stop
  rw [evalPrint_eq] at hstop
  change Outcome.Agree _ (eval P m.context evalFuel d.word m.evalState).1 _ at hagree
  change (eval P m.context evalFuel d.word m.evalState).1.stop = some stop → R stop at hlive
  generalize eval P m.context evalFuel d.word m.evalState = result at hagree hlive hstop
  generalize (refEval P m.session.primitives d m.evalState).1 = reference at hagree
  obtain ⟨o, s⟩ := result
  cases hagree with
  | ok hv =>
      obtain ⟨rfl, hheld⟩ := hv
      obtain ⟨text, htext⟩ := hheld.valueToString m.session.symbols s.world.boxed
      have hprint : printWord P _ (m.setEvalState s) = (.ok text, m.setEvalState s) :=
        Prod.ext htext rfl
      rw [afterEval, Program.bind_ok hprint] at hstop
      cases hstop
  | err | panic => cases hstop
  | abort | timeout => exact hlive hstop

/-- Where the evaluation of a text does not stop, the call returns a text. -/
theorem wsmEvalString_of_stop {text : String} {m : Machine σ}
    (h : (evalStr P text m).1.stop = none) :
    ∃ result, (wsmEvalString P (.text text) m).1 = .ok result := by
  rw [wsmEvalString]
  beta_reduce
  generalize evalStr P text m = result at h ⊢
  obtain ⟨o, m'⟩ := result
  cases o with
  | ok | panic => exact ⟨_, rfl⟩
  | err e => exact e.elim
  | abort | timeout => cases h

/-- **A call returns** a text, or ends the process. -/
theorem wsmEvalString_returns {m : Machine σ} (hprimitives : m.session.primitives.NonCons)
    (hbindings : m.session.bindings.NonCons) (source : SourceArg) :
    (∃ text, (wsmEvalString P source m).1 = .ok text) ∨
      ∃ r, (wsmEvalString P source m).1 = .abort r := by
  cases source with
  | null | notUtf8 => exact .inl ⟨_, rfl⟩
  | text text =>
      have hends : (evalStr P text m).1 ≠ .timeout := by
        rw [evalStr_eq]
        have hread := readOne_ne_timeout (P := P) text m.start.reader
        rcases hrun : readOne P text m.start.reader with ⟨o, s⟩
        rw [hrun] at hread
        cases o with
        | ok word =>
            obtain ⟨tokens, d, -, -, rfl, hheld⟩ := held_of_readOne hrun
            intro h
            have hcall := callPrimitive_stops m.session.primitives
            have hstop : HostStop .timeout := evalPrint_stop (m := m.start.setReader s) hheld
              hprimitives hbindings hcall .timeout (congrArg Outcome.stop h)
            cases hstop
        | err | panic | abort => rintro ⟨⟩
        | timeout => exact absurd rfl hread
      rw [wsmEvalString]
      beta_reduce
      generalize evalStr P text m = result at hends ⊢
      obtain ⟨o, m'⟩ := result
      cases o with
      | ok | panic => exact .inl ⟨_, rfl⟩
      | err e => exact e.elim
      | abort r => exact .inr ⟨r, rfl⟩
      | timeout => exact absurd rfl hends

/-- **A call on a form that fits returns a text**, where no primitive ends the process and the
tables have room. -/
theorem wsmEvalString_returns_text {m : Machine σ} (hprimitives : m.session.primitives.NonCons)
    (hbindings : m.session.bindings.NonCons) (hreturn : m.session.primitives.Return)
    {text : String} {tokens : List Token} {tree : Sexp Unit} (htokens : tokenize text = .ok tokens)
    (hparses : Parses .form tokens tree []) (hroom : m.reader.Room tokens.length) :
    ∃ result, (wsmEvalString P (.text text) m).1 = .ok result := by
  have hread : (readOne P text m.start.reader).1.stop = none := by
    rw [readOne, htokens]
    simp only
    obtain ⟨-, heq⟩ | ⟨hcells, result, hresult, heq⟩ :=
      readTokens_of_parses (P := P) hparses m.start.reader
    · rw [heq]
      rfl
    · rw [heq]
      cases hresult with
      | ok => rfl
      | outOfMemory hfull =>
          have hnext : m.start.reader.arena.next = 0 := rfl
          omega
      | allocation hfull =>
          refine absurd ?_ hfull
          obtain ⟨hsymbols, hboxed⟩ := hroom
          refine ⟨?_, ?_⟩
          · change m.session.symbols.nameToId.length + _ < _ at hsymbols
            change m.session.symbols.nameToId.length + _ < _
            simpa using hsymbols
          · change m.session.boxed.values.length + _ < _ at hboxed
            change m.session.boxed.clearTransient.values.length + _ < _
            simpa [BoxedTable.clearTransient] using hboxed
  have hcall : (evalStr P text m).1.stop = none := by
    rw [evalStr_eq]
    rcases hrun : readOne P text m.start.reader with ⟨o, s⟩
    rw [hrun] at hread
    cases o with
    | ok word =>
        obtain ⟨-, d, -, -, rfl, hheld⟩ := held_of_readOne hrun
        rw [Option.eq_none_iff_forall_ne_some]
        exact evalPrint_stop (m := m.start.setReader s) hheld hprimitives hbindings
          hreturn.callPrimitive_stops
    | err | panic => rfl
    | abort | timeout => cases hread
  exact wsmEvalString_of_stop hcall

end LispHost
