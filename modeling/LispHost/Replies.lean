import LispHost.Literals
import LispHost.Returns

/-!
# Replies

A call of `wsm_eval_string` returns one text, and a failure shows in it by the prefix
`error:`. Every failure has the prefix. The converse has two exceptions: a symbol prints as
its name, which may begin with `error:` too, and a value whose text has a NUL in it is replaced
by an error text (which no value is that came in as C strings). No other value prints with the
prefix.

## Main definitions

* `IsErrorText`: the texts with the prefix.
* `Evaluates`: what a text is evaluated to.
* `Fails`: the calls that fail.

## Main results

* `writeValue_isErrorText_iff`: the values that print with the prefix.
* `reply_isErrorText_iff`: the replies with the prefix.
-/

namespace LispHost

open Effects

/-! ### Error texts -/

/-- The text begins with `error:`. -/
def IsErrorText (text : String) : Prop := "error:".toList <+: text.toList

/-- A text that goes on behind the prefix has it. -/
theorem isErrorText_append {text : String} (h : IsErrorText text) (rest : String) :
    IsErrorText (text ++ rest) := by
  rw [IsErrorText, String.toList_append]
  exact h.trans (List.prefix_append _ _)

/-- A text that begins with another character. -/
theorem not_isErrorText {text : String} {c : Char} (hhead : text.toList.head? = some c)
    (hc : c ≠ 'e') : ¬ IsErrorText text := by
  rintro ⟨rest, heq⟩
  rw [← heq] at hhead
  exact hc (Option.some.inj hhead).symm

/-- Every error of the reader has the prefix. -/
theorem isErrorText_readErrorText (e : ReadError) : IsErrorText (readErrorText e) := by
  cases e with
  | unexpectedEof | unexpectedCloseParen | unterminatedString => exact ⟨_, rfl⟩
  | trailingInput rest => exact isErrorText_append ⟨_, rfl⟩ rest
  | arenaCapacityExceeded required capacity =>
      refine isErrorText_append (isErrorText_append (isErrorText_append ⟨_, rfl⟩ _) _) _

/-- Every error of the evaluator has the prefix. -/
theorem isErrorText_evalErrorText (e : EvalError) : IsErrorText (evalErrorText e) := by
  cases e with
  | notCallable => exact ⟨_, rfl⟩
  | unknownSymbol name => exact isErrorText_append ⟨_, rfl⟩ name
  | invalidForm message => exact isErrorText_append ⟨_, rfl⟩ message
  | typeError message => exact isErrorText_append ⟨_, rfl⟩ message
  | hostPrimitiveFailed name message =>
      exact isErrorText_append (isErrorText_append (isErrorText_append ⟨_, rfl⟩ _) _) message

/-- The text has a NUL in it. -/
def HasNul (text : String) : Prop := text.toList.any (·.toNat == 0) = true

/-- What `CString::new` makes an error text. -/
theorem isErrorText_toCString_iff (text : String) :
    IsErrorText (toCString text) ↔ IsErrorText text ∨ HasNul text := by
  rw [toCString]
  by_cases hnul : text.toList.any (·.toNat == 0) = true
  · rw [if_pos hnul]
    exact ⟨fun _ => .inr hnul, fun _ => ⟨_, rfl⟩⟩
  · rw [if_neg hnul]
    exact ⟨.inl, fun h => h.resolve_right hnul⟩

/-! ### Printed values -/

section Printed

variable (P : Platform) (arena : Arena) (symbols : SymbolTable) (boxed : BoxedTable)

/-- A symbol whose name begins with `error:`. -/
def IsErrorSymbol (word : Word) : Prop :=
  tagOf word = tagSymbol ∧ ∃ name, symbols.nameOf word = some name ∧ IsErrorText name

/-- No number has it. -/
theorem not_isErrorText_decimalText (value : Word) (rest : String) :
    ¬ IsErrorText (decimalText value ++ rest) := by
  cases htext : (decimalText value).toList with
  | nil => exact absurd htext (decimalText_ne_nil value)
  | cons c tail =>
      refine not_isErrorText (c := c) ?_ ?_
      · rw [String.toList_append, htext]
        rfl
      · rintro rfl
        have hmem : 'e' ∈ (decimalText value).toList := htext ▸ List.mem_cons_self
        rcases mem_decimalText hmem with h | h
        · exact absurd h (by decide)
        · exact absurd h (by decide)

/-- Of the words that are no pairs, only a symbol prints with the prefix. -/
theorem atomText_isErrorText_iff (word : Word) :
    IsErrorText (atomText P symbols boxed word) ↔ IsErrorSymbol symbols word := by
  by_cases hsymbol : tagOf word = tagSymbol
  · have hfixnum : tagOf word ≠ tagFixnum := by simp [hsymbol, tagSymbol, tagFixnum]
    rw [atomText, if_neg hfixnum, if_pos hsymbol]
    cases hname : symbols.nameOf word with
    | some name =>
        refine ⟨fun h => ⟨hsymbol, name, hname, h⟩, ?_⟩
        rintro ⟨-, name', hname', h⟩
        obtain rfl := Option.some.inj (hname.symm.trans hname')
        exact h
    | none =>
        refine iff_of_false (not_isErrorText (c := '#') ?_ (by decide)) ?_
        · simp only [String.toList_append]
          rfl
        · rintro ⟨-, name, hname', -⟩
          cases hname.symm.trans hname'
  · refine iff_of_false ?_ fun h => hsymbol h.1
    rw [atomText]
    by_cases hfixnum : tagOf word = tagFixnum
    · rw [if_pos hfixnum]
      simpa using not_isErrorText_decimalText (decodeFixnum word) ""
    rw [if_neg hfixnum, if_neg hsymbol]
    by_cases hboxed : tagOf word = tagBoxed
    · rw [if_pos hboxed]
      cases hentry : boxed.entry P word with
      | none =>
          refine not_isErrorText (c := '#') ?_ (by decide)
          simp only [String.toList_append]
          rfl
      | some entry =>
          obtain ⟨value, lifetime⟩ := entry
          cases value with
          | str text =>
              refine not_isErrorText (c := '"') ?_ (by decide)
              simp only [String.toList_append]
              rfl
          | gameHandle token =>
              have hhead : "#<game-handle>".toList.head? = some '#' := rfl
              exact not_isErrorText hhead (by decide)
          | rational numerator denominator =>
              simp only [String.append_assoc]
              exact not_isErrorText_decimalText numerator _
    · rw [if_neg hboxed]
      refine not_isErrorText (c := '#') ?_ (by decide)
      simp only [String.toList_append]
      rfl

/-- A walk that ends well does so in its last part. -/
theorem Walk.andThen_eq_ok {walk : Walk} {next : String → Walk} {text : String}
    (h : walk.andThen next = .ok text) : ∃ first, next first = .ok text := by
  cases walk with
  | ok first => exact ⟨first, h⟩
  | err | panic | abort | timeout => cases h

/-- **Only symbols print with the prefix.** -/
theorem writeValue_isErrorText_iff {fuel : Nat} {word : Word} {text : String}
    (h : writeValue P arena symbols boxed fuel word = .ok text) :
    IsErrorText text ↔ IsErrorSymbol symbols word := by
  have hopen : ∀ rest : String, ¬ IsErrorText ("(" ++ rest) := fun rest =>
    not_isErrorText (c := '(') (by rw [String.toList_append]; rfl) (by decide)
  cases fuel with
  | zero => cases h
  | succ fuel =>
      rw [writeValue] at h
      by_cases hnil : tagOf word = tagNil
      · rw [if_pos hnil] at h
        cases h
        refine iff_of_false (hopen ")") fun hsymbol => ?_
        exact absurd (hnil.symm.trans hsymbol.1) (by decide)
      rw [if_neg hnil] at h
      by_cases hcons : tagOf word = tagCons
      · rw [if_pos hcons] at h
        obtain ⟨items, hitems⟩ := Walk.andThen_eq_ok h
        cases hitems
        rw [String.append_assoc]
        refine iff_of_false (hopen _) fun hsymbol => ?_
        exact absurd (hcons.symm.trans hsymbol.1) (by decide)
      · rw [if_neg hcons] at h
        cases h
        exact atomText_isErrorText_iff P symbols boxed word

/-- A load does not panic. -/
theorem Walk.load_ne_panic {word : Except Exit Word} {next : Word → Walk}
    (h : ∀ value, next value ≠ .panic) : Walk.load word next ≠ .panic := by
  cases word with
  | ok value => exact h value
  | error e => rintro ⟨⟩

/-- A walk of two parts does not panic where neither part does. -/
theorem Walk.andThen_ne_panic {walk : Walk} {next : String → Walk} (h : walk ≠ .panic)
    (hnext : ∀ text, next text ≠ .panic) : walk.andThen next ≠ .panic := by
  cases walk with
  | ok text => exact hnext text
  | err e => exact e.elim
  | panic | abort | timeout => exact h

/-- **Printing does not panic.** -/
theorem write_ne_panic (fuel : Nat) :
    (∀ word, writeValue P arena symbols boxed fuel word ≠ .panic) ∧
      ∀ current first, writeTail P arena symbols boxed fuel current first ≠ .panic := by
  have hok : ∀ text : String, (.ok text : Walk) ≠ .panic := by rintro text ⟨⟩
  induction fuel with
  | zero => exact ⟨by rintro _ ⟨⟩, by rintro _ _ ⟨⟩⟩
  | succ fuel ih =>
      obtain ⟨hvalue, htail⟩ := ih
      constructor
      · intro word
        rw [writeValue]
        split
        · exact hok _
        split
        · exact Walk.andThen_ne_panic (htail word true) fun text => hok _
        · exact hok _
      · intro current first
        rw [writeTail]
        split
        · exact hok _
        split
        · refine Walk.load_ne_panic fun head => ?_
          refine Walk.andThen_ne_panic (hvalue head) fun headText => ?_
          refine Walk.load_ne_panic fun rest => ?_
          exact Walk.andThen_ne_panic (htail rest false) fun restText => hok _
        · exact Walk.andThen_ne_panic (hvalue current) fun text => hok _

end Printed

/-! ### Calls -/

section Calls

variable {σ : Type} (P : Platform)

/-- A text is read and evaluated to a value, which is printed in the machine that this
leaves. -/
inductive Evaluates (text : String) (m : Machine σ) : Word → Machine σ → Prop where
  | intro {form value : Word} {s : ReaderState} {e : EvalState σ} :
      readOne P text m.start.reader = (.ok form, s) →
      eval P (m.start.setReader s).context evalFuel form (m.start.setReader s).evalState =
        (.ok value, e) →
      Evaluates text m value ((m.start.setReader s).setEvalState e)

/-- Reading or evaluating fails, or panics; or there is no text to read. -/
inductive Fails (m : Machine σ) : SourceArg → Prop where
  | null : Fails m .null
  | notUtf8 : Fails m .notUtf8
  | readError {text : String} {e : ReadError} {s : ReaderState} :
      readOne P text m.start.reader = (.err e, s) → Fails m (.text text)
  | readPanic {text : String} {s : ReaderState} :
      readOne P text m.start.reader = (.panic, s) → Fails m (.text text)
  | evalError {text : String} {form : Word} {s : ReaderState} {e : EvalError}
      {s' : EvalState σ} :
      readOne P text m.start.reader = (.ok form, s) →
      eval P (m.start.setReader s).context evalFuel form (m.start.setReader s).evalState =
        (.err e, s') → Fails m (.text text)
  | evalPanic {text : String} {form : Word} {s : ReaderState} {s' : EvalState σ} :
      readOne P text m.start.reader = (.ok form, s) →
      eval P (m.start.setReader s).context evalFuel form (m.start.setReader s).evalState =
        (.panic, s') → Fails m (.text text)

variable {P}

/-- A text that evaluates to a value does not fail. -/
theorem Evaluates.not_fails {text : String} {m m' : Machine σ} {value : Word}
    (h : Evaluates P text m value m') : ¬ Fails P m (.text text) := by
  obtain ⟨hread, heval⟩ := h
  intro hfails
  cases hfails with
  | readError hread' | readPanic hread' => cases hread.symm.trans hread'
  | evalError hread' heval' | evalPanic hread' heval' =>
      cases hread.symm.trans hread'
      cases heval.symm.trans heval'

/-- A text has one value. -/
theorem Evaluates.unique {text : String} {m m₁ m₂ : Machine σ} {value₁ value₂ : Word}
    (h₁ : Evaluates P text m value₁ m₁) (h₂ : Evaluates P text m value₂ m₂) :
    value₁ = value₂ ∧ m₁ = m₂ := by
  obtain ⟨hread₁, heval₁⟩ := h₁
  obtain ⟨hread₂, heval₂⟩ := h₂
  cases hread₁.symm.trans hread₂
  cases heval₁.symm.trans heval₂
  exact ⟨rfl, rfl⟩

/-- What a call that returns did: it failed and says so, or it returns the printed text of
the value of its source. -/
theorem reply_cases {m : Machine σ} {source : SourceArg} {message : String}
    (h : (wsmEvalString P source m).1 = .ok message) :
    (Fails P m source ∧ IsErrorText message) ∨
      ∃ text value m' printed, source = .text text ∧ Evaluates P text m value m' ∧
        valueToString P m'.arena m'.session.symbols m'.session.boxed value = .ok printed ∧
        message = toCString printed := by
  have herror : ∀ text, IsErrorText text → IsErrorText (toCString text) := fun text htext =>
    (isErrorText_toCString_iff text).mpr (.inl htext)
  cases source with
  | null =>
      cases h
      exact .inl ⟨.null, herror _ ⟨_, rfl⟩⟩
  | notUtf8 =>
      cases h
      exact .inl ⟨.notUtf8, herror _ ⟨_, rfl⟩⟩
  | text text =>
      rw [wsmEvalString] at h
      beta_reduce at h
      rw [evalStr_eq] at h
      rcases hread : readOne P text m.start.reader with ⟨o, s⟩
      rw [hread] at h
      cases o with
      | err e =>
          cases h
          exact .inl ⟨.readError hread, herror _ (isErrorText_readErrorText e)⟩
      | panic =>
          cases h
          exact .inl ⟨.readPanic hread, herror _ ⟨_, rfl⟩⟩
      | abort | timeout => cases h
      | ok form =>
          rw [afterRead, evalPrint_eq] at h
          rcases heval : eval P (m.start.setReader s).context evalFuel form
            (m.start.setReader s).evalState with ⟨o, s'⟩
          rw [heval] at h
          cases o with
          | err e =>
              cases h
              exact .inl ⟨.evalError hread heval, herror _ (isErrorText_evalErrorText e)⟩
          | panic =>
              cases h
              exact .inl ⟨.evalPanic hread heval, herror _ ⟨_, rfl⟩⟩
          | abort | timeout => cases h
          | ok value =>
              rw [afterEval] at h
              set m' := (m.start.setReader s).setEvalState s' with hm'
              cases hvalue : valueToString P m'.arena m'.session.symbols m'.session.boxed value with
              | ok printed =>
                  have hprint : printWord P value m' = (.ok printed, m') :=
                    Prod.ext hvalue rfl
                  rw [Program.bind_ok hprint] at h
                  cases h
                  exact .inr ⟨text, value, m', printed, rfl, ⟨hread, heval⟩, hvalue, rfl⟩
              | err e => exact e.elim
              | panic => exact absurd hvalue ((write_ne_panic P _ _ _ _).1 value)
              | abort r =>
                  have hprint : printWord P value m' = (.abort r, m') := Prod.ext hvalue rfl
                  rw [Program.bind_abort hprint] at h
                  cases h
              | timeout =>
                  have hprint : printWord P value m' = (.timeout, m') := Prod.ext hvalue rfl
                  rw [Program.bind_timeout hprint] at h
                  cases h

/-- **The replies that begin with `error:`.** A call that returns, in any session and on any
source, replies with such a text exactly if it failed, or its source evaluates to a symbol
whose name begins so, or to a value whose printed text has a NUL in it. Behind calls of the C
interface alone the last case does not occur: the texts, the names and the strings that come in
through it are C strings, so no symbol and no string has a NUL to print; the model takes any text. -/
theorem reply_isErrorText_iff {m : Machine σ} {source : SourceArg} {message : String}
    (h : (wsmEvalString P source m).1 = .ok message) :
    IsErrorText message ↔ Fails P m source ∨
      ∃ text value m', source = .text text ∧ Evaluates P text m value m' ∧
        (IsErrorSymbol m'.session.symbols value ∨
          ∃ printed, valueToString P m'.arena m'.session.symbols m'.session.boxed value =
            .ok printed ∧ HasNul printed) := by
  obtain ⟨hfails, herror⟩ | ⟨text, value, m', printed, rfl, hvalue, hprinted, rfl⟩ := reply_cases h
  · exact iff_of_true herror (.inl hfails)
  rw [isErrorText_toCString_iff, writeValue_isErrorText_iff P _ _ _ hprinted]
  constructor
  · rintro (hsymbol | hnul)
    · exact .inr ⟨text, value, m', rfl, hvalue, .inl hsymbol⟩
    · exact .inr ⟨text, value, m', rfl, hvalue, .inr ⟨printed, hprinted, hnul⟩⟩
  · rintro (hfails | ⟨text', value', m'', htext, hvalue', hcases⟩)
    · exact absurd hfails hvalue.not_fails
    · obtain rfl := SourceArg.text.inj htext
      obtain ⟨rfl, rfl⟩ := hvalue.unique hvalue'
      refine hcases.imp id ?_
      rintro ⟨printed', hprinted', hnul⟩
      exact Outcome.ok.inj (hprinted.symm.trans hprinted') ▸ hnul

/-- A text that ends inside a list fails, and the reply says so. -/
theorem reply_isErrorText_unclosed :
    (wsmEvalString .standard (.text "(") (playerMachine 1)).1 =
        .ok "error: unexpected end of input" ∧
      IsErrorText "error: unexpected end of input" := by
  have hreply : (wsmEvalString .standard (.text "(") (playerMachine 1)).1 =
      .ok "error: unexpected end of input" := rfl
  exact ⟨hreply, (reply_isErrorText_iff hreply).mpr (.inl (.readError rfl))⟩

/-! ### A symbol named like an error -/

/-- Evaluating a quoted form is taking it as it stands. -/
theorem Sexp.Held.eval_quote {s : ReaderState} {label label' label'' : Word} {name : String}
    {argument : Sexp Word}
    (h : (Sexp.pair label (.symbol label' name) (.pair label'' argument .nil)).Held P s)
    (hcond : P.condSpellings.contains name = false)
    (hquote : P.quoteSpellings.contains name = true) {primitives : Primitives σ}
    (hprimitives : primitives.NonCons) {st : EvalState σ}
    (hbindings : st.world.bindings.NonCons) :
    ∃ st', LispHost.eval P ⟨s.arena, s.symbols, primitives⟩ evalFuel label st =
      (.ok argument.word, st') := by
  have hreference : refEval P primitives
      (.pair label (.symbol label' name) (.pair label'' argument .nil)) st =
        (.ok (.datum argument), st) := by
    rw [refEval, if_neg (by simp only [hcond, Bool.false_eq_true, not_false_eq_true]),
      if_pos hquote]
    rfl
  obtain ⟨-, hagree, -⟩ := h.eval hprimitives hbindings le_rfl
  rw [hreference] at hagree
  change Outcome.Agree _ (LispHost.eval P _ evalFuel label st).1 _ at hagree
  rcases hrun : LispHost.eval P ⟨s.arena, s.symbols, primitives⟩ evalFuel label st with ⟨o, st'⟩
  rw [hrun] at hagree
  cases hagree with
  | ok hvalue => exact ⟨st', by rw [← hvalue.1]; rfl⟩

/-- **A quoted symbol is returned.** Where the text of a quoted symbol is accepted, it
evaluates to that symbol. -/
theorem evaluates_quoted_symbol {text name quote : String} {tokens : List Token}
    {m : Machine σ} {form : Word} {s : ReaderState}
    (htokens : tokenize text = .ok tokens)
    (hparses : Parses .form tokens (.pair () (.symbol () quote)
      (.pair () (.symbol () name) .nil)) [])
    (hread : readOne P text m.start.reader = (.ok form, s))
    (hcond : P.condSpellings.contains quote = false)
    (hquote : P.quoteSpellings.contains quote = true)
    (hprimitives : m.session.primitives.NonCons) (hbindings : m.session.bindings.NonCons) :
    ∃ value m', Evaluates P text m value m' ∧ tagOf value = tagSymbol ∧
      m'.session.symbols.nameOf value = some name := by
  obtain ⟨tokens', d, htokens', hparses', rfl, hheld⟩ := held_of_readOne hread
  cases htokens.symm.trans htokens'
  obtain ⟨herase, -⟩ := hparses'.unique hparses
  obtain ⟨label, head, tail, rfl, hhead, htail⟩ := Sexp.erase_eq_pair herase
  obtain ⟨label', rfl⟩ := Sexp.erase_eq_symbol hhead
  obtain ⟨label'', argument, rest, rfl, hargument, hrest⟩ := Sexp.erase_eq_pair htail
  obtain ⟨word, rfl⟩ := Sexp.erase_eq_symbol hargument
  obtain rfl := Sexp.erase_eq_nil hrest
  have hstart : (m.start.setReader s).evalState.world.bindings.NonCons := hbindings
  obtain ⟨st, heval⟩ := hheld.eval_quote hcond hquote hprimitives hstart
  obtain ⟨-, -, -, ⟨htag, hname⟩, -⟩ := hheld.represents
  exact ⟨word, _, ⟨hread, heval⟩, htag, hname⟩

/-- **A success that replies like a failure**: a quoted symbol whose name begins with the
prefix. -/
theorem reply_quoted_error :
    ∃ message, (wsmEvalString .standard (.text "(quote error:x)") (playerMachine 1)).1 =
        .ok message ∧
      IsErrorText message ∧ ¬ Fails .standard (playerMachine 1) (.text "(quote error:x)") := by
  have hprimitives : (playerMachine 1).session.primitives.NonCons := .single "f" (by decide)
  have hbindings : (playerMachine 1).session.bindings.NonCons := .singleton "player" (by decide)
  have htokens : tokenize "(quote error:x)" =
      .ok [.open, .atom "quote", .atom "error:x", .close] := rfl
  have hparses : Parses .form [.open, .atom "quote", .atom "error:x", .close]
      (.pair () (.symbol () "quote") (.pair () (.symbol () "error:x") .nil)) [] :=
    .list (.item (.atom "quote" _) (.item (.atom "error:x" _) (.close [])))
  have hcells : (Sexp.pair () (.symbol () "quote")
      (.pair () (.symbol () "error:x") .nil)).cells ≤ arenaCells := by decide
  have hroom : (playerMachine 1).start.reader.Room "(quote error:x)".toList.length :=
    ⟨by decide, by decide⟩
  have hread : ∃ form s, readOne .standard "(quote error:x)" (playerMachine 1).start.reader =
      (.ok form, s) := by
    obtain hread | habort := @readOne_of_acceptable .standard (playerMachine 1).start.reader
      "(quote error:x)" rfl ⟨_, _, tokenize_eq_ok_iff.mp htokens, hparses, hcells⟩
    · exact hread
    · exact absurd habort (readOne_ne_allocation .standard rfl hroom)
  obtain ⟨form, s, hread⟩ := hread
  obtain ⟨value, m', hvalue, htag, hname⟩ :=
    evaluates_quoted_symbol htokens hparses hread rfl rfl hprimitives hbindings
  obtain ⟨message, hmessage⟩ := @wsmEvalString_returns_text _ .standard (playerMachine 1)
    hprimitives hbindings (.single "f" (by rintro ⟨⟩)) _ _ _ htokens hparses
    ⟨by decide, by decide⟩
  refine ⟨message, hmessage, ?_, hvalue.not_fails⟩
  obtain ⟨hfails, -⟩ | ⟨text, value', m'', printed, htext, hvalue', hprinted, rfl⟩ :=
    reply_cases hmessage
  · exact absurd hfails hvalue.not_fails
  · obtain rfl := SourceArg.text.inj htext
    obtain ⟨rfl, rfl⟩ := hvalue.unique hvalue'
    rw [isErrorText_toCString_iff, writeValue_isErrorText_iff .standard _ _ _ hprinted]
    exact .inl ⟨htag, "error:x", hname, _, rfl⟩

end Calls

end LispHost
