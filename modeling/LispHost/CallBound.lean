import LispHost.Lib.Cost
import LispHost.Calls
import LispHost.Returns
import LispHost.Tokens

/-!
# How Often the Host Is Called

The language has no loop and no recursion, and evaluates no form twice: each list of a source text
is a call of a host primitive at most once. A result of the host is not evaluated, and neither is a
binding, not even where it is the word of a quoted list. So the parentheses of a text bound what it
can make the host do, whatever the primitives return and whichever branch of a `cond` is taken.

## Main definitions

* `Sexp.lists`, `Sexp.listsIn`: the lists of a form, and of the rest of a list.

## Main results

* `costsAt`: evaluating a form makes no more calls than it has lists.
* `calls_le_parens`: the calls of a history of texts.
-/

namespace LispHost

open Effects

mutual

/-- The number of lists in a form. -/
def Sexp.lists {α : Type} : Sexp α → Nat
  | .pair _ head tail => head.lists + tail.listsIn + 1
  | _ => 0

/-- The number of lists in the rest of a list. -/
def Sexp.listsIn {α : Type} : Sexp α → Nat
  | .pair _ head tail => head.lists + tail.listsIn
  | _ => 0

end

namespace Sexp

variable {α : Type}

@[simp] theorem lists_pair (label : α) (head tail : Sexp α) :
    (pair label head tail).lists = head.lists + tail.listsIn + 1 := rfl

@[simp] theorem lists_symbol (label : α) (name : String) : (symbol label name).lists = 0 := rfl

@[simp] theorem lists_string (label : α) (text : String) : (string label text).lists = 0 := rfl

@[simp] theorem lists_nil : (nil : Sexp α).lists = 0 := rfl

@[simp] theorem listsIn_pair (label : α) (head tail : Sexp α) :
    (pair label head tail).listsIn = head.lists + tail.listsIn := rfl

@[simp] theorem listsIn_nil : (nil : Sexp α).listsIn = 0 := rfl

/-- A tree has at most one list more than there are in it. -/
theorem lists_le (tree : Sexp α) : tree.lists ≤ tree.listsIn + 1 := by
  cases tree with
  | pair => exact le_rfl
  | _ => exact Nat.zero_le _

/-- The labels do not matter. -/
theorem lists_erase (tree : Sexp α) :
    tree.erase.lists = tree.lists ∧ tree.erase.listsIn = tree.listsIn := by
  induction tree with
  | pair label head tail ihh iht =>
      simp only [erase, lists_pair, listsIn_pair, ihh.1, iht.2, and_self]
  | _ => exact ⟨rfl, rfl⟩

/-- An atom has no list. -/
@[simp] theorem lists_atomSexp (atom : String) : (atomSexp atom).lists = 0 := by
  rw [atomSexp]
  split
  · rfl
  · split <;> rfl

end Sexp

variable {σ : Type} {P : Platform} {primitives : Primitives σ}

/-- The calls made so far. -/
def EvalState.callCount (s : EvalState σ) : Nat := s.calls.length

/-! ### Forms -/

section Forms

variable {s : ReaderState}

/-- Looking a symbol up calls nothing. -/
theorem evalSymbol_costs (Γ : EvalContext σ) (word : Word) :
    Costs EvalState.callCount 0 (evalSymbol Γ word) := by
  intro st
  rw [evalSymbol]
  split
  · exact le_rfl
  · split
    · exact le_rfl
    · split <;> exact le_rfl

/-- A raw accessor calls nothing. -/
theorem load_costs (word : Except Exit Word) :
    Costs EvalState.callCount 0 (load (σ := σ) word) := by
  cases word with
  | ok word => exact .pure word
  | error exit => exact .abort exit

/-- A call of a primitive is one call, whatever the primitive does and returns. -/
theorem callPrimitive_costs (name : String) (args : List Word) :
    Costs EvalState.callCount 1 (callPrimitive primitives name args) := by
  intro st
  cases hprimitive : primitives name with
  | none =>
      rw [callPrimitive_of_none hprimitive]
      exact Nat.le_succ _
  | some primitive =>
      rw [callPrimitive_of_some hprimitive]
      exact List.length_append.le

/-- What is shown about the five functions at one amount of fuel, on the trees of the heap. -/
structure CostsAt (P : Platform) (primitives : Primitives σ) (s : ReaderState) (fuel : Nat) :
    Prop where
  eval : ∀ d : Sexp Word, d.Held P s →
    Costs EvalState.callCount d.lists (eval P ⟨s.arena, s.symbols, primitives⟩ fuel d.word)
  list : ∀ label head tail, (Sexp.pair label head tail).Held P s →
    Costs EvalState.callCount (Sexp.pair label head tail).lists
      (evalList P ⟨s.arena, s.symbols, primitives⟩ fuel label)
  accessor : ∀ (d : Sexp Word) name access, d.Held P s →
    Costs EvalState.callCount d.listsIn
      (evalCheckedAccessor P ⟨s.arena, s.symbols, primitives⟩ fuel d.word name access)
  args : ∀ d : Sexp Word, d.Held P s → d.IsList →
    Costs EvalState.callCount d.listsIn
      (evalArgs P ⟨s.arena, s.symbols, primitives⟩ fuel d.word)
  cond : ∀ d : Sexp Word, d.Held P s → d.IsList →
    Costs EvalState.callCount d.listsIn
      (evalCond P ⟨s.arena, s.symbols, primitives⟩ fuel d.word)

namespace CostsAt

variable {fuel : Nat} (ih : CostsAt P primitives s fuel)

include ih

/-- A form. Only a list calls anything. -/
theorem eval_succ (d : Sexp Word) (h : d.Held P s) :
    Costs EvalState.callCount d.lists
      (LispHost.eval P ⟨s.arena, s.symbols, primitives⟩ (fuel + 1) d.word) := by
  rw [LispHost.eval, h.represents.tagOf_word]
  cases d with
  | fixnum | string | nil =>
      rw [Sexp.tag, if_pos (by decide)]
      exact .pure _
  | symbol label name =>
      rw [Sexp.tag, if_neg (by decide), if_pos rfl]
      exact evalSymbol_costs _ _
  | pair label head tail =>
      rw [Sexp.tag, if_neg (by decide), if_neg (by decide), if_pos rfl]
      exact ih.list label head tail h

/-- A list: the call that it makes itself, and the calls of what it evaluates. -/
theorem list_succ (label : Word) (head tail : Sexp Word)
    (h : (Sexp.pair label head tail).Held P s) :
    Costs EvalState.callCount (Sexp.pair label head tail).lists
      (evalList P ⟨s.arena, s.symbols, primitives⟩ (fuel + 1) label) := by
  obtain ⟨htail, hlist⟩ := h.tail
  have hcalls : tail.listsIn + 1 ≤ (Sexp.pair label head tail).lists := by
    rw [Sexp.lists_pair]
    omega
  have hbelow : tail.listsIn ≤ (Sexp.pair label head tail).lists := Nat.le_of_succ_le hcalls
  rw [evalList, h.represents.accessors.1, h.represents.accessors.2]
  change Costs _ _ (if tagOf head.word ≠ tagSymbol then _ else _)
  split
  · exact .throw _
  · split
    · exact .panic
    · split
      · exact (ih.cond tail htail hlist).mono hbelow
      split
      · rw [singleArgument_eq tail "quote" htail]
        split
        · exact .pure _
        · exact .throw _
      split
      · exact (ih.accessor tail _ _ htail).mono hbelow
      split
      · exact (ih.accessor tail _ _ htail).mono hbelow
      · exact ((ih.args tail htail hlist).bind fun args =>
          callPrimitive_costs _ args).mono hcalls

/-- `car` and `cdr`: the calls of their argument. -/
theorem accessor_succ (d : Sexp Word) (name : String) (access : Word → Except Exit Word)
    (h : d.Held P s) :
    Costs EvalState.callCount d.listsIn
      (evalCheckedAccessor P ⟨s.arena, s.symbols, primitives⟩ (fuel + 1) d.word name access) := by
  rw [evalCheckedAccessor, singleArgument_eq d name h]
  split
  · rename_i label argument
    rw [Sexp.listsIn_pair, Sexp.listsIn_nil]
    change Costs _ _ (LispHost.eval P _ fuel argument.word >>= _)
    refine (ih.eval argument h.head).bind fun value => ?_
    split
    · exact .throw _
    · exact load_costs _
  · exact .throw _

/-- The arguments: each is evaluated once. -/
theorem args_succ (d : Sexp Word) (h : d.Held P s) (hlist : d.IsList) :
    Costs EvalState.callCount d.listsIn
      (evalArgs P ⟨s.arena, s.symbols, primitives⟩ (fuel + 1) d.word) := by
  rw [evalArgs]
  cases d with
  | fixnum | symbol | string => exact hlist.elim
  | nil =>
      rw [Sexp.word, if_pos rfl]
      exact .pure _
  | pair label item rest =>
      have hne : label ≠ wordNil := fun hnil =>
        absurd (h.represents.word_eq_wordNil hnil) (by simp)
      rw [Sexp.word, if_neg hne, h.represents.accessors.1, h.represents.accessors.2,
        Sexp.listsIn_pair]
      change Costs _ _ (LispHost.eval P _ fuel item.word >>= _)
      refine (ih.eval item h.head).bind fun value => ?_
      exact (ih.args rest h.tail.1 h.tail.2).bind (n := 0) fun values => .pure _

/-- The clauses: a test is evaluated once, and then its body or the clauses behind it. -/
theorem cond_succ (d : Sexp Word) (h : d.Held P s) (hlist : d.IsList) :
    Costs EvalState.callCount d.listsIn
      (evalCond P ⟨s.arena, s.symbols, primitives⟩ (fuel + 1) d.word) := by
  rw [evalCond]
  cases d with
  | fixnum | symbol | string => exact hlist.elim
  | nil =>
      rw [Sexp.word, if_pos rfl]
      exact .pure _
  | pair label clause rest =>
      have hne : label ≠ wordNil := fun hnil =>
        absurd (h.represents.word_eq_wordNil hnil) (by simp)
      rw [Sexp.word, if_neg hne, show tagOf label = tagCons from h.represents.tagOf_word,
        if_neg (not_not_intro rfl), h.represents.accessors.1, h.represents.accessors.2]
      change Costs _ _ (condClause P ⟨s.arena, s.symbols, primitives⟩ clause.word >>= _)
      rw [condClause_eq clause h.head]
      split
      · rename_i label' test label'' body
        have hclause := h.head
        rw [Sexp.listsIn_pair, Sexp.lists_pair, Sexp.listsIn_pair, Sexp.listsIn_nil,
          Nat.add_zero]
        change Costs _ _ (LispHost.eval P _ fuel test.word >>= _)
        refine ((ih.eval test hclause.head).bind (n := body.lists + rest.listsIn)
          fun value => ?_).mono (by omega)
        split
        · exact (ih.eval body hclause.tail.1.head).mono (Nat.le_add_right _ _)
        · exact (ih.cond rest h.tail.1 h.tail.2).mono (Nat.le_add_left _ _)
      · exact .throw _

end CostsAt

/-- **A form is a budget.** With any fuel, evaluating the word of a form calls the host at most
once for each of its lists: what a primitive returns and what a name is bound to is a value, and
is never evaluated as a form. -/
theorem costsAt (P : Platform) (primitives : Primitives σ) (s : ReaderState) (fuel : Nat) :
    CostsAt P primitives s fuel := by
  induction fuel with
  | zero =>
      exact
        { eval := fun _ _ => .timeout
          list := fun _ _ _ _ => .timeout
          accessor := fun _ _ _ _ => .timeout
          args := fun _ _ _ => .timeout
          cond := fun _ _ _ => .timeout }
  | succ fuel ih =>
      exact ⟨ih.eval_succ, ih.list_succ, ih.accessor_succ, ih.args_succ, ih.cond_succ⟩

end Forms

/-! ### Texts -/

/-- The opening parentheses among tokens. -/
def opens (tokens : List Token) : Nat := tokens.count .open

/-- The lists of a form are opened by its tokens. -/
theorem Parses.lists_le {n : Nonterminal} {tokens rest : List Token} {tree : Sexp Unit}
    (h : Parses n tokens tree rest) :
    (n = .form → tree.lists + opens rest ≤ opens tokens) ∧
      (n = .items → tree.listsIn + opens rest ≤ opens tokens) := by
  induction h with
  | atom text rest =>
      refine ⟨fun _ => ?_, by rintro ⟨⟩⟩
      rw [Sexp.lists_atomSexp, Nat.zero_add, opens, opens, List.count_cons_of_ne (by rintro ⟨⟩)]
  | str text rest =>
      refine ⟨fun _ => ?_, by rintro ⟨⟩⟩
      rw [Sexp.lists_string, Nat.zero_add, opens, opens, List.count_cons_of_ne (by rintro ⟨⟩)]
  | @list tokens rest tree _ ih =>
      refine ⟨fun _ => ?_, by rintro ⟨⟩⟩
      have hitems := ih.2 rfl
      have hlist := tree.lists_le
      rw [opens, opens] at hitems
      rw [opens, opens, List.count_cons_self]
      omega
  | close rest =>
      refine ⟨by rintro ⟨⟩, fun _ => ?_⟩
      rw [Sexp.listsIn_nil, Nat.zero_add, opens, opens, List.count_cons_of_ne (by rintro ⟨⟩)]
  | item _ _ ihhead ihtail =>
      refine ⟨by rintro ⟨⟩, fun _ => ?_⟩
      have hhead := ihhead.1 rfl
      have htail := ihtail.2 rfl
      rw [Sexp.listsIn_pair]
      omega

/-- What is behind a literal is the end of the text. -/
theorem suffix_of_takeString {chars value rest : List Char}
    (h : takeString chars = some (value, rest)) : rest <:+ chars := by
  induction chars using takeString_cases generalizing value with
  | nil => cases h
  | quote tail =>
      obtain ⟨-, rfl⟩ := Prod.mk.inj (Option.some.inj h)
      exact List.suffix_cons _ _
  | backslash => cases h
  | escape c tail ih =>
      obtain ⟨value', htail, -⟩ := takeString_escape_iff.mp h
      exact (ih htail).trans ((List.suffix_cons _ _).trans (List.suffix_cons _ _))
  | char c tail hquote hbackslash ih =>
      obtain ⟨value', htail, -⟩ := (takeString_char_iff hquote hbackslash).mp h
      exact (ih htail).trans (List.suffix_cons _ _)

/-- A token that opens a list is a parenthesis of the text. -/
theorem opens_le {chars : List Char} {tokens : List Token} (h : lex chars = .ok tokens) :
    opens tokens ≤ chars.count '(' := by
  replace h := lexes_of_lex h
  induction h with
  | nil => exact le_rfl
  | whitespace _ _ ih => exact ih.trans (List.count_le_count_cons)
  | «open» _ ih =>
      rw [opens, List.count_cons_self, List.count_cons_self]
      exact Nat.succ_le_succ ih
  | close _ ih =>
      rw [opens, List.count_cons_of_ne (by rintro ⟨⟩)]
      exact ih.trans List.count_le_count_cons
  | string hstring _ ih =>
      rw [opens, List.count_cons_of_ne (by rintro ⟨⟩)]
      exact ih.trans (((suffix_of_takeString hstring).sublist.count_le _).trans
        List.count_le_count_cons)
  | atom _ _ ih =>
      rw [opens, List.count_cons_of_ne (by rintro ⟨⟩)]
      exact ih.trans ((List.dropWhile_sublist _).count_le _)

/-- The opening parentheses of a source. -/
def SourceArg.parens : SourceArg → Nat
  | .text source => source.toList.count '('
  | _ => 0

/-- The calls that evaluating and printing a form makes are those that evaluating it makes. -/
theorem calls_evalPrint (word : Word) (m : Machine σ) :
    ((evalPrint P word >>= finish) m).2.calls =
      (eval P m.context evalFuel word m.evalState).2.calls := by
  rw [evalPrint_eq]
  rcases eval P m.context evalFuel word m.evalState with ⟨o, s⟩
  cases o with
  | ok value =>
      rw [afterEval]
      rcases hprint : printWord P value (m.setEvalState s) with ⟨o, m'⟩
      obtain rfl : m.setEvalState s = m' := congrArg Prod.snd hprint
      cases o with
      | ok text =>
          rw [Program.bind_ok hprint]
          rfl
      | err e => exact e.elim
      | panic => rw [Program.bind_panic hprint]; rfl
      | abort r => rw [Program.bind_abort hprint]; rfl
      | timeout => rw [Program.bind_timeout hprint]; rfl
  | _ => rfl

/-- **One text.** -/
theorem calls_evalStr (text : String) (m : Machine σ) :
    (evalStr P text m).2.calls.length ≤ m.calls.length + text.toList.count '(' := by
  rw [evalStr_eq]
  rcases hread : readOne P text m.start.reader with ⟨o, s⟩
  cases o with
  | ok word =>
      obtain ⟨tokens, d, htokens, hparses, rfl, hheld⟩ := held_of_readOne hread
      have hcost := (costsAt P m.session.primitives s evalFuel).eval d hheld
        (m.start.setReader s).evalState
      have hlists := hparses.lists_le.1 rfl
      rw [d.lists_erase.1] at hlists
      have hparens := opens_le htokens
      change ((evalPrint P d.word >>= finish) (m.start.setReader s)).2.calls.length ≤ _
      rw [calls_evalPrint]
      change _ ≤ m.calls.length + d.lists at hcost
      exact hcost.trans (by omega)
  | _ => exact Nat.le_add_right _ _

/-- One call of `wsm_eval_string`. -/
theorem calls_wsmEvalString (source : SourceArg) (m : Machine σ) :
    (wsmEvalString P source m).2.calls.length ≤ m.calls.length + source.parens := by
  cases source with
  | null | notUtf8 => exact Nat.le_add_right _ _
  | text text =>
      rw [wsmEvalString_text_snd]
      exact calls_evalStr text m

/-- **Parentheses bound the calls of the host.** A history of texts makes no more calls of host
primitives than it has opening parentheses, whatever the primitives answer and whatever names are
bound to. -/
theorem calls_le_parens (P : Platform) (m : Machine σ) (sources : List SourceArg) :
    (afterCalls P sources m).calls.length ≤
      m.calls.length + (sources.map SourceArg.parens).sum := by
  induction sources generalizing m with
  | nil => exact le_rfl
  | cons source sources ih =>
      have hfirst := calls_wsmEvalString (P := P) source m
      have hrest := ih (wsmEvalString P source m).2
      rw [List.map_cons, List.sum_cons]
      change (afterCalls P sources (wsmEvalString P source m).2).calls.length ≤ _
      omega

/-- A process with one primitive, which hands its first argument back. -/
def echoMachine : Machine Unit :=
  .init (.init (.single "f" {
    call := fun args world => (.ok (args.headD wordNil), world)
    boxed_le := fun _ world => BoxedTable.le_refl world.boxed
    bindings_suffix := fun _ world => List.suffix_refl world.bindings }) []) ()

/-- The list that a primitive hands back is not evaluated: the bound of three is kept by one
call. -/
theorem calls_le_parens_echo :
    (afterCalls .standard [.text "(f (quote (f 7)))"] echoMachine).calls.length ≤ 0 + (3 + 0) ∧
      (afterCalls .standard [.text "(f (quote (f 7)))"] echoMachine).calls.length = 1 :=
  ⟨calls_le_parens .standard echoMachine [.text "(f (quote (f 7)))"], by decide +kernel⟩

end LispHost
