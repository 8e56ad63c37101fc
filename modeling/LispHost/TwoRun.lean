import LispHost.Session

/-!
# The Runtime in Two-Run Logic

The reader, the evaluator and the printer only move words around: they look at tags, at
`()`, at the names of symbols and at the texts of boxed values, and at nothing else of a
word. This module states that once. Each structure lists what a relation between the words
of two runs has to respect, and the theorem below it says that the two runs then go in
lockstep.

## Main definitions

* `ReaderSim`, `EvalSim`, `PrinterSim`: relations between two runs that the reader, the
  evaluator and the printer respect.

## Main results

* `ReaderSim.readOne`: the same text is read alike in both runs.
* `EvalSim.eval`: related words are evaluated alike.
* `PrinterSim.writeValue`: related words are printed alike.
-/

namespace LispHost

open Effects

variable {σ τ : Type}

/-! ### The reader -/

/-- Relations between the states and the words of two runs that the reader respects. -/
structure ReaderSim (P : Platform) (X : Exit → Prop) {ι : Type} [Preorder ι]
    (S : ι → ReaderState → ReaderState → Prop) (V : ι → Word → Word → Prop) : Prop where
  value_mono : ∀ {i j : ι} {v w : Word}, i ≤ j → V i v w → V j v w
  nil : ∀ i, V i wordNil wordNil
  fixnum : ∀ i n, V i (encodeFixnum n) (encodeFixnum n)
  intern : ∀ i name, Lockstep X S V i (internSymbol name) (internSymbol name)
  string : ∀ i text, Lockstep X S V i (addStringLiteral P text) (addStringLiteral P text)
  cons : ∀ i {head head' tail tail' : Word}, V i head head' → V i tail tail' →
    Lockstep X S V i (wsmCons P head tail) (wsmCons P head' tail')

namespace ReaderSim

variable {P : Platform} {X : Exit → Prop} {ι : Type} [Preorder ι]
  {S : ι → ReaderState → ReaderState → Prop} {V : ι → Word → Word → Prop}
  (R : ReaderSim P X S V)

include R

/-- An atom is read in lockstep. -/
theorem atomToWord (i : ι) (atom : String) :
    Lockstep X S V i (atomToWord atom) (atomToWord atom) := by
  rw [LispHost.atomToWord]
  split
  · exact .pure fun j _ => R.nil j
  · cases parseI64 atom with
    | some n => exact .pure fun j _ => R.fixnum j n
    | none => exact R.intern i atom

/-- What is related about two results of the parser: the words, and the positions are
equal. -/
def Parsed (V : ι → Word → Word → Prop) (k : ι) (r r' : Word × Nat) : Prop :=
  V k r.1 r'.1 ∧ r.2 = r'.2

/-- One fuel step of the parser on a form. -/
theorem parseForm_succ {tokens : List Token} {fuel : Nat}
    (hlist : ∀ i pos, Lockstep X S (Parsed V) i (parseList P tokens fuel pos)
      (parseList P tokens fuel pos)) (i : ι) (pos : Nat) :
    Lockstep X S (Parsed V) i (parseForm P tokens (fuel + 1) pos)
      (parseForm P tokens (fuel + 1) pos) := by
  cases htoken : tokens[pos]? with
  | none =>
      rw [parseForm_eof P fuel htoken]
      exact .throw _
  | some token =>
      cases token with
      | close =>
          rw [parseForm_close P fuel htoken]
          exact .throw _
      | «open» =>
          rw [parseForm_open P fuel htoken]
          exact hlist i _
      | atom text =>
          rw [parseForm_atom P fuel htoken]
          exact (R.atomToWord i text).bind fun j _ a b hab =>
            .pure fun k hjk => ⟨R.value_mono hjk hab, rfl⟩
      | str text =>
          rw [parseForm_str P fuel htoken]
          exact (R.string i text).bind fun j _ a b hab =>
            .pure fun k hjk => ⟨R.value_mono hjk hab, rfl⟩

/-- One fuel step of the parser on the elements of a list. -/
theorem parseList_succ {tokens : List Token} {fuel : Nat}
    (hform : ∀ i pos, Lockstep X S (Parsed V) i (parseForm P tokens fuel pos)
      (parseForm P tokens fuel pos))
    (hlist : ∀ i pos, Lockstep X S (Parsed V) i (parseList P tokens fuel pos)
      (parseList P tokens fuel pos)) (i : ι) (pos : Nat) :
    Lockstep X S (Parsed V) i (parseList P tokens (fuel + 1) pos)
      (parseList P tokens (fuel + 1) pos) := by
  cases htoken : tokens[pos]? with
  | none =>
      rw [parseList_eof P fuel htoken]
      exact .throw _
  | some token =>
      by_cases hclose : token = .close
      · subst hclose
        rw [parseList_close P fuel htoken]
        exact .pure fun j _ => ⟨R.nil j, rfl⟩
      · rw [parseList_item P fuel htoken hclose]
        refine (hform i pos).bind fun j _ head head' hhead => ?_
        rw [← hhead.2]
        refine (hlist j head.2).bind fun k hjk tail tail' htail => ?_
        refine (R.cons k (R.value_mono hjk hhead.1) htail.1).bind
          fun l _ word word' hword => ?_
        exact .pure fun m hlm => ⟨R.value_mono hlm hword, htail.2⟩

/-- **The reader runs in lockstep** where its three allocations do. -/
theorem parse (tokens : List Token) (fuel : Nat) :
    (∀ i pos, Lockstep X S (Parsed V) i (parseForm P tokens fuel pos)
        (parseForm P tokens fuel pos)) ∧
      ∀ i pos, Lockstep X S (Parsed V) i (parseList P tokens fuel pos)
        (parseList P tokens fuel pos) := by
  induction fuel with
  | zero =>
      constructor
      · intro i pos
        rw [parseForm]
        exact .timeout
      · intro i pos
        rw [parseList]
        exact .timeout
  | succ fuel ih =>
      obtain ⟨hform, hlist⟩ := ih
      exact ⟨R.parseForm_succ hlist, R.parseList_succ hform hlist⟩

/-- **The same text is read alike in both runs.** -/
theorem readOne (i : ι) (text : String) :
    Lockstep X S V i (readOne P text) (readOne P text) := by
  rw [LispHost.readOne]
  cases tokenize text with
  | error e => exact .throw e
  | ok tokens =>
      have hparse : Lockstep X S V i (readTokens.parseTokens P tokens)
          (readTokens.parseTokens P tokens) := by
        rw [readTokens.parseTokens]
        refine ((R.parse tokens _).1 i 0).bind fun j _ form form' hform => ?_
        rw [← hform.2]
        split
        · exact .throw _
        · exact .pure fun k hjk => R.value_mono hjk hform.1
      change Lockstep X S V i (readTokens P tokens) (readTokens P tokens)
      rw [readTokens]
      cases requiredConsCells tokens with
      | none => exact hparse
      | some required =>
          by_cases hlarge : required > wsmArenaCapacity
          · simp only [if_pos hlarge]
            exact .throw _
          · simp only [if_neg hlarge]
            exact hparse

end ReaderSim

/-! ### The evaluator -/

/-- Relations between the states and the words of two runs that the evaluator respects. -/
structure EvalSim (P : Platform) (X : Exit → Prop) {ι : Type} [Preorder ι]
    (Γ₁ : EvalContext σ) (Γ₂ : EvalContext τ) (S : ι → EvalState σ → EvalState τ → Prop)
    (V : ι → Word → Word → Prop) : Prop where
  value_mono : ∀ {i j : ι} {v w : Word}, i ≤ j → V i v w → V j v w
  tag : ∀ {i : ι} {v w : Word}, V i v w → tagOf v = tagOf w
  nil : ∀ i, V i wordNil wordNil
  nil_iff : ∀ {i : ι} {v w : Word}, V i v w → (v = wordNil ↔ w = wordNil)
  car : ∀ {i : ι} {v w : Word}, V i v w → tagOf v = tagCons →
    ExceptAgree (V i) (wsmCar P Γ₁.arena v) (wsmCar P Γ₂.arena w)
  cdr : ∀ {i : ι} {v w : Word}, V i v w → tagOf v = tagCons →
    ExceptAgree (V i) (wsmCdr P Γ₁.arena v) (wsmCdr P Γ₂.arena w)
  name : ∀ {i : ι} {v w : Word}, V i v w → tagOf v = tagSymbol →
    Γ₁.symbols.nameOf v = Γ₂.symbols.nameOf w
  bound : ∀ {i : ι} {s : EvalState σ} {t : EvalState τ}, S i s t → ∀ name,
    Option.Rel (V i) (s.world.bindings.value name) (t.world.bindings.value name)
  call : ∀ i name {args args' : List Word}, List.Forall₂ (V i) args args' →
    Lockstep X S V i (callPrimitive Γ₁.primitives name args)
      (callPrimitive Γ₂.primitives name args')

namespace EvalSim

variable {P : Platform} {X : Exit → Prop} {ι : Type} [Preorder ι] {Γ₁ : EvalContext σ}
  {Γ₂ : EvalContext τ} {S : ι → EvalState σ → EvalState τ → Prop}
  {V : ι → Word → Word → Prop} (R : EvalSim P X Γ₁ Γ₂ S V)

include R

/-- Two loads are in lockstep where they agree. -/
theorem load {i : ι} {r r' : Except Exit Word} (h : ExceptAgree (V i) r r') :
    Lockstep X S V i (load r) (load r') := by
  cases h with
  | ok hv => exact .pure fun j hij => R.value_mono hij hv
  | error e => exact .abort e

/-- A symbol is evaluated in lockstep. -/
theorem evalSymbol {i : ι} {v w : Word} (h : V i v w) (htag : tagOf v = tagSymbol) :
    Lockstep X S V i (evalSymbol Γ₁ v) (evalSymbol Γ₂ w) := by
  intro j hij s t hS
  refine .inr ⟨j, le_rfl, ?_⟩
  have hv := R.value_mono hij h
  simp only [LispHost.evalSymbol, R.name hv htag]
  cases Γ₂.symbols.nameOf w with
  | none => exact ⟨hS, .panic⟩
  | some name =>
      by_cases ht : name = "t"
      · simp only [if_pos ht]
        exact ⟨hS, .ok hv⟩
      · simp only [if_neg ht]
        have hbound := R.bound hS name
        generalize s.world.bindings.value name = b at hbound ⊢
        generalize t.world.bindings.value name = b' at hbound ⊢
        cases hbound with
        | none => exact ⟨hS, .err _⟩
        | some hb => exact ⟨hS, .ok hb⟩

/-- A single argument is checked in lockstep. -/
theorem singleArgument {i : ι} {v w : Word} (h : V i v w) (form : String) :
    Lockstep X S V i (singleArgument P Γ₁ v form)
      (singleArgument P Γ₂ w form) := by
  rw [LispHost.singleArgument, LispHost.singleArgument, ← R.tag h]
  by_cases htag : tagOf v = tagCons
  · rw [if_neg (not_not_intro htag), if_neg (not_not_intro htag)]
    refine (R.load (R.car h htag)).bind fun j hij a a' ha => ?_
    refine (R.load (R.cdr (R.value_mono hij h) htag)).bind fun k hjk d d' hd => ?_
    by_cases hd' : d = wordNil
    · rw [if_neg (not_not_intro hd'), if_neg (not_not_intro ((R.nil_iff hd).mp hd'))]
      exact .pure fun l hkl => R.value_mono (hjk.trans hkl) ha
    · rw [if_pos hd', if_pos (fun h => hd' ((R.nil_iff hd).mpr h))]
      exact .throw _
  · rw [if_pos htag, if_pos htag]
    exact .throw _

/-- What is related about the two forms of a clause. -/
def Forms (V : ι → Word → Word → Prop) (k : ι) (r r' : Word × Word) : Prop :=
  V k r.1 r'.1 ∧ V k r.2 r'.2

/-- A clause is checked in lockstep. -/
theorem condClause {i : ι} {v w : Word} (h : V i v w) :
    Lockstep X S (Forms V) i (condClause P Γ₁ v) (condClause P Γ₂ w) := by
  rw [LispHost.condClause, LispHost.condClause, ← R.tag h]
  by_cases htag : tagOf v = tagCons
  · rw [if_neg (not_not_intro htag), if_neg (not_not_intro htag)]
    refine (R.load (R.car h htag)).bind fun j hij a a' ha => ?_
    refine (R.load (R.cdr (R.value_mono hij h) htag)).bind fun k hjk b b' hb => ?_
    rw [← R.tag hb]
    by_cases htag' : tagOf b = tagCons
    · rw [if_neg (not_not_intro htag'), if_neg (not_not_intro htag')]
      refine (R.load (R.car hb htag')).bind fun l hkl c c' hc => ?_
      refine (R.load (R.cdr (R.value_mono hkl hb) htag')).bind fun m hlm d d' hd => ?_
      by_cases hd' : d = wordNil
      · rw [if_neg (not_not_intro hd'), if_neg (not_not_intro ((R.nil_iff hd).mp hd'))]
        exact .pure fun n hmn =>
          ⟨R.value_mono (((hjk.trans hkl).trans hlm).trans hmn) ha,
            R.value_mono (hlm.trans hmn) hc⟩
      · rw [if_pos hd', if_pos (fun h => hd' ((R.nil_iff hd).mpr h))]
        exact .throw _
    · rw [if_pos htag', if_pos htag']
      exact .throw _
  · rw [if_pos htag, if_pos htag]
    exact .throw _

/-- What lockstep of the mutual recursion means at one amount of fuel. -/
structure AtFuel (P : Platform) (X : Exit → Prop) (Γ₁ : EvalContext σ) (Γ₂ : EvalContext τ)
    (S : ι → EvalState σ → EvalState τ → Prop) (V : ι → Word → Word → Prop)
    (fuel : Nat) : Prop where
  eval : ∀ i v w, V i v w →
    Lockstep X S V i (eval P Γ₁ fuel v) (eval P Γ₂ fuel w)
  evalList : ∀ i v w, V i v w → tagOf v = tagCons →
    Lockstep X S V i (evalList P Γ₁ fuel v) (evalList P Γ₂ fuel w)
  evalCheckedAccessor : ∀ i v w, V i v w → ∀ name, ∀ f g : Word → Except Exit Word,
    (∀ i v w, V i v w → tagOf v = tagCons → ExceptAgree (V i) (f v) (g w)) →
    Lockstep X S V i (evalCheckedAccessor P Γ₁ fuel v name f)
      (evalCheckedAccessor P Γ₂ fuel w name g)
  evalArgs : ∀ i v w, V i v w →
    Lockstep X S (fun k => List.Forall₂ (V k)) i (evalArgs P Γ₁ fuel v)
      (evalArgs P Γ₂ fuel w)
  evalCond : ∀ i v w, V i v w →
    Lockstep X S V i (evalCond P Γ₁ fuel v) (evalCond P Γ₂ fuel w)

/-- The raw accessors agree on any related words: both fail on a word that is no pair. -/
theorem car_any {i : ι} {v w : Word} (h : V i v w) :
    ExceptAgree (V i) (wsmCar P Γ₁.arena v) (wsmCar P Γ₂.arena w) := by
  by_cases htag : tagOf v = tagCons
  · exact R.car h htag
  · rw [wsmCar, wsmCar, if_neg htag, if_neg (R.tag h ▸ htag)]
    exact .error _

/-- The second accessor agrees on words that are related, pairs or not. -/
theorem cdr_any {i : ι} {v w : Word} (h : V i v w) :
    ExceptAgree (V i) (wsmCdr P Γ₁.arena v) (wsmCdr P Γ₂.arena w) := by
  by_cases htag : tagOf v = tagCons
  · exact R.cdr h htag
  · rw [wsmCdr, wsmCdr, if_neg htag, if_neg (R.tag h ▸ htag)]
    exact .error _

section Succ

variable {fuel : Nat} (ih : AtFuel P X Γ₁ Γ₂ S V fuel)

include ih

/-- Evaluation with one more unit of fuel. -/
theorem eval_succ (i : ι) (v w : Word) (h : V i v w) :
    Lockstep X S V i (LispHost.eval P Γ₁ (fuel + 1) v)
      (LispHost.eval P Γ₂ (fuel + 1) w) := by
  rw [LispHost.eval, LispHost.eval, ← R.tag h]
  by_cases hself : tagOf v = tagFixnum ∨ tagOf v = tagNil ∨ tagOf v = tagBoxed
  · rw [if_pos hself, if_pos hself]
    exact .pure fun j hij => R.value_mono hij h
  · rw [if_neg hself, if_neg hself]
    by_cases hsymbol : tagOf v = tagSymbol
    · rw [if_pos hsymbol, if_pos hsymbol]
      exact R.evalSymbol h hsymbol
    · rw [if_neg hsymbol, if_neg hsymbol]
      by_cases hcons : tagOf v = tagCons
      · rw [if_pos hcons, if_pos hcons]
        exact ih.evalList i v w h hcons
      · rw [if_neg hcons, if_neg hcons]
        exact .pure fun j hij => R.value_mono hij h

/-- A list with one more unit of fuel. -/
theorem evalList_succ (i : ι) (v w : Word) (h : V i v w) (htag : tagOf v = tagCons) :
    Lockstep X S V i (LispHost.evalList P Γ₁ (fuel + 1) v)
      (LispHost.evalList P Γ₂ (fuel + 1) w) := by
  rw [LispHost.evalList, LispHost.evalList]
  refine (R.load (R.car h htag)).bind fun j hij head head' hhead => ?_
  refine (R.load (R.cdr (R.value_mono hij h) htag)).bind fun k hjk rest rest' hrest => ?_
  rw [← R.tag hhead]
  by_cases hsymbol : tagOf head = tagSymbol
  · rw [if_neg (not_not_intro hsymbol), if_neg (not_not_intro hsymbol), ← R.name hhead hsymbol]
    cases Γ₁.symbols.nameOf head with
    | none => exact .panic
    | some name =>
        by_cases hcond : P.condSpellings.contains name
        · simp only [if_pos hcond]
          exact ih.evalCond k rest rest' hrest
        · simp only [if_neg hcond]
          by_cases hquote : P.quoteSpellings.contains name
          · simp only [if_pos hquote]
            exact R.singleArgument hrest "quote"
          · simp only [if_neg hquote]
            by_cases hcar : P.carSpellings.contains name
            · simp only [if_pos hcar]
              exact ih.evalCheckedAccessor k rest rest' hrest "car" _ _ fun _ _ _ => R.car
            · simp only [if_neg hcar]
              by_cases hcdr : P.cdrSpellings.contains name
              · simp only [if_pos hcdr]
                exact ih.evalCheckedAccessor k rest rest' hrest "cdr" _ _ fun _ _ _ => R.cdr
              · simp only [if_neg hcdr]
                exact (ih.evalArgs k rest rest' hrest).bind fun l _ args args' hargs =>
                  R.call l name hargs
  · rw [if_pos hsymbol, if_pos hsymbol]
    exact .throw _

/-- An accessor with one more unit of fuel. -/
theorem evalCheckedAccessor_succ (i : ι) (v w : Word) (h : V i v w) (name : String)
    (f g : Word → Except Exit Word)
    (hfg : ∀ i v w, V i v w → tagOf v = tagCons →
      ExceptAgree (V i) (f v) (g w)) :
    Lockstep X S V i (LispHost.evalCheckedAccessor P Γ₁ (fuel + 1) v name f)
      (LispHost.evalCheckedAccessor P Γ₂ (fuel + 1) w name g) := by
  rw [LispHost.evalCheckedAccessor, LispHost.evalCheckedAccessor]
  refine (R.singleArgument h name).bind fun j _ a a' ha => ?_
  refine (ih.eval j a a' ha).bind fun k _ b b' hb => ?_
  rw [← R.tag hb]
  by_cases htag : tagOf b = tagCons
  · rw [if_neg (not_not_intro htag), if_neg (not_not_intro htag)]
    exact R.load (hfg k b b' hb htag)
  · rw [if_pos htag, if_pos htag]
    exact .throw _

/-- The arguments with one more unit of fuel. -/
theorem evalArgs_succ (i : ι) (v w : Word) (h : V i v w) :
    Lockstep X S (fun k => List.Forall₂ (V k)) i
      (LispHost.evalArgs P Γ₁ (fuel + 1) v) (LispHost.evalArgs P Γ₂ (fuel + 1) w) := by
  rw [LispHost.evalArgs, LispHost.evalArgs]
  by_cases hnil : v = wordNil
  · rw [if_pos hnil, if_pos ((R.nil_iff h).mp hnil)]
    exact .pure fun j _ => .nil
  · rw [if_neg hnil, if_neg (fun hw => hnil ((R.nil_iff h).mpr hw))]
    refine (R.load (R.car_any h)).bind fun j hij item item' hitem => ?_
    refine (ih.eval j item item' hitem).bind fun k hjk a a' ha => ?_
    refine (R.load (R.cdr_any (R.value_mono (hij.trans hjk) h))).bind
      fun l hkl rest rest' hrest => ?_
    refine (ih.evalArgs l rest rest' hrest).bind fun m hlm args args' hargs => ?_
    exact .pure fun n hmn => .cons (R.value_mono ((hkl.trans hlm).trans hmn) ha)
      (hargs.imp fun _ _ => R.value_mono hmn)

/-- The clauses with one more unit of fuel. -/
theorem evalCond_succ (i : ι) (v w : Word) (h : V i v w) :
    Lockstep X S V i (LispHost.evalCond P Γ₁ (fuel + 1) v)
      (LispHost.evalCond P Γ₂ (fuel + 1) w) := by
  rw [LispHost.evalCond, LispHost.evalCond, ← R.tag h]
  by_cases hnil : v = wordNil
  · rw [if_pos hnil, if_pos ((R.nil_iff h).mp hnil)]
    exact .pure fun j _ => R.nil j
  · rw [if_neg hnil, if_neg (fun hw => hnil ((R.nil_iff h).mpr hw))]
    by_cases htag : tagOf v = tagCons
    · rw [if_neg (not_not_intro htag), if_neg (not_not_intro htag)]
      refine (R.load (R.car h htag)).bind fun j hij clause clause' hclause => ?_
      refine (R.condClause hclause).bind fun k hjk forms forms' hforms => ?_
      refine (ih.eval k _ _ hforms.1).bind fun l hkl test test' htest => ?_
      have htruthy : isTruthy test = isTruthy test' := by
        rw [isTruthy, isTruthy, Bool.eq_iff_iff, bne_iff_ne, bne_iff_ne, Ne, Ne,
          R.nil_iff htest]
      rw [← htruthy]
      by_cases ht : isTruthy test
      · rw [if_pos ht, if_pos ht]
        exact ih.eval l _ _ (R.value_mono hkl hforms.2)
      · rw [if_neg ht, if_neg ht]
        refine (R.load (R.cdr (R.value_mono ((hij.trans hjk).trans hkl) h) htag)).bind
          fun m _ rest rest' hrest => ?_
        exact ih.evalCond m rest rest' hrest
    · rw [if_pos htag, if_pos htag]
      exact .throw _

end Succ

/-- All parts of the evaluator with any fuel. -/
theorem atFuel (fuel : Nat) : AtFuel P X Γ₁ Γ₂ S V fuel := by
  induction fuel with
  | zero =>
      refine ⟨fun i v w _ => ?_, fun i v w _ _ => ?_, fun i v w _ name f g _ => ?_,
        fun i v w _ => ?_, fun i v w _ => ?_⟩
      · rw [LispHost.eval, LispHost.eval]
        exact .timeout
      · rw [LispHost.evalList, LispHost.evalList]
        exact .timeout
      · rw [LispHost.evalCheckedAccessor, LispHost.evalCheckedAccessor]
        exact .timeout
      · rw [LispHost.evalArgs, LispHost.evalArgs]
        exact .timeout
      · rw [LispHost.evalCond, LispHost.evalCond]
        exact .timeout
  | succ fuel ih =>
      exact ⟨R.eval_succ ih, R.evalList_succ ih, R.evalCheckedAccessor_succ ih,
        R.evalArgs_succ ih, R.evalCond_succ ih⟩

/-- **Related words are evaluated alike.** -/
theorem eval {i : ι} {v w : Word} (h : V i v w) (fuel : Nat) :
    Lockstep X S V i (LispHost.eval P Γ₁ fuel v) (LispHost.eval P Γ₂ fuel w) :=
  (R.atFuel fuel).eval i v w h

end EvalSim

/-! ### The printer -/

/-- A relation between the words of two heaps that the printer respects. -/
structure PrinterSim (P : Platform) (arena₁ arena₂ : Arena)
    (symbols₁ symbols₂ : SymbolTable) (boxed₁ boxed₂ : BoxedTable)
    (V : Word → Word → Prop) : Prop where
  tag : ∀ {v w : Word}, V v w → tagOf v = tagOf w
  car : ∀ {v w : Word}, V v w → tagOf v = tagCons →
    ExceptAgree V (wsmCar P arena₁ v) (wsmCar P arena₂ w)
  cdr : ∀ {v w : Word}, V v w → tagOf v = tagCons →
    ExceptAgree V (wsmCdr P arena₁ v) (wsmCdr P arena₂ w)
  atom : ∀ {v w : Word}, V v w → tagOf v ≠ tagCons →
    atomText P symbols₁ boxed₁ v = atomText P symbols₂ boxed₂ w

namespace PrinterSim

variable {P : Platform} {arena₁ arena₂ : Arena} {symbols₁ symbols₂ : SymbolTable}
  {boxed₁ boxed₂ : BoxedTable} {V : Word → Word → Prop}
  (R : PrinterSim P arena₁ arena₂ symbols₁ symbols₂ boxed₁ boxed₂ V)

/-- Walks over loads that agree are one walk. -/
theorem load_eq {r r' : Except Exit Word} (h : ExceptAgree V r r') {f g : Word → Walk}
    (hfg : ∀ v w, V v w → f v = g w) : Walk.load r f = Walk.load r' g := by
  cases h with
  | ok hv => exact hfg _ _ hv
  | error e => rfl

include R

/-- Related words are written alike. -/
theorem write (fuel : Nat) :
    (∀ v w, V v w → writeValue P arena₁ symbols₁ boxed₁ fuel v =
        writeValue P arena₂ symbols₂ boxed₂ fuel w) ∧
      ∀ v w first, V v w → writeTail P arena₁ symbols₁ boxed₁ fuel v first =
        writeTail P arena₂ symbols₂ boxed₂ fuel w first := by
  induction fuel with
  | zero => exact ⟨fun v w _ => rfl, fun v w first _ => rfl⟩
  | succ fuel ih =>
      obtain ⟨hvalue, htail⟩ := ih
      constructor
      · intro v w h
        rw [LispHost.writeValue, LispHost.writeValue, ← R.tag h, htail v w true h]
        by_cases hcons : tagOf v = tagCons
        · rw [if_pos hcons, if_pos hcons]
        · rw [if_neg hcons, if_neg hcons, R.atom h hcons]
      · intro v w first h
        rw [writeTail, writeTail, ← R.tag h, hvalue v w h]
        by_cases hcons : tagOf v = tagCons
        · rw [if_pos hcons, if_pos hcons]
          have hwalk := load_eq (R.car h hcons)
            (f := fun head => (writeValue P arena₁ symbols₁ boxed₁ fuel head).andThen
              fun headText => Walk.load (wsmCdr P arena₁ v) fun rest =>
                (writeTail P arena₁ symbols₁ boxed₁ fuel rest false).andThen fun restText =>
                  .ok ((if first then "" else " ") ++ headText ++ restText))
            (g := fun head => (writeValue P arena₂ symbols₂ boxed₂ fuel head).andThen
              fun headText => Walk.load (wsmCdr P arena₂ w) fun rest =>
                (writeTail P arena₂ symbols₂ boxed₂ fuel rest false).andThen fun restText =>
                  .ok ((if first then "" else " ") ++ headText ++ restText))
            (fun head head' hhead => by
              rw [hvalue head head' hhead]
              congr 1
              funext headText
              exact load_eq (R.cdr h hcons) fun rest rest' hrest => by
                rw [htail rest rest' false hrest])
          rw [hwalk]
        · rw [if_neg hcons, if_neg hcons]

/-- **Related words are printed alike.** -/
theorem writeValue (fuel : Nat) {v w : Word} (h : V v w) :
    LispHost.writeValue P arena₁ symbols₁ boxed₁ fuel v =
      LispHost.writeValue P arena₂ symbols₂ boxed₂ fuel w :=
  (R.write fuel).1 v w h

end PrinterSim

end LispHost
