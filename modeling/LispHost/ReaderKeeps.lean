import LispHost.Lib.Keeps
import LispHost.Reader

/-!
# Invariants of the Reader

The reader touches its state in three places: it interns a symbol, it stores a string literal
and it allocates a pair. `ReaderInv` lists what an invariant has to respect there, with one
predicate for the words of forms and one for those of lists, and the theorem below it says that
reading keeps the invariant, however it ends.

## Main definitions

* `ReaderInv`: what is kept by the steps of the reader.

## Main results

* `ReaderInv.readTokens`, `ReaderInv.readOne`: what reading keeps.
-/

namespace LispHost

open Effects

variable {P : Platform} {ι : Type} [Preorder ι]

/-- An invariant of the states, and predicates on the words of forms, on those of lists and on
errors, that the reader keeps on these tokens. -/
structure ReaderInv (P : Platform) (tokens : List Token) (S : ι → ReaderState → Prop)
    (V L : ι → Word → Prop) (E : ReadError → Prop) : Prop where
  form_mono : ∀ {i j : ι} {word : Word}, i ≤ j → V i word → V j word
  list_mono : ∀ {i j : ι} {word : Word}, i ≤ j → L i word → L j word
  form_of_list : ∀ {i : ι} {word : Word}, L i word → V i word
  nil : ∀ i, L i wordNil
  fixnum : ∀ i n, V i (encodeFixnum n)
  intern : ∀ i text, .atom text ∈ tokens → Keeps S V E i (internSymbol text)
  string : ∀ i text, .str text ∈ tokens → Keeps S V E i (addStringLiteral P text)
  cons : ∀ i {head tail : Word}, V i head → L i tail → Keeps S L E i (wsmCons P head tail)
  eof : E .unexpectedEof
  closeParen : E .unexpectedCloseParen
  capacity : ∀ required, E (.arenaCapacityExceeded required wsmArenaCapacity)
  trailing : ∀ pos,
    E (.trailingInput (" ".intercalate ((tokens.drop pos).map (Token.echo P))))

namespace ReaderInv

variable {tokens : List Token} {S : ι → ReaderState → Prop} {V L : ι → Word → Prop}
  {E : ReadError → Prop} (R : ReaderInv P tokens S V L E)

include R

/-- The word of an atom is what the invariant says of a number or of a symbol. -/
theorem atomToWord (i : ι) {text : String} (h : .atom text ∈ tokens) :
    Keeps S V E i (atomToWord text) := by
  rw [LispHost.atomToWord]
  by_cases hnil : text = "()"
  · rw [if_pos hnil]
    exact .pure fun j _ => R.form_of_list (R.nil j)
  · rw [if_neg hnil]
    cases parseI64 text with
    | some n => exact .pure fun j _ => R.fixnum j n
    | none => exact R.intern i text h

/-- One fuel step of the parser on a form. -/
theorem parseForm_succ {fuel : Nat}
    (hlist : ∀ i pos, Keeps S (fun k r => L k r.1) E i (parseList P tokens fuel pos)) (i : ι)
    (pos : Nat) : Keeps S (fun k r => V k r.1) E i (parseForm P tokens (fuel + 1) pos) := by
  cases htoken : tokens[pos]? with
  | none =>
      rw [parseForm_eof P fuel htoken]
      exact .throw R.eof
  | some token =>
      have hmem := List.mem_of_getElem? htoken
      cases token with
      | close =>
          rw [parseForm_close P fuel htoken]
          exact .throw R.closeParen
      | «open» =>
          rw [parseForm_open P fuel htoken]
          exact (hlist i (pos + 1)).imp fun k _ r hr => R.form_of_list hr
      | atom text =>
          rw [parseForm_atom P fuel htoken]
          exact (R.atomToWord i hmem).bind fun j _ word hword =>
            .pure fun k hjk => R.form_mono hjk hword
      | str text =>
          rw [parseForm_str P fuel htoken]
          exact (R.string i text hmem).bind fun j _ word hword =>
            .pure fun k hjk => R.form_mono hjk hword

/-- One fuel step of the parser on the elements of a list. -/
theorem parseList_succ {fuel : Nat}
    (hform : ∀ i pos, Keeps S (fun k r => V k r.1) E i (parseForm P tokens fuel pos))
    (hlist : ∀ i pos, Keeps S (fun k r => L k r.1) E i (parseList P tokens fuel pos)) (i : ι)
    (pos : Nat) : Keeps S (fun k r => L k r.1) E i (parseList P tokens (fuel + 1) pos) := by
  cases htoken : tokens[pos]? with
  | none =>
      rw [parseList_eof P fuel htoken]
      exact .throw R.eof
  | some token =>
      by_cases hclose : token = .close
      · subst hclose
        rw [parseList_close P fuel htoken]
        exact .pure fun j _ => R.nil j
      · rw [parseList_item P fuel htoken hclose]
        refine (hform i pos).bind fun j _ head hhead => ?_
        refine (hlist j head.2).bind fun k hjk tail htail => ?_
        refine (R.cons k (R.form_mono hjk hhead) htail).bind fun l _ word hword => ?_
        exact .pure fun m hlm => R.list_mono hlm hword

/-- **The reader keeps an invariant** that its three allocations keep. -/
theorem parse (fuel : Nat) :
    (∀ i pos, Keeps S (fun k r => V k r.1) E i (parseForm P tokens fuel pos)) ∧
      ∀ i pos, Keeps S (fun k r => L k r.1) E i (parseList P tokens fuel pos) := by
  induction fuel with
  | zero =>
      constructor
      · intro i pos
        rw [parseForm]
        exact .timeout
      · intro i pos
        rw [parseList]
        exact .timeout
  | succ fuel ih =>
      obtain ⟨hform, hlist⟩ := ih
      exact ⟨R.parseForm_succ hlist, R.parseList_succ hform hlist⟩

/-- **Reading keeps the invariant.** -/
theorem readTokens (i : ι) : Keeps S V E i (readTokens P tokens) := by
  have hparse : Keeps S V E i (readTokens.parseTokens P tokens) := by
    rw [readTokens.parseTokens]
    refine ((R.parse (parseFuel tokens)).1 i 0).bind fun j _ form hform => ?_
    by_cases hrest : form.2 = tokens.length
    · rw [if_neg (not_not_intro hrest)]
      exact .pure fun k hjk => R.form_mono hjk hform
    · rw [if_pos hrest]
      exact .throw (R.trailing form.2)
  rw [LispHost.readTokens]
  cases requiredConsCells tokens with
  | none => exact hparse
  | some required =>
      by_cases hlarge : required > wsmArenaCapacity
      · simp only [if_pos hlarge]
        exact .throw (R.capacity required)
      · simp only [if_neg hlarge]
        exact hparse

end ReaderInv

/-- **Reading a text keeps what reading its tokens keeps.** -/
theorem ReaderInv.readOne {text : String} {S : ι → ReaderState → Prop} {V L : ι → Word → Prop}
    {E : ReadError → Prop} (hfail : ∀ e, tokenize text = .error e → E e)
    (R : ∀ tokens, tokenize text = .ok tokens → ReaderInv P tokens S V L E) (i : ι) :
    Keeps S V E i (readOne P text) := by
  rw [LispHost.readOne]
  cases htokens : tokenize text with
  | error e => exact .throw (hfail e htokens)
  | ok tokens => exact (R tokens htokens).readTokens i

end LispHost
