import LispHost.Reader

/-!
# The Grammar of Forms

What the reader is for, without words and cells: a form is an atom, a string literal or
a parenthesised sequence of forms. `Parses` is the grammar as a derivation from tokens to
trees, and `Unclosed` is its complement, the derivation of a text that ends inside a
form. Every token list falls on exactly one side, up to a stray closing parenthesis.

A tree carries a label on every node that the host can tell apart by its word. The plain
trees of the grammar are `Sexp Unit`; labelled with words, the same trees describe what
the reader has built.

## Main results

* `parses_or_unclosed`: the two derivations cover every token list.
* `Parses.length_lt`: a form takes at least one token.
* `Parses.requiredConsCells_eq`, `Unclosed.requiredConsCells_eq_none`: what the preflight
  finds on each side.
-/

namespace LispHost

/-- A syntax tree with labels. The empty list and fixnums have no identity beyond their
value; the label of a fixnum is kept so that every node but `nil` has one. -/
inductive Sexp (α : Type) where
  | fixnum (label : α) (value : Word)
  | symbol (label : α) (name : String)
  | string (label : α) (text : String)
  | nil
  | pair (label : α) (head tail : Sexp α)
deriving DecidableEq, Repr

namespace Sexp

variable {α : Type}

/-- The tree without its labels. -/
def erase : Sexp α → Sexp Unit
  | fixnum _ value => fixnum () value
  | symbol _ name => symbol () name
  | string _ text => string () text
  | nil => nil
  | pair _ head tail => pair () head.erase tail.erase

/-- The number of pairs. -/
def cells : Sexp α → Nat
  | pair _ head tail => head.cells + tail.cells + 1
  | _ => 0

/-- A list: `()` or a pair. -/
def IsList : Sexp α → Prop
  | nil => True
  | pair _ _ _ => True
  | _ => False

/-- Every tail is a list again. -/
def Proper : Sexp α → Prop
  | pair _ head tail => head.Proper ∧ tail.Proper ∧ tail.IsList
  | _ => True

/-- A tree that is empty without its labels is so with them. -/
theorem erase_eq_nil {d : Sexp α} (h : d.erase = .nil) : d = .nil := by
  cases d with
  | nil => rfl
  | fixnum | symbol | string | pair => cases h

/-- A tree that is a symbol without its labels is one with them. -/
theorem erase_eq_symbol {d : Sexp α} {name : String} (h : d.erase = .symbol () name) :
    ∃ label, d = .symbol label name := by
  cases d with
  | symbol label name' =>
      cases h
      exact ⟨label, rfl⟩
  | fixnum | string | nil | pair => cases h

/-- A tree that is a pair without its labels is one with them. -/
theorem erase_eq_pair {d : Sexp α} {head tail : Sexp Unit} (h : d.erase = .pair () head tail) :
    ∃ label head' tail', d = .pair label head' tail' ∧ head'.erase = head ∧
      tail'.erase = tail := by
  cases d with
  | pair label head' tail' =>
      cases h
      exact ⟨label, head', tail', rfl, rfl, rfl⟩
  | fixnum | symbol | string | nil => cases h

/-- Labels take no cells. -/
@[simp] theorem cells_erase (tree : Sexp α) : tree.erase.cells = tree.cells := by
  induction tree with
  | pair label head tail ihh iht => simp only [erase, cells, ihh, iht]
  | fixnum | symbol | string | nil => rfl

/-- Labels do not change what is a list. -/
@[simp] theorem isList_erase (tree : Sexp α) : tree.erase.IsList ↔ tree.IsList := by
  cases tree <;> exact Iff.rfl

/-- Labels do not change what is proper. -/
@[simp] theorem proper_erase (tree : Sexp α) : tree.erase.Proper ↔ tree.Proper := by
  induction tree with
  | pair label head tail ihh iht => simp only [erase, Proper, ihh, iht, isList_erase]
  | fixnum | symbol | string | nil => exact Iff.rfl

end Sexp

/-- The tree of an atom. -/
def atomSexp (atom : String) : Sexp Unit :=
  if atom = "()" then .nil
  else
    match parseI64 atom with
    | some value => .fixnum () value
    | none => .symbol () atom

/-- An atom takes no cells. -/
@[simp] theorem cells_atomSexp (atom : String) : (atomSexp atom).cells = 0 := by
  rw [atomSexp]
  split
  · rfl
  · split <;> rfl

/-- An atom is proper. -/
theorem proper_atomSexp (atom : String) : (atomSexp atom).Proper := by
  rw [atomSexp]
  split
  · trivial
  · split <;> trivial

/-- The two nonterminals: one form, and the rest of a list up to its parenthesis. -/
inductive Nonterminal where
  | form
  | items

/-- **The grammar.** `Parses n tokens tree rest` derives `tree` from the tokens in front
of `rest`. -/
inductive Parses : Nonterminal → List Token → Sexp Unit → List Token → Prop
  | atom (text : String) (rest : List Token) :
      Parses .form (.atom text :: rest) (atomSexp text) rest
  | str (text : String) (rest : List Token) :
      Parses .form (.str text :: rest) (.string () text) rest
  | list {tokens rest : List Token} {tree : Sexp Unit} :
      Parses .items tokens tree rest → Parses .form (.open :: tokens) tree rest
  | close (rest : List Token) : Parses .items (.close :: rest) .nil rest
  | item {tokens mid rest : List Token} {head tail : Sexp Unit} :
      Parses .form tokens head mid → Parses .items mid tail rest →
      Parses .items tokens (.pair () head tail) rest

/-- **A text that ends inside a form.** `Unclosed n tokens k`: the tokens run out before
the phrase `n` is complete, and the lists that were closed until then have `k` elements
at all levels. -/
inductive Unclosed : Nonterminal → List Token → Nat → Prop
  | eof (n : Nonterminal) : Unclosed n [] 0
  | list {tokens : List Token} {k : Nat} :
      Unclosed .items tokens k → Unclosed .form (.open :: tokens) k
  | head {tokens : List Token} {k : Nat} :
      Unclosed .form tokens k → Unclosed .items tokens k
  | tail {tokens mid : List Token} {tree : Sexp Unit} {k : Nat} :
      Parses .form tokens tree mid → Unclosed .items mid k →
      Unclosed .items tokens (tree.cells + k)

/-- A derivation takes at least one token. -/
theorem Parses.length_lt {n : Nonterminal} {tokens rest : List Token} {tree : Sexp Unit}
    (h : Parses n tokens tree rest) : rest.length < tokens.length := by
  induction h with
  | atom | str | close => simp
  | list _ ih =>
      simp only [List.length_cons]
      omega
  | item _ _ ihh iht => omega

/-- What follows the derived tokens is a suffix. -/
theorem Parses.suffix {n : Nonterminal} {tokens rest : List Token} {tree : Sexp Unit}
    (h : Parses n tokens tree rest) : rest <:+ tokens := by
  induction h with
  | atom | str | close => exact List.suffix_cons _ _
  | list _ ih => exact ih.trans (List.suffix_cons _ _)
  | item _ _ ihh iht => exact iht.trans ihh

/-- A list is derived as a list, with all its tails. -/
theorem Parses.proper {n : Nonterminal} {tokens rest : List Token} {tree : Sexp Unit}
    (h : Parses n tokens tree rest) :
    tree.Proper ∧ (n = .items → tree.IsList) := by
  induction h with
  | atom text rest => exact ⟨proper_atomSexp text, by simp⟩
  | str => exact ⟨trivial, by simp⟩
  | list _ ih => exact ⟨ih.1, by simp⟩
  | close => exact ⟨trivial, fun _ => trivial⟩
  | item _ _ ihh iht => exact ⟨⟨ihh.1, iht.1, iht.2 rfl⟩, fun _ => trivial⟩

/-- A form does not start at a closing parenthesis. -/
theorem Parses.form_ne_close {tokens rest : List Token} {tree : Sexp Unit}
    (h : Parses .form tokens tree rest) : tokens.head? ≠ some .close := by
  cases h <;> simp

/-- A form begins with a token that is no closing parenthesis. -/
theorem Parses.form_eq_cons {tokens rest : List Token} {tree : Sexp Unit}
    (h : Parses .form tokens tree rest) :
    ∃ token tokens', tokens = token :: tokens' ∧ token ≠ .close := by
  cases tokens with
  | nil => cases h
  | cons token tokens' =>
      refine ⟨token, tokens', rfl, ?_⟩
      rintro rfl
      exact h.form_ne_close rfl

/-- **Every token list is on one side.** A phrase is complete, or the text ends inside
it, or a form was expected at a closing parenthesis. -/
theorem parses_or_unclosed (tokens : List Token) :
    ((∃ tree rest, Parses .form tokens tree rest) ∨ (∃ k, Unclosed .form tokens k) ∨
        tokens.head? = some .close) ∧
      ((∃ tree rest, Parses .items tokens tree rest) ∨ ∃ k, Unclosed .items tokens k) := by
  induction hlen : tokens.length using Nat.strong_induction_on generalizing tokens with
  | _ len ih =>
    have hform : (∃ tree rest, Parses .form tokens tree rest) ∨
        (∃ k, Unclosed .form tokens k) ∨ tokens.head? = some .close := by
      cases tokens with
      | nil => exact .inr (.inl ⟨0, .eof _⟩)
      | cons token rest =>
          cases token with
          | atom text => exact .inl ⟨_, _, .atom text rest⟩
          | str text => exact .inl ⟨_, _, .str text rest⟩
          | close => exact .inr (.inr rfl)
          | «open» =>
              simp only [List.length_cons] at hlen
              rcases (ih rest.length (by omega) rest rfl).2 with ⟨tree, rest', h⟩ | ⟨k, h⟩
              · exact .inl ⟨tree, rest', .list h⟩
              · exact .inr (.inl ⟨k, .list h⟩)
    refine ⟨hform, ?_⟩
    rcases hform with ⟨head, mid, hhead⟩ | ⟨k, hhead⟩ | hclose
    · have hlt := hhead.length_lt
      rcases (ih mid.length (by omega) mid rfl).2 with ⟨tail, rest, htail⟩ | ⟨k, htail⟩
      · exact .inl ⟨_, rest, .item hhead htail⟩
      · exact .inr ⟨_, .tail hhead htail⟩
    · exact .inr ⟨k, .head hhead⟩
    · cases tokens with
      | nil => simp at hclose
      | cons token rest =>
          obtain rfl : token = .close := by simpa using hclose
          exact .inl ⟨.nil, rest, .close rest⟩

/-! ### What the preflight finds -/

/-- The preflight counts a form inside a list as one element and its own elements, and
closes the list at the end of its items. -/
theorem Parses.requiredLoop_eq {n : Nonterminal} {tokens rest : List Token}
    {tree : Sexp Unit} (h : Parses n tokens tree rest) (index depth required : Nat) :
    ∃ index',
      (n = .form → requiredLoop tokens (index + 1) (depth + 1) required =
        requiredLoop rest (index' + 1) (depth + 1) (required + tree.cells + 1)) ∧
      (n = .items → requiredLoop tokens (index + 1) (depth + 1) required =
        if depth = 0 then some (required + tree.cells)
        else requiredLoop rest (index' + 1) depth (required + tree.cells)) := by
  induction h generalizing index depth required with
  | atom text rest =>
      exact ⟨index + 1, fun _ => by rw [requiredLoop, cells_atomSexp], by simp⟩
  | str text rest => exact ⟨index + 1, fun _ => by rw [requiredLoop]; rfl, by simp⟩
  | list _ ih =>
      obtain ⟨index', -, hitems⟩ := ih (index + 1) (depth + 1) (required + 1)
      refine ⟨index', fun _ => ?_, by simp⟩
      rw [requiredLoop, if_pos (Nat.succ_ne_zero index), hitems rfl,
        if_neg (Nat.succ_ne_zero depth), Nat.add_right_comm]
  | close rest =>
      refine ⟨index + 1, by simp, fun _ => ?_⟩
      rw [requiredLoop]
      rfl
  | @item tokens mid rest head tail _ _ ihh iht =>
      obtain ⟨index₁, hform, -⟩ := ihh index depth required
      obtain ⟨index₂, -, hitems⟩ := iht index₁ depth (required + head.cells + 1)
      refine ⟨index₂, by simp, fun _ => ?_⟩
      have hcells : required + head.cells + 1 + tail.cells =
          required + (Sexp.pair () head tail).cells := by
        simp only [Sexp.cells]
        omega
      rw [hform rfl, hitems rfl, hcells]

/-- The preflight reaches the end of a text that ends inside a list. -/
theorem Unclosed.requiredLoop_eq {n : Nonterminal} {tokens : List Token} {k : Nat}
    (h : Unclosed n tokens k) (index depth required : Nat) :
    requiredLoop tokens (index + 1) (depth + 1) required = none := by
  induction h generalizing index depth required with
  | eof => rw [requiredLoop]
  | list _ ih => rw [requiredLoop, ih]
  | head _ ih => exact ih index depth required
  | tail hform _ ih =>
      obtain ⟨index', heq, -⟩ := hform.requiredLoop_eq index depth required
      rw [heq rfl, ih]

/-- **The preflight is exact.** For a complete form it returns the number of pairs of the
form's tree. -/
theorem Parses.requiredConsCells_eq {tokens rest : List Token} {tree : Sexp Unit}
    (h : Parses .form tokens tree rest) : requiredConsCells tokens = some tree.cells := by
  cases h with
  | atom text rest => rw [requiredConsCells, cells_atomSexp]; simp
  | str text rest => rw [requiredConsCells]; exacts [rfl, by simp]
  | list hitems =>
      obtain ⟨index', -, heq⟩ := hitems.requiredLoop_eq 0 0 0
      rw [requiredConsCells, requiredLoop, if_neg (not_not_intro rfl), heq rfl, if_pos rfl,
        Nat.zero_add]

/-- The preflight has no verdict on a text that ends inside its first list. -/
theorem Unclosed.requiredConsCells_eq_none {tokens : List Token} {k : Nat}
    (h : Unclosed .items tokens k) : requiredConsCells (.open :: tokens) = none := by
  rw [requiredConsCells, requiredLoop, h.requiredLoop_eq]

end LispHost
