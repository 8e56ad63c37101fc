import LispHost.Layout
import LispHost.Lib.Positions

/-!
# The Spellings of the Special Forms

The build script reads the surface spellings of the special forms out of the semantic registry.
It has a tokenizer and a parser of its own, for S-expressions of atoms, and it writes the words
of one entry as a constant. A panic fails the build; it comes with its message.

## Main definitions

* `Build.Sexpr`, `Build.tokenize`, `Build.parseTree`: the reading of the registry.
* `Build.spellingsForId`, `Build.emitEntry`: the projection of an entry.
* `Build.Spelled`: the texts of a sequence of tokens.
* `Build.EntryWords`: the words of an entry that are not missing.

## Main results

* `Build.tokenize_spelled`, `Build.parseTree_tokens`: every text of a tree is read back.
* `Build.parseTree_unclosed`: a form that is not closed fails the build.
* `Build.emitEntry_eq_ok_iff`, `Build.emitEntry_eq_error_iff`: what is written, and when.
* `Build.generate_eq_ok_iff`: the whole generation.
* `Build.projection_faithful`: all of them together.
-/

namespace LispHost

open Effects

namespace Build

/-- The build script's own trees. -/
inductive Sexpr where
  | atom (text : String)
  | list (items : List Sexpr)

/-- The characters at which an atom ends. -/
def endsAtom (c : Char) : Bool := isWhitespace c || c == '(' || c == ')' || c == ';'

/-- The loop of the tokenizer. Every turn takes at least one character. -/
def tokenizeLoop : Nat → List Char → List String
  | 0, _ => []
  | _ + 1, [] => []
  | fuel + 1, c :: rest =>
      if isWhitespace c then
        tokenizeLoop fuel rest
      else if c = ';' then
        tokenizeLoop fuel ((c :: rest).dropWhile fun c => c != '\n')
      else if c = '(' ∨ c = ')' then
        String.ofList [c] :: tokenizeLoop fuel rest
      else
        String.ofList ((c :: rest).takeWhile fun c => !endsAtom c) ::
          tokenizeLoop fuel ((c :: rest).dropWhile fun c => !endsAtom c)

/-- The tokens of a text, with a turn for every character. -/
def tokenize (source : List Char) : List String := tokenizeLoop source.length source

/-- How parsing ends: with a value, or with the message of a panic. The recursion of the model
runs out of fuel with `none`. -/
abbrev Parsed (α : Type) : Type := Option (Except String α)

/-- The message of a list that is not closed. -/
def unbalanced : String := "semantic-registry.wsm: unbalanced parentheses while parsing"

/-- The message of a parenthesis that closes nothing. -/
def unexpectedClose : String := "semantic-registry.wsm: unexpected ')'"

/-- The message of a text that ends before its form. -/
def unexpectedEnd : String := "semantic-registry.wsm: unexpected end of input"

mutual

/-- `parse`, with the position that it leaves. -/
def parse (tokens : List String) : Nat → Nat → Parsed (Sexpr × Nat)
  | 0, _ => none
  | fuel + 1, pos =>
      match tokens[pos]? with
      | none => some (.error unexpectedEnd)
      | some token =>
          if token = "(" then
            match parseItems tokens fuel (pos + 1) with
            | some (.ok (items, pos')) => some (.ok (.list items, pos'))
            | some (.error message) => some (.error message)
            | none => none
          else if token = ")" then some (.error unexpectedClose)
          else some (.ok (.atom token, pos + 1))

/-- The loop of `parse` over the items of a list. -/
def parseItems (tokens : List String) : Nat → Nat → Parsed (List Sexpr × Nat)
  | 0, _ => none
  | fuel + 1, pos =>
      match tokens[pos]? with
      | none => some (.error unbalanced)
      | some token =>
          if token = ")" then some (.ok ([], pos + 1))
          else
            match parse tokens fuel pos with
            | some (.ok (item, pos')) =>
                match parseItems tokens fuel pos' with
                | some (.ok (items, pos'')) => some (.ok (item :: items, pos''))
                | some (.error message) => some (.error message)
                | none => none
            | some (.error message) => some (.error message)
            | none => none

end

/-- The first form of the tokens. -/
def parseTree (tokens : List String) : Parsed (Sexpr × Nat) :=
  parse tokens (2 * tokens.length + 1) 0

/-! ### The projection of an entry -/

/-- The word of a surface. An old surface has a status behind the word, a new one has not. -/
def surfaceWord : Sexpr → Option String
  | .list parts =>
      if parts.length < 2 then none
      else
        match parts[1]? with
        | some (Sexpr.atom word) =>
            let isMissing :=
              match parts[2]? with
              | some (Sexpr.atom status) => status == "missing"
              | _ => false
            if isMissing then none else some word
        | _ => none
  | .atom _ => none

/-- The loop over the surfaces of an entry, with the spellings so far. -/
def collectSpellings : List Sexpr → List String → List String
  | [], spellings => spellings
  | surface :: surfaces, spellings =>
      match surfaceWord surface with
      | some word => collectSpellings surfaces (spellings ++ [word])
      | none => collectSpellings surfaces spellings

/-- The message of an entry that is not there. -/
def noEntry (id : String) : String :=
  "semantic-registry.wsm: no entry found for id " ++ id ++ " -- registry shape changed?"

/-- The loop over the entries. -/
def searchEntries (target : String) : List Sexpr → Except String (List String)
  | [] => .error (noEntry target)
  | .list (.atom id :: surfaces) :: entries =>
      if id ≠ target then searchEntries target entries
      else .ok (collectSpellings surfaces [])
  | _ :: entries => searchEntries target entries

/-- The spellings of an entry, behind the version that comes first in the registry. -/
def spellingsForId (root : Sexpr) (target : String) : Except String (List String) :=
  match root with
  | .atom _ => .error "semantic-registry.wsm: expected the whole file to be one list"
  | .list [] => .error "range start index 1 out of range for slice of length 0"
  | .list (_ :: entries) => searchEntries target entries

variable (P : Platform)

/-- The constant that is written for some words. -/
def arrayText (constName : String) (words : List String) : String :=
  "pub const " ++ constName ++ ": &[&str] = &[" ++
    String.join (words.map fun word => debugString P word ++ ", ") ++ "];\n"

/-- The text with the constant of one more entry; an entry without spellings fails the build. -/
def emitEntry (out constName : String) (root : Sexpr) (id : String) : Except String String :=
  match spellingsForId root id with
  | .error message => .error message
  | .ok spellings =>
      if spellings = [] then
        .error ("semantic-registry.wsm: id " ++ id ++
          " has zero non-missing spellings -- registry regressed?")
      else .ok (out ++ arrayText P constName spellings)

/-- The constants that are generated, with the ids of their entries. -/
def generatedEntries : List (String × String) :=
  [("QUOTE_SPELLINGS", "00000001"), ("CAR_SPELLINGS", "00000101"),
    ("CDR_SPELLINGS", "00000110"), ("COND_SPELLINGS", "00000111")]

/-- The first lines of the generated file. -/
def generatedHeader : String :=
  "// Generated by dll/build.rs from external/sens/lib/surface/semantic-registry.wsm.\n" ++
    "// DO NOT EDIT BY HAND -- see build.rs's own module doc for why this exists.\n"

/-- The entries are emitted one behind the other. -/
def emitEntries (root : Sexpr) : List (String × String) → String → Except String String
  | [], out => .ok out
  | (constName, id) :: entries, out =>
      match emitEntry P out constName root id with
      | .error message => .error message
      | .ok out => emitEntries root entries out

/-- `main`, from the source of the registry to the text that is written. -/
def generate (source : List Char) : Parsed String :=
  match parseTree (tokenize source) with
  | some (.ok (root, _)) => some (emitEntries P root generatedEntries generatedHeader)
  | some (.error message) => some (.error message)
  | none => none

/-! ### Texts of a tree -/

/-- An atom as the tokenizer takes it. -/
def IsAtom (text : String) : Prop := text.toList ≠ [] ∧ ∀ c ∈ text.toList, endsAtom c = false

/-- What a token is: a parenthesis or an atom. -/
def IsToken (token : String) : Prop := token = "(" ∨ token = ")" ∨ IsAtom token

/-- **The texts of a sequence of tokens.** Separators stand anywhere between the tokens, and
behind an atom something has to end it; a comment at the end of the text needs no newline. -/
inductive Spelled : List String → List Char → Prop
  | nil {space : List Char} (hspace : IsSeparator space) : Spelled [] space
  | comment {space body : List Char} (hspace : IsSeparator space) (hbody : '\n' ∉ body) :
      Spelled [] (space ++ ';' :: body)
  | token {token : String} {tokens : List String} {space rest : List Char}
      (hspace : IsSeparator space) (hrest : Spelled tokens rest)
      (hends : IsAtom token → ∀ c ∈ rest.head?, endsAtom c = true) :
      Spelled (token :: tokens) (space ++ token.toList ++ rest)

namespace Sexpr

/-- The tokens of a tree. -/
def tokens : Sexpr → List String
  | atom text => [text]
  | list items => "(" :: (items.flatMap tokens ++ [")"])

/-- All atoms of a tree are atoms of the tokenizer. -/
inductive Clean : Sexpr → Prop
  | atom {text : String} (h : IsAtom text) : Clean (.atom text)
  | list {items : List Sexpr} (h : ∀ item ∈ items, Clean item) : Clean (.list items)

end Sexpr

/-! ### The tokenizer -/

section Tokenize

variable {fuel : Nat} {c : Char} {space rest : List Char}

/-- Whitespace is skipped. -/
theorem tokenizeLoop_whitespace (hc : isWhitespace c = true) :
    tokenizeLoop (fuel + 1) (c :: rest) = tokenizeLoop fuel rest := by
  rw [tokenizeLoop, if_pos hc]

/-- A comment is skipped up to its newline. -/
theorem tokenizeLoop_comment : tokenizeLoop (fuel + 1) (';' :: rest) =
    tokenizeLoop fuel ((';' :: rest).dropWhile fun c => c != '\n') := rfl

/-- A parenthesis is a token. -/
theorem tokenizeLoop_paren (hc : c = '(' ∨ c = ')') :
    tokenizeLoop (fuel + 1) (c :: rest) = String.ofList [c] :: tokenizeLoop fuel rest := by
  rcases hc with rfl | rfl <;> rfl

/-- Every other character begins an atom, which goes on to the next end. -/
theorem tokenizeLoop_atom (hc : endsAtom c = false) : tokenizeLoop (fuel + 1) (c :: rest) =
    String.ofList ((c :: rest).takeWhile fun c => !endsAtom c) ::
      tokenizeLoop fuel ((c :: rest).dropWhile fun c => !endsAtom c) := by
  simp only [endsAtom, Bool.or_eq_false_iff, beq_eq_false_iff_ne] at hc
  obtain ⟨⟨⟨hspace, hopen⟩, hclose⟩, hcomment⟩ := hc
  rw [tokenizeLoop, if_neg (by rw [hspace]; simp), if_neg hcomment,
    if_neg (by simp [hopen, hclose])]

/-- A body of a comment is dropped up to the newline. -/
theorem dropWhile_comment {body : List Char} (hbody : '\n' ∉ body) (rest : List Char) :
    (';' :: (body ++ rest)).dropWhile (fun c => c != '\n') =
      rest.dropWhile fun c => c != '\n' := by
  rw [List.dropWhile_cons_of_pos (by simp), List.dropWhile_append_of_pos]
  intro c hc
  exact bne_iff_ne.mpr fun heq => hbody (heq ▸ hc)

/-- **Separators are skipped**, and leave enough fuel for the rest. -/
theorem tokenizeLoop_separator (hspace : IsSeparator space)
    (hfuel : (space ++ rest).length ≤ fuel) :
    ∃ fuel', rest.length ≤ fuel' ∧
      tokenizeLoop fuel (space ++ rest) = tokenizeLoop fuel' rest := by
  induction hspace generalizing fuel with
  | nil => exact ⟨fuel, hfuel, rfl⟩
  | whitespace hc _ ih =>
      obtain ⟨fuel, rfl⟩ := Nat.exists_eq_succ_of_ne_zero (Nat.ne_of_gt (Nat.zero_lt_of_lt hfuel))
      obtain ⟨fuel', hfuel', heq⟩ := ih (Nat.le_of_succ_le_succ hfuel)
      exact ⟨fuel', hfuel', by rw [List.cons_append, tokenizeLoop_whitespace hc, heq]⟩
  | @comment body space hbody _ ih =>
      have hlength : body.length + (space ++ rest).length + 2 ≤ fuel := by
        simp only [List.cons_append, List.append_assoc, List.length_cons, List.length_append]
          at hfuel ⊢
        omega
      obtain ⟨fuel, rfl⟩ : ∃ f, fuel = f + 1 + 1 := ⟨fuel - 2, by omega⟩
      have hrest : (space ++ rest).length ≤ fuel := by omega
      obtain ⟨fuel', hfuel', heq⟩ := ih hrest
      refine ⟨fuel', hfuel', ?_⟩
      rw [List.cons_append, List.append_assoc, tokenizeLoop_comment, dropWhile_comment hbody,
        List.cons_append, List.dropWhile_cons_of_neg (by simp), tokenizeLoop_whitespace rfl, heq]

/-- Where the first character fails, nothing is taken and nothing is dropped. -/
theorem takeWhile_of_head {p : Char → Bool} (h : ∀ c ∈ rest.head?, p c = false) :
    rest.takeWhile p = [] ∧ rest.dropWhile p = rest := by
  cases rest with
  | nil => exact ⟨rfl, rfl⟩
  | cons c rest =>
      have hc := h c rfl
      exact ⟨List.takeWhile_cons_of_neg (by simp [hc]), List.dropWhile_cons_of_neg (by simp [hc])⟩

/-- A token at the front is taken. -/
theorem tokenizeLoop_token {token : String} (htoken : IsToken token)
    (hends : IsAtom token → ∀ c ∈ rest.head?, endsAtom c = true)
    (hfuel : (token.toList ++ rest).length ≤ fuel) :
    ∃ fuel', rest.length ≤ fuel' ∧
      tokenizeLoop fuel (token.toList ++ rest) = token :: tokenizeLoop fuel' rest := by
  rcases htoken with rfl | rfl | hatom
  · obtain ⟨fuel, rfl⟩ := Nat.exists_eq_succ_of_ne_zero (Nat.ne_of_gt (Nat.zero_lt_of_lt hfuel))
    exact ⟨fuel, Nat.le_of_succ_le_succ hfuel, tokenizeLoop_paren (.inl rfl)⟩
  · obtain ⟨fuel, rfl⟩ := Nat.exists_eq_succ_of_ne_zero (Nat.ne_of_gt (Nat.zero_lt_of_lt hfuel))
    exact ⟨fuel, Nat.le_of_succ_le_succ hfuel, tokenizeLoop_paren (.inr rfl)⟩
  · have hrest : ∀ c ∈ rest.head?, (!endsAtom c) = false := by
      intro c hc
      rw [hends hatom c hc]
      rfl
    obtain ⟨hne, hchars⟩ := hatom
    have hall : ∀ c ∈ token.toList, (!endsAtom c) = true := by
      intro c hc
      rw [hchars c hc]
      rfl
    cases htext : token.toList with
    | nil => exact absurd htext hne
    | cons c text =>
        rw [htext] at hchars hall hfuel
        obtain ⟨fuel, rfl⟩ :=
          Nat.exists_eq_succ_of_ne_zero (Nat.ne_of_gt (Nat.zero_lt_of_lt hfuel))
        refine ⟨fuel, ?_, ?_⟩
        · rw [List.length_append, List.length_cons] at hfuel
          omega
        · obtain ⟨htake, hdrop⟩ := takeWhile_of_head hrest
          rw [List.cons_append, tokenizeLoop_atom (hchars c List.mem_cons_self),
            ← List.cons_append, List.takeWhile_append_of_pos hall,
            List.dropWhile_append_of_pos hall, htake, hdrop, List.append_nil, ← htext,
            String.ofList_toList]

/-- **Every text of the tokens is cut into them.** -/
theorem tokenizeLoop_spelled {tokens : List String} {text : List Char}
    (h : Spelled tokens text) (htokens : ∀ token ∈ tokens, IsToken token)
    (hfuel : text.length ≤ fuel) : tokenizeLoop fuel text = tokens := by
  induction h generalizing fuel with
  | @nil space hspace =>
      rw [← List.append_nil space] at hfuel ⊢
      obtain ⟨fuel', -, heq⟩ := tokenizeLoop_separator hspace hfuel
      rw [heq]
      cases fuel' <;> rfl
  | @comment space body hspace hbody =>
      obtain ⟨fuel', hfuel', heq⟩ := tokenizeLoop_separator hspace hfuel
      obtain ⟨fuel', rfl⟩ :=
        Nat.exists_eq_succ_of_ne_zero (Nat.ne_of_gt (Nat.zero_lt_of_lt hfuel'))
      rw [heq, tokenizeLoop_comment, ← List.append_nil body, dropWhile_comment hbody]
      cases fuel' <;> rfl
  | @token token tokens space rest hspace _ hends ih =>
      obtain ⟨htoken, hrest⟩ := List.forall_mem_cons.mp htokens
      rw [List.append_assoc] at hfuel ⊢
      obtain ⟨fuel', hfuel', heq⟩ := tokenizeLoop_separator hspace hfuel
      obtain ⟨fuel'', hfuel'', heq'⟩ := tokenizeLoop_token htoken hends hfuel'
      rw [heq, heq', ih hrest hfuel'']

/-- **Every spelling of some tokens is read as these tokens.** -/
theorem tokenize_spelled {tokens : List String} {text : List Char}
    (h : Spelled tokens text) (htokens : ∀ token ∈ tokens, IsToken token) :
    tokenize text = tokens :=
  tokenizeLoop_spelled h htokens le_rfl

/-- A separator in front of a text. -/
theorem Spelled.separator {tokens : List String} (h : Spelled tokens rest)
    (hspace : ∀ {more}, IsSeparator more → IsSeparator (space ++ more)) :
    Spelled tokens (space ++ rest) := by
  cases h with
  | nil hmore => exact .nil (hspace hmore)
  | comment hmore hbody =>
      rw [← List.append_assoc]
      exact .comment (hspace hmore) hbody
  | token hmore hrest hends =>
      rw [← List.append_assoc, ← List.append_assoc]
      exact .token (hspace hmore) hrest hends

end Tokenize

/-! ### The parser -/

section Parse

variable {tokens rest : List String} {pos fuel : Nat} {token : String}

/-- A list is parsed when its items are. -/
theorem parse_list {items : List Sexpr} {pos' : Nat} (h : tokens[pos]? = some "(")
    (hitems : parseItems tokens fuel (pos + 1) = some (.ok (items, pos'))) :
    parse tokens (fuel + 1) pos = some (.ok (.list items, pos')) := by
  rw [parse, h]
  simp only [if_pos, hitems]

/-- A token that is no parenthesis is parsed as an atom. -/
theorem parse_atom (h : tokens[pos]? = some token) (hopen : token ≠ "(")
    (hclose : token ≠ ")") : parse tokens (fuel + 1) pos = some (.ok (.atom token, pos + 1)) := by
  rw [parse, h]
  simp only [if_neg hopen, if_neg hclose]

/-- A closing parenthesis ends the items. -/
theorem parseItems_close (h : tokens[pos]? = some ")") :
    parseItems tokens (fuel + 1) pos = some (.ok ([], pos + 1)) := by
  rw [parseItems, h]
  rfl

/-- An item is parsed before those behind it. -/
theorem parseItems_item {item : Sexpr} {items : List Sexpr} {pos' pos'' : Nat}
    (h : tokens[pos]? = some token) (hclose : token ≠ ")")
    (hitem : parse tokens fuel pos = some (.ok (item, pos')))
    (hitems : parseItems tokens fuel pos' = some (.ok (items, pos''))) :
    parseItems tokens (fuel + 1) pos = some (.ok (item :: items, pos'')) := by
  rw [parseItems, h]
  simp only [if_neg hclose, hitem, hitems]

/-- An atom is no parenthesis. -/
theorem IsAtom.ne_paren (h : IsAtom token) : token ≠ "(" ∧ token ≠ ")" := by
  refine ⟨fun heq => ?_, fun heq => ?_⟩
  · exact absurd (h.2 '(' (by rw [heq]; simp)) (by decide)
  · exact absurd (h.2 ')' (by rw [heq]; simp)) (by decide)

namespace Sexpr.Clean

/-- The tokens of a clean tree are tokens. -/
theorem isToken {tree : Sexpr} (h : tree.Clean) : ∀ token ∈ tree.tokens, IsToken token := by
  induction h with
  | atom h =>
      intro token hmem
      rw [tokens, List.mem_singleton] at hmem
      exact hmem ▸ .inr (.inr h)
  | @list items _ ih =>
      intro token hmem
      rw [tokens, List.mem_cons, List.mem_append, List.mem_flatMap, List.mem_singleton] at hmem
      rcases hmem with rfl | ⟨item, hitem, hmem⟩ | rfl
      · exact .inl rfl
      · exact ih item hitem token hmem
      · exact .inr (.inl rfl)

/-- The first token of a tree does not close anything. -/
theorem tokens_eq_cons {tree : Sexpr} (h : tree.Clean) :
    ∃ token rest, tree.tokens = token :: rest ∧ token ≠ ")" := by
  cases h with
  | atom h => exact ⟨_, _, by rw [tokens], h.ne_paren.2⟩
  | list h => exact ⟨_, _, by rw [tokens], by decide⟩

/-- **The parser reads the tokens of a tree.** -/
theorem parse_eq {tree : Sexpr} (h : tree.Clean) (hdrop : tokens.drop pos = tree.tokens ++ rest)
    (hfuel : 2 * tree.tokens.length ≤ fuel) :
    parse tokens fuel pos = some (.ok (tree, pos + tree.tokens.length)) := by
  induction h generalizing pos fuel rest with
  | @atom text h =>
      rw [Sexpr.tokens] at hdrop hfuel ⊢
      rw [List.length_singleton] at hfuel ⊢
      obtain ⟨fuel, rfl⟩ := Nat.exists_eq_succ_of_ne_zero (show fuel ≠ 0 by omega)
      exact parse_atom (getElem?_of_drop hdrop) h.ne_paren.1 h.ne_paren.2
  | @list items hitems ih =>
      -- the loop over the last of the items, up to the closing parenthesis
      have hloop : ∀ last : List Sexpr, (∀ item ∈ last, item ∈ items) →
          ∀ {pos fuel : Nat} {rest : List String},
          tokens.drop pos = last.flatMap Sexpr.tokens ++ ")" :: rest →
          2 * (last.flatMap Sexpr.tokens).length + 1 ≤ fuel →
          parseItems tokens fuel pos =
            some (.ok (last, pos + (last.flatMap Sexpr.tokens).length + 1)) := by
        intro last
        induction last with
        | nil =>
            intro _ pos fuel rest hdrop hfuel
            obtain ⟨fuel, rfl⟩ := Nat.exists_eq_succ_of_ne_zero (show fuel ≠ 0 by omega)
            exact parseItems_close (getElem?_of_drop hdrop)
        | cons item last ihlast =>
            intro hlast pos fuel rest hdrop hfuel
            obtain ⟨hitem, hlast⟩ := List.forall_mem_cons.mp hlast
            obtain ⟨token, more, hfirst, hclose⟩ := (hitems item hitem).tokens_eq_cons
            rw [List.flatMap_cons, List.append_assoc] at hdrop
            rw [List.flatMap_cons, List.length_append] at hfuel ⊢
            have hpos : 0 < item.tokens.length := by rw [hfirst]; exact Nat.succ_pos _
            obtain ⟨fuel, rfl⟩ := Nat.exists_eq_succ_of_ne_zero (show fuel ≠ 0 by omega)
            have hread := ih item hitem hdrop (show 2 * item.tokens.length ≤ fuel by omega)
            have hrest := ihlast hlast (drop_of_drop_append hdrop)
              (show 2 * (last.flatMap Sexpr.tokens).length + 1 ≤ fuel by omega)
            rw [hfirst, List.cons_append] at hdrop
            rw [parseItems_item (getElem?_of_drop hdrop) hclose hread hrest]
            simp only [Nat.add_assoc]
      rw [Sexpr.tokens, List.cons_append, List.append_assoc] at hdrop
      rw [Sexpr.tokens, List.length_cons, List.length_append, List.length_singleton] at hfuel ⊢
      obtain ⟨fuel, rfl⟩ := Nat.exists_eq_succ_of_ne_zero (show fuel ≠ 0 by omega)
      have hread := hloop items (fun _ h => h) (drop_of_drop_cons hdrop)
        (show 2 * (items.flatMap Sexpr.tokens).length + 1 ≤ fuel by omega)
      rw [parse_list (getElem?_of_drop hdrop) hread]
      simp only [Nat.add_assoc, Nat.add_comm 1]

end Sexpr.Clean

/-- **The tokens of a tree are parsed as the tree.** -/
theorem parseTree_tokens {tree : Sexpr} (h : tree.Clean) :
    parseTree tree.tokens = some (.ok (tree, tree.tokens.length)) := by
  have hdrop : tree.tokens.drop 0 = tree.tokens ++ [] := by rw [List.drop_zero, List.append_nil]
  rw [parseTree, h.parse_eq hdrop (Nat.le_succ _), Nat.zero_add]

/-- The first form of the tokens is never closed. -/
def Unclosed (tokens : List String) : Prop :=
  tokens ≠ [] ∧ ∀ used, used ≠ [] → used <+: tokens → used.count ")" < used.count "("

end Parse

/-! ### The projection -/

section Emit

variable {entry root : Sexpr} {entries surfaces : List Sexpr} {id target : String}
  {words : List String}

/-- **The word of a surface**: its second part, where the third part, if there is one, does not
say that it is missing. -/
def HasWord (surface : Sexpr) (word : String) : Prop :=
  ∃ language parts, surface = .list (language :: .atom word :: parts) ∧
    parts.head? ≠ some (.atom "missing")

/-- The words of some surfaces, in their order. -/
inductive SurfaceWords : List Sexpr → List String → Prop
  | nil : SurfaceWords [] []
  | word {surface : Sexpr} {surfaces : List Sexpr} {word : String} {words : List String}
      (h : HasWord surface word) (hrest : SurfaceWords surfaces words) :
      SurfaceWords (surface :: surfaces) (word :: words)
  | skip {surface : Sexpr} {surfaces : List Sexpr} {words : List String}
      (h : ∀ word, ¬ HasWord surface word) (hrest : SurfaceWords surfaces words) :
      SurfaceWords (surface :: surfaces) words

/-- The code finds the word of a surface. -/
theorem surfaceWord_eq_some_iff {surface : Sexpr} {word : String} :
    surfaceWord surface = some word ↔ HasWord surface word := by
  rw [HasWord]
  rcases surface with text | ⟨_ | ⟨language, _ | ⟨_ | _, parts⟩⟩⟩
  · simp [surfaceWord]
  · simp [surfaceWord]
  · simp [surfaceWord]
  · rename_i text
    rcases parts with _ | ⟨status | _, parts⟩
    · simp [surfaceWord]
    · by_cases hmissing : status = "missing" <;> simp [surfaceWord, hmissing]
    · simp [surfaceWord]
  · simp [surfaceWord]

/-- The words of some surfaces are those that the code finds. -/
theorem surfaceWords_iff :
    SurfaceWords surfaces words ↔ words = surfaces.filterMap surfaceWord := by
  constructor
  · intro h
    induction h with
    | nil => rfl
    | word h _ ih => rw [List.filterMap_cons_some (surfaceWord_eq_some_iff.mpr h), ih]
    | skip h _ ih =>
        have hnone := Option.eq_none_iff_forall_ne_some.mpr fun word hword =>
          h word (surfaceWord_eq_some_iff.mp hword)
        rw [List.filterMap_cons_none hnone, ih]
  · rintro rfl
    induction surfaces with
    | nil => exact .nil
    | cons surface surfaces ih =>
        cases hword : surfaceWord surface with
        | none =>
            rw [List.filterMap_cons_none hword]
            refine .skip (fun word h => ?_) ih
            rw [surfaceWord_eq_some_iff.mpr h] at hword
            simp at hword
        | some word =>
            rw [List.filterMap_cons_some hword]
            exact .word (surfaceWord_eq_some_iff.mp hword) ih

/-- The loop adds the words behind the spellings so far. -/
theorem collectSpellings_eq (surfaces : List Sexpr) (spellings : List String) :
    collectSpellings surfaces spellings = spellings ++ surfaces.filterMap surfaceWord := by
  induction surfaces generalizing spellings with
  | nil => rw [collectSpellings, List.filterMap_nil, List.append_nil]
  | cons surface surfaces ih =>
      cases hword : surfaceWord surface with
      | none =>
          rw [collectSpellings, hword, List.filterMap_cons_none hword]
          exact ih spellings
      | some word =>
          rw [collectSpellings, hword, List.filterMap_cons_some hword]
          simp only [ih, List.append_assoc, List.singleton_append]

/-- The entry is the one of an id. -/
def HasId (id : String) (entry : Sexpr) : Prop := ∃ surfaces, entry = .list (.atom id :: surfaces)

/-- An entry with another id is passed over. -/
theorem searchEntries_skip (h : ¬ HasId target entry) :
    searchEntries target (entry :: entries) = searchEntries target entries := by
  rcases entry with text | ⟨_ | ⟨_ | _, surfaces⟩⟩
  · rfl
  · rfl
  · rename_i id
    have hne : id ≠ target := by
      rintro rfl
      exact h ⟨surfaces, rfl⟩
    rw [searchEntries, if_pos hne]
  · rfl

/-- The first entry with the id has the spellings. -/
theorem searchEntries_found :
    searchEntries id (.list (.atom id :: surfaces) :: entries) =
      .ok (surfaces.filterMap surfaceWord) := by
  rw [searchEntries, if_neg (not_not.mpr rfl), collectSpellings_eq, List.nil_append]

/-- **The words of an entry**: those of the surfaces that are not missing, in their order, in
the first entry of the id. The first item of the registry is its version. -/
def EntryWords (root : Sexpr) (id : String) (words : List String) : Prop :=
  ∃ version before surfaces after,
    root = .list (version :: (before ++ .list (.atom id :: surfaces) :: after)) ∧
      (∀ entry ∈ before, ¬ HasId id entry) ∧ SurfaceWords surfaces words

/-- Any number of entries with other ids are passed over. -/
theorem searchEntries_skip_all {before : List Sexpr} (h : ∀ entry ∈ before, ¬ HasId id entry) :
    searchEntries id (before ++ entries) = searchEntries id entries := by
  induction before with
  | nil => rfl
  | cons entry before ih =>
      obtain ⟨hentry, hbefore⟩ := List.forall_mem_cons.mp h
      rw [List.cons_append, searchEntries_skip hentry, ih hbefore]

/-- Without an entry with the id, the loop fails with its message. -/
theorem searchEntries_none (h : ∀ entry ∈ entries, ¬ HasId id entry) :
    searchEntries id entries = .error (noEntry id) := by
  rw [← List.append_nil entries, searchEntries_skip_all h]
  rfl

/-- The words of an entry are what the projection returns. -/
theorem EntryWords.spellingsForId (h : EntryWords root id words) :
    spellingsForId root id = .ok words := by
  obtain ⟨version, before, surfaces, after, rfl, hbefore, hwords⟩ := h
  rw [Build.spellingsForId, searchEntries_skip_all hbefore, searchEntries_found,
    surfaceWords_iff.mp hwords]

/-- No entry of the registry has the id. -/
def NoEntry (root : Sexpr) (id : String) : Prop :=
  ∃ version entries, root = .list (version :: entries) ∧ ∀ entry ∈ entries, ¬ HasId id entry

/-- The registry is a list with a version at least. -/
def IsRegistry (root : Sexpr) : Prop := ∃ version entries, root = .list (version :: entries)

/-- The first entry of an id. -/
theorem exists_first_entry (h : ∃ entry ∈ entries, HasId id entry) :
    ∃ before surfaces after, entries = before ++ .list (.atom id :: surfaces) :: after ∧
      ∀ entry ∈ before, ¬ HasId id entry := by
  induction entries with
  | nil => simp at h
  | cons entry entries ih =>
      by_cases hentry : HasId id entry
      · obtain ⟨surfaces, rfl⟩ := hentry
        exact ⟨[], surfaces, entries, rfl, by simp⟩
      · obtain ⟨other, hmem, hother⟩ := h
        have hlater : other ∈ entries := by
          rcases List.mem_cons.mp hmem with rfl | hlater
          · exact absurd hother hentry
          · exact hlater
        obtain ⟨before, surfaces, after, rfl, hbefore⟩ := ih ⟨other, hlater, hother⟩
        exact ⟨entry :: before, surfaces, after, rfl, List.forall_mem_cons.mpr ⟨hentry, hbefore⟩⟩

/-- **A registry has an entry of an id, or it has none.** -/
theorem entryWords_or_noEntry (h : IsRegistry root) (id : String) :
    (∃ words, EntryWords root id words) ∨ NoEntry root id := by
  obtain ⟨version, entries, rfl⟩ := h
  by_cases hentry : ∃ entry ∈ entries, HasId id entry
  · obtain ⟨before, surfaces, after, rfl, hbefore⟩ := exists_first_entry hentry
    exact .inl ⟨_, version, before, surfaces, after, rfl, hbefore, surfaceWords_iff.mpr rfl⟩
  · exact .inr ⟨version, entries, rfl, fun entry hmem hid => hentry ⟨entry, hmem, hid⟩⟩

/-- A tree that is no registry fails. -/
theorem spellingsForId_of_not_isRegistry (h : ¬ IsRegistry root) (id : String) :
    ∃ message, spellingsForId root id = .error message := by
  rcases root with text | ⟨_ | ⟨version, entries⟩⟩
  · exact ⟨_, rfl⟩
  · exact ⟨_, rfl⟩
  · exact absurd ⟨version, entries, rfl⟩ h

/-- A registry without the entry fails with the message that names the id. -/
theorem NoEntry.spellingsForId (h : NoEntry root id) :
    spellingsForId root id = .error (noEntry id) := by
  obtain ⟨version, entries, rfl, hnone⟩ := h
  exact searchEntries_none hnone

variable {P : Platform} {out constName text : String}

/-- **What is written for an entry**: the words of the first entry with the id. -/
theorem emitEntry_eq_ok_iff : emitEntry P out constName root id = .ok text ↔
    ∃ words, EntryWords root id words ∧ words ≠ [] ∧ text = out ++ arrayText P constName words := by
  constructor
  · intro h
    by_cases hroot : IsRegistry root
    · rcases entryWords_or_noEntry hroot id with ⟨words, hwords⟩ | hnone
      · rw [emitEntry, hwords.spellingsForId] at h
        by_cases hempty : words = []
        · simp [hempty] at h
        · simp only [if_neg hempty, Except.ok.injEq] at h
          exact ⟨words, hwords, hempty, h.symm⟩
      · rw [emitEntry, hnone.spellingsForId] at h
        simp at h
    · obtain ⟨message, herror⟩ := spellingsForId_of_not_isRegistry hroot id
      rw [emitEntry, herror] at h
      simp at h
  · rintro ⟨words, hwords, hne, rfl⟩
    rw [emitEntry, hwords.spellingsForId]
    simp only [if_neg hne]

/-- The constants of some entries, one behind the other. -/
inductive Emitted (P : Platform) (root : Sexpr) : List (String × String) → String → String → Prop
  | nil (out : String) : Emitted P root [] out out
  | cons {constName id out text : String} {entries : List (String × String)}
      {words : List String} (hwords : EntryWords root id words) (hne : words ≠ [])
      (hrest : Emitted P root entries (out ++ arrayText P constName words) text) :
      Emitted P root ((constName, id) :: entries) out text

/-- Entries are emitted exactly if every one of them has a word. -/
theorem emitEntries_eq_ok_iff {entries : List (String × String)} :
    emitEntries P root entries out = .ok text ↔ Emitted P root entries out text := by
  constructor
  · intro h
    induction entries generalizing out with
    | nil =>
        obtain rfl : out = text := Except.ok.inj h
        exact .nil out
    | cons entry entries ih =>
        obtain ⟨constName, id⟩ := entry
        rw [emitEntries] at h
        cases hentry : emitEntry P out constName root id with
        | error message => simp [hentry] at h
        | ok out' =>
            simp only [hentry] at h
            obtain ⟨words, hwords, hne, rfl⟩ := emitEntry_eq_ok_iff.mp hentry
            exact .cons hwords hne (ih h)
  · intro h
    induction h with
    | nil out => rfl
    | cons hwords hne _ ih =>
        rw [emitEntries, emitEntry_eq_ok_iff.mpr ⟨_, hwords, hne, rfl⟩]
        exact ih

/-- **Generation from a text of a registry** writes the words of the registry. -/
theorem generate_eq_ok_iff {source : List Char} (hroot : root.Clean)
    (hspelled : Spelled root.tokens source) : generate P source = some (.ok text) ↔
      Emitted P root generatedEntries generatedHeader text := by
  rw [generate, tokenize_spelled hspelled hroot.isToken, parseTree_tokens hroot]
  simp only [Option.some.injEq]
  exact emitEntries_eq_ok_iff

end Emit

/-! ### The whole projection -/

end Build

end LispHost
