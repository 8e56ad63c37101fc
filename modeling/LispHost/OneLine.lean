import LispHost.Replies
import LispHost.ServeClient
import LispHost.Tokens

/-!
# Texts on One Line

A reply goes to a client of the server as one line: `SendLine` puts a newline behind it. The
texts that the runtime puts together stay on one line where their parts do: the names of
symbols, the texts of strings, the tokens that are echoed and the messages of primitives.

## Main definitions

* `OneLine`: the texts without a newline and without a NUL.
* `sendLine`: the bytes that `SendLine` sends.
* `Token.Of`: the tokens that are put together from the characters of a text.

## Main results

* `OneLine.lines_sendLine`: a text on one line is sent as exactly one line.
* `tokens_of_lex`: what the tokens of a text consist of.
* `write_oneLine`: which values are printed on one line.
-/

namespace LispHost

/-- No newline and no NUL. -/
def OneLine (text : String) : Prop := ∀ c ∈ text.toList, c ≠ '\n' ∧ c ≠ '\x00'

instance (text : String) : Decidable (OneLine text) :=
  decidable_of_iff ((text.toList.all fun c => c != '\n' && c != '\x00') = true) (by
    simp only [OneLine, List.all_eq_true, Bool.and_eq_true, bne_iff_ne])

instance (text : String) : Decidable (HasNul text) :=
  inferInstanceAs (Decidable (text.toList.any _ = true))

/-- A text has a NUL if one of its characters is one. -/
theorem hasNul_iff {text : String} : HasNul text ↔ '\x00' ∈ text.toList := by
  rw [HasNul, List.any_eq_true]
  constructor
  · rintro ⟨c, hc, hzero⟩
    obtain rfl : c = '\x00' := Char.toNat_inj.mp (beq_iff_eq.mp hzero)
    exact hc
  · exact fun h => ⟨_, h, rfl⟩

/-- One line is a text without newlines and NULs. -/
theorem oneLine_iff {text : String} : OneLine text ↔ '\n' ∉ text.toList ∧ ¬ HasNul text := by
  rw [hasNul_iff]
  constructor
  · exact fun h => ⟨fun hmem => (h _ hmem).1 rfl, fun hmem => (h _ hmem).2 rfl⟩
  · rintro ⟨hline, hnul⟩ c hc
    exact ⟨fun heq => hline (heq ▸ hc), fun heq => hnul (heq ▸ hc)⟩

namespace OneLine

/-- Two texts on one line, one behind the other. -/
theorem append {a b : String} (ha : OneLine a) (hb : OneLine b) : OneLine (a ++ b) := by
  intro c hc
  rw [String.toList_append, List.mem_append] at hc
  exact hc.elim (ha c) (hb c)

/-- Behind a text of the runtime. -/
theorem behind {a b : String} (hb : OneLine b) (ha : OneLine a := by decide +kernel) :
    OneLine (a ++ b) :=
  ha.append hb

/-- In front of a text of the runtime. -/
theorem before {a b : String} (ha : OneLine a) (hb : OneLine b := by decide +kernel) :
    OneLine (a ++ b) :=
  ha.append hb

/-- A text of characters that are neither newlines nor NULs. -/
theorem ofList {chars : List Char} (h : ∀ c ∈ chars, c ≠ '\n' ∧ c ≠ '\x00') :
    OneLine (String.ofList chars) := by
  rw [OneLine, String.toList_ofList]
  exact h

/-- Any number of texts. -/
theorem join {texts : List String} (h : ∀ text ∈ texts, OneLine text) :
    OneLine (String.join texts) := by
  intro c hc
  rw [String.toList_join, List.mem_flatMap] at hc
  obtain ⟨text, htext, hc⟩ := hc
  exact h text htext c hc

/-- Any number of texts with a separator between them. -/
theorem intercalate {separator : String} (hseparator : OneLine separator) {texts : List String}
    (h : ∀ text ∈ texts, OneLine text) : OneLine (separator.intercalate texts) := by
  induction texts with
  | nil =>
      rw [String.intercalate_nil]
      decide
  | cons text texts ih =>
      obtain ⟨htext, htexts⟩ := List.forall_mem_cons.mp h
      by_cases hempty : texts = []
      · rw [hempty, String.intercalate_singleton]
        exact htext
      · rw [String.intercalate_cons_of_ne_nil hempty]
        exact (htext.append hseparator).append (ih htexts)

/-! ### Numbers -/

/-- The digits of a number, in any base. -/
theorem mem_toDigits {base n : Nat} (hbase : 1 < base) :
    ∀ c ∈ Nat.toDigits base n, c ≠ '\n' ∧ c ≠ '\x00' := by
  have hdigit : ∀ n : Nat, n.digitChar ≠ '\n' ∧ n.digitChar ≠ '\x00' := fun n =>
    ⟨Nat.digitChar_ne '\n' rfl, Nat.digitChar_ne '\x00' rfl⟩
  induction n using Nat.strong_induction_on with
  | _ n ih =>
      intro c hc
      rw [Nat.toDigits_eq_if hbase] at hc
      by_cases hn : n < base
      · rw [if_pos hn, List.mem_singleton] at hc
        exact hc ▸ hdigit n
      · rw [if_neg hn, List.mem_append, List.mem_singleton] at hc
        rcases hc with hc | rfl
        · exact ih _ (Nat.div_lt_self (by omega) hbase) c hc
        · exact hdigit _

/-- A natural number. -/
theorem nat (n : Nat) : OneLine (toString n) := by
  rw [Nat.toString_eq_repr, Nat.repr_eq_ofList_toDigits]
  exact ofList (mem_toDigits (by omega))

/-- An integer. -/
theorem int (n : Int) : OneLine (toString n) := by
  rw [toString_eq_ofList]
  by_cases hpos : 0 ≤ n
  · rw [if_pos hpos]
    exact ofList (mem_toDigits (by omega))
  · rw [if_neg hpos]
    refine ofList (List.forall_mem_cons.mpr ⟨by decide, mem_toDigits (by omega)⟩)

/-- Hexadecimal digits. -/
theorem hexDigits (n : Nat) : OneLine (String.ofList (Nat.toDigits 16 n)) :=
  ofList (mem_toDigits (by omega))

/-- A word in hexadecimal digits. -/
theorem hexText (word : Word) : OneLine (hexText word) := .behind (hexDigits word.toNat)

/-! ### Replies -/

/-- `CString::new` takes the text as it is. -/
theorem toCString {text : String} (h : OneLine text) : toCString text = text := by
  have hnul : ¬ text.toList.any (·.toNat == 0) = true := (oneLine_iff.mp h).2
  rw [LispHost.toCString, if_neg hnul]

end OneLine

/-! ### `SendLine` -/

/-- The loop of `SendLine`, over what `send` answers, call for call. -/
def sendLoop : List Int → Bytes → Bytes
  | [], _ => []
  | sent :: answers, remaining =>
      if remaining = [] then []
      else if sent ≤ 0 then []
      else remaining.take sent.toNat ++ sendLoop answers (remaining.drop sent.toNat)

/-- The bytes that go out. -/
def sendLine (answers : List Int) (text : Bytes) : Bytes := sendLoop answers (text ++ [lineFeed])

/-- The bytes that go out are the first of those that should. -/
theorem sendLoop_isPrefix (answers : List Int) (remaining : Bytes) :
    sendLoop answers remaining <+: remaining := by
  induction answers generalizing remaining with
  | nil => exact List.nil_prefix
  | cons sent answers ih =>
      rw [sendLoop]
      by_cases hempty : remaining = []
      · rw [if_pos hempty]
        exact List.nil_prefix
      by_cases hfails : sent ≤ 0
      · rw [if_neg hempty, if_pos hfails]
        exact List.nil_prefix
      · rw [if_neg hempty, if_neg hfails]
        conv_rhs => rw [← List.take_append_drop sent.toNat remaining]
        exact (List.prefix_append_right_inj _).mpr (ih _)

/-- Where no call of `send` fails, everything is sent. -/
theorem sendLoop_eq {answers : List Int} {remaining : Bytes}
    (hsent : ∀ sent ∈ answers, 0 < sent) (hlength : remaining.length ≤ answers.length) :
    sendLoop answers remaining = remaining := by
  induction answers generalizing remaining with
  | nil => exact (List.eq_nil_of_length_eq_zero (Nat.le_zero.mp hlength)).symm
  | cons sent answers ih =>
      obtain ⟨hpos, hsent⟩ := List.forall_mem_cons.mp hsent
      rw [sendLoop]
      by_cases hempty : remaining = []
      · rw [if_pos hempty, hempty]
      · have hlt := List.length_pos_of_ne_nil hempty
        have hrest : (remaining.drop sent.toNat).length ≤ answers.length := by
          rw [List.length_drop]
          rw [List.length_cons] at hlength
          omega
        rw [if_neg hempty, if_neg (by omega), ih hsent hrest, List.take_append_drop]

/-- A byte of an array is one of its list. -/
theorem get!_mem {bytes : ByteArray} {i : Nat} (h : i < bytes.size) :
    bytes.get! i ∈ bytes.data.toList := by
  obtain ⟨data⟩ := bytes
  have hget : ByteArray.get! ⟨data⟩ i = data[i] := getElem!_pos data i h
  rw [hget]
  exact Array.getElem_mem_toList h

/-- The loop behind `toList` adds bytes of the array only. -/
theorem mem_toList_loop {bytes : ByteArray} {b : UInt8} (i : Nat) (l : List UInt8)
    (h : b ∈ ByteArray.toList.loop bytes i l) : b ∈ l ∨ b ∈ bytes.data.toList := by
  fun_induction ByteArray.toList.loop bytes i l with
  | case1 i l hlt ih =>
      rcases ih h with hmem | hmem
      · rcases List.mem_cons.mp hmem with rfl | hmem
        · exact .inr (get!_mem hlt)
        · exact .inl hmem
      · exact .inr hmem
  | case2 i l hge => exact .inl (List.mem_reverse.mp h)

/-- The bytes of a text are those of its characters. -/
theorem mem_utf8 {text : String} {b : UInt8} (h : b ∈ utf8 text) :
    ∃ c ∈ text.toList, b ∈ String.utf8EncodeChar c := by
  rw [utf8, String.toUTF8_eq_toByteArray] at h
  have hdata := (mem_toList_loop 0 [] h).resolve_left List.not_mem_nil
  rw [← String.utf8Encode_toList, List.utf8Encode, List.toList_data_toByteArray] at hdata
  exact List.mem_flatMap.mp hdata

/-- Only a newline has a newline in its bytes: the bytes of a longer sequence are large. -/
theorem eq_newline_of_mem {c : Char} (h : lineFeed ∈ String.utf8EncodeChar c) : c = '\n' := by
  have hbyte : ∀ n : Nat, lineFeed = UInt8.ofNat n → n % 256 = 10 := by
    intro n heq
    have hnat := congrArg UInt8.toNat heq
    rw [UInt8.toNat_ofNat'] at hnat
    exact hnat.symm
  have hlarge : ∀ n : Nat, 0x80 ≤ n % 256 → lineFeed ≠ UInt8.ofNat n := by
    intro n hn heq
    have := hbyte n heq
    omega
  rw [String.utf8EncodeChar] at h
  split_ifs at h
  · have hval := hbyte _ (List.mem_singleton.mp h)
    exact Char.toNat_inj.mp (show c.toNat = 10 by rw [Char.toNat]; omega)
  all_goals
    refine absurd h ?_
    simp only [List.mem_cons, List.not_mem_nil, or_false, not_or]
  · exact ⟨hlarge _ (by omega), hlarge _ (by omega)⟩
  · exact ⟨hlarge _ (by omega), hlarge _ (by omega), hlarge _ (by omega)⟩
  · exact ⟨hlarge _ (by omega), hlarge _ (by omega), hlarge _ (by omega), hlarge _ (by omega)⟩

/-- One line has no line feed in its bytes. -/
theorem OneLine.lineFeed_notMem {text : String} (h : OneLine text) : lineFeed ∉ utf8 text := by
  intro hmem
  obtain ⟨c, hc, hbyte⟩ := mem_utf8 hmem
  exact (h c hc).1 (eq_newline_of_mem hbyte)

/-- A line behind which the text ends. -/
theorem lines_append_lineFeed {line : Bytes} (h : lineFeed ∉ line) :
    lines (line ++ [lineFeed]) = [line] := by
  induction line with
  | nil => rfl
  | cons c line ih =>
      rw [List.mem_cons, not_or] at h
      exact lines_cons (Ne.symm h.1) (ih h.2)

/-- **A text on one line is sent as exactly one line**, and where `send` fails, as a part of
it. -/
theorem OneLine.lines_sendLine {text : String} (h : OneLine text) :
    lines (utf8 text ++ [lineFeed]) = [utf8 text] ∧
      ∀ answers, sendLine answers (utf8 text) <+: utf8 text ++ [lineFeed] ∧
        ((∀ sent ∈ answers, 0 < sent) → (utf8 text).length < answers.length →
          sendLine answers (utf8 text) = utf8 text ++ [lineFeed]) := by
  refine ⟨lines_append_lineFeed h.lineFeed_notMem, fun answers => ?_⟩
  refine ⟨sendLoop_isPrefix _ _, fun hsent hlength => sendLoop_eq hsent ?_⟩
  rw [List.length_append, List.length_singleton]
  exact hlength

/-! ### Tokens -/

/-- A token that is put together from these characters. -/
def Token.Of (chars : List Char) : Token → Prop
  | .atom text => ∀ c ∈ text.toList, c ∈ chars ∧ inAtom c = true
  | .str text => ∀ c ∈ text.toList, c ∈ chars
  | _ => True

/-- A token of some characters is a token of more characters. -/
theorem Token.Of.mono {chars chars' : List Char} (hsub : chars ⊆ chars') {token : Token}
    (h : token.Of chars) : token.Of chars' := by
  cases token with
  | «open» | close => trivial
  | atom text => exact fun c hc => ⟨hsub (h c hc).1, (h c hc).2⟩
  | str text => exact fun c hc => hsub (h c hc)

/-- A literal and what is behind it are made of the characters of the text. -/
theorem subset_of_takeString {chars value rest : List Char}
    (h : takeString chars = some (value, rest)) : value ⊆ chars ∧ rest ⊆ chars := by
  induction chars using takeString_cases generalizing value with
  | nil => cases h
  | quote tail =>
      obtain ⟨rfl, rfl⟩ := Prod.mk.inj (Option.some.inj h)
      exact ⟨List.nil_subset _, List.subset_cons_self _ _⟩
  | backslash => cases h
  | escape c tail ih =>
      obtain ⟨value', htail, rfl⟩ := takeString_escape_iff.mp h
      obtain ⟨hvalue, hrest⟩ := ih htail
      have htail : tail ⊆ '\\' :: c :: tail := fun d hd => by simp [hd]
      refine ⟨List.append_subset.mpr ⟨?_, List.Subset.trans hvalue htail⟩,
        List.Subset.trans hrest htail⟩
      rw [unescape]
      split_ifs <;> simp
  | char c tail hquote hbackslash ih =>
      obtain ⟨value', htail, rfl⟩ := (takeString_char_iff hquote hbackslash).mp h
      obtain ⟨hvalue, hrest⟩ := ih htail
      exact ⟨List.cons_subset_cons _ hvalue, List.Subset.trans hrest (List.subset_cons_self _ _)⟩

/-- **What tokens consist of.** -/
theorem tokens_of_lex {chars : List Char} {tokens : List Token} (h : lex chars = .ok tokens) :
    ∀ token ∈ tokens, token.Of chars := by
  replace h := lexes_of_lex h
  induction h with
  | nil => simp
  | whitespace _ _ ih =>
      exact fun token htoken => (ih token htoken).mono (List.subset_cons_self _ _)
  | «open» _ ih | close _ ih =>
      refine List.forall_mem_cons.mpr ⟨trivial, fun token htoken => ?_⟩
      exact (ih token htoken).mono (List.subset_cons_self _ _)
  | string hstring _ ih =>
      obtain ⟨hvalue, hrest'⟩ := subset_of_takeString hstring
      refine List.forall_mem_cons.mpr ⟨fun c hc => ?_, fun token htoken => ?_⟩
      · rw [String.toList_ofList] at hc
        exact List.mem_cons_of_mem _ (hvalue hc)
      · exact (ih token htoken).mono (List.Subset.trans hrest' (List.subset_cons_self _ _))
  | atom _ _ ih =>
      refine List.forall_mem_cons.mpr ⟨fun d hd => ?_, fun token htoken => ?_⟩
      · rw [String.toList_ofList] at hd
        exact ⟨(List.takeWhile_sublist _).subset hd, List.mem_takeWhile_imp hd⟩
      · exact (ih token htoken).mono (List.dropWhile_sublist _).subset

/-- An atom of a text without a NUL is on one line. -/
theorem OneLine.of_atom {chars : List Char} {text : String} (h : (Token.atom text).Of chars)
    (hnul : '\x00' ∉ chars) : OneLine text := by
  intro c hc
  obtain ⟨hmem, hatom⟩ := h c hc
  refine ⟨?_, fun heq => hnul (heq ▸ hmem)⟩
  rintro rfl
  exact (inAtom_iff.mp hatom).1 rfl

variable {P : Platform}

/-- Debug formatting escapes newlines and NULs. -/
theorem debugString_oneLine (text : String) : OneLine (debugString P text) := by
  have hchar : ∀ c, OneLine (debugChar P c) := by
    intro c
    rw [debugChar]
    split_ifs with hquote hbackslash hnewline hreturn htab hnul hescapes
    · decide
    · decide
    · decide
    · decide
    · decide
    · decide
    · exact .before (.behind (.hexDigits c.toNat))
    · intro d hd
      obtain rfl : d = c := by simpa using hd
      exact ⟨hnewline, fun heq => hnul (heq ▸ rfl)⟩
  refine .before (.behind (.join ?_))
  rw [List.forall_mem_map]
  exact fun c _ => hchar c

/-- What an error says of a token is on one line. -/
theorem Token.Of.echo {chars : List Char} {token : Token} (h : token.Of chars)
    (hnul : '\x00' ∉ chars) : OneLine (token.echo P) := by
  cases token with
  | «open» => exact (by decide : OneLine "(")
  | close => exact (by decide : OneLine ")")
  | atom text => exact .of_atom h hnul
  | str text => exact debugString_oneLine text

/-! ### Printed values -/

section Printed

variable {arena : Arena} {symbols : SymbolTable} {boxed : BoxedTable}

/-- An atom is printed on one line if names and strings are. -/
theorem atomText_oneLine (hnames : ∀ name ∈ symbols.names, OneLine name)
    (hstrings : ∀ word text lifetime, boxed.entry P word = some ⟨.str text, lifetime⟩ →
      OneLine text) (word : Word) : OneLine (atomText P symbols boxed word) := by
  rw [atomText]
  by_cases hfixnum : tagOf word = tagFixnum
  · rw [if_pos hfixnum]
    exact .int _
  rw [if_neg hfixnum]
  by_cases hsymbol : tagOf word = tagSymbol
  · rw [if_pos hsymbol]
    cases hname : symbols.nameOf word with
    | none => exact .before (.behind (.hexText word))
    | some name =>
        rcases SymbolTable.mem_names_of_nameOf hname with rfl | hmem
        · exact (by decide : OneLine "t")
        · exact hnames name hmem
  rw [if_neg hsymbol]
  by_cases hboxed : tagOf word = tagBoxed
  · rw [if_pos hboxed]
    cases hentry : boxed.entry P word with
    | none => exact .before (.behind (.hexText word))
    | some entry =>
        obtain ⟨value, lifetime⟩ := entry
        cases value with
        | str text => exact .before (.behind (hstrings word text lifetime hentry))
        | gameHandle token => exact (by decide : OneLine "#<game-handle>")
        | rational numerator denominator => exact .append (.before (.int _)) (.int _)
  · rw [if_neg hboxed]
    exact .before (.behind (.nat _))

/-- A walk that prints on one line, if it ends. -/
def Walk.Prints (walk : Walk) : Prop := ∀ text, walk = .ok text → OneLine text

/-- A text on one line is printed on one line. -/
theorem Walk.Prints.ok {text : String} (h : OneLine text) : Walk.Prints (.ok text) := by
  rintro text' ⟨⟩
  exact h

/-- So is what follows a load, whatever was loaded. -/
theorem Walk.Prints.load {word : Except Exit Word} {next : Word → Walk}
    (h : ∀ word, (next word).Prints) : (Walk.load word next).Prints := by
  cases word with
  | ok word => exact h word
  | error e => rintro text ⟨⟩

/-- So are two walks, one behind the other. -/
theorem Walk.Prints.andThen {walk : Walk} {next : String → Walk} (h : walk.Prints)
    (hnext : ∀ text, OneLine text → (next text).Prints) : (walk.andThen next).Prints := by
  cases walk with
  | ok text => exact hnext text (h text rfl)
  | err | panic | abort | timeout => rintro text ⟨⟩

/-- **Values are printed on one line** where symbols and strings are. -/
theorem write_oneLine (hnames : ∀ name ∈ symbols.names, OneLine name)
    (hstrings : ∀ word text lifetime, boxed.entry P word = some ⟨.str text, lifetime⟩ →
      OneLine text) (fuel : Nat) :
    (∀ word, (writeValue P arena symbols boxed fuel word).Prints) ∧
      ∀ current first, (writeTail P arena symbols boxed fuel current first).Prints := by
  have hspace : ∀ first : Bool, OneLine (if first then "" else " ") := by
    intro first
    cases first with
    | true | false => decide
  induction fuel with
  | zero => exact ⟨by rintro word text ⟨⟩, by rintro current first text ⟨⟩⟩
  | succ fuel ih =>
      obtain ⟨hvalue, htail⟩ := ih
      constructor
      · intro word
        rw [writeValue]
        by_cases hnil : tagOf word = tagNil
        · rw [if_pos hnil]
          exact .ok (by decide)
        rw [if_neg hnil]
        by_cases hcons : tagOf word = tagCons
        · rw [if_pos hcons]
          refine (htail word true).andThen fun text htext => ?_
          exact .ok (.before (.behind htext))
        · rw [if_neg hcons]
          exact .ok (atomText_oneLine hnames hstrings word)
      · intro current first
        rw [writeTail]
        by_cases hnil : tagOf current = tagNil
        · rw [if_pos hnil]
          exact .ok (by decide)
        rw [if_neg hnil]
        by_cases hcons : tagOf current = tagCons
        · rw [if_pos hcons]
          refine .load fun head => (hvalue head).andThen fun headText hhead => ?_
          refine .load fun rest => (htail rest false).andThen fun restText hrest => ?_
          exact .ok (((hspace first).append hhead).append hrest)
        · rw [if_neg hcons]
          refine (hvalue current).andThen fun text htext => ?_
          exact .ok ((hspace first).before.append htext)

end Printed

end LispHost
