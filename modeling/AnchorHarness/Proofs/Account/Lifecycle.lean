import AnchorHarness.Account.Classify
import AnchorHarness.Proofs.Rust.AttributeTokens
import AnchorHarness.Proofs.Rust.Bare

/-!
# Declared creation and closing

What the attributes of a field declare of its account's life, told by their tokens: an argument of
an `account` attribute is `init`, `init_if_needed` or `close`. The code reads characters, so it
agrees with the tokens of attributes that are legible, and comments are skipped where none stands
beside such a name.
-/

namespace AnchorHarness.Account

open Rust (Token TypeRef tokenize bodyText AllBlank IsName EndsName Lexed Declares IsQuiet solid
  CommentsApart)

def lifecycleNames : List String := ["init", "init_if_needed", "close"]

/-! ### What tokens declare -/

/-- The tokens are those of an `account` attribute with a list of arguments in parentheses, one of
which is the name. -/
def DeclaresIn (name : String) (ts : List Token) : Prop :=
  ∃ path opening body closing, ts = path :: opening :: (body ++ [closing]) ∧
    path.isWord "account" = true ∧ opening.isSymbol "(" = true ∧ closing.isSymbol ")" = true ∧
    Declares name body

/-- One of the attributes declares one of the names. -/
def Declared (names : List String) (attributes : List (List Token)) : Prop :=
  ∃ ts ∈ attributes, ∃ name ∈ names, DeclaresIn name ts

structure Lifecycle.IsDeclaredBy (life : Lifecycle) (attributes : List (List Token)) : Prop where
  init : life.hasInit = true ↔ Declared ["init", "init_if_needed"] attributes
  close : life.hasClose = true ↔ Declared ["close"] attributes

def tokensOf (text : String) : List Token := tokenize text.toList

/-! ### Legible attributes -/

/-- The tokens of an attribute that is not `account`, has no list that a parenthesis ends, or has a
list in which literals and comments are quiet. -/
inductive HasShape : List Token → Prop where
  | otherPath {ts : List Token} (path : ∀ t ∈ ts.head?, t.isWord "account" = false) : HasShape ts
  | longerPath {path colons : Token} {ts : List Token} (further : colons.isSymbol "::" = true)
      (gap : colons.gap = []) : HasShape (path :: colons :: ts)
  | noList {ts : List Token} (ends : ∀ t ∈ ts.getLast?, t.text.getLast? ≠ some ')') : HasShape ts
  | list {path opening closing : Token} {body : List Token} (account : path.isWord "account" = true)
      (opens : opening.isSymbol "(" = true) (closes : closing.isSymbol ")" = true)
      (quiet : IsQuiet lifecycleNames 0 (body ++ [closing])) :
      HasShape (path :: opening :: (body ++ [closing]))

/-- The attribute is just its tokens with blanks between them. -/
structure Legible (text : String) : Prop where
  written : text.toList = bodyText (tokensOf text)
  front : ∀ t ∈ (tokensOf text).head?, t.gap = []
  gaps : ∀ t ∈ tokensOf text, AllBlank t.gap
  shape : HasShape (tokensOf text)

/-! ### What the code reads -/

/-- The code finds the name among the arguments of an `account` attribute. -/
def HasKey (text name : String) : Prop :=
  Rust.attributePath text = "account" ∧
    ∃ argument ∈ Rust.attributeArguments text, argumentKey argument = name

theorem foldl_join_iff {flag : Lifecycle → Bool}
    (join : ∀ a b : Lifecycle, flag (a.join b) = (flag a || flag b)) (lives : List Lifecycle)
    (life : Lifecycle) :
    flag (lives.foldl Lifecycle.join life) = true ↔
      flag life = true ∨ ∃ l ∈ lives, flag l = true := by
  induction lives generalizing life with
  | nil => simp
  | cons l lives ih =>
    rw [List.foldl_cons, ih, join, Bool.or_eq_true, List.exists_mem_cons_iff, or_assoc]

/-- A flag that some keys raise is raised just if one of them is found. -/
theorem flag_lifecycle_iff {flag : Lifecycle → Bool}
    (join : ∀ a b : Lifecycle, flag (a.join b) = (flag a || flag b))
    (steady : flag .steady = false) {names : List String}
    (raised : ∀ key, flag (lifecycleOfKey key) = true ↔ key ∈ names) (attributes : List String) :
    flag (lifecycle attributes) = true ↔ ∃ a ∈ attributes, ∃ name ∈ names, HasKey a name := by
  have one (a : String) :
      flag (lifecycleOfAttribute a) = true ↔ ∃ name ∈ names, HasKey a name := by
    unfold lifecycleOfAttribute
    split
    · next path =>
      simp only [foldl_join_iff join, steady, Bool.false_eq_true, false_or, List.mem_map,
        exists_exists_and_eq_and, Function.comp_apply, raised]
      constructor
      · rintro ⟨argument, hm, key⟩
        exact ⟨_, key, path, argument, hm, rfl⟩
      · rintro ⟨name, hm, -, argument, ha, rfl⟩
        exact ⟨argument, ha, hm⟩
    · next path =>
      constructor
      · intro raisedAnyway
        rw [steady] at raisedAnyway
        cases raisedAnyway
      · rintro ⟨name, -, account, -⟩
        exact absurd account path
  rw [lifecycle, foldl_join_iff join, steady]
  simp only [Bool.false_eq_true, false_or, List.mem_map, exists_exists_and_eq_and, one]

/-! ### Reading characters and tokens -/

theorem isName_account : IsName "account".toList :=
  ⟨⟨'a', _, rfl, rfl⟩, List.all_eq_true.mp rfl⟩

theorem isName_of_mem {name : String} (h : name ∈ lifecycleNames) : IsName name.toList := by
  simp only [lifecycleNames, List.mem_cons, List.not_mem_nil, or_false] at h
  rcases h with rfl | rfl | rfl
  · exact ⟨⟨'i', _, rfl, rfl⟩, List.all_eq_true.mp rfl⟩
  · exact ⟨⟨'i', _, rfl, rfl⟩, List.all_eq_true.mp rfl⟩
  · exact ⟨⟨'c', _, rfl, rfl⟩, List.all_eq_true.mp rfl⟩

def endsPath (c : Char) : Bool := c = '(' || c = '=' || Text.isBlank c

theorem attributePath_eq_iff (text : String) :
    Rust.attributePath text = "account" ↔
      ∃ rest, text.toList = "account".toList ++ rest ∧ ∀ c ∈ rest.head?, endsPath c = true := by
  have path : Rust.attributePath text = "account" ↔
      text.toList.takeWhile (fun c => !endsPath c) = "account".toList := by
    rw [← String.toList_inj]
    rw [Rust.attributePath, String.toList_ofList]
    rfl
  rw [path]
  constructor
  · intro account
    refine ⟨text.toList.dropWhile fun c => !endsPath c, ?_, ?_⟩
    · rw [← account, List.takeWhile_append_dropWhile]
    · intro c hc
      have stops := List.head?_dropWhile_not (fun c => !endsPath c) text.toList
      rw [Option.mem_def.mp hc] at stops
      simpa using stops
  · rintro ⟨rest, written, ends⟩
    have account : ∀ c ∈ "account".toList, (!endsPath c) = true := List.all_eq_true.mp rfl
    rw [written, List.takeWhile_append_of_pos account]
    cases rest with
    | nil => rfl
    | cons c rest => rw [List.takeWhile_cons_of_neg (by simp [ends c rfl]), List.append_nil]

theorem endsName_of_endsPath {rest : List Char} (h : ∀ c ∈ rest.head?, endsPath c = true) :
    EndsName rest := by
  intro c hc
  have ends := h c hc
  simp only [endsPath, Bool.or_eq_true, decide_eq_true_eq] at ends
  obtain (rfl | rfl) | blank := ends
  · decide
  · decide
  · have gap : AllBlank [c] := by simpa [AllBlank] using blank
    have none : EndsName [] := by simp [EndsName]
    exact Rust.endsName_gap gap none c rfl

theorem tokensOf_of_attributePath {text : String} (h : Rust.attributePath text = "account") :
    ∃ rest, text.toList = "account".toList ++ rest ∧
      tokensOf text = ⟨[], .word, "account".toList⟩ :: tokenize rest ∧
      ∀ c ∈ rest.head?, endsPath c = true := by
  obtain ⟨rest, written, ends⟩ := (attributePath_eq_iff text).mp h
  refine ⟨rest, written, ?_, ends⟩
  rw [tokensOf, written]
  exact Rust.tokenize_name (g := []) (by simp [AllBlank]) isName_account (endsName_of_endsPath ends)

theorem argumentKey_eq_iff (argument : List Char) (name : String) :
    argumentKey (String.ofList argument) = name ↔ Rust.keyOf argument = name.toList := by
  rw [← String.toList_inj, argumentKey, String.toList_ofList, String.toList_ofList, Rust.keyOf]

theorem hasKey_list_iff {text : String} {path opening closing : Token} {body : List Token}
    (written : text.toList = bodyText (path :: opening :: (body ++ [closing])))
    (front : path.gap = []) (gap : AllBlank opening.gap) (account : path.isWord "account" = true)
    (opens : opening.isSymbol "(" = true) (closes : closing.isSymbol ")" = true) (name : String) :
    HasKey text name ↔
      ∃ argument ∈ Rust.cutArguments 0 [] (bodyText body ++ closing.gap),
        Rust.keyOf argument = name.toList := by
  obtain ⟨-, word⟩ := Rust.isWord_iff.mp account
  obtain ⟨-, paren⟩ := Rust.isSymbol_iff.mp opens
  obtain ⟨-, close⟩ := Rust.isSymbol_iff.mp closes
  have all : text.toList = "account".toList ++
      (opening.gap ++ '(' :: (bodyText body ++ closing.gap ++ [')'])) := by
    rw [written, Rust.bodyText_cons, Rust.bodyText_cons, Rust.bodyText_append,
      Rust.bodyText_singleton, front, word, paren, close, List.nil_append, List.append_assoc]
    rfl
  have isAccount : Rust.attributePath text = "account" := by
    refine (attributePath_eq_iff text).mpr ⟨_, all, ?_⟩
    cases hg : opening.gap with
    | nil => simp [endsPath]
    | cons c g =>
      have blank : Text.isBlank c = true := gap c (by rw [hg]; exact List.mem_cons_self ..)
      simp [endsPath, blank]
  have before : '(' ∉ "account".toList ++ opening.gap := by
    intro there
    rcases List.mem_append.mp there with there | there
    · exact absurd there (by decide)
    · exact absurd (gap _ there) (by decide)
  have inside : Rust.argumentText? text.toList = some (bodyText body ++ closing.gap) := by
    rw [all, ← List.append_assoc]
    exact Rust.argumentText?_parenthesized before
  rw [HasKey, Rust.attributeArguments, inside]
  simp only [isAccount, true_and, List.mem_map, exists_exists_and_eq_and, argumentKey_eq_iff]

theorem getLast?_bodyText {ts : List Token} {t : Token} (last : ts.getLast? = some t)
    (some : t.text ≠ []) : (bodyText ts).getLast? = t.text.getLast? := by
  obtain ⟨front, rfl⟩ := List.getLast?_eq_some_iff.mp last
  rw [Rust.bodyText_append, Rust.bodyText_singleton, ← List.append_assoc,
    List.getLast?_append_of_ne_nil _ some]

theorem getLast?_of_mem_attributeArguments {text argument : String}
    (h : argument ∈ Rust.attributeArguments text) : text.toList.getLast? = some ')' := by
  have found : (Rust.argumentText? text.toList).isSome = true := by
    rw [Rust.attributeArguments] at h
    cases he : Rust.argumentText? text.toList with
    | none =>
      rw [he] at h
      cases h
    | some body => rfl
  unfold Rust.argumentText? at found
  split at found
  · cases found
  · split at found
    · next last => exact last
    · cases found

theorem declaresIn_list_iff {path opening closing : Token} {body : List Token}
    (account : path.isWord "account" = true) (opens : opening.isSymbol "(" = true)
    (closes : closing.isSymbol ")" = true) (name : String) :
    DeclaresIn name (path :: opening :: (body ++ [closing])) ↔ Declares name body := by
  constructor
  · rintro ⟨path', opening', body', closing', same, -, -, -, declares⟩
    have ends := (List.cons.inj (List.cons.inj same).2).2
    rw [(List.append_inj' ends rfl).1]
    exact declares
  · exact fun declares => ⟨path, opening, body, closing, rfl, account, opens, closes, declares⟩

section

variable {ts : List Token} {name : String}

theorem not_declaresIn_of_path (path : ∀ t ∈ ts.head?, t.isWord "account" = false) :
    ¬DeclaresIn name ts := by
  rintro ⟨t, opening, body, closing, rfl, account, -⟩
  rw [path t rfl] at account
  cases account

theorem not_declaresIn_of_colons {path colons : Token} (further : colons.isSymbol "::" = true) :
    ¬DeclaresIn name (path :: colons :: ts) := by
  rintro ⟨t, opening, body, closing, same, -, opens, -⟩
  have sign := (Rust.isSymbol_iff.mp further).2
  rw [(List.cons.inj (List.cons.inj same).2).1, (Rust.isSymbol_iff.mp opens).2] at sign
  exact absurd sign (by decide)

theorem not_declaresIn_of_last (ends : ∀ t ∈ ts.getLast?, t.text.getLast? ≠ some ')') :
    ¬DeclaresIn name ts := by
  rintro ⟨path, opening, body, closing, rfl, -, -, closes, -⟩
  have last : (path :: opening :: (body ++ [closing])).getLast? = some closing := by
    rw [← List.cons_append, ← List.cons_append, List.getLast?_concat]
  refine absurd ?_ (ends closing last)
  rw [(Rust.isSymbol_iff.mp closes).2]
  rfl

end

/-- In a legible attribute the code finds just what the tokens declare. -/
theorem hasKey_iff_declaresIn {text : String} (legible : Legible text) {name : String}
    (named : name ∈ lifecycleNames) : HasKey text name ↔ DeclaresIn name (tokensOf text) := by
  obtain ⟨written, front, gaps, shape⟩ := legible
  have lexed : Lexed (tokensOf text) := by
    rw [Lexed, ← written]
    rfl
  have begins : HasKey text name → ∃ rest, text.toList = "account".toList ++ rest ∧
      tokensOf text = ⟨[], .word, "account".toList⟩ :: tokenize rest ∧
      ∀ c ∈ rest.head?, endsPath c = true := fun key => tokensOf_of_attributePath key.1
  generalize tokensOf text = ts at *
  -- Only the last shape has a list; in the others neither side finds an argument.
  cases shape with
  | otherPath path =>
    refine iff_of_false (fun key => ?_) (not_declaresIn_of_path path)
    obtain ⟨rest, -, rfl, -⟩ := begins key
    exact absurd (path _ rfl) (by decide)
  | @longerPath path colons ts further gap =>
    refine iff_of_false (fun key => ?_) (not_declaresIn_of_colons further)
    obtain ⟨rest, text, tokens, ends⟩ := begins key
    rw [(List.cons.inj tokens).1, Rust.bodyText_cons, List.nil_append, text] at written
    have colon := ends ':'
    rw [List.append_cancel_left written, Rust.bodyText_cons, gap,
      (Rust.isSymbol_iff.mp further).2] at colon
    exact absurd (colon rfl) (by decide)
  | noList ends =>
    refine iff_of_false ?_ (not_declaresIn_of_last ends)
    rintro ⟨-, argument, hm, -⟩
    have last := getLast?_of_mem_attributeArguments hm
    rw [written] at last
    obtain rfl | ⟨before, t, rfl⟩ := List.eq_nil_or_concat' ts
    · cases last
    · have final : (before ++ [t]).getLast? = some t := List.getLast?_concat
      rw [getLast?_bodyText final lexed.right.cons.2.1] at last
      exact absurd last (ends t final)
  | @list path opening closing body account opens closes quiet =>
    have inner : ∀ t ∈ body ++ [closing], AllBlank t.gap := fun t ht =>
      gaps t (List.mem_cons_of_mem _ (List.mem_cons_of_mem _ ht))
    rw [hasKey_list_iff written (front path rfl) (gaps opening (by simp)) account opens closes,
      declaresIn_list_iff account opens closes]
    exact Rust.exists_keyOf_iff_declares (isName_of_mem named) named closes
      lexed.cons.2.2.cons.2.2 inner quiet

/-! ### Skipping comments -/

/-- The attribute neither begins nor ends with a comment, and in its list none stands beside a name
that it declares. -/
structure CommentsAside (ts : List Token) : Prop where
  front : ∀ t ∈ ts.head?, t.isComment = false
  last : ∀ t ∈ ts.getLast?, t.isComment = false
  inside : ∀ path opening body closing, ts = path :: opening :: (body ++ [closing]) →
    CommentsApart lifecycleNames body

theorem solid_list {path opening closing : Token} (account : path.isWord "account" = true)
    (opens : opening.isSymbol "(" = true) (closes : closing.isSymbol ")" = true)
    (body : List Token) :
    solid (path :: opening :: (body ++ [closing])) =
      path :: opening :: (solid body ++ [closing]) := by
  rw [Rust.solid_cons (Rust.not_isComment_of_isWord account),
    Rust.solid_cons (Rust.not_isComment_of_isSymbol opens),
    Rust.solid_append_singleton (Rust.not_isComment_of_isSymbol closes)]

theorem declaresIn_solid_iff {ts : List Token} (shape : HasShape ts) (aside : CommentsAside ts)
    {name : String} (named : name ∈ lifecycleNames) :
    DeclaresIn name (solid ts) ↔ DeclaresIn name ts := by
  cases shape with
  | otherPath path =>
    have same := Rust.head?_solid aside.front
    exact iff_of_false (not_declaresIn_of_path (same ▸ path)) (not_declaresIn_of_path path)
  | @longerPath path colons ts further gap =>
    rw [Rust.solid_cons (aside.front path rfl),
      Rust.solid_cons (Rust.not_isComment_of_isSymbol further)]
    exact iff_of_false (not_declaresIn_of_colons further) (not_declaresIn_of_colons further)
  | noList ends =>
    have same := Rust.getLast?_solid aside.last
    exact iff_of_false (not_declaresIn_of_last (same ▸ ends)) (not_declaresIn_of_last ends)
  | @list path opening closing body account opens closes quiet =>
    rw [solid_list account opens closes, declaresIn_list_iff account opens closes,
      declaresIn_list_iff account opens closes]
    exact ⟨Declares.of_solid named (aside.inside path opening body closing rfl), Declares.solid⟩

/-! ### Gaps and literals -/

theorem declaresIn_map_bare_iff (name : String) (ts : List Token) :
    DeclaresIn name (ts.map Token.bare) ↔ DeclaresIn name ts := by
  constructor
  · rintro ⟨path', opening', body', closing', text, account, opens, closes, declares⟩
    obtain ⟨path, behindPath, rfl, rfl, list⟩ := List.map_eq_cons_iff.mp text
    obtain ⟨opening, inside, rfl, rfl, arguments⟩ := List.map_eq_cons_iff.mp list
    obtain ⟨body, last, rfl, rfl, one⟩ := List.map_eq_append_iff.mp arguments
    obtain ⟨closing, rfl, rfl⟩ := List.map_eq_singleton_iff.mp one
    rw [Rust.isWord_bare] at account
    rw [Rust.isSymbol_bare] at opens closes
    exact ⟨path, opening, body, closing, rfl, account, opens, closes,
      (Rust.declares_map_bare_iff name body).mp declares⟩
  · rintro ⟨path, opening, body, closing, rfl, account, opens, closes, declares⟩
    refine ⟨path.bare, opening.bare, body.map Token.bare, closing.bare, ?_, ?_, ?_, ?_, ?_⟩
    · rw [List.map_cons, List.map_cons, List.map_append, List.map_singleton]
    · rw [Rust.isWord_bare, account]
    · rw [Rust.isSymbol_bare, opens]
    · rw [Rust.isSymbol_bare, closes]
    · exact (Rust.declares_map_bare_iff name body).mpr declares

/-! ### Declared lifecycles -/

def solidTokensOf (text : String) : List Token := solid (tokensOf text)

/-- What remains of an attribute that is spaced, commented and filled with literals at will. -/
def bareTokensOf (text : String) : List Token := (solidTokensOf text).map Token.bare

theorem isDeclaredBy_of_iff {attributes : List String} {read : String → List Token}
    (h : ∀ a ∈ attributes, ∀ name ∈ lifecycleNames, HasKey a name ↔ DeclaresIn name (read a)) :
    (lifecycle attributes).IsDeclaredBy (attributes.map read) := by
  have declared (names : List String) (sub : ∀ name ∈ names, name ∈ lifecycleNames) :
      (∃ a ∈ attributes, ∃ name ∈ names, HasKey a name) ↔
        Declared names (attributes.map read) := by
    constructor
    · rintro ⟨a, ha, name, hn, key⟩
      exact ⟨read a, List.mem_map_of_mem ha, name, hn, (h a ha name (sub name hn)).mp key⟩
    · rintro ⟨ts, ht, name, hn, declares⟩
      obtain ⟨a, ha, rfl⟩ := List.mem_map.mp ht
      exact ⟨a, ha, name, hn, (h a ha name (sub name hn)).mpr declares⟩
  constructor
  · rw [← declared _ (by decide)]
    apply flag_lifecycle_iff (fun _ _ => rfl) rfl
    intro key
    simp [lifecycleOfKey]
  · rw [← declared _ (by decide)]
    apply flag_lifecycle_iff (fun _ _ => rfl) rfl
    intro key
    simp [lifecycleOfKey]

theorem Lifecycle.IsDeclaredBy.eq {a b : Lifecycle} {attributes : List (List Token)}
    (ha : a.IsDeclaredBy attributes) (hb : b.IsDeclaredBy attributes) : a = b := by
  obtain ⟨init, close⟩ := a
  obtain ⟨init', close'⟩ := b
  have first : init = init' := Bool.eq_iff_iff.mpr (ha.init.trans hb.init.symm)
  have second : close = close' := Bool.eq_iff_iff.mpr (ha.close.trans hb.close.symm)
  rw [first, second]

/-- Attributes that are legible, with comments only where they are skipped. -/
structure Plain (text : String) : Prop where
  legible : Legible text
  aside : CommentsAside (tokensOf text)

theorem hasKey_iff_solid {text : String} (plain : Plain text) {name : String}
    (named : name ∈ lifecycleNames) : HasKey text name ↔ DeclaresIn name (solidTokensOf text) := by
  rw [hasKey_iff_declaresIn plain.legible named, solidTokensOf,
    declaresIn_solid_iff plain.legible.shape plain.aside named]

theorem hasKey_iff_bare {text : String} (plain : Plain text) {name : String}
    (named : name ∈ lifecycleNames) : HasKey text name ↔ DeclaresIn name (bareTokensOf text) := by
  rw [hasKey_iff_solid plain named, bareTokensOf, declaresIn_map_bare_iff]

/-- What legible attributes declare is read off their tokens. Where comments are skipped, they have
no say in it, and nor have literals and blanks, also in how a field is classified. -/
theorem lifecycle_declared {attributes : List String} (legible : ∀ a ∈ attributes, Legible a) :
    (lifecycle attributes).IsDeclaredBy (attributes.map tokensOf) ∧
      ((∀ a ∈ attributes, CommentsAside (tokensOf a)) →
        (lifecycle attributes).IsDeclaredBy (attributes.map solidTokensOf) ∧
          ∀ others : List String, (∀ a ∈ others, Plain a) →
            others.map bareTokensOf = attributes.map bareTokensOf →
              lifecycle others = lifecycle attributes ∧
                ∀ (name : String) (declared : TypeRef),
                  classify name declared others = classify name declared attributes) := by
  refine ⟨isDeclaredBy_of_iff fun a ha name named => hasKey_iff_declaresIn (legible a ha) named, ?_⟩
  intro aside
  have plain : ∀ a ∈ attributes, Plain a := fun a ha => ⟨legible a ha, aside a ha⟩
  refine ⟨isDeclaredBy_of_iff fun a ha name named => hasKey_iff_solid (plain a ha) named, ?_⟩
  intro others plainOthers same
  have here := isDeclaredBy_of_iff fun a ha name named => hasKey_iff_bare (plain a ha) named
  have there := isDeclaredBy_of_iff fun a ha name named => hasKey_iff_bare (plainOthers a ha) named
  rw [same] at there
  have life := there.eq here
  refine ⟨life, fun name declared => ?_⟩
  rw [classify, classify, life]

/-! ### A vault -/

theorem commentsAside_of_isChain {ts : List Token} (front : ∀ t ∈ ts.head?, t.isComment = false)
    (last : ∀ t ∈ ts.getLast?, t.isComment = false)
    (chain : ts.IsChain fun t u => (lifecycleNames.any t.isWord = true → u.isComment = false) ∧
      (lifecycleNames.any u.isWord = true → t.isComment = false)) : CommentsAside ts := by
  refine ⟨front, last, ?_⟩
  rintro path opening body closing rfl before t after rfl ⟨name, named, word⟩ - -
  have isName : lifecycleNames.any t.isWord = true := List.any_eq_true.mpr ⟨name, named, word⟩
  constructor
  · intro c hc
    obtain ⟨before, rfl⟩ := List.getLast?_eq_some_iff.mp hc
    have pair : [c, t] <:+: path :: opening :: (before ++ [c] ++ t :: after ++ [closing]) :=
      ⟨path :: opening :: before, after ++ [closing], by simp⟩
    have beside := List.IsChain.infix chain pair
    exact (List.isChain_pair.mp beside).2 isName
  · intro c hc
    obtain ⟨after, rfl⟩ := List.head?_eq_some_iff.mp hc
    have pair : [t, c] <:+: path :: opening :: (before ++ t :: c :: after ++ [closing]) :=
      ⟨path :: opening :: before, after ++ [closing], by simp⟩
    have beside := List.IsChain.infix chain pair
    exact (List.isChain_pair.mp beside).1 isName

def accountTokens (body : List Token) : List Token :=
  ⟨[], .word, "account".toList⟩ :: ⟨[], .symbol, ['(']⟩ :: (body ++ [⟨[], .symbol, [')']⟩])

theorem plain_of_tokens {text : String} {body : List Token}
    (tokens : tokensOf text = accountTokens body)
    (written : text.toList = bodyText (accountTokens body))
    (gaps : (accountTokens body).all (fun t => t.gap.all Text.isBlank) = true)
    (quiet : IsQuiet lifecycleNames 0 (body ++ [⟨[], .symbol, [')']⟩]))
    (chain : (accountTokens body).IsChain fun t u =>
      (lifecycleNames.any t.isWord = true → u.isComment = false) ∧
        (lifecycleNames.any u.isWord = true → t.isComment = false)) : Plain text := by
  have blank : ∀ t ∈ accountTokens body, AllBlank t.gap := fun t ht =>
    List.all_eq_true.mp (List.all_eq_true.mp gaps t ht)
  refine ⟨⟨tokens ▸ written, ?_, tokens ▸ blank, ?_⟩, ?_⟩
  · rw [tokens]
    intro t ht
    obtain rfl := Option.some.inj ht
    rfl
  · rw [tokens]
    exact .list rfl rfl rfl quiet
  · rw [tokens]
    refine commentsAside_of_isChain ?_ ?_ chain
    · intro t ht
      obtain rfl := Option.some.inj ht
      rfl
    · intro t ht
      rw [accountTokens, ← List.cons_append, ← List.cons_append, List.getLast?_concat] at ht
      obtain rfl := Option.some.inj ht
      rfl

def vaultAttribute : String := "account(init, seeds = [b\"a,(b)\"], bump)"

def vaultBody : List Token :=
  [⟨[], .word, "init".toList⟩, ⟨[], .symbol, [',']⟩, ⟨[' '], .word, "seeds".toList⟩,
    ⟨[' '], .symbol, ['=']⟩, ⟨[' '], .symbol, ['[']⟩, ⟨[], .text, "b\"a,(b)\"".toList⟩,
    ⟨[], .symbol, [']']⟩, ⟨[], .symbol, [',']⟩, ⟨[' '], .word, "bump".toList⟩]

theorem plain_vaultAttribute : Plain vaultAttribute := by
  have tokens : tokensOf vaultAttribute = accountTokens vaultBody := by cbv
  have written : vaultAttribute.toList = bodyText (accountTokens vaultBody) := by cbv
  exact plain_of_tokens tokens written rfl (by decide) (by decide)

def commentedAttribute : String :=
  "account( init, // once, and only once\n seeds = [b\"vault\"], bump)"

def commentedBody : List Token :=
  [⟨[' '], .word, "init".toList⟩, ⟨[], .symbol, [',']⟩,
    ⟨[' '], .comment, "// once, and only once".toList⟩, ⟨['\n', ' '], .word, "seeds".toList⟩,
    ⟨[' '], .symbol, ['=']⟩, ⟨[' '], .symbol, ['[']⟩, ⟨[], .text, "b\"vault\"".toList⟩,
    ⟨[], .symbol, [']']⟩, ⟨[], .symbol, [',']⟩, ⟨[' '], .word, "bump".toList⟩]

theorem plain_commentedAttribute : Plain commentedAttribute := by
  have tokens : tokensOf commentedAttribute = accountTokens commentedBody := by cbv
  have written : commentedAttribute.toList = bodyText (accountTokens commentedBody) := by cbv
  exact plain_of_tokens tokens written rfl (by decide) (by decide)

theorem lifecycle_declared_vaultAttribute :
    Plain vaultAttribute ∧ Plain commentedAttribute ∧
      bareTokensOf commentedAttribute = bareTokensOf vaultAttribute ∧
      lifecycle [vaultAttribute] = ⟨true, false⟩ ∧
      lifecycle [commentedAttribute] = lifecycle [vaultAttribute] := by
  have plain : ∀ a ∈ [vaultAttribute], Plain a := by
    intro a ha
    rw [List.mem_singleton.mp ha]
    exact plain_vaultAttribute
  have commented : ∀ a ∈ [commentedAttribute], Plain a := by
    intro a ha
    rw [List.mem_singleton.mp ha]
    exact plain_commentedAttribute
  have same : bareTokensOf commentedAttribute = bareTokensOf vaultAttribute := by cbv
  have settled := (lifecycle_declared fun a ha => (plain a ha).legible).2
    fun a ha => (plain a ha).aside
  have life := (settled.2 [commentedAttribute] commented (congrArg (fun ts => [ts]) same)).1
  exact ⟨plain_vaultAttribute, plain_commentedAttribute, same, by cbv, life⟩

-- A comment beside the name hides it from the code.
example : lifecycle ["account(/* new */ init, payer = user)"] = .steady := by decide

end AnchorHarness.Account
