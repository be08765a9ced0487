import AnchorHarness.Text.Blank

/-!
# Console markup

Messages for the console are written in a markup. A tag is a bracket whose first character is a
small letter, `#`, `/` or `@`; it is not shown. A backslash in front of such a bracket makes it
plain text, and two backslashes in front of it stand for one. A closing tag must have a tag to
close, by name or, without a name, the last one that is open.

A text is first cut into chunks: plain text, and brackets with the backslashes in front of them.
Escaping and showing are both read off the chunks, and `chunks_text` says that cutting loses
nothing.
-/

namespace AnchorHarness.Console

/-- A part of a text in markup. -/
inductive Chunk where
  | plain (text : List Char)
  /-- A bracket of the form of a tag, and how many backslashes stand in front of it. -/
  | bracket (slashes : Nat) (body : List Char)
  deriving DecidableEq, Repr

def beginsTag (c : Char) : Bool := ('a' ≤ c && c ≤ 'z') || c = '#' || c = '/' || c = '@'

/-- What stands before the next closing bracket and after it, unless a bracket is opened first. -/
def upToClosing : List Char → Option (List Char × List Char)
  | [] => none
  | c :: cs =>
    if c = ']' then some ([], cs)
    else if c = '[' then none
    else (upToClosing cs).map fun p => (c :: p.1, p.2)

/-- The body of a tag behind its opening bracket, and the rest. -/
def tagBody? : List Char → Option (List Char × List Char)
  | [] => none
  | c :: cs => if beginsTag c then (upToClosing cs).map fun p => (c :: p.1, p.2) else none

/-- The slashes, body and rest of a bracket at the front of a text. -/
def leadingBracket? (cs : List Char) : Option (Nat × List Char × List Char) :=
  match cs.dropWhile (· = '\\') with
  | '[' :: rest => (tagBody? rest).map fun p => ((cs.takeWhile (· = '\\')).length, p.1, p.2)
  | _ => none

theorem append_upToClosing {cs body rest : List Char} (h : upToClosing cs = some (body, rest)) :
    body ++ ']' :: rest = cs := by
  induction cs generalizing body with
  | nil => simp [upToClosing] at h
  | cons c cs ih =>
    rw [upToClosing] at h
    split at h
    · simp_all
    · split at h
      · simp at h
      · obtain ⟨⟨inner, after⟩, hp, he⟩ := Option.map_eq_some_iff.1 h
        simp only [Prod.mk.injEq] at he
        rw [← he.1, List.cons_append, ih (he.2 ▸ hp)]

theorem append_tagBody {cs body rest : List Char} (h : tagBody? cs = some (body, rest)) :
    body ++ ']' :: rest = cs := by
  cases cs with
  | nil => simp [tagBody?] at h
  | cons c cs =>
    rw [tagBody?] at h
    split at h
    · obtain ⟨⟨inner, after⟩, hp, he⟩ := Option.map_eq_some_iff.1 h
      simp only [Prod.mk.injEq] at he
      rw [← he.1, List.cons_append, append_upToClosing (he.2 ▸ hp)]
    · simp at h

def bracketText (slashes : Nat) (body : List Char) : List Char :=
  List.replicate slashes '\\' ++ '[' :: (body ++ [']'])

theorem append_leadingBracket {cs body rest : List Char} {slashes : Nat}
    (h : leadingBracket? cs = some (slashes, body, rest)) :
    bracketText slashes body ++ rest = cs := by
  rw [leadingBracket?] at h
  split at h
  · next behind hd =>
    obtain ⟨⟨inner, after⟩, hp, he⟩ := Option.map_eq_some_iff.1 h
    simp only [Prod.mk.injEq] at he
    obtain ⟨hs, rfl, rfl⟩ := he
    have hslashes : cs.takeWhile (· = '\\') = List.replicate slashes '\\' :=
      List.eq_replicate_iff.2 ⟨hs, fun c hc => by
        simpa using List.all_eq_true.1 (List.all_takeWhile (p := (· = '\\')) (l := cs)) c hc⟩
    have hcs := List.takeWhile_append_dropWhile (p := (· = '\\')) (l := cs)
    rw [hslashes, hd, ← append_tagBody hp] at hcs
    rw [← hcs]
    simp [bracketText]
  · simp at h

/-- Puts a character in front, into the plain text that stands there if there is one. -/
def consPlain (c : Char) : List Chunk → List Chunk
  | .plain text :: rest => .plain (c :: text) :: rest
  | chunks => .plain [c] :: chunks

def chunks (cs : List Char) : List Chunk :=
  match cs with
  | [] => []
  | c :: rest =>
    match _h : leadingBracket? (c :: rest) with
    | some (slashes, body, after) => .bracket slashes body :: chunks after
    | none => consPlain c (chunks rest)
termination_by cs.length
decreasing_by
  · have hlen := congrArg List.length (append_leadingBracket _h)
    simp [bracketText] at hlen
    simp
    omega
  · simp

def Chunk.text : Chunk → List Char
  | .plain text => text
  | .bracket slashes body => bracketText slashes body

theorem flatMap_consPlain (c : Char) (cs : List Chunk) :
    (consPlain c cs).flatMap Chunk.text = c :: cs.flatMap Chunk.text := by
  unfold consPlain
  split <;> simp [Chunk.text]

theorem chunks_text (cs : List Char) : (chunks cs).flatMap Chunk.text = cs := by
  fun_induction chunks cs with
  | case1 => rfl
  | case2 c rest slashes body after h ih =>
    simp [Chunk.text, ih, append_leadingBracket h]
  | case3 c rest h ih => simp [flatMap_consPlain, ih]

/-! ### Escaping -/

def Chunk.escaped : Chunk → List Char
  | .plain text => text
  | .bracket slashes body => bracketText (2 * slashes + 1) body

/-- Doubles a backslash at the end of a text, unless there are two. -/
def closeSlash (cs : List Char) : List Char :=
  match cs.reverse with
  | '\\' :: '\\' :: _ => cs
  | '\\' :: _ => cs ++ ['\\']
  | _ => cs

/-- A text written so that it is shown as it is. -/
def escape (s : String) : String :=
  String.ofList (closeSlash ((chunks s.toList).flatMap Chunk.escaped))

/-! ### Showing -/

/-- What can be wrong with a text in markup. -/
inductive MarkupFault where
  /-- A closing tag names a tag that is not open. -/
  | unmatched (body : String) (position : Nat)
  /-- A closing tag without a name, when no tag is open. -/
  | nothingOpen (position : Nat)
  deriving DecidableEq, Repr

def MarkupFault.message : MarkupFault → String
  | .unmatched body position =>
    "closing tag '[" ++ body ++ "]' at position " ++ toString position ++
      " doesn't match any open tag"
  | .nothingOpen position =>
    "closing tag '[/]' at position " ++ toString position ++ " has nothing to close"

/-- Drops a backslash in front of an opening bracket. -/
def dropSlashes : List Char → List Char
  | '\\' :: '[' :: cs => '[' :: dropSlashes cs
  | c :: cs => c :: dropSlashes cs
  | [] => []

/-- The characters of a text that are shown: not bell, backspace, vertical tab, form feed and
carriage return. -/
def shown (cs : List Char) : List Char :=
  cs.filter fun c => !([7, 8, 11, 12, 13].contains c.toNat)

def tagName (cs : List Char) : List Char := (Text.trim (cs.takeWhile (· ≠ '='))).map Char.toLower

/-- The open tags after a tag at a position. A tag that begins with `@` is taken like any other, so
what is given behind its name is not read when it is closed. -/
def afterTag (position : Nat) (body : List Char) (openTags : List (List Char)) :
    Except MarkupFault (List (List Char)) :=
  match body with
  | '/' :: name =>
    let name := tagName name
    if name.isEmpty then
      match openTags with
      | [] => .error (.nothingOpen position)
      | _ :: rest => .ok rest
    else if openTags.contains name then .ok (openTags.erase name)
    else .error (.unmatched (String.ofList body) position)
  | name => .ok (tagName name :: openTags)

/-- What is shown of chunks that begin at a position, with the tags that are open there, the last
one first. -/
def showChunks (position : Nat) (openTags : List (List Char)) :
    List Chunk → Except MarkupFault (List Char)
  | [] => .ok []
  | .plain text :: rest => do
    return shown (dropSlashes text) ++ (← showChunks (position + text.length) openTags rest)
  | .bracket slashes body :: rest => do
    let next := position + slashes + body.length + 2
    let halved := List.replicate (slashes / 2) '\\'
    if slashes % 2 = 1 then
      return halved ++ shown ('[' :: (body ++ [']'])) ++ (← showChunks next openTags rest)
    else
      let openTags ← afterTag (position + slashes) body openTags
      return halved ++ (← showChunks next openTags rest)

/-- What is shown of a text in markup. -/
def render (markup : String) : Except MarkupFault String :=
  (showChunks 0 [] (chunks markup.toList)).map String.ofList

end AnchorHarness.Console
