import Tabular.Document
import Tabular.Document.Json

/-!
# YAML text

Reading covers the part of YAML that tables and requests are written in: block and
flow collections with plain and quoted scalars as keys, comments and one document.
Anchors, tags, directives, explicit keys and block scalars are malformed. Each
character is read with its column, because indentation decides where a block ends.
-/
namespace Tabular.Yaml

/-- A character and its column. -/
structure Mark where
  char : Char
  column : Nat

/-- Characters with their columns, line ends being single line feeds. -/
def marks (column : Nat) : List Char → List Mark
  | [] => []
  | '\r' :: '\n' :: rest => ⟨'\n', column⟩ :: marks 0 rest
  | c :: rest =>
    if c = '\n' ∨ c = '\r' then ⟨'\n', column⟩ :: marks 0 rest
    else ⟨c, column⟩ :: marks (column + 1) rest

def isGap (c : Char) : Bool := c == ' ' || c == '\t'

def isGapOrBreak (c : Char) : Bool := isGap c || c == '\n'

/-- A gap, a line end or the end of the text stands here. -/
def atGap : List Mark → Bool
  | [] => true
  | m :: _ => isGapOrBreak m.char

def skipGaps (cs : List Mark) : List Mark := cs.dropWhile fun m => isGap m.char

/-- The text without gaps, line ends and comments in front. -/
def skipTrivia (inComment : Bool) : List Mark → List Mark
  | [] => []
  | m :: rest =>
    if m.char = '\n' then skipTrivia false rest
    else if inComment || isGap m.char then skipTrivia inComment rest
    else if m.char = '#' then skipTrivia true rest
    else m :: rest

/-- The text without spaces, line ends and comments in front. Where a block may begin,
a tab is no indentation, so there is no such text if one stands there. -/
def skipLines? (inComment : Bool) : List Mark → Option (List Mark)
  | [] => some []
  | m :: rest =>
    if m.char = '\n' then skipLines? false rest
    else if inComment || m.char == ' ' then skipLines? inComment rest
    else if m.char = '#' then skipLines? true rest
    else if m.char = '\t' then none
    else some (m :: rest)

/-- The text from the first line with content after this one, whose rest is only gaps
and a comment. -/
def nextLine? (cs : List Mark) : Option (List Mark) := skipLines? false (skipGaps cs)

def atLineEnd (cs : List Mark) : Bool :=
  match skipGaps cs with
  | [] => true
  | m :: _ => m.char == '\n' || m.char == '#'

/-- Three characters in front of a gap, in the first column. -/
def isMarker (c : Char) : List Mark → Bool
  | a :: b :: d :: rest =>
    a.column == 0 && a.char == c && b.char == c && d.char == c && atGap rest
  | _ => false

def atDocumentEnd (cs : List Mark) : Bool := cs.isEmpty || isMarker '-' cs || isMarker '.' cs

def isDash : List Mark → Bool
  | m :: rest => m.char == '-' && atGap rest
  | [] => false

def isFlowChar (c : Char) : Bool := [',', '[', ']', '\x7b', '\x7d'].contains c

def startsPlain (flow : Bool) : List Mark → Bool
  | [] => false
  | m :: rest =>
    if m.char = '-' then !atGap rest
    else if m.char = '?' ∨ m.char = ':' then !flow && !atGap rest
    else !(isGapOrBreak m.char || isFlowChar m.char ||
      ['#', '&', '*', '!', '|', '>', '\x27', '\x22', '%', '@', '\x60'].contains m.char)

def endsPlain (flow : Bool) (c : Char) (rest : List Mark) : Bool :=
  (c == ':' && (atGap rest || (flow && rest.head?.any fun m => isFlowChar m.char))) ||
    (flow && isFlowChar c)

/-- A plain scalar on the rest of a line; `gaps` are kept only before more of it. -/
def plainLine (flow : Bool) (gaps : List Char) : List Mark → List Char × List Mark
  | [] => ([], [])
  | m :: rest =>
    if m.char = '\n' then ([], m :: rest)
    else if isGap m.char then plainLine flow (gaps ++ [m.char]) rest
    else if m.char = '#' ∧ !gaps.isEmpty then ([], m :: rest)
    else if endsPlain flow m.char rest then ([], m :: rest)
    else
      let (text, after) := plainLine flow [] rest
      (gaps ++ m.char :: text, after)

/-- Line ends in front of a text, with the gaps around them: how many there are. -/
def skipBreaks (count : Nat) : List Mark → Nat × List Mark
  | [] => (count, [])
  | m :: rest =>
    if m.char = '\n' then skipBreaks (count + 1) rest
    else if isGap m.char then skipBreaks count rest
    else (count, m :: rest)

/-- What line ends inside a scalar fold to: one is a space, each further one a line
feed. -/
def fold (count : Nat) : List Char :=
  if count ≤ 1 then [' '] else List.replicate (count - 1) '\n'

/-- Further lines of a plain scalar, as long as they are indented. -/
def plainLines (flow : Bool) (indent : Nat) : Nat → List Mark → List Char × List Mark
  | 0, cs => ([], cs)
  | fuel + 1, cs =>
    match skipBreaks 0 cs with
    | (0, _) => ([], cs)
    | (_, []) => ([], cs)
    | (count, m :: rest) =>
      if (!flow && m.column < indent) || m.char = '#' || atDocumentEnd (m :: rest) then ([], cs)
      else
        let (text, after) := plainLine flow [] (m :: rest)
        if text.isEmpty then ([], cs)
        else
          let (more, after) := plainLines flow indent fuel after
          (fold count ++ text ++ more, after)

def readHex? : Nat → Nat → List Mark → Option (Nat × List Mark)
  | 0, value, cs => some (value, cs)
  | n + 1, value, m :: rest => do
    let digit ← Json.hexDigit? m.char
    readHex? n (16 * value + digit) rest
  | _ + 1, _, [] => none

def escape? (c : Char) : Option Char :=
  match c with
  | '0' => some '\x00'
  | 'a' => some '\x07'
  | 'b' => some '\x08'
  | 't' => some '\t'
  | '\t' => some '\t'
  | 'n' => some '\n'
  | 'v' => some '\x0b'
  | 'f' => some '\x0c'
  | 'r' => some '\r'
  | 'e' => some '\x1b'
  | ' ' => some ' '
  | '\x22' => some '\x22'
  | '/' => some '/'
  | '\\' => some '\\'
  | 'N' => some '\u0085'
  | '_' => some '\u00a0'
  | 'L' => some '\u2028'
  | 'P' => some '\u2029'
  | _ => none

def hexLength? (c : Char) : Option Nat :=
  match c with
  | 'x' => some 2
  | 'u' => some 4
  | 'U' => some 8
  | _ => none

def quoted? (double : Bool) : Nat → List Char → List Mark → Option (List Char × List Mark)
  | 0, _, _ => none
  | _, _, [] => none
  | fuel + 1, gaps, m :: rest =>
    if m.char = (if double then '\x22' else '\x27') then
      match rest with
      | n :: after =>
        if !double ∧ n.char = '\x27' then do
          let (text, after) ← quoted? double fuel [] after
          return (gaps ++ '\x27' :: text, after)
        else some (gaps, rest)
      | [] => some (gaps, rest)
    else if m.char = '\n' then do
      let (count, after) := skipBreaks 0 (m :: rest)
      if atDocumentEnd after then none
      else
        let (text, after) ← quoted? double fuel [] after
        return (fold count ++ text, after)
    else if isGap m.char then quoted? double fuel (gaps ++ [m.char]) rest
    else if double && m.char == '\\' then
      match rest with
      | [] => none
      | e :: after =>
        if e.char = '\n' then do
          let (count, after) := skipBreaks 0 after
          let (text, after) ← quoted? double fuel [] after
          return (gaps ++ List.replicate count '\n' ++ text, after)
        else
          match hexLength? e.char with
          | some n => do
            let (code, after) ← readHex? n 0 after
            if (0xd800 ≤ code ∧ code ≤ 0xdfff) ∨ 0x10ffff < code then none
            else
              let (text, after) ← quoted? double fuel [] after
              return (gaps ++ Char.ofNat code :: text, after)
          | none => do
            let c ← escape? e.char
            let (text, after) ← quoted? double fuel [] after
            return (gaps ++ c :: text, after)
    else do
      let (text, after) ← quoted? double fuel [] rest
      return (gaps ++ m.char :: text, after)

/-- A colon directly in front of a character that structures flow collections. -/
def opensValueAtOnce : List Mark → Bool
  | m :: n :: _ => m.char == ':' && isFlowChar n.char
  | _ => false

/-- A scalar: quoted, or plain over as many lines as are indented. In a flow collection
a colon behind a plain one needs a gap. -/
def scalar? (fuel : Nat) (flow : Bool) (indent : Nat) (cs : List Mark) :
    Option (Document × List Mark) :=
  match cs with
  | [] => none
  | m :: rest =>
    if m.char = '\x22' ∨ m.char = '\x27' then
      (quoted? (m.char = '\x22') fuel [] rest).map fun (text, after) =>
        (.text (String.ofList text), after)
    else if startsPlain flow cs then
      let (text, after) := plainLine flow [] cs
      let (more, after) := plainLines flow indent fuel after
      if flow ∧ opensValueAtOnce after then none
      else some (.plain (String.ofList (text ++ more)), after)
    else none

def keyText? : Document → Option String
  | .text s => some s
  | .plain s => some s
  | _ => none

/-- A key on one line, with what follows its colon. -/
def blockKey? (fuel : Nat) (cs : List Mark) : Option (String × List Mark) := do
  let (name, after) ← match cs with
    | [] => none
    | m :: rest =>
      if m.char = '\x22' ∨ m.char = '\x27' then do
        let (text, after) ← quoted? (m.char = '\x22') fuel [] rest
        if ((cs.take (cs.length - after.length)).any fun m => m.char == '\n') then none
        else some (text, after)
      else if startsPlain false cs then some (plainLine false [] cs)
      else none
  match skipGaps after with
  | m :: rest => if m.char = ':' ∧ atGap rest then some (String.ofList name, rest) else none
  | [] => none

mutual

def flowNode? (fuel : Nat) (flow : Bool) (indent : Nat) (cs : List Mark) :
    Option (Document × List Mark) :=
  match fuel with
  | 0 => none
  | fuel + 1 =>
    match cs with
    | [] => none
    | m :: rest =>
      if m.char = '[' then do
        let (items, after) ← flowItems? fuel rest
        return (.list items, after)
      else if m.char = '\x7b' then do
        let (fields, after) ← flowFields? fuel rest
        return (.record fields, after)
      else scalar? fuel flow indent cs

/-- The value after a colon in a flow collection; it may be missing. -/
def flowValue? (fuel : Nat) (cs : List Mark) : Option (Document × List Mark) :=
  match fuel with
  | 0 => none
  | fuel + 1 =>
    match skipTrivia false cs with
    | [] => none
    | m :: rest =>
      if m.char = ',' ∨ m.char = ']' ∨ m.char = '\x7d' then some (.plain "", m :: rest)
      else flowNode? fuel true 0 (m :: rest)

/-- The items of a flow sequence up to its end. An item may be a single pair. -/
def flowItems? (fuel : Nat) (cs : List Mark) : Option (List Document × List Mark) :=
  match fuel with
  | 0 => none
  | fuel + 1 =>
    match skipTrivia false cs with
    | [] => none
    | m :: rest =>
      if m.char = ']' then some ([], rest)
      else do
        let (item, after) ← flowNode? fuel true 0 (m :: rest)
        let (item, after) ← match skipTrivia false after with
          | c :: rest =>
            if c.char = ':' then do
              let name ← keyText? item
              let (value, after) ← flowValue? fuel rest
              some (.record [(name, value)], after)
            else some (item, c :: rest)
          | [] => none
        match skipTrivia false after with
        | c :: rest =>
          if c.char = ']' then some ([item], rest)
          else if c.char = ',' then do
            let (items, after) ← flowItems? fuel rest
            return (item :: items, after)
          else none
        | [] => none

def flowFields? (fuel : Nat) (cs : List Mark) :
    Option (List (String × Document) × List Mark) :=
  match fuel with
  | 0 => none
  | fuel + 1 =>
    match skipTrivia false cs with
    | [] => none
    | m :: rest =>
      if m.char = '\x7d' then some ([], rest)
      else do
        let (key, after) ← flowNode? fuel true 0 (m :: rest)
        let name ← keyText? key
        let (value, after) ← match skipTrivia false after with
          | c :: rest =>
            if c.char = ':' then flowValue? fuel rest else some (.plain "", c :: rest)
          | [] => none
        match skipTrivia false after with
        | c :: rest =>
          if c.char = '\x7d' then some ([(name, value)], rest)
          else if c.char = ',' then do
            let (fields, after) ← flowFields? fuel rest
            return ((name, value) :: fields, after)
          else none
        | [] => none

end

def lineValue? (fuel : Nat) (indent : Nat) (cs : List Mark) : Option (Document × List Mark) := do
  let (value, after) ← flowNode? fuel false indent cs
  if atLineEnd after then some (value, after) else none

mutual

/-- A block node indented by at least `indent`; a missing one is empty. -/
def block? (fuel : Nat) (indent : Nat) (cs : List Mark) : Option (Document × List Mark) :=
  match fuel with
  | 0 => none
  | fuel + 1 =>
    match skipLines? false cs with
    | none => none
    | some [] => some (.plain "", [])
    | some (m :: rest) =>
      let cs := m :: rest
      if m.column < indent || atDocumentEnd cs then some (.plain "", cs)
      else if isDash cs then do
        let (items, after) ← sequence? fuel m.column cs
        return (.list items, after)
      else
        match blockKey? fuel cs with
        | some _ => do
          let (fields, after) ← mapping? fuel m.column cs
          return (.record fields, after)
        | none => lineValue? fuel indent cs

/-- The entries of a block sequence whose dashes are in one column. -/
def sequence? (fuel : Nat) (column : Nat) (cs : List Mark) :
    Option (List Document × List Mark) :=
  match fuel with
  | 0 => none
  | fuel + 1 =>
    match cs with
    | [] => some ([], [])
    | m :: rest =>
      if m.column ≠ column || !isDash cs || atDocumentEnd cs then some ([], cs)
      else do
        let (item, after) ← block? fuel (column + 1) rest
        let next ← nextLine? after
        let (items, after) ← sequence? fuel column next
        return (item :: items, after)

/-- The entries of a block mapping whose keys are in one column. -/
def mapping? (fuel : Nat) (column : Nat) (cs : List Mark) :
    Option (List (String × Document) × List Mark) :=
  match fuel with
  | 0 => none
  | fuel + 1 =>
    match cs with
    | [] => some ([], [])
    | m :: _ =>
      if m.column < column || atDocumentEnd cs then some ([], cs)
      else if m.column ≠ column || isDash cs then none
      else do
        let (name, after) ← blockKey? fuel cs
        let (value, after) ←
          if atLineEnd after then do
            let next ← nextLine? after
            if isDash next && next.head?.any (·.column == column) then do
              let (items, after) ← sequence? fuel column next
              some (.list items, after)
            else block? fuel (column + 1) next
          else lineValue? fuel (column + 1) (skipGaps after)
        let next ← nextLine? after
        let (fields, after) ← mapping? fuel column next
        return ((name, value) :: fields, after)

end

def isAllowed (c : Char) : Bool :=
  c == '\t' || c == '\n' || c == '\r' || (' ' ≤ c && c ≤ '~') || c == '\u0085' ||
    (0xa0 ≤ c.toNat && c.toNat ≠ 0xfffe && c.toNat ≠ 0xffff)

/-- The node of a document and the text after the document's end. -/
def document? (all : List Mark) : Option (Document × List Mark) := do
  let start ← skipLines? false all
  let start ← if isMarker '-' start then nextLine? (start.drop 3) else some start
  let (document, after) ← block? (4 * all.length + 16) 0 start
  let after ← nextLine? after
  let after ← if isMarker '.' after then nextLine? (after.drop 3) else some after
  return (document, after)

/-- The document that a whole text holds; `cut` if the text is malformed or holds
more than one. -/
def read (text : String) : Document :=
  let cs := match text.toList with
    | '\ufeff' :: rest => rest
    | cs => cs
  if cs.all isAllowed then
    match document? (marks 0 cs) with
    | some (document, []) => document
    | _ => .cut
  else .cut

end Tabular.Yaml
