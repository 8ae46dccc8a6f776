import HostSuite.Number.Numeral
import HostSuite.Posix.Script

/-
  Reading scripts. The text is first cut into words, signs and redirections; the reserved words
  are recognised only where a command may begin. A reader takes fuel that the length of the text
  bounds, and gives nothing for a text that is no script.
-/

namespace HostSuite.Posix

/-! Words -/

def isNameStart (c : Char) : Bool := c.isAlpha || c = '_'

def isNameChar (c : Char) : Bool := isNameStart c || c.isDigit

/-- Parameters that one sign names. -/
def signNames : List Char := ['@', '*', '#', '?', '$', '!', '-']

/-- The characters up to the one that closes; the rest after it. -/
def upTo (close : Char) (cs : List Char) : Option (List Char × List Char) :=
  match cs.dropWhile (· ≠ close) with
  | _ :: rest => some (cs.takeWhile (· ≠ close), rest)
  | [] => none

/-- The text in parentheses up to the closing one, with those inside balanced and quotes skipped. -/
def upToParen : Nat → Nat → List Char → Option (List Char × List Char)
  | 0, _, _ => none
  | _, _, [] => none
  | fuel + 1, depth, c :: cs =>
    let more (n : Nat) (d : Nat) :=
      (upToParen fuel d (cs.drop n)).map fun r => (c :: cs.take n ++ r.1, r.2)
    if c = ')' then if depth = 0 then some ([], cs) else more 0 (depth - 1)
    else if c = '(' then more 0 (depth + 1)
    else if c = '\\' then more 1 depth
    else if c = '\'' then more ((cs.takeWhile (· ≠ '\'')).length + 1) depth
    else more 0 depth

/-- The name of a parameter, and the rest. -/
def paramName? (cs : List Char) : Option (String × List Char) :=
  match cs with
  | c :: rest =>
    if isNameStart c then
      some (String.ofList (cs.takeWhile isNameChar), cs.dropWhile isNameChar)
    else if c.isDigit || signNames.contains c then some (String.ofList [c], rest)
    else none
  | [] => none

/-- What ends a word that is not quoted. -/
def endsWord (c : Char) : Bool :=
  c = ' ' || c = '\t' || c = '\n' || c = ';' || c = '&' || c = '|' || c = '<' || c = '>' ||
    c = '(' || c = ')'

/-- Where parts are read: in the open, in double quotes, or beside a parameter in braces. -/
inductive Within
  | open
  | quotes
  | braces (quoted : Bool)
  deriving DecidableEq, Repr

def Within.isQuoted : Within → Bool
  | .open => false
  | .quotes => true
  | .braces q => q

/-- The parts up to the end of the place they stand in, which is left in the rest. -/
def readParts : Nat → Within → List Char → Option (Phrase × List Char)
  | 0, _, _ => none
  | fuel + 1, place, cs =>
    let quoted := place.isQuoted
    let go (p : Part) (rest : List Char) : Option (Phrase × List Char) :=
      (readParts fuel place rest).map fun r => (p :: r.1, r.2)
    match cs with
    | [] => if place = .open then some ([], []) else none
    | c :: rest =>
      let done :=
        match place with
        | .open => endsWord c
        | .quotes => c = '"'
        | .braces _ => c = '\x7d'
      if done then some ([], cs)
      else if c = '\\' then
        match rest with
        | '\n' :: rest => readParts fuel place rest
        | d :: rest' =>
          if quoted && !(['$', '\x60', '"', '\\', '\x7d'].contains d) then
            go (.text "\\" true) rest
          else go (.text (String.ofList [d]) true) rest'
        | [] => go (.text "\\" true) []
      else if c = '\'' && !quoted then
        match upTo '\'' rest with
        | some (s, rest) => go (.text (String.ofList s) true) rest
        | none => none
      else if c = '"' && place ≠ .quotes then
        match readParts fuel .quotes rest with
        | some (ps, '"' :: rest) =>
          (readParts fuel place rest).map fun r =>
            ((if ps.isEmpty then [Part.text "" true] else ps) ++ r.1, r.2)
        | _ => none
      else if c = '\x60' then
        match upTo '\x60' rest with
        | some (s, rest) => go (.output (String.ofList s) quoted) rest
        | none => none
      else if c = '$' then
        match rest with
        | '(' :: '(' :: rest' =>
          match upToParen (rest'.length + 1) 0 rest' with
          | some (s, ')' :: rest) => go (.computed (String.ofList s) quoted) rest
          | _ =>
            match upToParen (rest.length + 1) 0 ('(' :: rest') with
            | some (s, rest) => go (.output (String.ofList s) quoted) rest
            | none => none
        | '(' :: rest =>
          match upToParen (rest.length + 1) 0 rest with
          | some (s, rest) => go (.output (String.ofList s) quoted) rest
          | none => none
        | '\x7b' :: rest =>
          match readBraces fuel quoted rest with
          | some (p, rest) => go p rest
          | none => none
        | _ =>
          match paramName? rest with
          | some (name, rest) => go (.param name quoted) rest
          | none => go (.text "$" quoted) rest
      else go (.text (String.ofList [c]) quoted) rest
where
  /-- A parameter in braces, after the opening one. -/
  readBraces (fuel : Nat) (quoted : Bool) (cs : List Char) : Option (Part × List Char) :=
    let sized :=
      match cs with
      | '#' :: rest =>
        match paramName? rest with
        | some (name, '\x7d' :: rest) => some (Part.size name quoted, rest)
        | _ => none
      | _ => none
    match sized, paramName? cs with
    | some r, _ => some r
    | none, some (name, rest) =>
      let beside (inside : Within) (make : Phrase → Part) (rest : List Char) :
          Option (Part × List Char) :=
        match readParts fuel inside rest with
        | some (ps, '\x7d' :: rest) => some (make ps, rest)
        | _ => none
      let trim (how : Trimming) := beside (.braces false) (.trimmed name how · quoted)
      let swap (use : Instead) (e : Bool) := beside (.braces quoted) (.instead name use e · quoted)
      match rest with
      | '\x7d' :: rest => some (.param name quoted, rest)
      | '#' :: '#' :: rest => trim .longFront rest
      | '#' :: rest => trim .shortFront rest
      | '%' :: '%' :: rest => trim .longBack rest
      | '%' :: rest => trim .shortBack rest
      | ':' :: '-' :: rest => swap .whenMissing true rest
      | '-' :: rest => swap .whenMissing false rest
      | ':' :: '+' :: rest => swap .whenPresent true rest
      | '+' :: rest => swap .whenPresent false rest
      | _ => none
    | none, none => none

/-! Tokens -/

inductive Token
  | word (p : Phrase) (line : Nat)
  | sign (s : String)
  | redirect (number : Nat) (leading : Leading)
  deriving Repr

/-- The signs, longer ones first. -/
def signs : List String := ["&&", "||", ";;", ";", "&", "|", "(", ")", "\n"]

/-- The redirection signs, longer ones first, with the number they stand for by themselves. -/
def redirectSigns : List (String × Nat × Leading) :=
  [(">>", 1, .append), (">&", 1, .same), (">|", 1, .write), (">", 1, .write), ("<&", 0, .same),
    ("<", 0, .read)]

/-- A sign in front of the text. -/
def signAt? (cs : List Char) : Option (String × List Char) :=
  (signs.find? fun s => s.toList.isPrefixOf cs).map fun s => (s, cs.drop s.length)

/-- A redirection sign in front of the text, maybe after a digit. -/
def redirectAt? (cs : List Char) : Option (Token × List Char) :=
  let (digit, body) :=
    match cs with
    | c :: rest => if c.isDigit then (some (c.toNat - '0'.toNat), rest) else (none, cs)
    | [] => (none, [])
  (redirectSigns.find? fun s => s.1.toList.isPrefixOf body).map fun (s, standard, leading) =>
    (.redirect (digit.getD standard) leading, body.drop s.length)

def tokens : Nat → Nat → List Char → Option (List Token)
  | 0, _, _ => none
  | fuel + 1, line, cs =>
    match cs with
    | [] => some []
    | c :: rest =>
      if c = ' ' || c = '\t' then tokens fuel line rest
      else if c = '\\' && rest.head? = some '\n' then tokens fuel (line + 1) rest.tail
      else if c = '#' then tokens fuel line (rest.dropWhile (· ≠ '\n'))
      else
        match redirectAt? cs, signAt? cs with
        | some (t, rest), _ => (tokens fuel line rest).map (t :: ·)
        | none, some (s, rest) =>
          (tokens fuel (if s = "\n" then line + 1 else line) rest).map (.sign s :: ·)
        | none, none =>
          match readParts (2 * cs.length + 2) .open cs with
          | some (p, rest) =>
            let taken := cs.take (cs.length - rest.length)
            (tokens fuel (line + taken.count '\n') rest).map (.word p line :: ·)
          | none => none

/-! Commands -/

/-- The text of a word that is written without quotes and parameters. -/
def bareText? (p : Phrase) : Option String :=
  (p.foldlM fun (s : String) part =>
    match part with
    | .text t false => some (s ++ t)
    | _ => none) ""

/-- The reserved word in front of the tokens. -/
def reserved? : List Token → Option String
  | .word p _ :: _ => bareText? p
  | _ => none

/-- The words that end a list of commands. -/
def closers : List String := ["then", "else", "elif", "fi", "do", "done", "esac", "\x7d"]

/-- The tokens after line ends and, where `semis` allows it, semicolons. -/
def skipEnds (semis : Bool) : List Token → List Token
  | .sign s :: rest =>
    if s = "\n" || (semis && s = ";") then skipEnds semis rest else .sign s :: rest
  | ts => ts

/-- A name and the word after its equals sign, if the word sets a parameter. -/
def setting? (p : Phrase) : Option (String × Phrase) :=
  let letters := p.takeWhile fun part =>
    match part with
    | .text t false => t ≠ "="
    | _ => false
  match bareText? letters, p.drop letters.length with
  | some name, .text "=" false :: value =>
    match name.toList with
    | c :: cs => if isNameStart c && cs.all isNameChar then some (name, value) else none
    | [] => none
  | _, _ => none

/-- The settings, words and redirections of a simple command. -/
def simpleParts : List Token → List (String × Phrase) → List Phrase → List Redirect → Nat →
    Script × List Token
  | .word p line :: rest, settings, words, redirects, at' =>
    match if words.isEmpty then setting? p else none with
    | some s => simpleParts rest (settings ++ [s]) words redirects line
    | none =>
      simpleParts rest settings (words ++ [p]) redirects (if words.isEmpty then line else at')
  | .redirect n leading :: .word p _ :: rest, settings, words, redirects, at' =>
    simpleParts rest settings words (redirects ++ [⟨n, leading, p⟩]) at'
  | rest, settings, words, redirects, at' => (.simple at' settings words redirects, rest)

/-- The redirections after a compound command. -/
def redirectsAfter : List Token → List Redirect → List Redirect × List Token
  | .redirect n leading :: .word p _ :: rest, rs => redirectsAfter rest (rs ++ [⟨n, leading, p⟩])
  | rest, rs => (rs, rest)

/-- A compound command with the redirections after it. -/
def withRedirects (s : Script) (ts : List Token) : Script × List Token :=
  match redirectsAfter ts [] with
  | ([], rest) => (s, rest)
  | (rs, rest) => (.led s rs, rest)

/-- The rest after a reserved word. -/
def expect (word : String) (ts : List Token) : Option (List Token) :=
  if reserved? ts = some word then some ts.tail else none

/-- The patterns of an arm, up to the closing parenthesis. -/
def armPatterns : List Token → Option (List Phrase × List Token)
  | .word p _ :: .sign ")" :: rest => some ([p], rest)
  | .word p _ :: .sign "|" :: rest => (armPatterns rest).map fun r => (p :: r.1, r.2)
  | _ => none

/-- The words of a loop up to the end of the line. -/
def loopWords : List Token → List Phrase × List Token
  | .word p _ :: rest =>
    let (ps, rest) := loopWords rest
    (p :: ps, rest)
  | rest => ([], rest)

mutual

/-- Commands in a row, up to a closing word or sign. -/
def readList : Nat → List Token → Option (Script × List Token)
  | 0, _ => none
  | fuel + 1, ts =>
    match skipEnds true ts with
    | [] => some (.sequence [], [])
    | .sign ")" :: rest => some (.sequence [], .sign ")" :: rest)
    | .sign ";;" :: rest => some (.sequence [], .sign ";;" :: rest)
    | ts =>
      if (reserved? ts).any closers.contains then some (.sequence [], ts)
      else do
        let (first, rest) ← readAndOr fuel ts
        let next ←
          match rest with
          | [] => some rest
          | .sign s :: _ => if s = "&&" || s = "||" || s = "|" || s = "(" then none else some rest
          | _ => none
        let next := if next matches .sign "&" :: _ then next.tail else next
        let (more, rest) ← readList fuel next
        match more with
        | .sequence scripts => return (.sequence (first :: scripts), rest)
        | other => return (.sequence [first, other], rest)

/-- Pipes joined by conditions, the left ones binding first. -/
def readAndOr : Nat → List Token → Option (Script × List Token)
  | 0, _ => none
  | fuel + 1, ts => do
    let (first, rest) ← readPipe fuel ts
    readConditions fuel first rest

def readConditions : Nat → Script → List Token → Option (Script × List Token)
  | 0, _, _ => none
  | fuel + 1, first, ts =>
    match ts with
    | .sign "&&" :: rest => do
      let (second, rest) ← readPipe fuel (skipEnds false rest)
      readConditions fuel (.both first second) rest
    | .sign "||" :: rest => do
      let (second, rest) ← readPipe fuel (skipEnds false rest)
      readConditions fuel (.either first second) rest
    | _ => some (first, ts)

/-- Commands joined by pipes, maybe negated. -/
def readPipe : Nat → List Token → Option (Script × List Token)
  | 0, _ => none
  | fuel + 1, ts =>
    if reserved? ts = some "!" then
      (readPipe fuel ts.tail).map fun r => (.negated r.1, r.2)
    else do
      let (first, rest) ← readCommand fuel ts
      match rest with
      | .sign "|" :: rest => do
        let (second, rest) ← readPipe fuel (skipEnds false rest)
        match second with
        | .pipe scripts => return (.pipe (first :: scripts), rest)
        | other => return (.pipe [first, other], rest)
      | _ => return (first, rest)

def readCommand : Nat → List Token → Option (Script × List Token)
  | 0, _ => none
  | fuel + 1, ts =>
    match ts with
    | .sign "(" :: rest => do
      let (body, rest) ← readList fuel rest
      match rest with
      | .sign ")" :: rest => return withRedirects (.apart body) rest
      | _ => none
    | .sign _ :: _ => none
    | [] => none
    | _ =>
      match reserved? ts with
      | some "if" => do
        let (s, rest) ← readChoice fuel ts.tail
        return withRedirects s rest
      | some "while" => do
        let (s, rest) ← readRepeated fuel true ts.tail
        return withRedirects s rest
      | some "until" => do
        let (s, rest) ← readRepeated fuel false ts.tail
        return withRedirects s rest
      | some "for" => do
        let (s, rest) ← readEach fuel ts.tail
        return withRedirects s rest
      | some "case" => do
        let (s, rest) ← readByPattern fuel ts.tail
        return withRedirects s rest
      | some "\x7b" => do
        let (body, rest) ← readList fuel ts.tail
        let rest ← expect "\x7d" rest
        return withRedirects body rest
      | _ => if (reserved? ts).any closers.contains then none else some (simpleParts ts [] [] [] 1)

/-- A choice, after its first word. -/
def readChoice : Nat → List Token → Option (Script × List Token)
  | 0, _ => none
  | fuel + 1, ts => do
    let (condition, rest) ← readList fuel ts
    let rest ← expect "then" rest
    let (yes, rest) ← readList fuel rest
    match reserved? rest with
    | some "elif" => do
      let (no, rest) ← readChoice fuel rest.tail
      return (.choice condition yes no, rest)
    | some "else" => do
      let (no, rest) ← readList fuel rest.tail
      let rest ← expect "fi" rest
      return (.choice condition yes no, rest)
    | _ => do
      let rest ← expect "fi" rest
      return (.choice condition yes (.sequence []), rest)

def readRepeated : Nat → Bool → List Token → Option (Script × List Token)
  | 0, _, _ => none
  | fuel + 1, whileTrue, ts => do
    let (condition, rest) ← readList fuel ts
    let rest ← expect "do" rest
    let (body, rest) ← readList fuel rest
    let rest ← expect "done" rest
    return (.repeated whileTrue condition body, rest)

/-- A loop over words, after its first word. -/
def readEach : Nat → List Token → Option (Script × List Token)
  | 0, _ => none
  | fuel + 1, ts => do
    let name ← reserved? ts
    let rest := skipEnds false ts.tail
    let (words, rest) :=
      if reserved? rest = some "in" then
        let (ps, rest) := loopWords rest.tail
        (some ps, rest)
      else (none, rest)
    let rest ← expect "do" (skipEnds true rest)
    let (body, rest) ← readList fuel rest
    let rest ← expect "done" rest
    return (.each name words body, rest)

/-- A choice by pattern, after its first word. -/
def readByPattern : Nat → List Token → Option (Script × List Token)
  | 0, _ => none
  | fuel + 1, ts =>
    match ts with
    | .word subject _ :: rest => do
      let rest ← expect "in" (skipEnds false rest)
      let (arms, rest) ← readArms fuel rest
      return (.byPattern subject arms, rest)
    | _ => none

def readArms : Nat → List Token → Option (List (List Phrase × Script) × List Token)
  | 0, _ => none
  | fuel + 1, ts =>
    let ts := skipEnds false ts
    if reserved? ts = some "esac" then some ([], ts.tail)
    else do
      let ts :=
        match ts with
        | .sign "(" :: rest => rest
        | _ => ts
      let (patterns, rest) ← armPatterns ts
      let (body, rest) ← readList fuel rest
      match rest with
      | .sign ";;" :: rest => do
        let (arms, rest) ← readArms fuel rest
        return ((patterns, body) :: arms, rest)
      | _ => do
        let rest ← expect "esac" rest
        return ([(patterns, body)], rest)

end

/-- Reads a script. -/
def Script.read (text : String) : Option Script := do
  let cs := text.toList
  let ts ← tokens (cs.length + 2) 1 cs
  let (s, rest) ← readList (10 * ts.length + 10) ts
  if rest.isEmpty then some s else none

end HostSuite.Posix
