import CallContracts.Numeral.Reading
import CallContracts.Text.Identifier
/-! Whether a text is a pattern for searching, and under which flags.  The patterns are the usual ones:
alternatives, repeats, sets, groups by number and name with references to them, groups that depend on
another, assertions ahead and behind, flags for all or for a part.  An assertion behind looks at texts of
one length, and a reference needs a group that is closed.  Patterns are never run here. -/
namespace CallContracts.Text.Pattern
open Numeral

inductive Fault where
  | malformed | repeatTooLarge | flagsClash
  deriving DecidableEq, Repr

/-- A character, or one that a backslash protects; a last backslash protects nothing. -/
inductive Token where
  | plain (c : Char)
  | escaped (c : Char)
  | dangling
  deriving DecidableEq, Repr

def tokens : List Char → List Token
  | [] => []
  | ['\\'] => [.dangling]
  | '\\' :: c :: r => .escaped c :: tokens r
  | c :: r => .plain c :: tokens r

def Token.text : Token → List Char
  | .plain c => [c]
  | .escaped c => ['\\', c]
  | .dangling => ['\\']

/-- The least and the greatest number of characters that a part matches. -/
structure Width where
  least : Nat
  most : Nat
  deriving DecidableEq, Repr

/-- What counts as no bound. -/
def unbounded : Nat := twoTo 64
def mostRepeats : Nat := 4294967295

namespace Width

def zero : Width := ⟨0, 0⟩
def one : Width := ⟨1, 1⟩
def add (a b : Width) : Width := ⟨min unbounded (a.least + b.least), min unbounded (a.most + b.most)⟩
def either (a b : Width) : Width := ⟨min a.least b.least, max a.most b.most⟩

def repeated (a : Width) (least most : Nat) : Width :=
  ⟨min unbounded (a.least * least),
    if most = mostRepeats ∧ a.most ≠ 0 then unbounded else min unbounded (a.most * most)⟩

def isFixed (a : Width) : Bool := a.least = a.most && a.least ≤ mostRepeats

end Width

/-- What the reader knows: the rest of the text, the flags for all, the groups with the widths of those
that are closed, and what is to be complained about at the end. -/
structure Scan where
  rest : List Token
  flags : List Char
  groups : List (Option Width) := [none]
  names : List (String × Nat) := []
  behind : Option Nat := none
  asked : List Nat := []
  loose : Bool := false
  repeats : Bool := false

abbrev Reader := StateT Scan (Except Fault)

def malformed {α : Type} : Reader α := throw .malformed

def peek : Reader (Option Token) := do return (← get).rest.head?

/-- A backslash at the end is wrong as soon as the reader stands before it. -/
def settle (rest : List Token) : Reader Unit := do
  if rest.head? = some .dangling then malformed
  modify fun s => { s with rest := rest }

def next : Reader (Option Token) := do
  match (← get).rest with
  | [] => return none
  | t :: r =>
    settle r
    return some t

def skip (c : Char) : Reader Bool := do
  if (← peek) = some (.plain c) then
    let _ ← next
    return true
  else return false

def expect (c : Char) : Reader Unit := do
  if !(← skip c) then malformed

/-- A run of characters of a kind, at most so many. -/
def takeWhile (p : Char → Bool) : Nat → Reader (List Char)
  | 0 => pure []
  | n + 1 => do
    match ← peek with
    | some (.plain c) =>
      if p c then
        let _ ← next
        return c :: (← takeWhile p n)
      else return []
    | _ => return []

/-- The name before a mark; there has to be one. -/
def nameBefore (mark : Char) : Reader (List Char) := do
  let rec split : List Token → List Char → Option (List Char × List Token)
    | [], _ => none
    | t :: r, name => if t = .plain mark then some (name, r) else split r (name ++ t.text)
  match split (← get).rest [] with
  | some (c :: n, r) =>
    settle r
    return c :: n
  | _ => malformed

def isOctal (c : Char) : Bool := '0' ≤ c && c ≤ '7'
def isHex (c : Char) : Bool := (digitIn? 16 c).isSome
def isAsciiLetter (c : Char) : Bool := ('a' ≤ c && c ≤ 'z') || ('A' ≤ c && c ≤ 'Z')

/-- The number that digits write in a base. -/
def valueIn (base : Nat) (ds : List Char) : Nat := ofDigits base (ds.filterMap (digitIn? base))

/-- So many hexadecimal digits. -/
def hexEscape (n : Nat) : Reader Nat := do
  let ds ← takeWhile isHex n
  if ds.length = n then return valueIn 16 ds else malformed

/-- A character that is named, whatever its place. -/
def namedEscape : Reader Nat := do
  expect '\x7b'
  let n ← nameBefore '\x7d'
  if n.all fun c => c.isAlphanum || c = ' ' || c = '-' then return 0 else malformed

/-- Escapes that stand for one character everywhere. -/
def commonEscape (c : Char) : Reader Nat := do
  match c with
  | 'x' => hexEscape 2
  | 'u' => hexEscape 4
  | 'U' =>
    let n ← hexEscape 8
    if n < 0x110000 then return n else malformed
  | 'N' => namedEscape
  | c => match [('a', 7), ('b', 8), ('f', 12), ('n', 10), ('r', 13), ('t', 9), ('v', 11)].lookup c with
    | some n => return n
    | none => if isAsciiLetter c then malformed else return c.toNat

def isClassLetter (c : Char) : Bool := c ∈ ['d', 'D', 's', 'S', 'w', 'W']

/-- One member of a set: a character, or nothing for a whole class of them. -/
def setMember : Token → Reader (Option Nat)
  | .plain c => return some c.toNat
  | .dangling => malformed
  | .escaped c => do
    if isClassLetter c then return none
    else if isOctal c then
      let n := valueIn 8 (c :: (← takeWhile isOctal 2))
      if n ≤ 255 then return some n else malformed
    else if c.isDigit then malformed
    else return some (← commonEscape c)

/-- The members of a set up to its end; a closing bracket that comes first is a member. -/
def setMembers : Nat → Bool → Reader Unit
  | 0, _ => malformed
  | fuel + 1, first => do
    match ← next with
    | none => malformed
    | some t =>
      if t = .plain ']' ∧ !first then return
      let lo ← setMember t
      if ← skip '-' then
        match ← next with
        | none => malformed
        | some u =>
          if u = .plain ']' then return
          match lo, ← setMember u with
          | some a, some b => if b < a then malformed
          | _, _ => malformed
      setMembers fuel false

/-- Whether a group can be referred to. -/
def isClosed (s : Scan) (g : Nat) : Bool := (s.groups[g]?.getD none).isSome

/-- Within an assertion behind, only groups from before it can be referred to. -/
def checkBehind (g : Nat) : Reader Unit := do
  let s ← get
  match s.behind with
  | some n => if !isClosed s g ∨ n ≤ g then malformed
  | none => pure ()

def reference (g : Nat) : Reader Width := do
  if !isClosed (← get) g then malformed
  checkBehind g
  return ((← get).groups[g]?.getD none).getD .zero

/-- What was read last: nothing, a place between characters, a repeat, or anything else. -/
inductive Item where
  | anchor
  | repeated (w : Width)
  | unit (w : Width)

def Item.width : Item → Width
  | anchor => .zero
  | repeated w | unit w => w

/-- A number after a backslash: three octal digits are a character, all else refers to a group. -/
def numberEscape (c : Char) : Reader Item := do
  match ← peek with
  | some (.plain d) =>
    if d.isDigit then
      let _ ← next
      let octal ← if isOctal c && isOctal d then takeWhile isOctal 1 else pure []
      match octal with
      | [e] => if valueIn 8 [c, d, e] ≤ 255 then return .unit .one else malformed
      | _ => return .unit (← reference (valueIn 10 [c, d]))
    else return .unit (← reference (valueIn 10 [c]))
  | _ => return .unit (← reference (valueIn 10 [c]))

def escape (c : Char) : Reader Item := do
  if c ∈ ['A', 'b', 'B', 'Z'] then return .anchor
  else if isClassLetter c then return .unit .one
  else if c = '0' then
    let _ ← takeWhile isOctal 2
    return .unit .one
  else if c.isDigit then numberEscape c
  else
    let _ ← commonEscape c
    return .unit .one

def flagLetters : List Char := ['i', 'L', 'm', 's', 'x', 'a', 't', 'u']
def typeLetters : List Char := ['a', 'L', 'u']

/-- Flags to be added, and the mark after them. -/
def addedFlags : Nat → Char → List Char → Reader (List Char × Char)
  | 0, _, _ => malformed
  | fuel + 1, c, flags => do
    if c = 'L' ∨ (c ∈ typeLetters ∧ typeLetters.any fun d => d ≠ c && d ∈ flags) then malformed
    match ← next with
    | some (.plain d) =>
      if d ∈ [')', '-', ':'] then return (c :: flags, d)
      else if d ∈ flagLetters then addedFlags fuel d (c :: flags)
      else malformed
    | _ => malformed

/-- Flags to be taken away, up to the colon. -/
def droppedFlags : Nat → List Char → Reader (List Char)
  | 0, _ => malformed
  | fuel + 1, flags => do
    match ← next with
    | some (.plain d) =>
      if d = ':' ∧ flags ≠ [] then return flags
      else if d ∈ flagLetters ∧ d ∉ typeLetters then droppedFlags fuel (d :: flags)
      else malformed
    | _ => malformed

/-- Flags in a group: for all of the pattern, or those added to and taken from a part of it. -/
def readFlags (c : Char) : Reader (Option (List Char × List Char)) := do
  let fuel := (← get).rest.length + 1
  let (added, mark) ← if c = '-' then pure ([], '-') else addedFlags fuel c []
  if mark = ')' then
    modify fun s => { s with flags := s.flags ++ added }
    return none
  if 't' ∈ added then malformed
  let dropped ← if mark = '-' then droppedFlags fuel [] else pure []
  if 't' ∈ dropped ∨ added.any (· ∈ dropped) then malformed
  return some (added, dropped)

/-- What a count in braces says; `none` when the brace stands for itself. -/
def counts : Reader (Option (Nat × Nat)) := do
  let here := (← get).rest
  if (← peek) = some (.plain '\x7d') then return none
  let lo ← takeWhile Char.isDigit here.length
  let hi ← if ← skip ',' then takeWhile Char.isDigit here.length else pure lo
  if !(← skip '\x7d') then
    settle here
    return none
  let least := valueIn 10 lo
  if mostRepeats ≤ least then throw .repeatTooLarge
  if hi = [] then return some (least, mostRepeats)
  let most := valueIn 10 hi
  if mostRepeats ≤ most then throw .repeatTooLarge
  if most < least then malformed
  return some (least, most)

/-- The repeat of the last item. -/
def repeatOf (last : Option Item) (least most : Nat) : Reader Item := do
  let w ← match last with
    | some (.unit w) => pure w
    | _ => malformed
  if !(← skip '?') then
    let _ ← skip '+'
  modify fun s => { s with repeats := true }
  return .repeated (w.repeated least most)

def openGroup (name : Option (List Char)) : Reader Nat := do
  let s ← get
  let g := s.groups.length
  match name with
  | none => set { s with groups := s.groups ++ [none] }
  | some n =>
    let n := String.ofList n
    if (s.names.lookup n).isSome then malformed
    set { s with groups := s.groups ++ [none], names := (n, g) :: s.names }
  return g

def closeGroup (g : Nat) (w : Width) : Reader Unit :=
  modify fun s => { s with groups := s.groups.set g (some w) }

/-- A group is named by an identifier. -/
def groupName (mark : Char) : Reader (List Char) := do
  let n ← nameBefore mark
  if isIdentifier n then return n else malformed

def groupOf (n : List Char) : Reader Nat := do
  match (← get).names.lookup (String.ofList n) with
  | some g => return g
  | none => malformed

/-- The group that a condition asks for, by name or by number; a number may belong to a later group. -/
def condition : Reader Nat := do
  let n ← nameBefore ')'
  if isIdentifier n then groupOf n
  else match wholeIn? 10 n with
    | some i =>
      if i ≤ 0 then malformed
      modify fun s => { s with asked := i.toNat :: s.asked }
      return i.toNat
    | none => malformed

def skipComment : Nat → Reader Unit
  | 0 => malformed
  | fuel + 1 => do
    match ← next with
    | none => malformed
    | some t => if t = .plain ')' then return else skipComment fuel

def skipLine : Nat → Reader Unit
  | 0 => pure ()
  | fuel + 1 => do
    match ← next with
    | none => return
    | some t => if t = .plain '\n' then return else skipLine fuel

mutual
/-- Alternatives; `first` tells whether flags for all may still be given. -/
def alternatives : Nat → Bool → Bool → Bool → Reader Width
  | 0, _, _, _ => malformed
  | fuel + 1, verbose, top, first => do
    let w ← sequence fuel verbose (top && first) none .zero
    if ← skip '|' then
      let all := (← get).flags
      let verbose := if top then decide ('x' ∈ all) else verbose
      return w.either (← alternatives fuel verbose top false)
    else return w

def sequence : Nat → Bool → Bool → Option Item → Width → Reader Width
  | 0, _, _, _, _ => malformed
  | fuel + 1, verbose, first, last, before => do
    let done := match last with
      | some x => before.add x.width
      | none => before
    let put (x : Item) : Reader Width := sequence fuel verbose first (some x) done
    match ← peek with
    | none | some (.plain '|') | some (.plain ')') => return done
    | some t =>
      let _ ← next
      match t with
      | .dangling => malformed
      | .escaped c => put (← escape c)
      | .plain c =>
        if verbose && isHostBlank c then sequence fuel verbose first last before
        else if verbose && c = '#' then
          skipLine fuel
          sequence fuel verbose first last before
        else match c with
          | '[' =>
            let _ ← skip '^'
            setMembers fuel true
            put (.unit .one)
          | '?' => sequence fuel verbose first (some (← repeatOf last 0 1)) before
          | '*' => sequence fuel verbose first (some (← repeatOf last 0 mostRepeats)) before
          | '+' => sequence fuel verbose first (some (← repeatOf last 1 mostRepeats)) before
          | '\x7b' => match ← counts with
            | none => put (.unit .one)
            | some (a, b) => sequence fuel verbose first (some (← repeatOf last a b)) before
          | '^' | '$' => put .anchor
          | '(' => match ← group fuel verbose (first && last.isNone) with
            | some w => put (.unit w)
            | none =>
              let all := (← get).flags
              let verbose := verbose || (first && decide ('x' ∈ all))
              sequence fuel verbose first last before
          | _ => put (.unit .one)

/-- What a parenthesis opens; nothing for a comment or flags for all. -/
def group : Nat → Bool → Bool → Reader (Option Width)
  | 0, _, _ => malformed
  | fuel + 1, verbose, flagsAllowed => do
    let inner (verbose : Bool) : Reader Width := do
      let w ← alternatives fuel verbose false false
      expect ')'
      return w
    let capture (name : Option (List Char)) : Reader (Option Width) := do
      let g ← openGroup name
      let w ← inner verbose
      closeGroup g w
      return some w
    if !(← skip '?') then capture none
    else match ← next with
      | some (.plain ':') | some (.plain '>') => return some (← inner verbose)
      | some (.plain '#') =>
        skipComment (fuel + 1)
        return none
      | some (.plain 'P') =>
        if ← skip '<' then capture (some (← groupName '>'))
        else if ← skip '=' then return some (← reference (← groupOf (← groupName ')')))
        else malformed
      | some (.plain '=') | some (.plain '!') =>
        let _ ← inner verbose
        return some .zero
      | some (.plain '<') =>
        if !(← skip '=') then expect '!'
        let outer := (← get).behind
        modify fun s => { s with behind := outer <|> some s.groups.length }
        let w ← alternatives fuel verbose false false
        modify fun s => { s with behind := outer, loose := s.loose || !w.isFixed }
        expect ')'
        return some .zero
      | some (.plain '(') =>
        checkBehind (← condition)
        let yes ← sequence fuel verbose false none .zero
        let w ← if ← skip '|' then do pure (yes.either (← sequence fuel verbose false none .zero))
          else pure ⟨0, yes.most⟩
        expect ')'
        return some w
      | some (.plain c) =>
        if c ∉ flagLetters ∧ c ≠ '-' then malformed
        match ← readFlags c with
        | none => if flagsAllowed then return none else malformed
        | some (added, dropped) =>
          return some (← inner ((verbose || 'x' ∈ added) && 'x' ∉ dropped))
      | _ => malformed
end

/-- Reads all of the text and checks what could not be checked on the way. -/
def whole : Reader Unit := do
  settle (← get).rest
  let s ← get
  let fuel := 3 * s.rest.length + 3
  let _ ← alternatives fuel ('x' ∈ s.flags) true true
  let s ← get
  if 'a' ∈ s.flags ∧ 'u' ∈ s.flags then throw .flagsClash
  if s.rest ≠ [] ∨ s.asked.any (s.groups.length ≤ ·) then malformed
  if s.loose ∨ (s.repeats ∧ 't' ∈ s.flags) then malformed

/-- The flags of a pattern in the order in which they are told: those that it is given with those that
it names itself. -/
def flags (p : String) (given : List Char) : Except Fault (List Char) := do
  let ((), s) ← (whole.run { rest := tokens p.toList, flags := given } : Except Fault (Unit × Scan))
  return ['t', 'i', 'm', 's', 'x', 'a'].filter (· ∈ s.flags)

example : (flags "(?i)(?P<n>x)+(?P=n)" ['s']).toOption = some ['i', 's'] := by decide +kernel
example : (flags "(a" []).toOption = none ∧ (flags "(?<=a*)b" []).toOption = none := by decide +kernel

end CallContracts.Text.Pattern
