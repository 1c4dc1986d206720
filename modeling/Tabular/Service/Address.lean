import Tabular.Document.Json

/-!
# Addresses to listen on

A host is an IPv4 address, or an IPv6 address in brackets with an optional scope.
Names are not looked up. An address is written back in its shortest form.
-/
namespace Tabular.Service

/-- The host part of an address. -/
inductive Host
  | v4 (octets : List Nat)
  | v6 (groups : List Nat) (scope : Nat)
  deriving DecidableEq

namespace Host

def readOctet? (cs : List Char) : Option (Nat × List Char) :=
  let digits := cs.takeWhile Number.isDigit
  let value := Number.digitsValue digits
  if digits.isEmpty ∨ 3 < digits.length ∨ 255 < value ∨
      (1 < digits.length ∧ digits.head? = some '0') then none
  else some (value, cs.drop digits.length)

/-- Some more octets, each behind a point. -/
def readOctets? : Nat → List Char → Option (List Nat × List Char)
  | 0, cs => some ([], cs)
  | n + 1, '.' :: rest => do
    let (octet, rest) ← readOctet? rest
    let (octets, rest) ← readOctets? n rest
    return (octet :: octets, rest)
  | _ + 1, _ => none

def readV4? (cs : List Char) : Option (List Nat × List Char) := do
  let (octet, rest) ← readOctet? cs
  let (octets, rest) ← readOctets? 3 rest
  return (octet :: octets, rest)

def readGroup? (cs : List Char) : Option (Nat × List Char) :=
  let digits := cs.takeWhile fun c => (Json.hexDigit? c).isSome
  if digits.isEmpty ∨ 4 < digits.length then none
  else
    some (digits.foldl (fun n c => 16 * n + (Json.hexDigit? c).getD 0) 0,
      cs.drop digits.length)

def groupsOfOctets : List Nat → List Nat
  | [a, b, c, d] => [256 * a + b, 256 * c + d]
  | _ => []

/-- Up to some number of groups between colons, whether an IPv4 address took the
place of the last two, and the rest of the text. -/
def readGroups : Nat → Bool → List Char → List Nat × Bool × List Char
  | 0, _, cs => ([], false, cs)
  | left + 1, isFirst, cs =>
    let body? := match isFirst, cs with
      | true, cs => some cs
      | false, ':' :: rest => some rest
      | false, _ => none
    match body? with
    | none => ([], false, cs)
    | some body =>
      match (if left = 0 then none else readV4? body) with
      | some (octets, rest) => (groupsOfOctets octets, true, rest)
      | none =>
        match readGroup? body with
        | some (group, rest) =>
          let (groups, embeds, rest) := readGroups left false rest
          (group :: groups, embeds, rest)
        | none => ([], false, cs)

/-- Eight groups; a double colon stands for one or more groups of zero. -/
def readV6? (cs : List Char) : Option (List Nat × List Char) :=
  let (head, embeds, rest) := readGroups 8 true cs
  if head.length = 8 then some (head, rest)
  else if embeds then none
  else
    match rest with
    | ':' :: ':' :: rest =>
      let (tail, _, rest) := readGroups (7 - head.length) true rest
      some (head ++ List.replicate (8 - head.length - tail.length) 0 ++ tail, rest)
    | _ => none

/-- The scope of a bracketed address, if one stands here. -/
def readScope? : List Char → Option (Nat × List Char)
  | '%' :: rest =>
    let digits := rest.takeWhile Number.isDigit
    let value := Number.digitsValue digits
    if digits.isEmpty ∨ Number.twoTo 32 ≤ value then none
    else some (value, rest.drop digits.length)
  | cs => some (0, cs)

/-- An IPv6 address in brackets, as a whole text. -/
def readBracketed? : List Char → Option Host
  | '[' :: rest => do
    let (groups, rest) ← readV6? rest
    let (scope, rest) ← readScope? rest
    if rest = [']'] then some (v6 groups scope) else none
  | _ => none

def read? (text : String) : Option Host :=
  match readV4? text.toList with
  | some (octets, []) => some (v4 octets)
  | _ => readBracketed? text.toList

def dotted (octets : List Nat) : String := ".".intercalate (octets.map fun n => toString n)

def hex (group : Nat) : String := String.ofList (Nat.toDigits 16 group)

def colons (groups : List Nat) : String := ":".intercalate (groups.map hex)

def zerosAtHead (groups : List Nat) : Nat := (groups.takeWhile (· == 0)).length

/-- Where the longest run of zeros begins, the first of equally long ones, and how
long it is. -/
def longestZeros (groups : List Nat) : Nat × Nat :=
  (List.range groups.length).foldl
    (fun best i =>
      let length := zerosAtHead (groups.drop i)
      if best.2 < length then (i, length) else best)
    (0, 0)

/-- Groups with the longest run of at least two zeros as a double colon. -/
def shortened (groups : List Nat) : String :=
  let (start, length) := longestZeros groups
  if length ≤ 1 then colons groups
  else colons (groups.take start) ++ "::" ++ colons (groups.drop (start + length))

/-- An IPv6 address; one that stands for an IPv4 address shows it. -/
def groupText : List Nat → String
  | [0, 0, 0, 0, 0, 0xffff, high, low] =>
    "::ffff:" ++ dotted [high / 256, high % 256, low / 256, low % 256]
  | groups => shortened groups

def display : Host → String
  | v4 octets => dotted octets
  | v6 groups scope =>
    "[" ++ groupText groups ++ (if scope = 0 then "" else "%" ++ toString scope) ++ "]"

end Host

/-- The text of the address to listen on, if the host is one. -/
def address? (host : String) (port : Nat) : Option String :=
  (Host.read? host).map fun h => h.display ++ ":" ++ toString port

end Tabular.Service
