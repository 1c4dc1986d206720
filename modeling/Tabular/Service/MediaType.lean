/-!
# Media types

Which content types announce a JSON body: `application/json` and any `application`
type with the suffix `+json`, in any letter case and with parameters.
-/
namespace Tabular.MediaType

/-- A character of a name, a token or an unquoted parameter value. -/
def isToken (c : Char) : Bool :=
  ('a' ≤ c && c ≤ 'z') || ('A' ≤ c && c ≤ 'Z') || ('0' ≤ c && c ≤ '9') ||
    ['!', '#', '$', '%', '&', '\x27', '*', '+', '-', '.', '^', '_', '\x60', '|', '~'].contains c

def isQuotable (c : Char) : Bool := 31 < c.toNat && c.toNat ≠ 127

/-- The list of parameters after a semicolon or a space is well formed. Each step
reads at least one character, so as much fuel as there are characters is enough. -/
def parametersOk : Nat → List Char → Bool
  | _, [] => true
  | 0, _ => false
  | fuel + 1, ' ' :: rest => parametersOk fuel rest
  | fuel + 1, cs =>
    match cs.dropWhile isToken with
    | '=' :: '\x22' :: value =>
      let text := value.takeWhile fun c => isQuotable c && c != '\x22'
      match value.drop text.length with
      | '\x22' :: after =>
        match after.dropWhile (· == ' ') with
        | ';' :: rest => cs.head? != some '=' && !text.isEmpty && parametersOk fuel rest
        | [] => cs.head? != some '=' && !text.isEmpty
        | _ => false
      | _ => false
    | '=' :: value =>
      match value.dropWhile isToken with
      | ';' :: rest =>
        cs.head? != some '=' && value.head? != some ';' && parametersOk fuel rest
      | [] => cs.head? != some '='
      | _ => false
    | _ => false

def lowerCase (cs : List Char) : String := String.ofList (cs.map Char.toLower)

/-- A subtype and what follows its last plus sign, if it has one. -/
def splitSuffix (subtype : List Char) : List Char × Option (List Char) :=
  let suffix := (subtype.reverse.takeWhile (· != '+')).reverse
  let front := subtype.take (subtype.length - suffix.length)
  if 1 < front.length then (front.dropLast, some suffix) else (subtype, none)

def isJson (contentType : String) : Bool :=
  let cs := contentType.toList
  let kind := cs.takeWhile isToken
  match cs.drop kind.length with
  | '/' :: rest =>
    let subtype := rest.takeWhile isToken
    let parametersFit := match rest.drop subtype.length with
      | [] => true
      | ';' :: parameters => parametersOk parameters.length parameters
      | ' ' :: parameters => parametersOk parameters.length parameters
      | _ => false
    let (name, suffix?) := splitSuffix subtype
    lowerCase kind == "application" && parametersFit && !subtype.isEmpty &&
      (lowerCase name == "json" || (suffix?.map lowerCase) == some "json")
  | _ => false

end Tabular.MediaType
