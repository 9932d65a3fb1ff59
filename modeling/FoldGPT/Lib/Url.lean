/-!
# Splitting a URL

The `urlsplit` of Python's `urllib.parse` on lists of characters. What it asks
of Unicode and of IP address syntax is a parameter: `NetlocRules`.
-/

namespace FoldGPT.Lib.Url

/-- The checks of a network location that need Unicode or address tables. -/
structure NetlocRules where
  /-- `unicodedata.normalize("NFKC", text)`. -/
  nfkc : List Char → List Char
  /-- Whether the text between brackets is an address. -/
  bracketedHost : List Char → Bool

structure SplitResult where
  scheme : List Char
  netloc : List Char
  path : List Char
  query : List Char
  fragment : List Char
  deriving DecidableEq, Repr

/-- The text before and after the first `c`. -/
def cut (c : Char) : List Char → Option (List Char × List Char)
  | [] => none
  | d :: rest =>
    if d = c then some ([], rest) else (cut c rest).map fun p => (d :: p.1, p.2)

theorem cut_of_not_mem {c : Char} {text : List Char} (h : c ∉ text) : cut c text = none := by
  induction text with
  | nil => rfl
  | cons d text ih =>
    obtain ⟨hd, htext⟩ := not_or.mp (fun hmem => h (List.mem_cons.mpr hmem))
    rw [cut, if_neg (Ne.symm hd), ih htext]
    rfl

/-- C0 controls and space, stripped from the left. -/
def isC0OrSpace (c : Char) : Bool := decide (c.toNat ≤ 32)

/-- Tab, carriage return and newline, removed everywhere. -/
def isUnsafe (c : Char) : Bool := c = '\t' || c = '\r' || c = '\n'

def isSchemeChar (c : Char) : Bool := c.isAlphanum || c = '+' || c = '-' || c = '.'

def splitScheme (url : List Char) : List Char × List Char :=
  match cut ':' url with
  | none => ([], url)
  | some (head, rest) =>
    if head.head?.any Char.isAlpha && head.all isSchemeChar then (head.map Char.toLower, rest)
    else ([], url)

/-- The network location ends at the first `/`, `?` or `#`. -/
def splitNetloc : List Char → List Char × List Char
  | '/' :: '/' :: rest => rest.span fun c => !(c = '/' || c = '?' || c = '#')
  | url => ([], url)

def netlocOk (rules : NetlocRules) (netloc : List Char) : Bool :=
  let opens := netloc.contains '['
  let closes := netloc.contains ']'
  let host := ((cut '[' netloc).map Prod.snd).getD []
  let bracketed := ((cut ']' host).map Prod.fst).getD host
  let bare := netloc.filter fun c => !(c = '@' || c = ':' || c = '#' || c = '?')
  let folded := rules.nfkc bare
  opens == closes && (!opens || rules.bracketedHost bracketed) &&
    (netloc.all (fun c => decide (c.toNat < 128)) || folded = bare ||
      !folded.any (fun c => c = '/' || c = '?' || c = '#' || c = '@' || c = ':'))

/-- `urlsplit(url)`; `none` is its `ValueError`. -/
def urlsplit (rules : NetlocRules) (url : List Char) : Option SplitResult :=
  let url := (url.dropWhile isC0OrSpace).filter fun c => !isUnsafe c
  let (scheme, url) := splitScheme url
  let (netloc, url) := splitNetloc url
  let (url, fragment) := (cut '#' url).getD (url, [])
  let (path, query) := (cut '?' url).getD (url, [])
  if netlocOk rules netloc then some { scheme, netloc, path, query, fragment } else none

end FoldGPT.Lib.Url
