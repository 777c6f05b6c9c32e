import CodeAtlas.Number.Integer
import CodeAtlas.Text.Encode
import CodeAtlas.Value.Text

/-!
# Request targets

The target of a request writes a path and a query, and before them it may name a scheme and a host.
A target with both is taken as it is; any other one is seen from the top of the service. In the path
`.` and `..` stand for steps that are taken at once; in the query a plus sign stands for a space. A
percent sign and two hexadecimal digits write a byte, and bytes that are no text are replaced.
-/

namespace CodeAtlas

structure Target where
  path : String
  /-- Names and values in order; a name may come more than once. -/
  query : List (Text × Text)
deriving DecidableEq, Repr

namespace Target

/-- The bytes that characters and escapes write. -/
def unescape : List Char → List UInt8
  | '%' :: a :: b :: cs =>
    match Text.hexValue? a, Text.hexValue? b with
    | some high, some low => UInt8.ofNat (high * 16 + low) :: unescape cs
    | _, _ => 0x25 :: unescape (a :: b :: cs)
  | c :: cs => String.utf8EncodeChar c ++ unescape cs
  | [] => []

def unescaped (cs : List Char) : String := Utf8.decodeLossy (unescape cs)

/-! ## Paths -/

/-- Takes a step along a path: `.` stays and `..` goes back, never before the start. -/
def walk (parts : List (List Char)) (part : List Char) : List (List Char) :=
  if part == ['.'] then parts
  else if part == ['.', '.'] then if parts == [[]] then parts else parts.dropLast
  else parts ++ [part]

/-- The path with its steps taken. -/
def normalize (cs : List Char) : List Char := ['/'].intercalate ((cs.splitOn '/').foldl walk [])

/-- A path seen from the top: one slash comes first. -/
def fromTop (cs : List Char) : List Char := normalize ('/' :: cs.dropWhile (· == '/'))

/-! ## Queries -/

def plusAsSpace (c : Char) : Char := if c == '+' then ' ' else c

/-- A name and its value, which is empty if there is no equals sign. -/
def pairOf (cs : List Char) : Text × Text :=
  let (name, value) := cs.span (· != '=')
  (unescaped (name.map plusAsSpace), unescaped ((value.drop 1).map plusAsSpace))

def queryOf (cs : List Char) : List (Text × Text) :=
  ((cs.splitOn '&').filter (!·.isEmpty)).map pairOf

/-! ## Parameters -/

/-- What is wrong with the parameters of a request. -/
inductive ParameterError
  /-- Neither names with values nor a text. -/
  | noNames
  /-- A pair with fewer than two parts. -/
  | shortPair
  /-- Fields in the place of a pair. -/
  | fieldsForPair
  /-- Something without parts in the place of a pair, or a name that is no key. -/
  | noPair
  /-- A text that cannot be encoded. -/
  | encode (e : EncodeError)
deriving DecidableEq, Repr

/-- A value of a query in writing. -/
def valueText : Value → Text
  | .null => ""
  | .bool b => if b then "true" else "false"
  | v => v.plain

/-- A name with its value, or with each of its values. -/
def namedValues (name : Text) : Value → List (Text × Text)
  | .list vs => vs.map fun v => (name, valueText v)
  | v => [(name, valueText v)]

/-- The name and the value in the first two parts of a pair. -/
def pairOfParts : List Value → Except ParameterError (Text × Text)
  | [] => .error .shortPair
  | .list _ :: _ | .dict _ :: _ => .error .noPair
  | [_] => .error .shortPair
  | name :: v :: _ => .ok (name.plain, valueText v)

def pairOfValue : Value → Except ParameterError (Text × Text)
  | .list parts => pairOfParts parts
  | .text s => pairOfParts (s.toList.map fun c => .text (.ofList [c]))
  | .dict _ => .error .fieldsForPair
  | _ => .error .noPair

/-- Names and values as they are sent. -/
def sent (query : List (Text × Text)) : Except ParameterError (List (Text × Text)) :=
  match query.findSome? fun (name, value) => name.encodeError? <|> value.encodeError? with
  | some e => .error (.encode e)
  | none => .ok query

/-- The query that parameters write: names with values, pairs, or the text of a query. What counts
as nothing writes nothing. -/
def queryOfValue : Value → Except ParameterError (List (Text × Text))
  | .dict fs => sent (fs.flatMap fun (name, v) => namedValues name v)
  | .list pairs => do sent (← pairs.mapM pairOfValue)
  | .text s => do return queryOf (← s.asString.mapError .encode).toList
  | v => if v.truthy then .error .noNames else .ok []

/-! ## References -/

/-- What stands between two slashes and the path: the user, the host and the port. -/
structure Authority where
  user : List Char
  host : List Char
  port : List Char
deriving DecidableEq, Repr

/-- The user ends at the last `@`. -/
def spanUser (cs : List Char) : List Char × List Char :=
  match cs.reverse.span (· != '@') with
  | (rest, _ :: user) => (user.reverse, rest.reverse)
  | (_, []) => ([], cs)

/-- A host in brackets ends at the last one, any other at a colon. -/
def spanHost (cs : List Char) : List Char × List Char :=
  match cs, cs.reverse.span (· != ']') with
  | '[' :: _, (rest, close :: host) => ((close :: host).reverse, rest.reverse)
  | _, _ => cs.span (· != ':')

def Authority.ofChars (cs : List Char) : Authority :=
  let (user, rest) := spanUser cs
  let (host, port) := spanHost rest
  ⟨user, host, match port with | ':' :: digits => digits | cs => cs⟩

def Authority.isEmpty (a : Authority) : Bool := a.user.isEmpty && a.host.isEmpty && a.port.isEmpty

/-- A port is a number, if there is one. -/
def Authority.isValid (a : Authority) : Bool :=
  a.port.isEmpty || (Integer.read? (Text.ofList (a.port.map .char))).isSome

/-- A target in its parts; the scheme and the authority may be empty. -/
structure Reference where
  scheme : List Char
  authority : Authority
  path : List Char
  query : List Char
deriving DecidableEq, Repr

def isSchemeChar (c : Char) : Bool := c.isAlphanum || c == '+' || c == '.' || c == '-'

/-- The scheme before a colon; it starts with a letter. -/
def spanScheme (cs : List Char) : List Char × List Char :=
  match cs.span isSchemeChar with
  | ([], ':' :: rest) => ([], rest)
  | (c :: scheme, ':' :: rest) => if c.isAlpha then (c :: scheme, rest) else ([], cs)
  | _ => ([], cs)

/-- Whether a character ends a path. -/
def endsPath (c : Char) : Bool := c == '?' || c == '#'

/-- The authority after two slashes. -/
def spanAuthority : List Char → List Char × List Char
  | '/' :: '/' :: cs => cs.span fun c => c != '/' && !endsPath c
  | cs => ([], cs)

/-- What follows a hash sign does not count. -/
def Reference.ofChars (cs : List Char) : Reference :=
  let (scheme, cs) := spanScheme cs
  let (authority, cs) := spanAuthority cs
  let (path, cs) := cs.span (!endsPath ·)
  let query := match cs with
    | '?' :: cs => cs.takeWhile (· != '#')
    | _ => []
  ⟨scheme, .ofChars authority, path, query⟩

/-- Whether nothing comes before the path. -/
def Reference.isBare (r : Reference) : Bool := r.scheme.isEmpty && r.authority.isEmpty

/-- A bare path does not start with two slashes or a colon. -/
def Reference.isValid (r : Reference) : Bool :=
  r.authority.isValid &&
    !(r.isBare && (['/', '/'].isPrefixOf r.path || [':'].isPrefixOf r.path))

/-- Whether the target is taken as it is. -/
def Reference.isAbsolute (r : Reference) : Bool := !r.scheme.isEmpty && !r.authority.host.isEmpty

/-- The path that is asked for. -/
def Reference.askedPath (r : Reference) : List Char :=
  let path := if r.isBare then r.path else normalize r.path
  let asked := if r.isAbsolute then path else fromTop path
  if asked.isEmpty then ['/'] else asked

/-- A target has at most this many characters. -/
def maxLength : Nat := 65536

/-- A control character of ASCII, which no target may hold. -/
def isControl (c : Char) : Bool := c.toNat < 0x20 || c.toNat == 0x7f

/-- The target that a text writes, if it writes one. -/
def parse? (s : String) : Option Target :=
  let cs := s.toList
  let r := Reference.ofChars cs
  if maxLength < cs.length || cs.any isControl || !r.isValid then none
  else some ⟨unescaped r.askedPath, queryOf r.query⟩

end Target

end CodeAtlas
