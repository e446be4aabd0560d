import ClauseExchange.Number.Reading

/-!
# Options on a command line

A command knows some options, each with a long name, perhaps a letter, and a kind of value. An
option is written `--name value` or `--name=value`, or with its letter as `-x value`, `-xvalue` or
`-x=value`; flags have no value, and their letters may be joined. An option is given at most once.

`Options.parse` reads the arguments of one command from left to right and stops at the first that
it cannot take, or at a request for help. Arguments that are no options are left to the command.
-/

namespace ClauseExchange.CommandLine

/-- What an option takes as its value. -/
inductive Kind
  /-- No value. -/
  | flag
  /-- No value, and the option may be given again. -/
  | counter
  /-- A 64-bit word. -/
  | word
  /-- A 32-bit word, which may be written with a sign. -/
  | half
  /-- A double. -/
  | real
  /-- One of some words. -/
  | oneOf (words : List String)
  deriving DecidableEq, Repr

namespace Kind

/-- Whether options of this kind have a value. -/
def hasValue : Kind → Bool
  | flag | counter => false
  | _ => true

/-- A 32-bit word; zero may be written as a negative number. -/
def half? (text : String) : Option Nat :=
  match text.toList with
  | '-' :: ds => if !ds.isEmpty && ds.all (· == '0') then some 0 else none
  | _ => Reading.natural? 4294967296 text

/-- A 64-bit word. -/
def word? (text : String) : Option Nat := Reading.natural? 18446744073709551616 text

/-- Whether a text is a value of this kind. -/
def accepts (k : Kind) (text : String) : Bool :=
  match k with
  | flag | counter => false
  | word => (word? text).isSome
  | half => (half? text).isSome
  | real => (Reading.float? text).isSome
  | oneOf words => words.contains text

end Kind

/-- An option that a command knows. -/
structure Entry where
  /-- The long name. -/
  name : String
  /-- The kind of value. -/
  kind : Kind
  /-- The letter, if there is one. -/
  letter? : Option Char := none
  deriving DecidableEq, Repr

/-- Why reading the arguments ended early. -/
inductive Stop
  /-- The arguments are not understood. -/
  | misuse
  /-- Help is wanted. -/
  | help
  /-- The version is wanted. -/
  | version
  deriving DecidableEq, Repr

/-- The options given, with their values, the latest first. -/
abbrev Given := List (String × String)

namespace Given

/-- The value of an option. -/
def value? (g : Given) (name : String) : Option String := (g.find? (·.1 == name)).map (·.2)

/-- Whether an option was given. -/
def has (g : Given) (name : String) : Bool := g.any (·.1 == name)

/-- The word that an option gives, or a default. -/
def word (g : Given) (name : String) (default : Nat) : Nat :=
  ((g.value? name).bind Kind.word?).getD default

/-- The 32-bit word that an option gives, or a default. -/
def half (g : Given) (name : String) (default : Nat) : Nat :=
  ((g.value? name).bind Kind.half?).getD default

/-- The double that an option gives, if it is given. -/
def real? (g : Given) (name : String) : Option Float := (g.value? name).bind Reading.float?

/-- Adds an option. Only a counter may be given again. -/
def add (g : Given) (e : Entry) (value : String) : Except Stop Given :=
  if e.kind ≠ .counter ∧ g.has e.name then .error .misuse else .ok ((e.name, value) :: g)

end Given

namespace Options

/-- The options that every command knows. -/
def common : List Entry := [⟨"verbose", .counter, some 'v'⟩]

/-- Whether an argument is an option, and so no value of another. -/
def isOption (arg : String) : Bool :=
  match arg.toList with
  | '-' :: _ :: _ => true
  | _ => false

/-- Gives a value to an option: the one joined to it, or else the next argument. -/
def giveValue (g : Given) (e : Entry) (joined? : Option String) (rest : List String) :
    Except Stop (Given × List String) :=
  match joined?, rest with
  | some value, rest => if e.kind.accepts value then (g.add e value).map (·, rest) else .error .misuse
  | none, value :: rest =>
    if !isOption value && e.kind.accepts value then (g.add e value).map (·, rest)
    else .error .misuse
  | none, [] => .error .misuse

/-- Takes an option by its long name. -/
def takeLong (entries : List Entry) (g : Given) (name : String) (joined? : Option String)
    (rest : List String) : Except Stop (Given × List String) :=
  match entries.find? (·.name == name) with
  | none => .error .misuse
  | some e =>
    if e.kind.hasValue then giveValue g e joined? rest
    else if joined?.isSome then .error .misuse
    else (g.add e "").map (·, rest)

/-- Takes joined letters, the last of which may be followed by its value. -/
def takeLetters (entries : List Entry) (hasVersion : Bool) (g : Given) (rest : List String) :
    List Char → Except Stop (Given × List String)
  | [] => .ok (g, rest)
  | c :: cs =>
    match entries.find? (·.letter? == some c) with
    | none =>
      if c = 'h' then .error .help
      else if c = 'V' ∧ hasVersion then .error .version
      else .error .misuse
    | some e =>
      if e.kind.hasValue then
        match cs with
        | [] => giveValue g e none rest
        | '=' :: value => giveValue g e (some (String.ofList value)) rest
        | value => giveValue g e (some (String.ofList value)) rest
      else
        match g.add e "" with
        | .error stop => .error stop
        | .ok g => takeLetters entries hasVersion g rest cs

/-- A long option's name, and the value joined to it. -/
def splitLong (cs : List Char) : String × Option String :=
  let name := cs.takeWhile (· != '=')
  match cs.dropWhile (· != '=') with
  | [] => (String.ofList name, none)
  | _ :: value => (String.ofList name, some (String.ofList value))

/-- Takes one option, which has been recognised as such. -/
def takeOne (entries : List Entry) (hasVersion : Bool) (g : Given) (arg : List Char)
    (rest : List String) : Except Stop (Given × List String) :=
  match arg with
  | '-' :: '-' :: cs =>
    match splitLong cs with
    | ("help", none) => .error .help
    | ("version", none) =>
      if hasVersion then .error .version else .error .misuse
    | (name, joined?) => takeLong entries g name joined? rest
  | _ :: cs => takeLetters entries hasVersion g rest cs
  | [] => .error .misuse

/-- Reads options up to the first argument that is none; `fuel` bounds the number of arguments. -/
def parse (entries : List Entry) (hasVersion : Bool) :
    Nat → Given → List String → Except Stop (Given × List String)
  | 0, g, args => .ok (g, args)
  | _ + 1, g, [] => .ok (g, [])
  | fuel + 1, g, arg :: rest =>
    if arg = "--" then
      if rest.isEmpty then .ok (g, []) else .error .misuse
    else if isOption arg then
      match takeOne (entries ++ common) hasVersion g arg.toList rest with
      | .error stop => .error stop
      | .ok (g, rest) => parse entries hasVersion fuel g rest
    else .ok (g, arg :: rest)

end Options

end ClauseExchange.CommandLine
