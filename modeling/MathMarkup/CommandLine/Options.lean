import MathMarkup.Number.Integer

/-!
# Options

Options stand anywhere among the arguments of a command: `--name value`, `--name=value`, `-n value`,
`-nvalue`, and several one-letter options in one argument. After `--` everything is an argument. An
option that is a switch takes a value only behind an equals sign.
-/

namespace MathMarkup.CommandLine

/-- The kinds of options. -/
inductive OptionKind where
  | switch
  | text
  | int
  /-- May be given several times. -/
  | texts
deriving DecidableEq, Repr

/-- An option of a command. -/
structure CommandOption where
  name : Text
  /-- The letter that stands for it. -/
  letter : Option UInt8 := none
  kind : OptionKind := .text
  /-- What it is for. -/
  about : Text := []
  /-- The text it stands for when it is not given. -/
  standard : Text := []
deriving DecidableEq, Repr

namespace CommandOption

/-- How an option is called in messages. -/
def label (o : CommandOption) : Text :=
  match o.letter with
  | some b => "-" ++ [b] ++ ", --" ++ o.name
  | none => "--" ++ o.name

/-- What is wrong with a value for an option. -/
def valueFault? (o : CommandOption) (v : Text) : Option Text :=
  match o.kind with
  | .text | .texts => none
  | .switch =>
    match Number.readBool? v with
    | some _ => none
    | none => some (Number.ReadFault.message .malformed "ParseBool" v)
  | .int =>
    match Number.readAnyBase v with
    | .ok _ => none
    | .error e => some (e.message "ParseInt" v)

end CommandOption

/-- What was given to a command: values of options, in order, and arguments. -/
structure Given where
  values : List (Text × Text) := []
  arguments : List Text := []
deriving DecidableEq, Repr

namespace Given

/-- The value an option was given last. -/
def last? (g : Given) (name : Text) : Option Text :=
  (g.values.reverse.find? fun v => v.1 == name).map Prod.snd

/-- Whether an option was given. -/
def has (g : Given) (name : Text) : Bool := (g.last? name).isSome

/-- The text of an option, or what it is by default. -/
def text (g : Given) (name : Text) (standard : Text) : Text := (g.last? name).getD standard

/-- Whether a switch is on. -/
def isOn (g : Given) (name : Text) : Bool :=
  ((g.last? name).bind Number.readBool?).getD false

/-- The number of an option, zero if it was not given. -/
def int (g : Given) (name : Text) : Int :=
  ((g.last? name).bind fun v => (Number.readAnyBase v).toOption).getD 0

/-- All texts an option was given. -/
def texts (g : Given) (name : Text) : List Text :=
  (g.values.filter fun v => v.1 == name).map Prod.snd

/-- What was given, with a value for an option; the value has to be one the option takes. -/
def put (g : Given) (o : CommandOption) (v : Text) : Except Text Given :=
  match o.valueFault? v with
  | none => .ok { g with values := g.values ++ [(o.name, v)] }
  | some why =>
    .error ("invalid argument " ++ v.quote ++ " for " ++ o.label.quote ++ " flag: " ++ why)

end Given

/-! ## Reading -/

/-- The value of a switch that is given without one. -/
def switchedOn : Text := "true"

/-- Reads one-letter options; also whether the next argument was taken as a value. -/
def readLetters (os : List CommandOption) (next : Option Text) :
    Text → Given → Except Text (Given × Bool)
  | [], g => .ok (g, false)
  | b :: rest, g =>
    match os.find? fun o => o.letter == some b with
    | none =>
      .error ("unknown shorthand flag: " ++ Text.quoteSingle (Char.ofNat b.toNat) ++ " in -"
        ++ (b :: rest))
    | some o =>
      match rest with
      | e :: v :: vs =>
        if e == Text.byte '=' then (g.put o (v :: vs)).map fun g => (g, false)
        else if o.kind = .switch then do
          let g ← g.put o switchedOn
          readLetters os next rest g
        else (g.put o rest).map fun g => (g, false)
      | [e] =>
        if o.kind = .switch then do
          let g ← g.put o switchedOn
          readLetters os next rest g
        else (g.put o [e]).map fun g => (g, false)
      | [] =>
        if o.kind = .switch then (g.put o switchedOn).map fun g => (g, false)
        else
          match next with
          | some v => (g.put o v).map fun g => (g, true)
          | none =>
            .error ("flag needs an argument: " ++ Text.quoteSingle (Char.ofNat b.toNat) ++ " in -"
              ++ [b])

/-- Reads an option that is given by its name; also whether the next argument was taken. -/
def readNamed (os : List CommandOption) (next : Option Text) (s : Text) (g : Given) :
    Except Text (Given × Bool) :=
  let body := s.drop 2
  if body.head? == some (Text.byte '-') || body.head? == some (Text.byte '=') then
    .error ("bad flag syntax: " ++ s)
  else
    let (name, value) : Text × Option Text := match Text.cutByte? (Text.byte '=') body with
      | some (n, v) => (n, some v)
      | none => (body, none)
    match os.find? fun o => o.name == name with
    | none => .error ("unknown flag: --" ++ name)
    | some o =>
      match value with
      | some v => (g.put o v).map fun g => (g, false)
      | none =>
        if o.kind = .switch then (g.put o switchedOn).map fun g => (g, false)
        else
          match next with
          | some v => (g.put o v).map fun g => (g, true)
          | none => .error ("flag needs an argument: " ++ s)

/-- What ends the options. -/
def endMark : Text := "--"

/-- Whether an argument is an option, or several: a dash and something after it. -/
def isOptionLike (s : Text) : Bool := s.head? == some (Text.byte '-') && s.length > 1

/-- Reads options and arguments. The flag says whether the first argument has been taken as a
value. -/
def readFrom (os : List CommandOption) : Bool → List Text → Given → Except Text Given
  | _, [], g => .ok g
  | true, _ :: rest, g => readFrom os false rest g
  | false, s :: rest, g =>
    if s == endMark then .ok { g with arguments := g.arguments ++ rest }
    else if !isOptionLike s then
      readFrom os false rest { g with arguments := g.arguments ++ [s] }
    else do
      let (g, taken) ←
        if endMark.isPrefixOf s then readNamed os rest.head? s g
        else readLetters os rest.head? (s.drop 1) g
      readFrom os taken rest g

/-- Reads what was given to a command that has some options. -/
def readGiven (os : List CommandOption) (args : List Text) : Except Text Given :=
  readFrom os false args {}

/-! ## Finding commands among options -/

/-- Whether an argument is an option whose value is the next argument. What is not known is taken
for such an option. -/
def takesNext (os : List CommandOption) (s : Text) : Bool :=
  if s.contains (Text.byte '=') then false
  else if endMark.isPrefixOf s then
    !(os.any fun o => o.name == s.drop 2 && o.kind == .switch)
  else if s.head? == some (Text.byte '-') && s.length == 2 then
    !(os.any fun o => o.letter == s[1]? && o.kind == .switch)
  else false

/-- The arguments that are no options and no values of options, as far as that can be told before
the options are read. An option in front of the last argument hides it. -/
def plainWords (os : List CommandOption) : Bool → List Text → List Text
  | _, [] => []
  | true, _ :: rest => plainWords os false rest
  | false, s :: rest =>
    if s == endMark then []
    else if takesNext os s then
      if rest.length ≤ 1 then [] else plainWords os true rest
    else if !s.isEmpty && s.head? != some (Text.byte '-') then s :: plainWords os false rest
    else plainWords os false rest

/-- The arguments without the first one that is a word. -/
def withoutWord (os : List CommandOption) (word : Text) : Bool → List Text → List Text
  | _, [] => []
  | true, v :: rest => v :: withoutWord os word false rest
  | false, s :: rest =>
    if s == endMark then s :: rest
    else if takesNext os s then s :: withoutWord os word true rest
    else if s == word then rest
    else s :: withoutWord os word false rest

end MathMarkup.CommandLine
