/-!
# Command lines

The command line of the program: a subcommand with its operands, and flags that
may stand before or after the subcommand.  Arguments are taken from left to right,
so the first one that cannot be right decides.
-/

namespace TypeLayer

/-- What the program is asked to do. -/
inductive Command where
  /-- Solve the equation of two types. -/
  | unify (left right : String)
  /-- Compare two nominal types. -/
  | subtype (sub sup : String)
  /-- Print the layout of a type. -/
  | layout (ty : String)
  /-- Print the written forms of a type. -/
  | describe (ty : String)
deriving Repr, DecidableEq

namespace Command

inductive Flag where
  | json
  | noColor
  | verbose
deriving Repr, DecidableEq

def Flag.ofLong? (name : String) : Option Flag :=
  match name with
  | "json" => some .json
  | "no-color" => some .noColor
  | "verbose" => some .verbose
  | _ => none

def Flag.ofShort? (c : Char) : Option Flag :=
  if c = 'v' then some .verbose else none

/-- A command line that can be carried out. -/
inductive Invocation where
  | version
  | help
  | run (flags : List Flag) (command : Command)
deriving Repr, DecidableEq

/-! ## Kinds of arguments -/

inductive Argument where
  /-- The argument `--`, after which everything is an operand. -/
  | escape
  /-- An argument `--name`, with what follows the dashes. -/
  | long (name : String)
  /-- An argument `-abc`, with the letters. -/
  | short (letters : List Char)
  /-- Anything else; a dash alone is an operand, too. -/
  | operand (text : String)
deriving Repr, DecidableEq

def Argument.of (text : String) : Argument :=
  match text.toList with
  | ['-', '-'] => .escape
  | '-' :: '-' :: name => .long (String.ofList name)
  | '-' :: c :: letters => .short (c :: letters)
  | _ => .operand text

/-! ## Flags -/

/-- What reading the flags of an argument comes to. `none` in place of a step
means that the command line is refused. -/
inductive FlagStep where
  | version
  | help
  | raised (flags : List Flag)
deriving Repr, DecidableEq

/-- Raises a flag that has not been raised on the same side of the subcommand. -/
def raise? (flags : List Flag) (flag : Flag) : Option (List Flag) :=
  if flag ∈ flags then none else some (flag :: flags)

/-- Takes `--name`. The version can be asked for before the subcommand only. -/
def takeLong (top : Bool) (flags : List Flag) (name : String) : Option FlagStep :=
  match name with
  | "help" => some .help
  | "version" => if top then some .version else none
  | name => do return .raised (← raise? flags (← Flag.ofLong? name))

/-- Takes `-abc`, letter by letter. -/
def takeShort (top : Bool) (flags : List Flag) : List Char → Option FlagStep
  | [] => some (.raised flags)
  | c :: rest =>
    if c = 'h' then some .help
    else if c = 'V' ∧ top then some .version
    else do takeShort top (← raise? flags (← Flag.ofShort? c)) rest

/-! ## Subcommands -/

/-- The subcommand of a name with its operands. -/
def ofOperands? (name : String) (operands : List String) : Option Command :=
  match name, operands with
  | "unify", [left, right] => some (.unify left right)
  | "subtype", [sub, sup] => some (.subtype sub sup)
  | "layout", [ty] => some (.layout ty)
  | "show", [ty] => some (.describe ty)
  | _, _ => none

/-- How many operands the subcommand of a name takes. -/
def operandCount? (name : String) : Option Nat :=
  match name with
  | "unify" | "subtype" => some 2
  | "layout" | "show" => some 1
  | _ => none

/-- Takes the arguments after a subcommand with `count` operands. An operand too many
is refused where it stands; one too few only shows at the end. -/
def takeOperands (outer : List Flag) (name : String) (count : Nat) (flags : List Flag)
    (operands : List String) : List String → Option Invocation
  | [] => do return .run (outer ++ flags) (← ofOperands? name operands)
  | arg :: rest =>
    match Argument.of arg with
    | .escape => do return .run (outer ++ flags) (← ofOperands? name (operands ++ rest))
    | .operand text =>
      if operands.length < count then takeOperands outer name count flags (operands ++ [text]) rest
      else none
    | .long option =>
      match takeLong false flags option with
      | some (.raised flags) => takeOperands outer name count flags operands rest
      | some .help => some .help
      | _ => none
    | .short letters =>
      match takeShort false flags letters with
      | some (.raised flags) => takeOperands outer name count flags operands rest
      | some .help => some .help
      | _ => none

/-- Takes the arguments after `help`: at most one, and it names a subcommand or `help`
itself. Flags have no meaning there. -/
def takeTopic : List String → Option Invocation
  | [] => some .help
  | [name] => if (operandCount? name).isSome ∨ name = "help" then some .help else none
  | _ => none

/-- Takes the arguments up to the subcommand. -/
def takeArguments (flags : List Flag) : List String → Option Invocation
  | [] => none
  | arg :: rest =>
    match Argument.of arg with
    | .escape => none
    | .operand name =>
      match operandCount? name with
      | some count => takeOperands flags name count [] [] rest
      | none => if name = "help" then takeTopic rest else none
    | .long option =>
      match takeLong true flags option with
      | some (.raised flags) => takeArguments flags rest
      | some .version => some .version
      | some .help => some .help
      | none => none
    | .short letters =>
      match takeShort true flags letters with
      | some (.raised flags) => takeArguments flags rest
      | some .version => some .version
      | some .help => some .help
      | none => none

/-- What a command line asks for, unless it is refused. -/
def parse? (args : List String) : Option Invocation :=
  takeArguments [] args

end Command

end TypeLayer
