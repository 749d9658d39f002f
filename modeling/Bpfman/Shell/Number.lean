import Bpfman.Lib.Binary64

/-!
# Numbers of the shell

A number is a decimal text. Every operator parses its operands anew: a text without a point and an
exponent is a big integer, any other a double. Results are texts again.

* `isJSONNumber`, `isIntegralJSONNumber`: the shapes of the texts.
* `parseShellNumber`, `evalArithmetic`, `evalNumericComparison`: the two paths of the binary
  operators.
* `negateText`: unary minus, which has the path through doubles only.
-/

namespace Bpfman.Shell

open Binary64

/-! ## The shape of a number -/

/-- The white space of JSON. -/
def isJSONSpace (c : Char) : Bool := c == ' ' || c == '\t' || c == '\n' || c == '\r'

/-- The text without a leading minus. -/
def dropMinus : List Char → List Char
  | '-' :: cs => cs
  | cs => cs

/-- What follows the integer part of a JSON number. -/
def intPart : List Char → Option (List Char)
  | [] => none
  | c :: cs =>
    if c == '0' then some cs
    else if c.isDigit then some (cs.dropWhile Char.isDigit)
    else none

/-- What follows a run of at least one digit. -/
def digitsPart : List Char → Option (List Char)
  | [] => none
  | c :: cs => if c.isDigit then some (cs.dropWhile Char.isDigit) else none

def fracPart : List Char → Option (List Char)
  | '.' :: cs => digitsPart cs
  | cs => some cs

def dropSign : List Char → List Char
  | '-' :: cs => cs
  | '+' :: cs => cs
  | cs => cs

def expPart : List Char → Option (List Char)
  | 'e' :: cs => digitsPart (dropSign cs)
  | 'E' :: cs => digitsPart (dropSign cs)
  | cs => some cs

/-- The grammar of a JSON number. -/
def jsonNumber (cs : List Char) : Bool :=
  ((intPart (dropMinus cs)).bind fun r => (fracPart r).bind expPart) == some []

/-! ## Parsing -/

/-- A sign, digits without the point, and the power of ten or two to multiply them with. -/
structure Numeral where
  neg : Bool
  digits : Nat
  base : Nat
  exp : Int

/-- A float of Go. -/
inductive GoFloat
  | finite (x : Double)
  | inf (neg : Bool)
  | nan

/-- The digits before and after an optional point, and what follows. -/
def mantissa (isDigit : Char → Bool) (cs : List Char) : List Char × List Char × List Char :=
  let whole := cs.takeWhile isDigit
  match cs.dropWhile isDigit with
  | '.' :: rest => (whole, rest.takeWhile isDigit, rest.dropWhile isDigit)
  | rest => (whole, [], rest)

/-- The value of a digit text. -/
def ofDigits (ds : List Char) : Nat := Nat.ofDigitChars 10 ds 0

def isHexDigit (c : Char) : Bool := c.isDigit || ('a' ≤ c.toLower && c.toLower ≤ 'f')

def ofHexDigits (ds : List Char) : Nat :=
  ds.foldl (fun n c =>
    16 * n + (if c.isDigit then c.toNat - '0'.toNat else c.toLower.toNat - 'a'.toNat + 10)) 0

/-- The digits of an exponent past 10000 are skipped. -/
def ofExpDigits (ds : List Char) : Nat :=
  ds.foldl (fun n c => if n < 10000 then 10 * n + (c.toNat - '0'.toNat) else n) 0

/-- An exponent that ends the text. -/
def exponentOf (isMark : Char → Bool) : List Char → Option Int
  | [] => none
  | c :: cs =>
    if isMark c && digitsPart (dropSign cs) = some [] then
      some (if cs.head? = some '-' then -(ofExpDigits (dropSign cs) : Int)
        else ofExpDigits (dropSign cs))
    else none

/-- What follows the sign and the prefix `0x`. -/
def hexBody (cs : List Char) : Option (List Char) :=
  match dropSign cs with
  | '0' :: x :: rest => if x == 'x' || x == 'X' then some rest else none
  | _ => none

/-- The loop of `underscoreOK`, with what was seen last. -/
def underscoresFrom (isDigit : Char → Bool) : Char → List Char → Bool
  | saw, [] => saw != '_'
  | saw, c :: cs =>
    if isDigit c then underscoresFrom isDigit '0' cs
    else if c == '_' then saw == '0' && underscoresFrom isDigit '_' cs
    else saw != '_' && underscoresFrom isDigit '!' cs

def underscoreOK (cs : List Char) : Bool :=
  match hexBody cs with
  | some rest => underscoresFrom isHexDigit '0' rest
  | none => underscoresFrom Char.isDigit '^' (dropSign cs)

/-- `readFloat`: the exponent of a hexadecimal text is a power of two, and has to be there. -/
def readFloat (text : List Char) : Option Numeral :=
  if '_' ∈ text ∧ underscoreOK text = false then none
  else
    let cs := text.filter (· ≠ '_')
    let neg := cs.head? = some '-'
    match hexBody cs with
    | some body =>
      let (whole, frac, rest) := mantissa isHexDigit body
      if whole ++ frac = [] then none
      else (exponentOf (fun c => c == 'p' || c == 'P') rest).map fun e =>
        ⟨neg, ofHexDigits (whole ++ frac), 2, e - 4 * frac.length⟩
    | none =>
      let (whole, frac, rest) := mantissa Char.isDigit (dropSign cs)
      if whole ++ frac = [] then none
      else
        (if rest = [] then some 0 else exponentOf (fun c => c == 'e' || c == 'E') rest).map fun e =>
          ⟨neg, ofDigits (whole ++ frac), 10, e - frac.length⟩

/-- `special`: the infinities, and not-a-number without a sign. -/
def special (cs : List Char) : Option GoFloat :=
  if (dropSign cs).map Char.toLower ∈ ["inf".toList, "infinity".toList] then
    some (.inf (cs.head? = some '-'))
  else if cs.map Char.toLower = "nan".toList then some .nan
  else none

/-- `strconv.ParseFloat`: nothing on a malformed text and on a number that is out of range. -/
def parseFloat (t : String) : Option GoFloat :=
  match readFloat t.toList with
  | some d =>
    (round (d.digits * d.base ^ d.exp.toNat) (d.base ^ (-d.exp).toNat)).map fun v =>
      .finite ⟨d.neg, v⟩
  | none => special t.toList

/-- `strconv.FormatFloat` with format `f` and the shortest precision. -/
def formatFloat (x : Double) : String := String.ofList x.format

namespace GoFloat

def isFinite : GoFloat → Bool
  | .finite _ => true
  | _ => false

def isZero : GoFloat → Bool
  | .finite x => x.isZero
  | _ => false

def negate : GoFloat → GoFloat
  | .finite x => .finite x.negate
  | .inf neg => .inf !neg
  | .nan => .nan

def format : GoFloat → String
  | .finite x => formatFloat x
  | .inf neg => if neg then "-Inf" else "+Inf"
  | .nan => "NaN"

end GoFloat

/-- `big.Int.SetString` in base ten. -/
def setString (t : String) : Option Int :=
  if digitsPart (dropSign t.toList) = some [] then
    some (if t.toList.head? = some '-' then -(ofDigits (dropSign t.toList) : Int)
      else ofDigits (dropSign t.toList))
  else none

/-- `big.Int.String`. -/
def intText (i : Int) : String :=
  String.ofList (if i < 0 then '-' :: Nat.toDigits 10 i.natAbs else Nat.toDigits 10 i.natAbs)

def isIntegralJSONNumber (t : String) : Bool :=
  t.toList.all fun c => c != '.' && c != 'e' && c != 'E'

/-- A JSON number, between optional white space, that is integral or a finite double. -/
def isJSONNumber (t : String) : Bool :=
  jsonNumber (((t.toList.dropWhile isJSONSpace).reverse.dropWhile isJSONSpace).reverse) &&
    (isIntegralJSONNumber t || (parseFloat t).any (·.isFinite))

/-! ## Arithmetic -/

inductive Side
  | left
  | right
  deriving DecidableEq

inductive ArithOp
  | add
  | sub
  | mul
  | div
  | mod
  deriving DecidableEq

inductive CmpOp
  | eq
  | ne
  | lt
  | le
  | gt
  | ge
  deriving DecidableEq

inductive NumError
  /-- `SIDE operand "TEXT" is not numeric` -/
  | notNumeric (side : Side) (text : String)
  /-- `SIDE operand "TEXT" exceeds the representable range` -/
  | operandRange (side : Side) (text : String)
  /-- `division by zero` -/
  | divisionByZero
  /-- `arithmetic OP: result exceeds the representable range` -/
  | resultRange (op : ArithOp)
  /-- `negate: operand "TEXT" is not numeric` -/
  | negateOperand (text : String)
  deriving DecidableEq

inductive ShellNumber
  | int (i : Int)
  | float (x : Double)

def parseShellNumber (t : String) (side : Side) : Except NumError ShellNumber :=
  if !isJSONNumber t then .error (.notNumeric side t)
  else if isIntegralJSONNumber t then
    match setString t with
    | some i => .ok (.int i)
    | none => .error (.notNumeric side t)
  else
    match parseFloat t with
    | some (.finite x) => .ok (.float x)
    | _ => .error (.operandRange side t)

/-- The operand as a double; a big integer is rounded. -/
def ShellNumber.float64 (n : ShellNumber) (side : Side) (t : String) : Except NumError Double :=
  match n with
  | .float x => .ok x
  | .int i =>
    match Double.ofRatio false i 1 with
    | some x => .ok x
    | none => .error (.operandRange side t)

def floatArithmetic (op : ArithOp) (x y : Double) : Except NumError (Option Double) :=
  match op with
  | .add => .ok (x.add y)
  | .sub => .ok (x.sub y)
  | .mul => .ok (x.mul y)
  | .div => if y.isZero then .error .divisionByZero else .ok (x.div y)
  | .mod => if y.isZero then .error .divisionByZero else .ok (x.mod y)

/-- Both operands as doubles. -/
def floatPath (op : ArithOp) (a b : ShellNumber) (left right : String) :
    Except NumError String := do
  let x ← a.float64 .left left
  let y ← b.float64 .right right
  match ← floatArithmetic op x y with
  | some r => .ok (formatFloat r)
  | none => .error (.resultRange op)

/-- The text of the result. Integers stay exact under every operator but division. -/
def evalArithmetic (op : ArithOp) (left right : String) : Except NumError String := do
  let a ← parseShellNumber left .left
  let b ← parseShellNumber right .right
  match op, a, b with
  | .add, .int i, .int j => .ok (intText (i + j))
  | .sub, .int i, .int j => .ok (intText (i - j))
  | .mul, .int i, .int j => .ok (intText (i * j))
  | .mod, .int i, .int j => if j = 0 then .error .divisionByZero else .ok (intText (i.tmod j))
  | op, a, b => floatPath op a b left right

/-- The truth value of a comparison from the outcome of `Cmp`. -/
def CmpOp.pass (op : CmpOp) (cmp : Ordering) : Bool :=
  match op with
  | .eq => cmp == .eq
  | .ne => cmp != .eq
  | .lt => cmp == .lt
  | .le => cmp != .gt
  | .gt => cmp == .gt
  | .ge => cmp != .lt

def evalNumericComparison (op : CmpOp) (left right : String) : Except NumError Bool := do
  let a ← parseShellNumber left .left
  let b ← parseShellNumber right .right
  match a, b with
  | .int i, .int j => .ok (op.pass (compare i j))
  | a, b =>
    let x ← a.float64 .left left
    let y ← b.float64 .right right
    .ok (op.pass (if x.lt y then .lt else if y.lt x then .gt else .eq))

/-- Unary minus: the operand is parsed as a float, whatever its shape. -/
def negateText (t : String) : Except NumError String :=
  match parseFloat t with
  | some x => .ok x.negate.format
  | none => .error (.negateOperand t)

end Bpfman.Shell
