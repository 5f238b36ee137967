/-
The words that stand for numbers.

# The grammar

A number word is an optional sign followed by one of

- `inf` or `infinity`, in any mixture of capital and small letters;
- `nan`, likewise;
- decimal digits with at most one point among, before or behind them, at
  least one digit in all, and then perhaps an exponent: `e` or `E`, an
  optional sign, at least one digit.

Digits and letters are the ASCII ones. Nothing else is a number word, neither
a bare point nor a digit beside a blank.

# Two directions

A `Numeral` keeps everything that its word shows: whether a plus was written,
where the point stood, which letter marked the exponent. So `spell` gives the
word back, and the grammar above is the set of all `spell n` with
`n.WellFormed`. `read?` goes the other way.
-/
import Calculator.Decimal

namespace Calculator

inductive Sign where
  | plus
  | minus
  deriving DecidableEq, Repr

namespace Sign

def spell : Option Sign → List Char
  | none => []
  | some plus => ['+']
  | some minus => ['-']

def isMinus (sign : Option Sign) : Bool := sign = some minus

/-- The sign at the front of a text, if there is one, and what follows. -/
def read : List Char → Option Sign × List Char
  | '+' :: rest => (some plus, rest)
  | '-' :: rest => (some minus, rest)
  | rest => (none, rest)

end Sign

namespace Numeral

-- ==================================================== the parts of a numeral

/-- The written exponent of a decimal. -/
structure Exponent where
  marker : Char
  sign : Option Sign
  digits : List Char
  deriving DecidableEq

/-- What stands behind the sign. `fraction` is `none` where no point is
written, and empty where nothing follows the point. -/
inductive Magnitude where
  | infinity (name : List Char)
  | nan (name : List Char)
  | decimal (whole : List Char) (fraction : Option (List Char)) (exponent : Option Exponent)
  deriving DecidableEq

end Numeral

structure Numeral where
  sign : Option Sign
  magnitude : Numeral.Magnitude
  deriving DecidableEq

namespace Numeral

-- =============================================================== the grammar

/-- The names of infinity, in small letters. -/
def infinityNames : List (List Char) := [['i', 'n', 'f'], ['i', 'n', 'f', 'i', 'n', 'i', 't', 'y']]

/-- The name of what is not a number, in small letters. -/
def nanName : List Char := ['n', 'a', 'n']

/-- A marker is one of two letters and at least one digit follows it. -/
def Exponent.WellFormed (e : Exponent) : Prop :=
  (e.marker = 'e' ∨ e.marker = 'E') ∧ e.digits ≠ [] ∧ ∀ c ∈ e.digits, c.isDigit

/-- The names are names in some mixture of capitals and small letters; a
decimal has digits where digits belong, and at least one of them. -/
def Magnitude.WellFormed : Magnitude → Prop
  | infinity name => name.map Char.toLower ∈ infinityNames
  | nan name => name.map Char.toLower = nanName
  | decimal whole fraction exponent =>
    (∀ c ∈ whole ++ fraction.getD [], c.isDigit) ∧ whole ++ fraction.getD [] ≠ [] ∧
      ∀ e ∈ exponent, e.WellFormed

/-- The numeral has the parts that the grammar asks for. -/
def WellFormed (n : Numeral) : Prop := n.magnitude.WellFormed

/-- The characters of an exponent that may be missing. -/
def Exponent.spell : Option Exponent → List Char
  | none => []
  | some e => e.marker :: (Sign.spell e.sign ++ e.digits)

/-- The characters behind the sign. -/
def Magnitude.spell : Magnitude → List Char
  | infinity name => name
  | nan name => name
  | decimal whole none exponent => whole ++ Exponent.spell exponent
  | decimal whole (some fraction) exponent =>
    whole ++ '.' :: (fraction ++ Exponent.spell exponent)

/-- The characters of the word. -/
def spell (n : Numeral) : List Char := Sign.spell n.sign ++ n.magnitude.spell

-- ==================================================================== reading

/-- What follows the digits of a decimal: nothing or an exponent. -/
def Exponent.read? : List Char → Option (Option Exponent)
  | [] => some none
  | marker :: rest =>
    let (sign, digits) := Sign.read rest
    if (marker = 'e' ∨ marker = 'E') ∧ digits ≠ [] ∧ digits.all Char.isDigit then
      some (some ⟨marker, sign, digits⟩)
    else none

/-- The digits and the point of a decimal, then its exponent. -/
def Magnitude.readDecimal? (text : List Char) : Option Magnitude :=
  let whole := text.takeWhile Char.isDigit
  match text.dropWhile Char.isDigit with
  | '.' :: rest =>
    let fraction := rest.takeWhile Char.isDigit
    if whole = [] ∧ fraction = [] then none
    else (Exponent.read? (rest.dropWhile Char.isDigit)).map (decimal whole (some fraction))
  | rest =>
    if whole = [] then none
    else (Exponent.read? rest).map (decimal whole none)

/-- What stands behind the sign. The names are tried first; neither begins
with a digit or a point, so the order is of no consequence. -/
def Magnitude.read? (text : List Char) : Option Magnitude :=
  if text.map Char.toLower ∈ infinityNames then some (infinity text)
  else if text.map Char.toLower = nanName then some (nan text)
  else readDecimal? text

/-- The numeral that a word spells. -/
def read? (text : List Char) : Option Numeral :=
  let (sign, rest) := Sign.read text
  (Magnitude.read? rest).map (Numeral.mk sign)

-- ================================================================== its value

/-- The power of ten that an exponent names. -/
def Exponent.value : Option Exponent → Int
  | none => 0
  | some e =>
    let size : Int := Nat.ofDigitChars 10 e.digits 0
    if Sign.isMinus e.sign then -size else size

/-- The decimal that digits around a point and an exponent denote: all the
digits as one number, and a power of ten lower by one for each digit after
the point. -/
def toDecimal (whole fraction : List Char) (exponent : Option Exponent) : Decimal where
  coefficient := Nat.ofDigitChars 10 (whole ++ fraction) 0
  exponent := Exponent.value exponent - fraction.length

/-- The binary64 number that a numeral denotes, the nearest one where a
decimal denotes none exactly. -/
def value (n : Numeral) : Binary64 :=
  match n.magnitude with
  | .infinity _ => .infinity (Sign.isMinus n.sign)
  | .nan _ => .nan
  | .decimal whole fraction exponent =>
    (toDecimal whole (fraction.getD []) exponent).toBinary64 (Sign.isMinus n.sign)

end Numeral

/-- The number that a word stands for, if it is a number word. -/
def Binary64.read? (word : String) : Option Binary64 :=
  (Numeral.read? word.toList).map Numeral.value

end Calculator
