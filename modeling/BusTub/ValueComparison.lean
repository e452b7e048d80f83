import BusTub.UndoLog
import Mathlib.Algebra.Order.Field.Rat

/-!
How `type/*_type.cpp` compares two values: which types `CheckComparable` lets
through, what is cast to what, and the three answers of a comparison, `none` for
`CmpNull`. A comparison that does not come back, because a cast throws or an
assertion fails, is `none` once more outside of that. DECIMAL values are numbers
that a double holds; a negative zero is zero here.
-/

namespace BusTub

inductive ComparisonType where
  | equal
  | notEqual
  | lessThan
  | lessThanOrEqual
  | greaterThan
  | greaterThanOrEqual
  deriving DecidableEq

def ComparisonType.admits : ComparisonType → Option Ordering → Bool
  | .equal, order => order = some .eq
  | .notEqual, order => order ≠ some .eq
  | .lessThan, order => order = some .lt
  | .lessThanOrEqual, order => order = some .lt || order = some .eq
  | .greaterThan, order => order = some .gt
  | .greaterThanOrEqual, order => order = some .gt || order = some .eq

def orderIntegers (left right : Int) : Ordering := if left < right then .lt
    else if left = right then .eq else .gt

def orderDecimals (left right : Rat) : Ordering := if left < right then .lt
    else if left = right then .eq else .gt

def compareStrings : List UInt8 → List UInt8 → Ordering
  | [], [] => .eq
  | [], _ :: _ => .lt
  | _ :: _, [] => .gt
  | first :: left, second :: right =>
      if first < second then .lt else if first = second then compareStrings left right else .gt

@[simp] theorem order_integers_eq {left right : Int} : orderIntegers left right = .eq ↔
    left = right := by
  grind [orderIntegers]

@[simp] theorem order_decimals_eq {left right : Rat} : orderDecimals left right = .eq ↔
    left = right := by
  unfold orderDecimals
  by_cases less : left < right
  · simp [less, ne_of_lt less]
  · by_cases equal : left = right <;> simp [less, equal]

@[simp] theorem compare_strings_eq {left right : List UInt8} : compareStrings left right = .eq ↔
    left = right := by
  induction left generalizing right with
  | nil => cases right <;> simp [compareStrings]
  | cons first left ih =>
      cases right with
      | nil => simp [compareStrings]
      | cons second right =>
          by_cases less : first < second
          · simp [compareStrings, less, UInt8.ne_of_lt less]
          · by_cases equal : first = second <;> simp [compareStrings, less, equal, ih]

/-! ### Doubles -/

def powerOfTwo : Int → Rat
  | .ofNat exponent => mkRat (1 <<< exponent : Nat) 1
  | .negSucc exponent => mkRat 1 (1 <<< (exponent + 1))

def binaryExponent (number : Rat) : Int :=
  let guess := (number.num.natAbs.log2 : Int) - number.den.log2
  if powerOfTwo guess ≤ number then guess else guess - 1

def roundHalfEven (number : Rat) : Int :=
  let down := number.floor
  let rest := number - mkRat down 1
  if rest < mkRat 1 2 then down
  else if mkRat 1 2 < rest then down + 1
  else if down % 2 = 0 then down else down + 1

def doubleSpacing (number : Rat) :
    Rat := powerOfTwo (max (binaryExponent (mkRat number.num.natAbs number.den)) (-1022) - 52)

def nearestDouble (number : Rat) : Rat :=
  if number = 0 then 0
  else mkRat (roundHalfEven (number / doubleSpacing number)) 1 * doubleSpacing number

def toDouble (number : Int) : Rat := nearestDouble (mkRat number 1)

/-! ### From text -/

def isSpace (byte : UInt8) : Bool := byte = 32 || (9 ≤ byte && byte ≤ 13)

def toLower (byte : UInt8) : UInt8 := if 65 ≤ byte && byte ≤ 90 then byte + 32 else byte

def ascii (text : List Char) : List UInt8 := text.map Char.toUInt8

def digitValue (base : Nat) (byte : UInt8) : Option Nat :=
  let value := if 48 ≤ byte && byte ≤ 57 then some (byte.toNat - 48)
    else if 97 ≤ toLower byte && toLower byte ≤ 122 then some ((toLower byte).toNat - 87) else none
  value.filter fun digit => digit < base

def readDigits (base : Nat) : List UInt8 → Nat → Nat → (Nat × Nat) × List UInt8
  | [], number, count => ((number, count), [])
  | byte :: rest, number, count =>
      match digitValue base byte with
      | none => ((number, count), byte :: rest)
      | some digit => readDigits base rest (number * base + digit) (count + 1)

def readSign : List UInt8 → Bool × List UInt8
  | [] => (false, [])
  | byte :: rest =>
      if byte = 45 then (true, rest) else if byte = 43 then (false, rest) else (false, byte :: rest)

def withSign (negative : Bool) (number : Int) : Int := if negative then -number else number

def stoll (text : List UInt8) : Option Int :=
  let (negative, text) := readSign (text.dropWhile isSpace)
  let ((number, count), _) := readDigits 10 text 0 0
  let value := withSign negative number
  if count = 0 then none else if -(1 <<< 63 : Nat) ≤ value ∧ value < (1 <<< 63 : Nat) then
    some value else none

def stoi (text : List UInt8) : Option Int :=
  (stoll text).filter fun value => -(1 <<< 31 : Nat) ≤ value && value < (1 <<< 31 : Nat)

def readExponent (mark : UInt8) : List UInt8 → Int
  | [] => 0
  | byte :: rest =>
      if toLower byte = mark then
        let (negative, rest) := readSign rest
        withSign negative (readDigits 10 rest 0 0).1.1
      else 0

def readNumber (base scale : Nat) (mark : UInt8) (text : List UInt8) : Option Rat :=
  let ((whole, count), text) := readDigits base text 0 0
  let ((number, places), text) :=
    match text with
    | 46 :: rest =>
        let ((number, places), rest) := readDigits base rest whole 0
        ((number, places), rest)
    | _ => ((whole, 0), text)
  let exponent := readExponent mark text
  if count + places = 0 then none
  else
    some (mkRat (number * scale.pow exponent.toNat) (base.pow places * scale.pow (-exponent).toNat))

/-- `std::stod`, `some none` when the text says that it is no number. An infinity
is out of the range that the cast checks, a result that leaves the range of the
normal doubles with a loss of digits is an error of its own. -/
def stod (text : List UInt8) : Option (Option Rat) :=
  let (negative, text) := readSign (text.dropWhile isSpace)
  let lower := text.map toLower
  if lower.take 3 = ascii ['n', 'a', 'n'] then some none
  else if lower.take 3 = ascii ['i', 'n', 'f'] then none
  else
    let hexadecimal := if lower.take 2 = ascii ['0', 'x'] then readNumber 16 2 112 (text.drop 2)
      else none
    match hexadecimal <|> readNumber 10 10 101 text with
    | none => none
    | some size =>
        let number := nearestDouble size
        if powerOfTwo 1024 ≤ number ∨ (size ≠ 0 ∧ number < powerOfTwo (-1022) ∧ number ≠ size) then
          none
        else some (some (if negative then -number else number))

/-! ### To text -/

def decimalDigits (number : Nat) : List UInt8 := ascii (Nat.toDigits 10 number)

def paddedDigits (width number : Nat) : List UInt8 :=
  let digits := decimalDigits number
  List.replicate (width - digits.length) 48 ++ digits

def integerToString (number : Int) : List UInt8 :=
  if number < 0 then 45 :: decimalDigits number.natAbs else decimalDigits number.natAbs

def decimalToString (number : Rat) : List UInt8 :=
  let millionths := (roundHalfEven (number * mkRat 1000000 1)).natAbs
  let digits := decimalDigits (millionths / 1000000) ++ 46 :: paddedDigits 6 (millionths % 1000000)
  if number < 0 then 45 :: digits else digits

def timestampToString (number : Int) : List UInt8 :=
  let tm := number.toNat
  let micro := tm % 1000000
  let tm := tm / 1000000
  let second := tm % 100000
  let tm := tm / 100000
  let year := tm % 10000
  let tm := tm / 10000
  let tz := (tm % 27 : Int) - 12
  let tm := tm / 27
  let day := tm % 32
  let month := tm / 32
  paddedDigits 4 year ++ 45 :: paddedDigits 2 month ++ 45 :: paddedDigits 2 day ++ 32 ::
    paddedDigits 2 (second / 60 / 60 % 24) ++ 58 :: paddedDigits 2 (second / 60 % 60) ++ 58 ::
    paddedDigits 2 (second % 60) ++ 46 :: paddedDigits 6 micro ++
    (if 0 ≤ tz then 43 else 45) :: paddedDigits 2 tz.natAbs

/-! ### Casts -/

def TypeId.isInteger : TypeId → Bool
  | .tinyint | .smallint | .integer | .bigint => true
  | _ => false

def castToVarchar : TypeId → Datum → Option (List UInt8)
  | .varchar, .text text => some text
  | .boolean, .number number =>
    some (if number = 1 then ascii ['t', 'r', 'u', 'e'] else ascii ['f', 'a', 'l', 's', 'e'])
  | .timestamp, .number number => some (timestampToString number)
  | .decimal, .decimal number => some (decimalToString number)
  | .tinyint, .number number | .smallint, .number number | .integer, .number number
  | .bigint, .number number =>
      some (integerToString number)
  | _, _ => none

/-- `VarlenType::CastAs` to an integer type. The least number of each type is NULL. -/
def castToInteger : TypeId → List UInt8 → Option Int
  | .tinyint, text => ((stoi text).map fun number => number.bmod 256).filter fun number =>
    -128 < number
  | .smallint, text =>
      ((stoi text).map fun number => number.bmod 65536).filter fun number => -32768 < number
  | .integer, text => (stoi text).filter fun number => -(1 <<< 31 : Nat) < number
  | .bigint, text => (stoll text).filter fun number => -(1 <<< 63 : Nat) < number
  | _, _ => none

def castToBoolean (text : List UInt8) : Option Int :=
  let text := text.map toLower
  if text = ascii ['t', 'r', 'u', 'e'] || text = ascii ['1'] || text = ascii ['t'] then some 1
  else if text = ascii ['f', 'a', 'l', 's', 'e'] || text = ascii ['0'] || text = ascii ['f'] then
    some 0
  else none

def BUSTUB_DECIMAL_MIN : Rat := -(powerOfTwo 128 - powerOfTwo 104)

def castToDecimal (text : List UInt8) : Option (Option Rat) :=
  (stod text).filter fun number => number.all fun number => BUSTUB_DECIMAL_MIN ≤ number

/-! ### Comparisons -/

def TypeId.checkComparable : TypeId → TypeId → Bool
  | .boolean, right => right = .boolean || right = .varchar
  | .varchar, _ => true
  | .timestamp, _ | .vector, _ => false
  | _, right => right.isInteger || right = .decimal || right = .varchar

/-- How two values that are not NULL are ordered, by the type of the left one. -/
def orderData (leftType : TypeId) (left : Datum) (rightType : TypeId) (right : Datum) :
    Option (Option Ordering) :=
  match left, right with
  | .number first, .number second =>
      if leftType.isInteger && rightType.isInteger || leftType =
        .boolean && rightType = .boolean then
        some (some (orderIntegers first second))
      else none
  | .number first, .decimal second =>
      if leftType.isInteger && rightType = .decimal then
        some (some (orderDecimals (toDouble first) second)) else none
  | .number first, .text second =>
      if rightType ≠ .varchar then none
      else if leftType = .boolean then (castToBoolean second).map fun second =>
        some (orderIntegers first second)
      else (castToInteger leftType second).map fun second => some (orderIntegers first second)
  | .decimal first, .number second =>
      if leftType = .decimal && rightType.isInteger then
        some (some (orderDecimals first (toDouble second))) else none
  | .decimal first, .decimal second =>
      if leftType = .decimal && rightType = .decimal then
        some (some (orderDecimals first second)) else none
  | .decimal first, .text second =>
      if leftType = .decimal && rightType = .varchar then
        (castToDecimal second).map fun second => second.map (orderDecimals first)
      else none
  | .text first, second =>
      if leftType = .varchar then (castToVarchar rightType second).map fun second =>
        some (compareStrings first second)
      else none

namespace Value

def compare (comparison : ComparisonType) (left right : Value) : Option (Option Bool) :=
  if left.typeId.checkComparable right.typeId then
    match left.datum, right.datum with
    | some first, some second =>
        (orderData left.typeId first right.typeId second).map fun order =>
          some (comparison.admits order)
    | _, _ => some none
  else none

theorem compare_brings {comparison : ComparisonType} {left right : Value} {answer : Bool}
    (compared : left.compare comparison right = some (some answer)) :
    ∃ first second, left.datum = some first ∧ right.datum = some second ∧
      ∃ order, orderData left.typeId first right.typeId second = some order ∧
      comparison.admits order = answer := by
  unfold compare at compared
  split at compared
  · cases leftDatum : left.datum with
    | none => simp [leftDatum] at compared
    | some first =>
        cases rightDatum : right.datum with
        | none => simp [leftDatum, rightDatum] at compared
        | some second => simpa [leftDatum, rightDatum] using compared
  · simp at compared

theorem order_same_type {typeId : TypeId} {first second : Datum}
    (equal : orderData typeId first typeId second = some (some .eq)) : first = second := by
  cases first with
  | number number =>
      cases second with
      | number other =>
          have same := by simpa [orderData] using equal
          rw [same.2]
      | decimal other => cases typeId <;> simp [orderData, TypeId.isInteger] at equal
      | text other => cases typeId <;> simp [orderData, castToInteger] at equal
  | decimal number =>
      cases second with
      | number other => cases typeId <;> simp [orderData, TypeId.isInteger] at equal
      | decimal other =>
          have same := by simpa [orderData] using equal
          rw [same.2]
      | text other => cases typeId <;> simp [orderData] at equal
  | text text =>
      cases typeId <;> cases second <;> simp_all [orderData, castToVarchar]

theorem equal_same_type {left right : Value} (sameType : left.typeId = right.typeId)
    (equal : left.compare .equal right = some (some true)) : left = right := by
  obtain ⟨first, second, front, back, order, ordered, admits⟩ := compare_brings equal
  obtain rfl : order = some .eq := by simpa [ComparisonType.admits] using admits
  obtain ⟨leftType, leftDatum⟩ := left
  obtain ⟨rightType, rightDatum⟩ := right
  obtain rfl : leftType = rightType := sameType
  obtain rfl : leftDatum = some first := front
  obtain rfl : rightDatum = some second := back
  rw [order_same_type ordered]

theorem order_self {typeId : TypeId} {datum : Datum} {order : Option Ordering}
    (ordered : orderData typeId datum typeId datum = some order) : order = some .eq := by
  cases datum with
  | number number => grind [orderData, order_integers_eq]
  | decimal number => grind [orderData, order_decimals_eq]
  | text text =>
      cases typeId with
      | varchar =>
          obtain rfl : some (compareStrings text text) = order := by
            simpa [orderData, castToVarchar] using ordered
          rw [compare_strings_eq.mpr rfl]
      | _ => simp [orderData] at ordered

theorem equal_self {value : Value} {datum : Datum} (brings : value.datum = some datum)
    {answer : Option Bool}
    (compared : value.compare .equal value = some answer) : answer = some true := by
  unfold compare at compared
  split at compared
  · rw [brings] at compared
    obtain ⟨order, ordered, rfl⟩ := Option.map_eq_some_iff.mp compared
    rw [order_self ordered]
    rfl
  · simp at compared

end Value

end BusTub
