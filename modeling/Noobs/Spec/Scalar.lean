import Noobs.Spec.Boot
import Noobs.Spec.Parse
import Mathlib.Data.Rat.Floor

/-!
# What JSON's scalars are in a `QVariant`

`QJson::Parser` makes 64-bit integers of JSON's integers, and doubles of its other numbers.
Whether Qt 4's `canConvert` lets them through depends on their type alone; `value` then
makes of them what it can.

A double is the rational number it holds.
-/

namespace Noobs

inductive Scalar where
  | null
  | bool (b : Bool)
  /-- `qlonglong` or `qulonglong` -/
  | long (n : ℤ)
  | double (q : ℚ)
  /-- `QString` -/
  | string (t : Text)
  deriving DecidableEq

namespace Scalar

/-- `QString::toLongLong`: 0 if the text is no number or out of range. -/
def toLongLong (text : Text) : ℤ :=
  ((integer text).filter fun n => decide (-2 ^ 63 ≤ n ∧ n < 2 ^ 63)).getD 0

/-- `qRound64` -/
def qRound64 (q : ℚ) : ℤ := ⌊q + 1 / 2⌋

/-- `int`: what is converted by way of 64 bits is cut off to 32. -/
def toInt : Scalar → Option ℤ
  | null => none
  | bool b => some (if b then 1 else 0)
  | long n => some (int32 n)
  | double q => some (int32 (qRound64 q))
  | string t => some (int32 (toLongLong t))

/-- `bool` -/
def toBool : Scalar → Option Bool
  | null => none
  | bool b => some b
  | long n => some (decide (n ≠ 0))
  | double q => some (decide (q ≠ 0))
  | string t => some (decide (t ≠ []) && t != "0".toList && !equalsInsensitive t "false".toList)

/-- `QString`, given how a double is written. -/
def toText (shown : ℚ → Text) : Scalar → Option Text
  | null => none
  | bool b => some (if b then "true".toList else "false".toList)
  | long n => some (number n)
  | double q => some (shown q)
  | string t => some t

/-- `QStringList` -/
def toTexts : Scalar → Option (List Text)
  | string t => some [t]
  | _ => none

end Scalar

/-- JSON as `QJson` and Qt 4 read it. -/
def qt4 (parse : Text → Option (Variant Scalar)) (shown : ℚ → Text) : Json Scalar where
  parse := parse
  toText := Scalar.toText shown
  toBytes := Scalar.toText shown
  toTexts := Scalar.toTexts
  toInt := Scalar.toInt
  toBool := Scalar.toBool

end Noobs
