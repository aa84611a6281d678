/-!
# Doubles

A `Double` is the 64 bits of a floating-point number, and two doubles are equal exactly if their
bits are.  Sums, products and quotients are the machine's.

What is not a number has many representations, and they are kept apart: an operation hands on the
one that it is given, the left one of two, with its quiet bit set, and an operation on numbers that
has no result gives `Double.invalid`.  The machine's own floating-point values do not tell them
apart, which is why the bits are the value here.
-/

namespace CycleAccounting

/-- A double, given by its bits: sign, exponent field and fraction field. -/
structure Double where
  bits : UInt64
  deriving DecidableEq, Repr

namespace Double

/-! ## Kinds of doubles -/

/-- The bit of the sign. -/
def signBit : UInt64 := 0x8000000000000000

/-- The bits of positive infinity, which are those of the exponent field. -/
def infinityBits : UInt64 := 0x7FF0000000000000

/-- The bit that is set in what an operation gives if it is not a number. -/
def quietBit : UInt64 := 0x0008000000000000

/-- The bits without the sign. -/
def magnitude (x : Double) : UInt64 := x.bits &&& ~~~signBit

/-- Whether the double is not a number. -/
def isNaN (x : Double) : Bool := infinityBits < x.magnitude

/-- Whether the double is a number and not infinite. -/
def isFinite (x : Double) : Bool := x.magnitude < infinityBits

/-- Whether the double is a zero of either sign. -/
def isZero (x : Double) : Bool := x.magnitude = 0

/-- An infinity. -/
def infinite (negative : Bool) : Double :=
  ⟨if negative then infinityBits ||| signBit else infinityBits⟩

/-- The double that is written as a word where no number is meant. -/
def nan : Double := ⟨infinityBits ||| quietBit⟩

/-- The result of an operation on numbers that has none. -/
def invalid : Double := ⟨infinityBits ||| quietBit ||| signBit⟩

/-! ## Arithmetic -/

/-- The double as a floating-point value of the machine. -/
def toFloat (x : Double) : Float := Float.ofBits x.bits

/-- The double of a result of the machine. -/
def ofFloat (x : Float) : Double := if x.isNaN then invalid else ⟨x.toBits⟩

/-- What an operation makes of an operand that is not a number. -/
def quiet (x : Double) : Double := ⟨x.bits ||| quietBit⟩

/-- Applies an operation of the machine. -/
def arithmetic (op : Float → Float → Float) (x y : Double) : Double :=
  if x.isNaN then x.quiet
  else if y.isNaN then y.quiet
  else ofFloat (op x.toFloat y.toFloat)

instance : Zero Double := ⟨⟨0⟩⟩

instance : Add Double := ⟨arithmetic (· + ·)⟩

instance : Sub Double := ⟨arithmetic (· - ·)⟩

instance : Mul Double := ⟨arithmetic (· * ·)⟩

instance : Div Double := ⟨arithmetic (· / ·)⟩

/-- The double of the other sign. -/
def negate (x : Double) : Double := ⟨x.bits ^^^ signBit⟩

end Double

end CycleAccounting
