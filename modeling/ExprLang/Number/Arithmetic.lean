import ExprLang.Number.Binary64

/-!
# Arithmetic of doubles

The four operations of arithmetic and the comparisons are those of the machine. They depend on the
bits of their operands, but for what is NaN: with a NaN operand a result is NaN, and a comparison is
false. Which one of the many NaN a result is, is not specified by anything. So it is left open here:
a rule chooses it. Negation is no arithmetic; it flips the sign bit, also of a NaN.
-/

namespace ExprLang

/-- An operation of arithmetic on two numbers. -/
inductive Arithmetic where
  | add
  | sub
  | mul
  | div
deriving DecidableEq, Repr

/-- A choice of the NaN that an operation gives where its result is NaN. -/
class NaNRule where
  result : Arithmetic → Binary64 → Binary64 → {x : Binary64 // x.isNaN = true}

/-- The rule of a machine on which every NaN that is computed has the same bits. -/
instance (priority := low) NaNRule.canonical : NaNRule where
  result _ _ _ := ⟨.ofBits 0x7FF8000000000000, by decide⟩

namespace Binary64

/-- The number as the machine has it, where all NaN are one. -/
def toFloat (x : Binary64) : Float := Float.ofBits x.toBits

/-- The bits of a number of the machine. -/
def ofFloat (x : Float) : Binary64 := ofBits x.toBits

instance : Coe Float Binary64 := ⟨ofFloat⟩

/-- A literal is the double nearest to it. -/
instance : OfScientific Binary64 :=
  ⟨fun digits negative exponent => ofFloat (OfScientific.ofScientific digits negative exponent)⟩

end Binary64

/-- An operation on numbers of the machine. -/
def Arithmetic.onFloats : Arithmetic → Float → Float → Float
  | add, x, y => x + y
  | sub, x, y => x - y
  | mul, x, y => x * y
  | div, x, y => x / y

/-- An operation on two numbers. If its result is NaN, the rule says which one. -/
def Arithmetic.compute [NaNRule] (operation : Arithmetic) (x y : Binary64) : Binary64 :=
  let result := operation.onFloats x.toFloat y.toFloat
  if result.isNaN then NaNRule.result operation x y else result

namespace Binary64

instance [NaNRule] : Add Binary64 := ⟨Arithmetic.add.compute⟩

instance [NaNRule] : Sub Binary64 := ⟨Arithmetic.sub.compute⟩

instance [NaNRule] : Mul Binary64 := ⟨Arithmetic.mul.compute⟩

instance [NaNRule] : Div Binary64 := ⟨Arithmetic.div.compute⟩

instance : Neg Binary64 := ⟨fun x => ofBits (x.toBits ^^^ 0x8000000000000000)⟩

instance : LT Binary64 := ⟨fun x y => x.toFloat < y.toFloat⟩

instance : LE Binary64 := ⟨fun x y => x.toFloat ≤ y.toFloat⟩

instance (x y : Binary64) : Decidable (x < y) :=
  inferInstanceAs (Decidable (x.toFloat < y.toFloat))

instance (x y : Binary64) : Decidable (x ≤ y) :=
  inferInstanceAs (Decidable (x.toFloat ≤ y.toFloat))

end Binary64

end ExprLang
