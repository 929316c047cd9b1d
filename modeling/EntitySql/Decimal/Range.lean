/-! The whole numbers that words of 64 bits hold. -/

namespace EntitySql

def fitsSigned (number : Int) : Bool :=
  Int64.minValue.toInt ≤ number && number ≤ Int64.maxValue.toInt

def fitsUnsigned (number : Int) : Bool :=
  0 ≤ number && number < UInt64.size

end EntitySql
