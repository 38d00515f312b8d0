/-!
Why an operation on numbers has no result.
-/

namespace LayeredDiagram

inductive NumberFault where
  -- A whole number is beyond all real ones.
  | wholeTooLarge
  -- A quotient of whole numbers is beyond all real ones.
  | quotientTooLarge
  -- Infinity has no neighbour among the whole numbers.
  | infiniteToWhole
  -- Neither has a result that is no number.
  | undefinedToWhole
  -- An empty list of numbers stands where one number is needed.
  | listForNumber
  deriving DecidableEq

def NumberFault.message : NumberFault → String
  | wholeTooLarge => "int too large to convert to float"
  | quotientTooLarge => "integer division result too large for a float"
  | infiniteToWhole => "cannot convert float infinity to integer"
  | undefinedToWhole => "cannot convert float NaN to integer"
  | listForNumber => "unsupported operand type(s) for +: 'float' and 'list'"

end LayeredDiagram
