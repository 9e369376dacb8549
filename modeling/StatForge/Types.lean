/-!
# Shared types: strings, doubles, errors

The types of `types/definitions.hpp`, `types/collection_operation.h` and `error/internal/error.hpp`,
and two types of the model itself:

* `Double` — the operations on `double` that the program uses, over an abstract type of values.
* `Abort` — the ways in which a call ends the process instead of returning.
-/

namespace StatForge

/-- `std::string` and `std::string_view`: the sequence of their characters. -/
abbrev StdString := List Char

abbrev NodeId := StdString

/-- The operations on `double` that the program uses.  `ofNat` is the value of an integral literal
or of a converted size; `fromChars` is `std::from_chars` on a digit string, `none` when it reports
`result_out_of_range`. -/
class Double (D : Type) where
  ofNat : Nat → D
  add : D → D → D
  sub : D → D → D
  mul : D → D → D
  div : D → D → D
  pow : D → D → D
  neg : D → D
  eq : D → D → Bool
  lt : D → D → Bool
  le : D → D → Bool
  isNan : D → Bool
  fromChars : StdString → Option D

namespace Double

variable {D : Type} [Double D]

/-- The literal `0.0`. -/
def zero : D := ofNat 0

/-- The literal `1.0`. -/
def one : D := ofNat 1

end Double

/-- `SF_ErrorCode`, as far as the modelled calls return it. -/
inductive ErrorCode
  | invalidDsl
  | nodeAlreadyExists
  | selfReference
  | dependencyLoop
  | dependencyDoesntExist
  | duplicateDependency
  | dependentFormulaNode
  | nodeNotFound
  | nodeTypeMismatch
  | invalidCollectionOperation
  deriving DecidableEq, Repr

/-- A source position of the formula text. -/
structure Span where
  line : Nat := 1
  column : Nat := 1
  deriving DecidableEq, Repr

structure ErrorInfo where
  errorCode : ErrorCode
  message : String
  span : Option Span
  deriving DecidableEq, Repr

def buildErrorInfo (code : ErrorCode) (msg : String) (span : Option Span := none) : ErrorInfo :=
  ⟨code, msg, span⟩

/-- `std::expected<T, ErrorInfo>`. -/
abbrev Result (α : Type) := Except ErrorInfo α

abbrev VoidResult := Result Unit

/-- A call that does not return.  `unreachable` is `statforge::unreachable()`, which terminates the
process; `missingNode` is the assertion that a looked-up map entry exists, `assertion` any other
one; `badFunctionCall` is the exception of an empty `std::function`; `undefined` is behaviour the
language leaves undefined, such as an index past the end of a vector; `nontermination` is a loop or
recursion that exceeds the bound the model gives it. -/
inductive Abort
  | unreachable
  | missingNode
  | assertion
  | badFunctionCall
  | undefined
  | nontermination
  deriving DecidableEq, Repr

/-- `SF_CollectionOperation`; `other` is a value of the underlying integer type without an
enumerator. -/
inductive CollectionOperation
  | sum
  | product
  | median
  | average
  | min
  | max
  | count
  | other (code : Int)
  deriving DecidableEq, Repr

/-- `static_cast<int>(operation)`. -/
def CollectionOperation.toInt : CollectionOperation → Int
  | .sum => 0
  | .product => 1
  | .median => 2
  | .average => 3
  | .min => 4
  | .max => 5
  | .count => 6
  | .other code => code

/-- A text quoted in an error message. -/
def quoted (s : StdString) : String := "\"" ++ String.ofList s ++ "\""

end StatForge
