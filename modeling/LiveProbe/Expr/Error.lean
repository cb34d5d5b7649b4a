/-!
# Faults of expressions

Why an expression cannot be read or evaluated, with the wording, the code and
the advice shown for each cause.
-/

namespace LiveProbe

/-- Causes of failure, from reading a text to evaluating its tree. -/
inductive EvalError
  | unexpectedChar (ch : Char) (position : Nat)
  | unterminatedString (position : Nat)
  | invalidNumber (text : String)
  | unexpectedToken (found expected : String)
  | unexpectedEnd
  | tooDeep (limit : Nat)
  | recursionLimit
  | unknownName (name : String)
  | noAttribute (typeName field : String)
  | keyNotFound (key : String)
  | indexOutOfRange (index : Int) (length : Nat)
  | typeMismatch (op left right : String)
  | notCallable (callee : String)
  | arity (function : String) (expected found : Nat)
  | invalidConversion (function value : String)
  | divisionByZero
  | overflow
  deriving DecidableEq, Repr

namespace EvalError

/-- The wording of a fault. -/
def message : EvalError → String
  | unexpectedChar ch position => s!"unexpected character '{ch}' at {position}"
  | unterminatedString position => s!"unterminated string starting at {position}"
  | invalidNumber text => s!"invalid number '{text}'"
  | unexpectedToken found expected => s!"unexpected token '{found}', expected {expected}"
  | unexpectedEnd => "unexpected end of expression"
  | tooDeep limit => s!"expression nested deeper than {limit} levels"
  | recursionLimit => "maximum recursion depth exceeded in comparison"
  | unknownName name => s!"name '{name}' is not defined"
  | noAttribute typeName field => s!"'{typeName}' object has no attribute '{field}'"
  | keyNotFound key => s!"key not found: {key}"
  | indexOutOfRange index length => s!"index {index} out of range for length {length}"
  | typeMismatch op left right => s!"unsupported operand types for {op}: '{left}' and '{right}'"
  | notCallable callee => s!"'{callee}' is not callable"
  | arity function expected found =>
    s!"{function}() takes {expected} argument(s) but {found} were given"
  | invalidConversion function value => s!"invalid value for {function}(): {value}"
  | divisionByZero => "division by zero"
  | overflow => "integer overflow"

/-- The code under which a fault is reported. -/
def code : EvalError → String
  | unexpectedChar .. => "expr::unexpected_char"
  | unterminatedString .. => "expr::unterminated_string"
  | invalidNumber .. => "expr::invalid_number"
  | unexpectedToken .. => "expr::unexpected_token"
  | unexpectedEnd => "expr::unexpected_end"
  | tooDeep .. => "expr::too_deep"
  | recursionLimit => "expr::recursion_limit"
  | unknownName .. => "expr::unknown_name"
  | noAttribute .. => "expr::no_attribute"
  | keyNotFound .. => "expr::key_not_found"
  | indexOutOfRange .. => "expr::index_out_of_range"
  | typeMismatch .. => "expr::type_mismatch"
  | notCallable .. => "expr::not_callable"
  | arity .. => "expr::arity"
  | invalidConversion .. => "expr::invalid_conversion"
  | divisionByZero => "expr::division_by_zero"
  | overflow => "expr::overflow"

/-- Advice on a fault, where there is any. -/
def help? : EvalError → Option String
  | tooDeep .. => some "Split the expression into several watches."
  | unknownName .. => some "Only locals of the triggering frame are visible to expressions."
  | notCallable .. =>
    some "Only the builtins len, str, int, float, bool and type can be called."
  | _ => none

end EvalError
end LiveProbe
