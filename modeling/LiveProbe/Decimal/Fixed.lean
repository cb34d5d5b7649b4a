import LiveProbe.Decimal.Shortest

/-!
# Text of floating-point values

Values always show that they are no integers: a whole number below `10 ^ 16`
has one decimal, every other finite number has its shortest digits in positional
notation.
-/

namespace LiveProbe
namespace Decimal

/-- The text of a floating-point value. -/
def valueText (x : Float) : String :=
  match Binary.ofFloat x with
  | .nan => "nan"
  | .infinite negative => if negative then "-inf" else "inf"
  | .finite negative m =>
    let sign := if negative then "-" else ""
    if m.isWhole && m.truncate < place 10 16 then sign ++ toString m.truncate ++ ".0"
    else sign ++ m.shortest.positional

end Decimal
end LiveProbe
