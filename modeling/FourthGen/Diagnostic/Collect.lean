import FourthGen.Diagnostic.Basic
import FourthGen.Lint.Rules
import FourthGen.Parser.Program

set_option autoImplicit false

/-! # All diagnostics of a text -/

namespace FourthGen

/-- The diagnostics of a text: first its syntax errors, then what the line rules find. -/
def diagnose (text : String) : List Diagnostic :=
  (parse text).errors.map Diagnostic.ofSyntaxError ++ lint text

end FourthGen
