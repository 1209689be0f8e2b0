import ResumableFormulas.Session.Basic
import ResumableFormulas.Value.Inspection

/-! # Sessions for inspection

The texts that show requests and stages to a programmer.
-/
namespace ResumableFormulas

/-- A request shows as a token without content. -/
def Request.inspect (_ : Request) : String := Text.anonymous "Pending"

def Stage.inspect : Stage → String
  | idle => "Eval"
  | waiting pending =>
    "Yield \x7b pending: [" ++ ", ".intercalate (pending.map Request.inspect) ++ "] \x7d"
  | finished value => Text.wrapped "Return" value.inspect

end ResumableFormulas
