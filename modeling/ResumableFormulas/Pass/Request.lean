/-! # Requests

What a host answers when it is read: a value, or a request that has to be resolved before there is
one. Requests are tokens. What a request is about means something to the host only; two requests
about the same subject are the same iff they have the same serial number.
-/
namespace ResumableFormulas

/-- What a request is about. -/
inductive Subject where
  | name (s : String)
  | number (n : Int)
deriving DecidableEq, Repr

/-- A token for something that is not available yet. -/
structure Request where
  subject : Subject
  serial : Nat
deriving DecidableEq, Repr

/-- The answer to a reading. -/
inductive Answer (α : Type) where
  | value (a : α)
  | pending (request : Request)
deriving DecidableEq, Repr

end ResumableFormulas
