/-
# Forms

What is typed at the shell is a form: a call of a named command with forms as its arguments, a
number, a text or a symbol.  Only calls can be run; the other forms are what commands are told about.
-/

namespace TaggedText.Shell

/-- A form as the shell reads it. -/
inductive Form where
  | call (name : List Char) (arguments : List Form)
  | number (n : Nat)
  | text (content : List Char)
  | symbol (name : List Char)

end TaggedText.Shell
