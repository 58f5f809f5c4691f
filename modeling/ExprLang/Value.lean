import ExprLang.Number.Text

/-!
# Values

Every expression evaluates to nil, a boolean, a double precision number or a string.
-/

namespace ExprLang

/-- A value of the language. -/
inductive Value where
  | nil
  | bool (value : Bool)
  | number (value : Binary64)
  | string (value : String)
deriving Repr

namespace Value

/-- Nil and false are falsy; all else is truthy, also zero and the empty string. -/
def isTruthy : Value → Bool
  | nil => false
  | bool value => value
  | number _ | string _ => true

/-- The number inside a value that is one. -/
def number? : Value → Option Binary64
  | number value => some value
  | _ => none

/--
Equality of the language. Values of different variants differ. Numbers are equal when their
bits are, so the two zeros differ, and every NaN equals every other one.
-/
def equals : Value → Value → Bool
  | nil, nil => true
  | bool a, bool b => a == b
  | number a, number b => (a.isNaN && b.isNaN) || a.toBits == b.toBits
  | string a, string b => a == b
  | _, _ => false

instance : BEq Value := ⟨equals⟩

/-- The text that `print` shows. -/
def text : Value → String
  | nil => "nil"
  | bool true => "true"
  | bool false => "false"
  | number value => String.ofList (numberChars value)
  | string value => value

/-- The text in listings: a string stands between quotes, all else is shown as printed. -/
def quoted : Value → String
  | string value => "\"" ++ value ++ "\""
  | value => value.text

end Value

end ExprLang
