import CooperativeLisp.Value.Basic
import CooperativeLisp.Decimal.Notation
import CooperativeLisp.Text.Quoted

/-!
Values as text: the plain form that programs and messages see, and the tagged form of listings,
which names the kind of every value.
-/

namespace CooperativeLisp

/-- A callable shows its kind and name; all closures look alike. -/
def Callable.display : Callable → String
  | .native n => "#<native:" ++ n.name ++ ">"
  | .form f => "#<special-form:" ++ f.name ++ ">"
  | .expander r => "#<macro:" ++ r.name ++ ">"
  | .closure _ => "#<closure>"

namespace Value

mutual

/-- Appends the plain text of a value. -/
def appendTo (shown : String) : Value → String
  | number x => shown ++ Number.text x
  | symbol name => shown ++ name
  | nil => shown ++ "nil"
  | truth => shown ++ "t"
  | list [] => shown ++ "()"
  | list (v :: vs) => appendAll (v.appendTo (shown ++ "(")) vs ++ ")"
  | callable c => shown ++ c.display

/-- Appends the plain texts of values, each behind a blank. -/
def appendAll (shown : String) : List Value → String
  | [] => shown
  | v :: vs => appendAll (v.appendTo (shown ++ " ")) vs

end

/-- The plain text of a value. -/
def display (v : Value) : String :=
  v.appendTo ""

mutual

/-- Appends the tagged text of a value. -/
def appendTagged (shown : String) : Value → String
  | number x => shown ++ "Number(" ++ Number.text x ++ ")"
  | symbol name => shown ++ "Symbol(" ++ name ++ ")"
  | nil => shown ++ "Nil"
  | truth => shown ++ "True"
  | list [] => shown ++ "List()"
  | list (v :: vs) => appendAllTagged (v.appendTagged (shown ++ "List(")) vs ++ ")"
  | callable c => shown ++ "Callable(" ++ c.display ++ ")"

/-- Appends the tagged texts of values, each behind a comma. -/
def appendAllTagged (shown : String) : List Value → String
  | [] => shown
  | v :: vs => appendAllTagged (v.appendTagged (shown ++ ", ")) vs

end

/-- The tagged text of a value. -/
def tagged (v : Value) : String :=
  v.appendTagged ""

/-- The plain texts of values with a blank between any two. -/
def displayAll (vs : List Value) : String :=
  " ".intercalate (vs.map display)

end Value

/-- The tagged text of a closure: parameters, rest parameter and body. -/
def Closure.tagged (c : Closure) : String :=
  let rest := match c.rest with
    | .ignored => "None"
    | .discarded => "Some(None)"
    | .named name => "Some(Some(" ++ Text.quoted name ++ "))"
  "Closure(params=[" ++ ", ".intercalate (c.params.map Text.quoted) ++ "], rest=" ++ rest ++
    ", body=" ++ c.body.tagged ++ ")"

end CooperativeLisp
