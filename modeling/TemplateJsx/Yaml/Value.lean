import TemplateJsx.Number.Shortest
import TemplateJsx.Yaml.Document

/-!
# What scalars mean

A scalar without quotes is read as nothing, a truth value, a whole number or a
number with a fraction, in this order, and as its text if it is none of them.
Digits after a leading zero are no number.  A tag can ask for one of these
readings whatever the style.
-/

namespace TemplateJsx.Yaml

/-- The meaning of a scalar: nothing, a truth value, a number or a text. -/
inductive Value where
  | nothing
  | truth (b : Bool)
  | whole (n : Int)
  /-- A number with a fraction, with its sign. -/
  | fraction (negative : Bool) (x : Binary)
  | infinite (negative : Bool)
  | notANumber
  | text (t : Text)
  deriving DecidableEq, Repr

def isNothing (t : Text) : Bool :=
  ["", "null", "Null", "NULL", "~"].any (·.toList = t)

def truth? (t : Text) : Option Bool :=
  if ["true", "True", "TRUE"].any (·.toList = t) then some true
  else if ["false", "False", "FALSE"].any (·.toList = t) then some false
  else none

/-- A number in a base of at most sixteen, of at least one digit. -/
def digits? (base : Nat) (t : Text) : Option Nat := do
  if t.isEmpty then none
  let values ← t.mapM hexValue?
  if values.all (· < base) then
    some (values.foldl (fun n v => base * n + v) 0) else none

/-- Digits after a leading zero, with or without a sign. -/
def hasLeadingZero (t : Text) : Bool :=
  let t := match t with
    | '-' :: rest | '+' :: rest => rest
    | _ => t
  match t with
  | '0' :: d :: rest => (d :: rest).all Char.isDigit
  | _ => false

/-- A whole number without a sign, in base ten or marked as being in another
base. -/
def magnitude? (t : Text) : Option Nat :=
  match t with
  | '0' :: 'x' :: rest => digits? 16 rest
  | '0' :: 'o' :: rest => digits? 8 rest
  | '0' :: 'b' :: rest => digits? 2 rest
  | _ => digits? 10 t

/-- A whole number of at most 128 bits. -/
def whole? (t : Text) : Option Int :=
  if hasLeadingZero t then none
  else
    match t with
    | '-' :: rest =>
      (magnitude? rest).bind fun n =>
        if n ≤ Nat.pow 2 127 then some (-(n : Int)) else none
    | '+' :: rest =>
      (magnitude? rest).bind fun n =>
        if n < Nat.pow 2 128 then some (n : Int) else none
    | _ =>
      (magnitude? t).bind fun n =>
        if n < Nat.pow 2 128 then some (n : Int) else none

def exponent? : Text → Option Int
  | '-' :: t => (digits? 10 t).map fun n => -(n : Int)
  | '+' :: t => (digits? 10 t).map (↑·)
  | t => (digits? 10 t).map (↑·)

/-- A decimal number: digits with perhaps a point among, before or after them,
and perhaps an exponent. -/
def decimal? (t : Text) : Option Decimal := do
  let (front, t) := t.span Char.isDigit
  let (back, t) := match t with
    | '.' :: t => t.span Char.isDigit
    | _ => ([], t)
  let digits ← digits? 10 (front ++ back)
  let exponent ← match t with
    | [] => some 0
    | c :: t => if c == 'e' || c == 'E' then exponent? t else none
  return ⟨digits, exponent - back.length⟩

def finite? (negative : Bool) (t : Text) : Option Value := do
  let d ← decimal? t
  let x ← Binary.ofDecimal? d.digits d.exponent
  return .fraction negative x

/-- A number with a fraction, or one of the words for what is no finite
number. -/
def fraction? (t : Text) : Option Value :=
  let isInfinity (u : Text) : Bool :=
    [".inf", ".Inf", ".INF"].any (·.toList = u)
  if [".nan", ".NaN", ".NAN"].any (·.toList = t) then some .notANumber
  else
    match t with
    | '-' :: rest =>
      if isInfinity rest then some (.infinite true) else finite? true rest
    | '+' :: rest =>
      if isInfinity rest then some (.infinite false) else finite? false rest
    | _ => if isInfinity t then some (.infinite false) else finite? false t

/-- The meaning of a plain scalar: the first sort of value, of nothing, truth
values and numbers, whose spelling fits, or else its text. -/
def plainValue (t : Text) : Value :=
  if isNothing t then .nothing
  else
    match truth? t with
    | some b => .truth b
    | none =>
      match whole? t with
      | some n => .whole n
      | none =>
        if hasLeadingZero t then .text t else (fraction? t).getD (.text t)

def kindTag (kind : String) : Text := ("tag:yaml.org,2002:" ++ kind).toList

/-- The meaning of a scalar, or what its tag asks for in vain. -/
def Scalar.value? (s : Scalar) : Except String Value :=
  let asked (kind : String) (value : Option Value) : Except String Value :=
    match value with
    | some v => .ok v
    | none => .error kind
  match s.tag with
  | none => .ok (if s.style = .plain then plainValue s.value else .text s.value)
  | some tag =>
    if tag = kindTag "bool" then asked "a boolean" ((truth? s.value).map .truth)
    else if tag = kindTag "int" then
      asked "an integer" ((whole? s.value).map .whole)
    else if tag = kindTag "float" then asked "a float" (fraction? s.value)
    else if tag = kindTag "null" then
      asked "null" (if isNothing s.value && !s.value.isEmpty then
        some .nothing else none)
    else if tag.head? = some '!' && s.style = .plain then
      .ok (plainValue s.value)
    else .ok (.text s.value)

/-- The truth value of a scalar, which is plain or a block of lines with the tag
for it. -/
def Scalar.truth? (s : Scalar) : Option Bool :=
  if s.style = .plain || (s.style = .literal &&
    s.tag = some (kindTag "bool")) then Yaml.truth? s.value
  else none

end TemplateJsx.Yaml
