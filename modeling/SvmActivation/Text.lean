namespace SvmActivation.Text

inductive Radix where
  | binary
  | octal
  | decimal
  | hexadecimal
  deriving DecidableEq, Repr

namespace Radix

def base : Radix → Nat
  | binary => 2
  | octal => 8
  | decimal => 10
  | hexadecimal => 16

def mark : Radix → String
  | binary => "0b"
  | octal => "0o"
  | decimal => ""
  | hexadecimal => "0x"

def digits (radix : Radix) (n : Nat) : List Char :=
  Nat.toDigits radix.base n

end Radix

/-- The digits of a number after at least as many zeros as reach the given width. -/
def padded (width : Nat) (radix : Radix) (n : Nat) : String :=
  String.ofList ((radix.digits n).leftpad width '0')

def hex (n : Nat) : String :=
  Radix.hexadecimal.mark ++ String.ofList (Radix.hexadecimal.digits n)

def hex32 (n : Nat) : String :=
  Radix.hexadecimal.mark ++ padded 8 .hexadecimal n

def truth : Bool → String
  | true => "true"
  | false => "false"

inductive Alignment where
  | left
  | centre
  | right
  deriving DecidableEq, Repr

def Alignment.ofChar? : Char → Option Alignment
  | '<' => some .left
  | '^' => some .centre
  | '>' => some .right
  | _ => none

/-- How a natural number is laid out in a field. -/
structure NumberLayout where
  radix : Radix := .hexadecimal
  uppercase : Bool := false
  plus : Bool := false
  marked : Bool := false
  zeroFilled : Bool := false
  fill : Char := ' '
  alignment : Alignment := .right
  width : Nat := 0
  deriving DecidableEq, Repr

namespace NumberLayout

def lead (layout : NumberLayout) : List Char :=
  (if layout.plus then ['+'] else []) ++ if layout.marked then layout.radix.mark.toList else []

def digits (layout : NumberLayout) (n : Nat) : List Char :=
  if layout.uppercase then (layout.radix.digits n).map Char.toUpper else layout.radix.digits n

def gap (layout : NumberLayout) (n : Nat) : Nat :=
  layout.width - (layout.lead.length + (layout.digits n).length)

/-- Zeros fill the field between the lead and the digits; any other filler goes around both. -/
def chars (layout : NumberLayout) (n : Nat) : List Char :=
  let gap := layout.gap n
  if layout.zeroFilled then
    layout.lead ++ List.replicate gap '0' ++ layout.digits n
  else
    let before := match layout.alignment with
      | .left => 0
      | .centre => gap / 2
      | .right => gap
    List.replicate before layout.fill ++ (layout.lead ++ layout.digits n) ++
      List.replicate (gap - before) layout.fill

def render (layout : NumberLayout) (n : Nat) : String :=
  String.ofList (layout.chars n)

/-- Reads a filler and an alignment; without a filler the field is filled with blanks. -/
def readAlignment (layout : NumberLayout) : List Char → NumberLayout × List Char
  | fill :: sign :: rest =>
    match Alignment.ofChar? sign, Alignment.ofChar? fill with
    | some alignment, _ => ({ layout with fill, alignment }, rest)
    | none, some alignment => ({ layout with alignment }, sign :: rest)
    | none, none => (layout, fill :: sign :: rest)
  | [sign] =>
    match Alignment.ofChar? sign with
    | some alignment => ({ layout with alignment }, [])
    | none => (layout, [sign])
  | [] => (layout, [])

def readMark (mark : Char) : List Char → Bool × List Char
  | c :: rest => if c = mark then (true, rest) else (false, c :: rest)
  | [] => (false, [])

def decimalValue (digits : List Char) : Nat :=
  digits.foldl (fun value c => 10 * value + (c.toNat - '0'.toNat)) 0

def readRadix (layout : NumberLayout) : List Char → Option NumberLayout
  | [] => some { layout with radix := .decimal }
  | ['b'] => some { layout with radix := .binary }
  | ['o'] => some { layout with radix := .octal }
  | ['x'] => some { layout with radix := .hexadecimal }
  | ['X'] => some { layout with radix := .hexadecimal, uppercase := true }
  | _ => none

/-- Reads a style: filler and alignment, plus sign, base mark, zeros, width and base. -/
def parse? (style : List Char) : Option NumberLayout :=
  let (layout, style) := readAlignment {} style
  let (plus, style) := readMark '+' style
  let (marked, style) := readMark '#' style
  let (zeroFilled, style) := readMark '0' style
  let width := decimalValue (style.takeWhile Char.isDigit)
  readRadix { layout with plus, marked, zeroFilled, width } (style.dropWhile Char.isDigit)

end NumberLayout

/-- A value's text in both of its layouts: on one line, and spread over several. -/
structure Record where
  inline : String
  lines : List String
  deriving DecidableEq, Repr

namespace Record

def atom (text : String) : Record :=
  ⟨text, [text]⟩

def endWithComma : List String → List String
  | [] => []
  | [line] => [line ++ ","]
  | line :: rest => line :: endWithComma rest

def label (text : String) : List String → List String
  | [] => []
  | line :: rest => (text ++ line) :: rest

def nested (text : String) (part : Record) : List String :=
  (endWithComma (label text part.lines)).map ("    " ++ ·)

def wrap (name : String) (part : Record) : Record where
  inline := name ++ "(" ++ part.inline ++ ")"
  lines := (name ++ "(") :: nested "" part ++ [")"]

def fields (name : String) (parts : List (String × Record)) : Record where
  inline :=
    name ++ " \x7b " ++ ", ".intercalate (parts.map fun part => part.1 ++ ": " ++ part.2.inline) ++
      " \x7d"
  lines :=
    (name ++ " \x7b") :: parts.flatMap (fun part => nested (part.1 ++ ": ") part.2) ++ ["\x7d"]

end Record

/-- How the values inside a record are written: on one line or spread, and in which digits. -/
structure RecordStyle where
  spread : Bool := false
  radix : Radix := .decimal
  uppercase : Bool := false
  deriving DecidableEq, Repr

namespace RecordStyle

def number (style : RecordStyle) (n : Nat) : Record :=
  let digits := style.radix.digits n
  let digits := if style.uppercase then digits.map Char.toUpper else digits
  .atom ((if style.spread then style.radix.mark else "") ++ String.ofList digits)

def render (style : RecordStyle) (record : Record) : String :=
  if style.spread then "\n".intercalate record.lines else record.inline

def readRadix (style : RecordStyle) : List Char → Option RecordStyle
  | ['?'] => some style
  | ['x', '?'] => some { style with radix := .hexadecimal }
  | ['X', '?'] => some { style with radix := .hexadecimal, uppercase := true }
  | _ => none

def parse? : List Char → Option RecordStyle
  | '#' :: rest => readRadix { spread := true } rest
  | rest => readRadix {} rest

end RecordStyle

end SvmActivation.Text
