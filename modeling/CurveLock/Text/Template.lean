import CurveLock.Text.Numeral
import CurveLock.Text.Quoted

/-!
# Templates

A template is a text, or a byte string, in which directives keep the places of values. A directive
starts with a percent sign, and two percent signs in a row stand for one. After the percent sign a
directive has, in this order and all but the last optional:

* a key in parentheses, which may hold balanced parentheses itself;
* flags, each one of `-`, `+`, blank, `#` and `0`;
* a width, as a numeral or as an asterisk that has it taken from the values;
* a point and a precision, likewise; nothing after the point means zero;
* one of the letters `h`, `l` and `L`, which means nothing;
* the conversion, a character that says how the value is written.

`Template.pieces` takes a template apart. What is wrong with a directive is found where it is filled
in (`Directive.conversion`), because a value may be missing before that point. Bytes are read as the
characters of the same number.
-/

namespace CurveLock

namespace Template

/-- What a template is made of. -/
inductive Medium where
  | text
  | bytes
  deriving DecidableEq, Repr

/-- What is wrong with a directive. -/
inductive Fault where
  /-- The parenthesis of a key is not closed. -/
  | incompleteKey
  /-- The template ends before the conversion. -/
  | incomplete
  | widthTooLarge
  | precisionTooLarge (m : Medium)
  /-- There is no such conversion. -/
  | noConversion (m : Medium) (conversion : Char) (index : Nat)
  deriving DecidableEq, Repr

/-- The text that reports a faulty directive. -/
def Fault.message : Fault → String
  | incompleteKey => "incomplete format key"
  | incomplete => "incomplete format"
  | widthTooLarge => "width too big"
  | precisionTooLarge .text => "precision too big"
  | precisionTooLarge .bytes => "prec too big"
  | noConversion m c index =>
    let shown := if m = .text ∧ ¬ (31 ≤ c.toNat ∧ c.toNat ≤ 126) then '?' else c
    "unsupported format character '" ++ String.singleton shown ++ "' (0x" ++
      String.ofList (Quoted.hex 1 c.toNat) ++ s!") at index {index}"

/-- A number in a directive. -/
inductive Extent where
  | absent
  | given (n : Nat)
  /-- The number is the next value. -/
  | taken
  deriving DecidableEq, Repr

/-- How a value is laid out. -/
structure Flags where
  /-- At the left end of its field. -/
  left : Bool
  /-- With a sign, also a positive number. -/
  plus : Bool
  /-- With a blank in the place of the sign of a positive number. -/
  blank : Bool
  /-- With the mark of the base, or with the point and the zeros that could be left out. -/
  full : Bool
  /-- Filled up with zeros. -/
  zero : Bool
  deriving DecidableEq, Repr

/-- A directive. -/
structure Directive where
  /-- The key, or that it does not end; none where the directive has no key. -/
  key : Option (Except Fault (List Char))
  flags : Flags
  width : Extent
  precision : Extent
  /-- The conversion, or what is wrong before it. -/
  conversion : Except Fault Char
  /-- Whether the conversion stands directly after a digit. -/
  afterDigit : Bool
  /-- The characters that follow the directive. -/
  rest : List Char

/-- A part of a template. -/
inductive Piece where
  /-- Characters that stand for themselves. -/
  | plain (cs : List Char)
  | directive (d : Directive)

/-! ### The parts of a directive -/

/-- The characters up to the parenthesis that closes a key in which `depth` more are open, and those
after it; `read` are the characters so far, last one first. -/
def closed? : (depth : Nat) → (read : List Char) → List Char → Option (List Char × List Char)
  | _, _, [] => none
  | depth, read, c :: rest =>
    if c = ')' then
      match depth with
      | 0 => some (read.reverse, rest)
      | depth + 1 => closed? depth (c :: read) rest
    else closed? (if c = '(' then depth + 1 else depth) (c :: read) rest

/-- Whether a character is a flag. -/
def isFlag (c : Char) : Bool := c ∈ ['-', '+', ' ', '#', '0']

/-- The flags that characters set. -/
def flagsOf (cs : List Char) : Flags where
  left := cs.contains '-'
  plus := cs.contains '+'
  blank := cs.contains ' '
  full := cs.contains '#'
  zero := cs.contains '0'

/-- Numbers in a directive stay below this. -/
def extentLimit : Nat := 0x8000000000000000

/-- A precision is at most this. -/
def precisionLimit : Nat := 0x7fffffff

/-- The number that digits spell, or `extentLimit` where it is larger. -/
def extentOf (ds : List Char) : Nat :=
  ds.foldl (fun n c => min (10 * n + (c.toNat - '0'.toNat)) extentLimit) 0

/-- A number at the start of characters, and the characters after it. -/
def extent (cs : List Char) : Extent × List Char :=
  match cs with
  | '*' :: rest => (.taken, rest)
  | _ =>
    if (cs.takeWhile Char.isDigit).isEmpty then (.absent, cs)
    else (.given (extentOf (cs.takeWhile Char.isDigit)), cs.dropWhile Char.isDigit)

/-- Whether a number is given and above a limit. -/
def Extent.exceeds (limit : Nat) : Extent → Bool
  | given n => limit < n
  | _ => false

/-- Whether a number is given by digits. -/
def Extent.isGiven : Extent → Bool
  | given _ => true
  | _ => false

/-- Whether a character is one of the letters that mean nothing. -/
def isLength (c : Char) : Bool := c ∈ ['h', 'l', 'L']

/-- Leaves out a letter that means nothing. -/
def withoutLength : List Char → List Char
  | [] => []
  | c :: rest => if isLength c then rest else c :: rest

/-! ### Directives -/

/-- The rest of a directive whose key is read. -/
def Directive.afterKey (m : Medium) (key : Option (Except Fault (List Char))) (cs : List Char) :
    Directive :=
  let (width, atPoint) := extent (cs.dropWhile isFlag)
  let hasPoint := atPoint.head? = some '.'
  let (number, atLength) := extent (if hasPoint then atPoint.drop 1 else [])
  let atLength := if hasPoint then atLength else atPoint
  let precision := if hasPoint ∧ number = .absent then .given 0 else number
  let atConversion := withoutLength atLength
  let tooWide := width.exceeds (extentLimit - 1)
  { key, width
    flags := flagsOf (cs.takeWhile isFlag)
    precision := if tooWide then .absent else precision
    conversion :=
      if tooWide then .error .widthTooLarge
      else if precision.exceeds precisionLimit then .error (.precisionTooLarge m)
      else match atConversion with
        | [] => .error .incomplete
        | c :: _ => .ok c
    afterDigit := (if hasPoint then number else width).isGiven && !(atLength.head?.any isLength)
    rest := atConversion.drop 1 }

/-- The directive at the start of characters, which follow a percent sign. -/
def Directive.read (m : Medium) (cs : List Char) : Directive :=
  match cs with
  | '(' :: inner =>
    match closed? 0 [] inner with
    | some (key, rest) => afterKey m (some (.ok key)) rest
    | none => afterKey m (some (.error .incompleteKey)) []
  | _ => afterKey m none cs

/-! ### What is left after each part -/

theorem length_dropWhile_le (p : Char → Bool) (cs : List Char) :
    (cs.dropWhile p).length ≤ cs.length := (List.dropWhile_suffix p).length_le

theorem length_rest_closed? {depth : Nat} {read cs key rest : List Char}
    (h : closed? depth read cs = some (key, rest)) : rest.length ≤ cs.length := by
  fun_induction closed? depth read cs with
  | case1 => simp at h
  | case2 read rest' => simp_all
  | case3 read rest' depth ih => exact Nat.le_succ_of_le (ih h)
  | case4 depth read c rest' hc ih => exact Nat.le_succ_of_le (ih h)

theorem length_extent_le (cs : List Char) : (extent cs).2.length ≤ cs.length := by
  unfold extent
  split
  · simp
  · split
    · exact Nat.le_refl _
    · exact length_dropWhile_le _ _

theorem length_withoutLength_le (cs : List Char) : (withoutLength cs).length ≤ cs.length := by
  cases cs with
  | nil => exact Nat.le_refl _
  | cons c rest => by_cases h : isLength c <;> simp [withoutLength, h]

theorem Directive.length_rest_afterKey_le (m : Medium) (key : Option (Except Fault (List Char)))
    (cs : List Char) : (afterKey m key cs).rest.length ≤ cs.length := by
  have atPoint :=
    Nat.le_trans (length_extent_le (cs.dropWhile isFlag)) (length_dropWhile_le isFlag cs)
  have afterPoint := length_extent_le ((extent (cs.dropWhile isFlag)).2.drop 1)
  simp only [List.length_drop] at afterPoint
  simp only [afterKey, List.length_drop]
  split
  · have := length_withoutLength_le (extent ((extent (cs.dropWhile isFlag)).2.drop 1)).2
    omega
  · have := length_withoutLength_le (extent (cs.dropWhile isFlag)).2
    omega

theorem Directive.length_rest_read_le (m : Medium) (cs : List Char) :
    (read m cs).rest.length ≤ cs.length := by
  unfold read
  split
  · rename_i inner
    split
    · rename_i key rest h
      have := length_rest_afterKey_le m (some (.ok key)) rest
      have := length_rest_closed? h
      simp only [List.length_cons]
      omega
    · have := length_rest_afterKey_le m (some (.error .incompleteKey)) []
      simp only [List.length_nil] at this
      simp only [List.length_cons]
      omega
  · exact length_rest_afterKey_le m none cs

/-! ### Templates -/

/-- The parts of a template; `read` are those before, last one first. -/
def piecesAfter (m : Medium) (read : List Piece) (cs : List Char) : List Piece :=
  match cs with
  | [] => read.reverse
  | '%' :: '%' :: rest => piecesAfter m (.plain ['%'] :: read) rest
  | '%' :: rest =>
    let d := Directive.read m rest
    piecesAfter m (.directive d :: read) d.rest
  | c :: rest =>
    piecesAfter m (.plain (c :: rest.takeWhile (· != '%')) :: read) (rest.dropWhile (· != '%'))
termination_by cs.length
decreasing_by
  · simp only [List.length_cons]
    omega
  · have := Directive.length_rest_read_le m rest
    simp only [List.length_cons]
    omega
  · have := length_dropWhile_le (· != '%') rest
    simp only [List.length_cons]
    omega

/-- The parts of a template, in order. -/
def pieces (m : Medium) (cs : List Char) : List Piece := piecesAfter m [] cs

end Template

end CurveLock
