import Restyle.Expression.Literal
import Restyle.Expression.Name
import Restyle.Scan.Region
import Restyle.Text.Search

namespace Restyle.Expression

/-- The shapes of expressions, in the order in which they are tried. -/
inductive Shape where
  | destructuredArrow
  | templateInterpolation
  | memberAccess
  | conditional
  | arithmetic
  | identifier
  | static
  deriving DecidableEq, Repr

def Shape.name : Shape → String
  | .destructuredArrow => "destructured-arrow"
  | .templateInterpolation => "template-interpolation"
  | .memberAccess => "member-access"
  | .conditional => "conditional"
  | .arithmetic => "arithmetic"
  | .identifier => "identifier"
  | .static => "static"

/-- The shape of an expression and the names that it depends on. -/
structure Classification where
  shape : Shape
  dependencies : List String
  deriving DecidableEq, Repr

def Classification.isStatic (c : Classification) : Bool := c.shape == .static

/-- A text without the interpolation marks around it. -/
def dropMarks (cs : List Char) : List Char :=
  match cs with
  | '$' :: '{' :: inside =>
    if inside.getLast? == some '}' then Text.trim inside.dropLast else cs
  | _ => cs

/-- An expression without the blanks and the interpolation marks around it. -/
def unwrap (raw : List Char) : List Char := dropMarks (Text.trim raw)

/-- An arrow function with one destructured parameter, and the text between its braces. -/
def arrow? : Scan.Recognizer (List Char) := fun _ cs =>
  match cs with
  | '(' :: cs =>
    match Text.skipBlanks cs with
    | '{' :: cs =>
      let inside := cs.takeWhile (· != '}')
      match cs.dropWhile (· != '}') with
      | '}' :: cs =>
        let cs :=
          match Text.skipBlanks cs with
          | ':' :: cs => cs.dropWhile (· != ')')
          | cs => cs
        match cs with
        | ')' :: cs =>
          match Text.skipBlanks cs with
          | '=' :: '>' :: rest => some (inside, rest)
          | _ => none
        | _ => none
      | _ => none
    | _ => none
  | _ => none

/-- The name that one part of a destructuring takes from its object. -/
def destructuredName (part : List Char) : List Char :=
  let part := Text.trim part
  let part := (['.', '.', '.'].isPrefixOf? part).getD part
  Text.trim (part.takeWhile fun c => c != ':' && c != '=')

/-- The names that the arrow functions of an expression take from their parameters. -/
def destructuredNames (raw : List Char) : List String :=
  let parts := (Scan.findAll arrow? raw).flatMap fun hit => Text.fields (· == ',') hit.value
  (((parts.map destructuredName).filter (!·.isEmpty)).map String.ofList).eraseDups

/-- The inside of a string or region, without its first and its last character. -/
def inside (cs : List Char) : List Char := (cs.drop 1).dropLast

/-- The interpolations of all template literals in an expression. -/
def templateInterpolations (cs : List Char) : List (List Char) :=
  match cs with
  | [] => []
  | c :: tail =>
    if c == '\x60' then
      match h : Scan.takeTemplate? (c :: tail) with
      | none => []
      | some (literal, rest) =>
        have : rest.length ≤ tail.length := Nat.le_of_lt_succ (Scan.takeTemplate?_length_lt h)
        Scan.interpolations (inside literal) ++ templateInterpolations rest
    else templateInterpolations tail
termination_by cs.length

theorem mem_interpolations_length_le {cs region : List Char}
    (h : region ∈ Scan.interpolations cs) : region.length ≤ cs.length := by
  fun_induction Scan.interpolations cs with
  | case1 => simp at h
  | case2 c tail _ found rest ht _ ih =>
    have hl := congrArg List.length (Scan.takeRegion?_append ht)
    simp only [List.length_append] at hl
    rcases List.mem_cons.mp h with he | hm
    · simp only [he, List.length_cons]; omega
    · have := ih hm
      simp only [List.length_cons]
      omega
  | case3 => simp at h
  | case4 c tail _ _ _ ih => exact Nat.le_succ_of_le (ih h)
  | case5 c tail _ ih => exact Nat.le_succ_of_le (ih h)

theorem mem_templateInterpolations_length_lt {cs region : List Char}
    (h : region ∈ templateInterpolations cs) : region.length < cs.length := by
  fun_induction templateInterpolations cs with
  | case1 => simp at h
  | case2 => simp at h
  | case3 c tail _ literal rest ht _ ih =>
    have hl := congrArg List.length (Scan.takeTemplate?_append ht)
    simp only [List.length_append, List.length_cons] at hl
    rcases List.mem_append.mp h with hi | hm
    · have := mem_interpolations_length_le hi
      simp only [inside, List.length_dropLast, List.length_drop] at this
      simp only [List.length_cons]
      omega
    · have := ih hm
      simp only [List.length_cons] at *
      omega
  | case4 c tail _ ih => exact Nat.lt_succ_of_lt (ih h)

/-- The objects whose members are known at run time only. -/
def dynamicRoots : List (List Char) :=
  ["props".toList, "theme".toList, "state".toList, "color".toList, "colors".toList]

/-- What follows the mark of a member access. -/
def afterAccess? : List Char → Option (List Char)
  | '?' :: '.' :: cs => some cs
  | '.' :: cs => some cs
  | '[' :: cs => some cs
  | _ => none

/-- An access to a member of a dynamic root. -/
def access? : Scan.Recognizer (List Char) := fun before cs =>
  if admitsName before then
    dynamicRoots.findSome? fun root => do
      let rest ← root.isPrefixOf? cs
      let rest ← afterAccess? (Text.skipBlanks rest)
      some (root, rest)
  else none

/-- Whether a choice or a negation stands at a place. -/
def choiceAt (before : Option Char) : List Char → Bool
  | '?' :: cs => cs.head? != some '.' && cs.head? != some '?' && cs.contains ':'
  | '&' :: '&' :: _ => true
  | '|' :: '|' :: _ => true
  | '!' :: cs => before != some '!' && before != some '=' && cs.head? != some '='
  | _ => false

def isOperator (c : Char) : Bool := c == '-' || c == '+' || c == '*' || c == '/' || c == '%'

/-- Whether an operator and then a character that satisfies `p` follow. -/
def operatorThen (p : Char → Bool) (cs : List Char) : Bool :=
  match Text.skipBlanks cs with
  | c :: cs => isOperator c && (Text.skipBlanks cs).head?.any p
  | [] => false

/-- Whether a calculation with a name stands at a place. -/
def calculationAt (before : Option Char) (cs : List Char) : Bool :=
  match cs with
  | [] => false
  | c :: tail =>
    (admitsName before && startsName c &&
      operatorThen (fun d => continuesName d || d == '(' || Scan.isQuote d)
        (tail.dropWhile continuesName)) ||
    ((continuesName c || c == ')' || c == ']' || Scan.isQuote c) && operatorThen startsName tail)

/-- Whether a text starts with a sign before a name. -/
def startsSigned (cs : List Char) : Bool :=
  match Text.skipBlanks cs with
  | c :: cs => (c == '-' || c == '+') && (Text.skipBlanks cs).head?.any startsName
  | [] => false

/-- Whether a text is a number or a single string without interpolations. -/
def isPlainLiteral (cs : List Char) : Bool :=
  ((Numeral.read? cs).isSome || (unquote? Scan.isQuote cs).isSome) && !Text.hasPart ['$', '{'] cs

/-- The shapes that do not look inside of strings. -/
def classifyBare (cs : List Char) : Classification :=
  let bare := emptyStrings cs
  let accesses := Scan.findAll access? bare
  if !accesses.isEmpty then
    ⟨.memberAccess, (accesses.map fun hit => String.ofList hit.value).eraseDups⟩
  else if Scan.holdsSomewhere choiceAt none bare then ⟨.conditional, names bare⟩
  else if Scan.holdsSomewhere calculationAt none bare || startsSigned bare then
    ⟨.arithmetic, names bare⟩
  else if isName cs && !valueWords.contains (String.ofList cs) then
    ⟨.identifier, [String.ofList cs]⟩
  else ⟨.static, []⟩

theorem trim_length_le (cs : List Char) : (Text.trim cs).length ≤ cs.length := by
  have hd : ∀ xs : List Char, (xs.dropWhile Text.isBlank).length ≤ xs.length :=
    fun xs => (List.dropWhile_suffix _).length_le
  have h := hd (cs.dropWhile Text.isBlank).reverse
  have h' := hd cs
  simp only [Text.trim, Text.trimBy, Text.dropTrailing, List.length_reverse] at *
  omega

theorem dropMarks_length_le (cs : List Char) : (dropMarks cs).length ≤ cs.length := by
  unfold dropMarks
  split
  next inside =>
    split
    next =>
      have := trim_length_le inside.dropLast
      simp only [List.length_cons, List.length_dropLast] at *
      omega
    next => exact Nat.le_refl _
  next => exact Nat.le_refl _

theorem unwrap_length_le (raw : List Char) : (unwrap raw).length ≤ raw.length :=
  Nat.le_trans (dropMarks_length_le _) (trim_length_le raw)

/-- Classifies an expression. The interpolations of a template literal are expressions of their
own, and shorter. -/
def classify (raw : List Char) : Classification :=
  let cs := unwrap raw
  if isPlainLiteral cs then ⟨.static, []⟩
  else if Text.hasPart ['$', '{'] raw && !(Scan.findAll arrow? raw).isEmpty then
    ⟨.destructuredArrow, destructuredNames raw⟩
  else if (templateInterpolations cs).isEmpty then classifyBare cs
  else
    let inner := (templateInterpolations cs).attach.flatMap fun ⟨region, h⟩ =>
      have : region.length < raw.length :=
        Nat.lt_of_lt_of_le (mem_templateInterpolations_length_lt h) (unwrap_length_le raw)
      (classify region).dependencies
    ⟨.templateInterpolation, (names (emptyStrings cs) ++ inner).eraseDups⟩
termination_by raw.length

end Restyle.Expression
