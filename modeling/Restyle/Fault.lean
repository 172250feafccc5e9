import Restyle.Json.Reader
import Restyle.Text.Utf8

namespace Restyle

/-- Why a path cannot be used. -/
inductive PathProblem where
  | notFound
  | notFolder
  | isFolder
  | alreadyThere
  | nameTooLong
  deriving DecidableEq, Repr

/-- The number and the wording of a problem with a path. -/
def PathProblem.message : PathProblem → String
  | .notFound => "[Errno 2] No such file or directory"
  | .notFolder => "[Errno 20] Not a directory"
  | .isFolder => "[Errno 21] Is a directory"
  | .alreadyThere => "[Errno 17] File exists"
  | .nameTooLong => "[Errno 36] File name too long"

/-- Everything that can go wrong, by its cause. -/
inductive Fault where
  /-- A string that starts at the offset has no end. -/
  | unterminatedString (offset : Nat)
  /-- A whole number is written with more digits than are read. -/
  | tooManyDigits (digits : Nat)
  /-- A whole number has more digits than are shown. -/
  | tooLongToShow
  /-- An offset points outside its text, or a placeholder at no interpolation. -/
  | outOfRange
  /-- A decimal has left its range. -/
  | decimalOverflow
  /-- A value cannot be used for what is asked of it. -/
  | wrongType
  /-- A value that is no object was asked for a field. -/
  | noFields
  /-- An object lacks a field that it must have. -/
  | missingField (name : String)
  /-- A pattern of an unknown kind is to be converted. -/
  | unsupportedPattern (typeName : String)
  /-- A file cannot be opened. -/
  | badPath (problem : PathProblem) (name : String)
  /-- A path holds a null character. -/
  | nullInPath
  /-- A file holds no text. -/
  | undecodable (fault : Text.Utf8Fault)
  /-- A text writes no value. -/
  | unreadableJson (source : List Char) (fault : Json.ReadFault)
  /-- A server refuses a request. -/
  | refused (status : Int) (reason url : String)
  /-- No server answers. -/
  | unreachable (url : String)
  /-- A theme has no colours. -/
  | themeWithoutColors (source : String)
  /-- The files to visit are described by an unknown pattern. -/
  | unknownFilePattern (pattern known : String)
  /-- The folder to visit is none. -/
  | noFolder (path : String)
  deriving Repr

def Fault.message : Fault → String
  | .unterminatedString offset => "unterminated string at " ++ toString offset
  | .tooManyDigits digits => (Json.ReadProblem.tooManyDigits digits).message
  | .tooLongToShow =>
    "Exceeds the limit (4300 digits) for integer string conversion; " ++
      "use sys.set_int_max_str_digits() to increase the limit"
  | .outOfRange => "index out of range"
  | .decimalOverflow => "overflow"
  | .wrongType => "wrong type"
  | .noFields => "no fields"
  | .missingField name => String.ofList (Text.quoted name.toList)
  | .unsupportedPattern typeName => "unsupported pattern: " ++ typeName
  | .badPath problem name => problem.message ++ ": " ++ String.ofList (Text.quoted name.toList)
  | .nullInPath => "embedded null byte"
  | .undecodable fault => fault.message
  | .unreadableJson source fault => fault.message source
  | .refused status reason url =>
    toString status ++ (if status < 500 then " Client Error: " else " Server Error: ") ++ reason ++
      " for url: " ++ url
  | .unreachable url => "no route to " ++ url
  | .themeWithoutColors source => "theme '" ++ source ++ "' 缺少 colors 物件"
  | .unknownFilePattern pattern known =>
    "不支援的檔案樣式 '" ++ pattern ++ "'（可用：" ++ known ++ "）"
  | .noFolder path => "目錄不存在：" ++ path

/-- The faults of files and of what they hold are reported; all others end the program. -/
def Fault.isReported : Fault → Bool
  | .outOfRange | .decimalOverflow | .wrongType | .noFields | .missingField _
  | .unsupportedPattern _ => false
  | _ => true

end Restyle
