import ForestCourier.Text.Value

/-!
Formats in which a document is stored. A document of mixed format takes the format that its payload
has by nature; a file has the format that its extension stands for, and is binary if it stands for
none.
-/

namespace ForestCourier

inductive Format where
  | xml
  | json
  | text
  | binary
  | mixed
deriving DecidableEq

namespace Format

def names : List (String × Format) :=
  [("xml", xml), ("json", json), ("text", text), ("binary", binary), ("mixed", mixed)]

def name : Format → String
  | xml => "xml"
  | json => "json"
  | text => "text"
  | binary => "binary"
  | mixed => "mixed"

def ofName? (s : String) : Option Format := names.lookup (Text.lower s)

theorem lookup_name (f : Format) : names.lookup f.name = some f := by cases f <;> decide

/-- The last component of a path, blank and `.` components aside; `..` names no file. -/
def fileName? (path : String) : Option (List Char) :=
  match ((path.toList.splitOn '/').filter (fun c => c ≠ [] ∧ c ≠ ['.'])).getLast? with
  | some name => if name = ['.', '.'] then none else some name
  | none => none

/-- What stands behind the last dot, unless no other character stands before it. -/
def extension? (name : List Char) : Option (List Char) :=
  let tail := name.reverse.takeWhile (· ≠ '.')
  if tail.length + 1 < name.length then some tail.reverse else none

def ofExtension : String → Format
  | "xml" | "xhtml" | "xsd" => xml
  | "json" => json
  | "txt" | "text" | "csv" => text
  | _ => binary

def ofPath (path : String) : Format :=
  match (fileName? path).bind extension? with
  | some e => ofExtension (Text.lower (String.ofList e))
  | none => binary

def forced (wanted natural : Format) : Format :=
  match wanted with
  | mixed => natural
  | f => f

end Format

end ForestCourier
