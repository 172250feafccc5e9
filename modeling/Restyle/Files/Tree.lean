namespace Restyle

/-- Files and folders. Only the names matter for most purposes, so a file can hold anything. -/
inductive Tree (α : Type) where
  | file (content : α)
  | folder (entries : List (String × Tree α))
  deriving Repr, Inhabited

namespace Tree

variable {α β : Type}

def isFolder : Tree α → Bool
  | .folder _ => true
  | .file _ => false

/-- What has a name in a folder. -/
def entry? (name : String) : Tree α → Option (Tree α)
  | .folder entries => entries.lookup name
  | .file _ => none

/-- What a list of names leads to. -/
def at? (tree : Tree α) : List String → Option (Tree α)
  | [] => some tree
  | name :: names => (tree.entry? name).bind (·.at? names)

/-- Gives a name a new meaning in a folder; a new name comes last. -/
def setEntry (name : String) (item : Tree α) (entries : List (String × Tree α)) :
    List (String × Tree α) :=
  if entries.any (·.1 == name) then
    entries.map fun entry => if entry.1 == name then (name, item) else entry
  else entries ++ [(name, item)]

/-- Puts something at the end of a list of names. Folders that are missing are made. -/
def put (item : Tree α) : List String → Tree α → Tree α
  | [], _ => item
  | name :: names, tree =>
    let entries := match tree with
      | .folder entries => entries
      | .file _ => []
    .folder (setEntry name (put item names ((entries.lookup name).getD (.folder []))) entries)

mutual

/-- The same tree with other contents. -/
def map (f : α → β) : Tree α → Tree β
  | .file content => .file (f content)
  | .folder entries => .folder (mapEntries f entries)

def mapEntries (f : α → β) : List (String × Tree α) → List (String × Tree β)
  | [] => []
  | (name, item) :: entries => (name, map f item) :: mapEntries f entries

end

mutual

/-- All files with the paths that lead to them. -/
def files (path : String) : Tree α → List (String × α)
  | .file content => [(path, content)]
  | .folder entries => entryFiles (if path == "" then "" else path ++ "/") entries

def entryFiles (stem : String) : List (String × Tree α) → List (String × α)
  | [] => []
  | (name, item) :: entries => files (stem ++ name) item ++ entryFiles stem entries

end

end Tree

end Restyle
