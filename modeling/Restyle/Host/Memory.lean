import Restyle.Host.Basic

namespace Restyle

/-- A change to come, the files that are written just before it, and the time at which it comes. -/
structure ScriptedChange where
  writes : List (String × List UInt8) := []
  time : Double := .zero
  change : Change
  deriving Repr

/-- What is asked of an observer of changes. -/
inductive ObserverStep where
  | schedule (folder : String)
  | start
  | stop
  | join
  deriving DecidableEq, Repr

/-- A host that only exists in memory. All that is printed is kept, and the changes to come are known. -/
structure Memory where
  files : Tree (List UInt8) := .folder []
  addresses : List (String × Response) := []
  changes : List ScriptedChange := []
  time : Double := .zero
  printed : String := ""
  noted : String := ""
  observer : List ObserverStep := []
  deriving Repr

namespace Memory

/-- No path has more bytes, and no name in it. -/
def longestPath : Nat := 4095
def longestName : Nat := 255

/-- Where names lead from a place, which is given by the names from the root on, last one first.
Nothing can be seen above the root. -/
def walk (root : Tree (List UInt8)) (place : List String) :
    List String → Except PathProblem (List String)
  | [] => .ok place
  | name :: names =>
    match root.at? place.reverse with
    | some (.folder entries) =>
      if Path.staysPut name then walk root place names
      else if name == ".." then
        match place with
        | [] =>
          if names.all fun n => Path.staysPut n || n == ".." then .ok [] else .error .notFound
        | _ :: above => walk root above names
      else if longestName < name.utf8ByteSize then .error .nameTooLong
      else if (entries.lookup name).isSome then walk root (name :: place) names
      else .error .notFound
    | some (.file _) => .error .notFolder
    | none => .error .notFound

/-- Where a path leads, if it leads somewhere. -/
def locate (root : Tree (List UInt8)) (path : String) : Except PathProblem (List String) :=
  if longestPath < path.utf8ByteSize then .error .nameTooLong
  else if path == "" then .error .notFound
  else if Path.rootOf path == "" then walk root [] (Path.names path)
  else walk root [] (".." :: Path.names path)

/-- What a path leads to. -/
def item (root : Tree (List UInt8)) (path : String) :
    Except PathProblem (Tree (List UInt8)) := do
  match root.at? (← locate root path).reverse with
  | some item => return item
  | none => throw .notFound

def hasNull (path : String) : Bool := path.toList.contains '\x00'

def isThere (root : Tree (List UInt8)) (path : String) : Except Fault Bool :=
  if hasNull path then .ok false
  else
    match item root path with
    | .ok _ => .ok true
    | .error .nameTooLong => .error (.badPath .nameTooLong path)
    | .error _ => .ok false

def folder? (root : Tree (List UInt8)) (path : String) : Except Fault (Option (Tree Unit)) :=
  if hasNull path then .ok none
  else
    match item root path with
    | .ok (.folder entries) => .ok (some ((Tree.folder entries).map fun _ => ()))
    | .error .nameTooLong => .error (.badPath .nameTooLong path)
    | _ => .ok none

def read (root : Tree (List UInt8)) (path : String) : Except Fault (List UInt8) :=
  if hasNull path then .error .nullInPath
  else
    match item root path with
    | .ok (.file bytes) => .ok bytes
    | .ok (.folder _) => .error (.badPath .isFolder path)
    | .error problem => .error (.badPath problem path)

/-- The folder and the name that a path for something new consists of, and whether it ends in a
slash. -/
def splitLast (path : String) : List String × String × Bool :=
  let reversed := (Path.names path).reverse
  let front := reversed.dropWhile (· == "")
  (front.tail.reverse, front.headD "", reversed.head? == some "")

/-- The place of the folder in which a path names something, and the name. -/
def target (root : Tree (List UInt8)) (path : String) :
    Except PathProblem (List String × String × Bool) := do
  if longestPath < path.utf8ByteSize then throw .nameTooLong
  let (folder, name, slash) := splitLast path
  let start := if Path.rootOf path == "" then folder else ".." :: folder
  let place ← walk root [] (start ++ ["."])
  if longestName < name.utf8ByteSize then throw .nameTooLong
  return (place, name, slash)

/-- Makes or replaces a file. -/
def write (root : Tree (List UInt8)) (path : String) (bytes : List UInt8) :
    Except Fault (Tree (List UInt8)) :=
  if hasNull path then .error .nullInPath
  else
    match target root path with
    | .error problem => .error (.badPath problem path)
    | .ok (place, name, slash) =>
      let names := (name :: place).reverse
      if Path.staysPut name || name == ".." then .error (.badPath .isFolder path)
      else
        match root.at? names, slash with
        | some (.folder _), _ => .error (.badPath .isFolder path)
        | some (.file _), true => .error (.badPath .notFolder path)
        | none, true => .error (.badPath .isFolder path)
        | _, false => .ok (Tree.put (.file bytes) names root)

/-- Makes a folder in one that is there. -/
def makeFolder (root : Tree (List UInt8)) (path : String) :
    Except PathProblem (Tree (List UInt8)) := do
  let (place, name, _) ← target root path
  let names := (name :: place).reverse
  if Path.staysPut name || name == ".." || (root.at? names).isSome then throw .alreadyThere
  return Tree.put (.folder []) names root

/-- Makes a folder; one that is there already is as good. -/
def ensureFolder (root : Tree (List UInt8)) (path : String) :
    Except PathProblem (Tree (List UInt8)) :=
  match makeFolder root path with
  | .ok root => .ok root
  | .error problem =>
    match item root path with
    | .ok (.folder _) => .ok root
    | _ => .error problem

/-- Makes a folder and those above it. The names are those of its normal path, last one first. -/
def makeFoldersAt (base : String) :
    List String → Tree (List UInt8) → Except Fault (Tree (List UInt8))
  | [], root => .ok root
  | name :: above, root =>
    let path := base ++ "/".intercalate (name :: above).reverse
    match ensureFolder root path with
    | .ok root => .ok root
    | .error .notFound => do
      let root ← makeFoldersAt base above root
      match ensureFolder root path with
      | .ok root => return root
      | .error problem => throw (.badPath problem path)
    | .error problem => .error (.badPath problem path)

def makeFolders (root : Tree (List UInt8)) (path : String) : Except Fault (Tree (List UInt8)) :=
  if hasNull path then .error .nullInPath
  else
    makeFoldersAt (Path.rootOf path) ((Path.names path).filter (!Path.staysPut ·)).reverse root

/-- Puts files into a tree, at their paths from the root. -/
def addFiles (root : Tree (List UInt8)) (files : List (String × List UInt8)) :
    Tree (List UInt8) :=
  files.foldl (fun root (path, bytes) =>
    Tree.put (.file bytes) ((Path.names path).filter (!Path.staysPut ·)) root) root

/-- The files that are new or have changed. -/
def written (before after : Tree (List UInt8)) : List (String × List UInt8) :=
  let old := before.files ""
  (after.files "").filter fun file => !old.contains file

/-- Gives the changes to come to a reaction, one after the other. -/
def deliver {σ : Type} (react : σ → Change → StateM Memory (Except Fault σ)) :
    List ScriptedChange → σ → StateM Memory (Except Fault Unit)
  | [], _ => return .ok ()
  | scripted :: rest, state => do
    modify fun memory => { memory with
      files := addFiles memory.files scripted.writes
      time := scripted.time
      changes := rest }
    match ← react state scripted.change with
    | .ok state => deliver react rest state
    | .error fault => return .error fault

/-- Notes what is asked of the observer. -/
def logStep (step : ObserverStep) : StateM Memory Unit :=
  modify fun memory => { memory with observer := memory.observer ++ [step] }

instance : Host (StateM Memory) where
  print text := modify fun memory => { memory with printed := memory.printed ++ text }
  note text := modify fun memory => { memory with noted := memory.noted ++ text }
  isThere path := return isThere (← get).files path
  folder? path := return folder? (← get).files path
  read path := return read (← get).files path
  write path text := do
    match write (← get).files path text.toUTF8.toList with
    | .ok files =>
      modify fun memory => { memory with files }
      return .ok ()
    | .error fault => return .error fault
  makeFolders path := do
    match makeFolders (← get).files path with
    | .ok files =>
      modify fun memory => { memory with files }
      return .ok ()
    | .error fault => return .error fault
  fetch url := return match (← get).addresses.lookup url with
    | some response => .ok response
    | none => .error (.unreachable url)
  now := return (← get).time
  observe folder state react := do
    logStep (.schedule folder)
    logStep .start
    let outcome ← deliver react (← get).changes state
    if outcome.toOption.isSome then logStep .stop
    logStep .join
    return outcome

end Memory

end Restyle
