import ExprMachine.Toml.Statement

/-! What the statements of a settings text add up to: a tree of tables. A table may be spelled out
in several places as long as no name gets two values: a table that was only opened on the way to
another one may still get its own header or more members, once. Paths name places in the tree
without regard to which table of an array is meant, and the last table of an array is the one that
is being filled. -/
namespace ExprMachine.Toml

inductive Node where
  | text (s : Bytes)
  | integer (n : Int)
  | boolean (b : Bool)
  | other
  | table (entries : List (Bytes × Node))
  | tables (last : List (Bytes × Node))

abbrev Entries := List (Bytes × Node)

def Entries.find? (es : Entries) (name : Bytes) : Option Node :=
  (List.find? (fun e => e.1 == name) es).map Prod.snd

def Entries.set (es : Entries) (name : Bytes) (node : Node) : Entries :=
  if es.any fun e => e.1 == name then es.map fun e => if e.1 = name then (name, node) else e
  else es ++ [(name, node)]

def Entries.put (name : Bytes) (node : Node) : Key → Entries → Option Entries
  | [], es => some (es.set name node)
  | step :: path, es =>
    match es.find? step with
    | none => (put name node path []).map fun inner => es.set step (.table inner)
    | some (.table inner) =>
      (put name node path inner).map fun inner => es.set step (.table inner)
    | some _ => none

def modifyAt (f : Entries → Option Entries) : Key → Entries → Option Entries
  | [], es => f es
  | name :: path, es =>
    match es.find? name with
    | some (.table inner) => (modifyAt f path inner).map fun inner => es.set name (.table inner)
    | some (.tables inner) => (modifyAt f path inner).map fun inner => es.set name (.tables inner)
    | _ => none

def tableAt? : Key → Entries → Option Entries
  | [], es => some es
  | name :: path, es =>
    match es.find? name with
    | some (.table inner) => tableAt? path inner
    | some (.tables inner) => tableAt? path inner
    | _ => none

structure Tree where
  root : Entries
  openedOnTheWay : List Key
  arrays : List Key

namespace Tree

def empty : Tree := ⟨[], [], []⟩

def markOpened (t : Tree) (path : Key) : Tree :=
  { t with openedOnTheWay := path :: t.openedOnTheWay }

def unmarkOpened (t : Tree) (path : Key) : Tree :=
  { t with openedOnTheWay := t.openedOnTheWay.filter (· != path) }

def noteArray (t : Tree) (path : Key) (name : Bytes) (isArray : Bool) : Tree :=
  let path :=
    if !name.isEmpty then path ++ [name]
    else if path.isEmpty then [[]]
    else path
  let arrays := t.arrays.filter (· != path)
  { t with arrays := if isArray then path :: arrays else arrays }

/-- Gives a value to a name in the table at a path. If there is one already, only a table opened on
the way admits another: it stays, unless the new value is an array. -/
def assign (t : Tree) (path : Key) (name : Bytes) (node : Node) : Option Tree := do
  let es ← tableAt? path t.root
  let here := path ++ [name]
  let write := fun t : Tree => do
    let root ← modifyAt (fun es => some (es.set name node)) path t.root
    some { t with root := root }
  if (es.find? name).isNone then write t
  else if here ∉ t.openedOnTheWay then none
  else if here ∈ t.arrays then write (t.unmarkOpened here)
  else some (t.unmarkOpened here)

def openAlong (done : Key) : Key → Tree → Option Tree
  | [], t => some t
  | name :: rest, t => do
    let es ← tableAt? done t.root
    match es.find? name with
    | none =>
      let root ← modifyAt (fun es => some (es.set name (.table []))) done t.root
      openAlong (done ++ [name]) rest (markOpened { t with root := root } (done ++ [name]))
    | some (.table _) => openAlong (done ++ [name]) rest t
    | some (.tables _) => openAlong (done ++ [name]) rest t
    | some _ => none

def openTable (t : Tree) (path : Key) (inArray : Bool) : Option Tree :=
  match path.getLast? with
  | none => none
  | some name => do
    let parents := path.dropLast
    let t ← openAlong [] parents t
    if inArray then
      let es ← tableAt? parents t.root
      match es.find? name with
      | none | some (.tables _) =>
        let root ← modifyAt (fun es => some (es.set name (.tables []))) parents t.root
        some { t with root := root }
      | some _ => none
    else t.assign parents name (.table [])

def enter (path : Key) : Key → Tree → Option Tree
  | [], t => some t
  | name :: rest, t => do
    enter (path ++ [name]) rest (← (t.markOpened (path ++ [name])).openTable (path ++ [name]) false)

end Tree

mutual

def evaluate (path : Key) (name : Bytes) (inArray : Bool) : Expr → Tree → Option (Node × Tree)
  | .text s, t => some (.text s, t)
  | .integer n, t => some (.integer n, t)
  | .boolean b, t => some (.boolean b, t)
  | .other, t => some (.other, t)
  | .array items, t => do
    let t ← evaluateItems path name items (t.noteArray path name true)
    some (.other, t)
  | .record members, t => do
    let here := path ++ [name]
    let (own, t) ← evaluateMembers here [] members (← (t.markOpened here).openTable here inArray)
    some (.table own, t)

def evaluateItems (path : Key) (name : Bytes) : List Expr → Tree → Option Tree
  | [], t => some t
  | e :: rest, t => do
    let (_, t) ← evaluate path name true e t
    evaluateItems path name rest t

def evaluateMembers (path : Key) (own : Entries) :
    List (Key × Expr) → Tree → Option (Entries × Tree)
  -- Members that stand together are also checked against each other, apart from the tree: what
  -- is not a table among them is not opened on the way.
  | [], t => some (own, t)
  | (key, e) :: rest, t => do
    let name ← key.getLast?
    let inner := path ++ key.dropLast
    let (node, t) ← evaluate inner name false e (← t.enter path key.dropLast)
    let t ← t.assign inner name node
    let own ← own.put name node key.dropLast
    evaluateMembers path own rest (t.noteArray inner name (isArray e))

def isArray : Expr → Bool
  | .array _ => true
  | _ => false

end

def Tree.take (t : Tree) (current : Key) : Statement → Option (Tree × Key)
  | .table key => do
    let t ← t.openTable key false
    some (t.noteArray key [] false, key)
  | .arrayTable key => do
    let t ← t.openTable key true
    some (t.noteArray key [] false, key)
  | .assign key e => do
    let (_, t) ← evaluateMembers current [] [(key, e)] t
    some (t, current)

def Tree.takeAll (t : Tree) (current : Key) : List Statement → Option Tree
  | [] => some t
  | s :: rest => do
    let (t, current) ← t.take current s
    t.takeAll current rest

def parse? (text : Bytes) : Option Entries := do
  let t ← Tree.empty.takeAll [] (← statements? text)
  some t.root

end ExprMachine.Toml
