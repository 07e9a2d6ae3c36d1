import StoreGateway.CommandLine.Archive
import StoreGateway.Config.Basic

/-! The files and stores that commands work on, by path. -/

namespace StoreGateway.CommandLine

namespace Path

/-- The steps of a path from the root, with those undone that a later step turns back. -/
def steps (path : String) : List String :=
  ((Text.split '/' path).foldl
    (fun taken step =>
      if step = "" ∨ step = "." then taken
      else if step = ".." then taken.drop 1
      else step :: taken)
    []).reverse

def normal (path : String) : String := "/" ++ "/".intercalate (steps path)

def parent (path : String) : String := "/" ++ "/".intercalate (steps path).dropLast

end Path

inductive Stored where
  | text (content : String)
  | entities (entities : List Entity)
  | collections (collections : List Collection)
  deriving Repr

/-- How a file holds it. -/
def Stored.toText : Stored → String
  | text content => content
  | entities es => Archive.ofEntities es
  | collections cs => Archive.ofCollections cs

/-- What a file holds that is to be a store of the kind. -/
def Stored.ofText (kind : StoreKind) (content : String) : Stored :=
  let found := match kind with
    | .table => (Archive.entities? content).map entities
    | .document => (Archive.collections? content).map collections
  found.getD (text content)

/-- The directory that commands run in is an absolute path. -/
structure Workspace where
  directory : String
  contents : List (String × Stored)
  supply : Supply
  deriving Repr

namespace Workspace

def place (w : Workspace) (path : String) : String :=
  Path.normal (Config.joinPath w.directory path)

def find? (w : Workspace) (path : String) : Option Stored := w.contents.lookup (w.place path)

def put (w : Workspace) (path : String) (s : Stored) : Workspace :=
  { w with contents := (w.place path, s) :: w.contents.filter (·.1 != w.place path) }

/-- The text of a file; stores are no text. -/
def text? (w : Workspace) (path : String) : Option String :=
  match w.find? path with
  | some (.text content) => some content
  | _ => none

end Workspace

end StoreGateway.CommandLine
