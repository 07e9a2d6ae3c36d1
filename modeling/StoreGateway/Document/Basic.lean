import StoreGateway.Store.Clock
import StoreGateway.Store.Key

/-! Documents: an identifier, a modification stamp, and the caller's properties. -/

namespace StoreGateway

structure Document where
  id : String
  modifiedAt : String
  properties : Record
  deriving Repr

namespace Document

def isReserved (name : String) : Bool := name.toList.head? == some '_'

def isProperty (name : String) : Bool := name != documentId && !isReserved name

def propertiesOf (r : Record) : Record := r.filter fun (name, _) => isProperty name

def withId (id : String) (r : Record) (stamp : String) : Document := ⟨id, stamp, propertiesOf r⟩

/-- The identifier that a record names, if it is a number or text that is not empty. -/
def idOf? (r : Record) : Option String :=
  match r.get? documentId with
  | some (.string "") => none
  | some v => v.keyText?
  | none => none

/-- A document with the record's own identifier, or with one made up for it. -/
def ofRecord (r : Record) (supply : Supply) : Document × Supply :=
  let (id, supply) := match idOf? r with
    | some id => (id, supply)
    | none => supply.id
  let (stamp, supply) := supply.stamp
  (withId id r stamp, supply)

def merge (d : Document) (r : Record) (stamp : String) : Document :=
  { d with properties := d.properties.extend (propertiesOf r), modifiedAt := stamp }

/-- The record that callers see. -/
def toRecord (d : Document) : Record := Record.extend [(documentId, .string d.id)] d.properties

end Document

end StoreGateway
