import StoreGateway.Batch.Verb
import StoreGateway.Store.Backend

/-!
What it takes to undo the calls of a batch, newest first. Undoing goes on past entries that can not
be undone.
-/

namespace StoreGateway

/-- A change that was made, with the record before it if there was one. -/
structure UndoEntry where
  verb : Verb
  key : RecordKey
  prior : Option Record
  deriving Repr

namespace UndoEntry

def isNeeded (u : UndoEntry) : Bool := u.verb != .get && !(u.verb == .delete && u.prior.isNone)

def undo {σ : Type} (u : UndoEntry) (b : Backend σ) (table : String) : Call σ Unit :=
  match u.verb, u.prior with
  | .create, _ => b.delete table u.key
  | .replace, none | .patch, none => b.delete table u.key
  | .replace, some prior | .patch, some prior => do let _ ← b.upsert table u.key prior
  | .delete, some prior => do let _ ← b.insert table prior
  | .delete, none | .get, _ => pure ()

end UndoEntry

structure UndoLog where
  entries : List UndoEntry
  deriving Repr

namespace UndoLog

def empty : UndoLog := ⟨[]⟩

def record (log : UndoLog) (u : UndoEntry) : UndoLog := ⟨u :: log.entries⟩

def discardLast (log : UndoLog) : UndoLog := ⟨log.entries.drop 1⟩

def size (log : UndoLog) : Nat := log.entries.length

/-- Undoes the entries that need it, whatever becomes of the others, and counts them. -/
def compensate {σ : Type} (b : Backend σ) (table : String) : List UndoEntry → StateM σ Nat
  | [] => pure 0
  | u :: rest => do
    if u.isNeeded then
      let _ ← (u.undo b table).run
      return (← compensate b table rest) + 1
    else compensate b table rest

end UndoLog

end StoreGateway
