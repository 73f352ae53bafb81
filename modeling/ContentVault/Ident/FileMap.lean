import ContentVault.Ident.FileId
import ContentVault.OrderedMap
set_option autoImplicit false

/-!
# Files grouped by the blob they reference

Turns a list of files into the distinct blobs to fetch, and back.  Blobs are
listed in identifier order; the files of one blob in the order in which they were
first recorded, each once.
-/

namespace ContentVault

/-- The files recorded for each store. -/
structure FileMap where
  byStore : OrderedMap StoreId (List FileId)
  deriving DecidableEq, Inhabited

namespace FileMap

/-- No file is recorded. -/
def empty : FileMap := ⟨.empty⟩

/-- The files recorded for `store`. -/
def filesFor (m : FileMap) (store : StoreId) : List FileId := (m.byStore.get? store).getD []

/-- Records a file under its store, unless it is recorded already. -/
def insert (m : FileMap) (file : FileId) : FileMap :=
  let files := m.filesFor file.store
  if file ∈ files then m else ⟨m.byStore.insert file.store (files ++ [file])⟩

/-- Records every file of a list. -/
def insertAll (m : FileMap) (files : List FileId) : FileMap := files.foldl insert m

/-- The distinct members of a list, each at its first occurrence. -/
def distinct {α : Type} [DecidableEq α] (xs : List α) : List α :=
  xs.foldl (fun seen x => if x ∈ seen then seen else seen ++ [x]) []

/-- Records every file; the answer also lists the distinct stores, first seen first. -/
def extend (m : FileMap) (files : List FileId) : FileMap × List StoreId :=
  (m.insertAll files, distinct (files.map (·.store)))

/-- The map of a list of files. -/
def ofList (files : List FileId) : FileMap := empty.insertAll files

/-- The files recorded for any of `stores`, in the order of `stores`. -/
def filesForAll (m : FileMap) (stores : List StoreId) : List FileId :=
  stores.flatMap m.filesFor

/-- The stores that have files, in identifier order. -/
def stores (m : FileMap) : List StoreId := m.byStore.keys

/-- Number of stores that have files. -/
def storeCount (m : FileMap) : Nat := m.byStore.size

/-- No store has files. -/
def isEmpty (m : FileMap) : Bool := m.byStore.isEmpty

end FileMap

end ContentVault
