import HeapStore.Id
import HeapStore.Text.Quoted
import HeapStore.Value

/-!
Everything that can go wrong, by cause. The wording stands here alone: `Error.message` and the
`message` of each cause. A cause `words` carries a reason that is given in words already.
-/

namespace HeapStore

/-- How a page is checked out: by any number of readers, or by one writer alone. -/
inductive Access where
  | shared
  | exclusive
  deriving DecidableEq, Repr

def Access.render : Access → String
  | .shared => "ReadOnly"
  | .exclusive => "ReadWrite"

/-- What a file operation can fail with. -/
inductive IoFault where
  | notFound
  | isDirectory
  | notDirectory
  | alreadyExists
  | invalidInput
  | invalidData
  | nameTooLong
  deriving DecidableEq, Repr

def IoFault.message : IoFault → String
  | .notFound => "no such file or directory"
  | .isDirectory => "is a directory"
  | .notDirectory => "not a directory"
  | .alreadyExists => "file exists"
  | .invalidInput => "invalid argument"
  | .invalidData => "text is not valid UTF-8"
  | .nameTooLong => "file name too long"

/-- Why a list of fields, or a tuple width, makes no schema. -/
inductive SchemaFault where
  | noFields
  | zeroWidth (name : String)
  | widthOverflow
  | emptyTuple
  | tupleExceedsPage (tupleSize pageSize : Nat)
  | words (text : String)
  deriving DecidableEq, Repr

def SchemaFault.message : SchemaFault → String
  | .noFields => "schema must have at least one field"
  | .zeroWidth name => s!"field {Text.quote name} has zero width"
  | .widthOverflow => "tuple size overflows"
  | .emptyTuple => "tuple size must be positive"
  | .tupleExceedsPage tupleSize pageSize =>
    s!"tuple of {tupleSize} bytes does not fit in a {pageSize} byte page"
  | .words text => text

/-- How values or a tuple differ from the schema they should match. -/
inductive Mismatch where
  | valueCount (expected found : Nat)
  | valueKind (index : Nat) (name : String) (expected : FieldType) (found : Value)
  | noSuchField (index count : Nat)
  | newValueKind (index : Nat) (expected : FieldType) (found : Value)
  | fieldCount (table tuple : Nat)
  | fieldType (index : Nat) (table tuple : FieldType)
  | words (text : String)
  deriving DecidableEq, Repr

def Mismatch.message : Mismatch → String
  | .valueCount expected found => s!"expected {expected} fields, got {found}"
  | .valueKind index name expected found =>
    s!"field {index} ({name}) expects {expected.render}, got {found.kindName}"
  | .noSuchField index count => s!"field index {index} out of range for {count} fields"
  | .newValueKind index expected found =>
    s!"field {index} expects {expected.render}, got {found.kindName}"
  | .fieldCount table tuple => s!"table has {table} fields, tuple has {tuple}"
  | .fieldType index table tuple =>
    s!"field {index} is {table.render} in table, {tuple.render} in tuple"
  | .words text => text

/-- Why bytes are no page. -/
inductive Corruption where
  | length (expected found : Nat)
  | slot (index : Nat) (cause : CodecError)
  | words (text : String)
  deriving DecidableEq, Repr

def Corruption.message : Corruption → String
  | .length expected found => s!"expected {expected} bytes, got {found}"
  | .slot index cause => s!"slot {index}: {cause.message}"
  | .words text => text

/-- Why a tuple is not where it is looked for. -/
inductive Misplacement where
  | noRecordId
  | otherPage (named : PageId)
  | otherTable (table : Nat)
  | words (text : String)
  deriving DecidableEq, Repr

def Misplacement.message : Misplacement → String
  | .noRecordId => "tuple has no record id"
  | .otherPage named => s!"record id names page {named.render}"
  | .otherTable table => s!"page belongs to another table than {table}"
  | .words text => text

/-- Steps that a scan does not allow in its state. -/
inductive ScanFault where
  | notOpen
  | alreadyOpen
  | words (text : String)
  deriving DecidableEq, Repr

def ScanFault.message : ScanFault → String
  | .notOpen => "iterator is not open"
  | .alreadyOpen => "iterator is already open"
  | .words text => text

/-- Why a page may not be changed. -/
inductive Denial where
  | sharedCheckout (page : PageId)
  | words (text : String)
  deriving DecidableEq, Repr

def Denial.message : Denial → String
  | .sharedCheckout page => s!"page {page.render} checked out read-only"
  | .words text => text

/-- Why a transaction has to give up. -/
inductive Abort where
  | lockTimeout (access : Access) (page : PageId)
  | words (text : String)
  deriving DecidableEq, Repr

def Abort.message : Abort → String
  | .lockTimeout access page => s!"timed out waiting for {access.render} access to page {page.render}"
  | .words text => text

/-- What is wrong with a configuration. -/
inductive ConfigFault where
  | zeroPageSize
  | pageSizeExceeds (pageSize limit : Nat)
  | pageSizeOutside (pageSize limit : Nat)
  | malformed
  | words (text : String)
  deriving DecidableEq, Repr

def ConfigFault.message : ConfigFault → String
  | .zeroPageSize => "page_size must be positive"
  | .pageSizeExceeds pageSize limit => s!"page_size {pageSize} exceeds maximum {limit}"
  | .pageSizeOutside pageSize limit => s!"page size {pageSize} outside 1..={limit}"
  | .malformed => "malformed configuration"
  | .words text => text

/-- Broken promises between the parts of the store. -/
inductive InternalFault where
  | registeredWhileCheckedOut (page : PageId)
  | staleCheckout
  | words (text : String)
  deriving DecidableEq, Repr

def InternalFault.message : InternalFault → String
  | .registeredWhileCheckedOut page => s!"page {page.render} registered while checked out"
  | .staleCheckout => "checkout of a page copy that is gone"
  | .words text => text

inductive Error where
  | io (fault : IoFault)
  | pageCorrupted (page : PageId) (cause : Corruption)
  | pageFull
  | invalidPage (page : PageId) (pageCount : Nat)
  | tupleNotOnPage (page : PageId) (cause : Misplacement)
  | slotEmpty (page : PageId) (slot : Nat)
  | tupleNotPlaced
  | schemaMismatch (cause : Mismatch)
  | invalidSchema (cause : SchemaFault)
  | scanState (cause : ScanFault)
  | poolFull
  | permissionDenied (cause : Denial)
  | tableNotFound (table : Nat)
  | aborted (cause : Abort)
  | config (cause : ConfigFault)
  | invalidParameter (name value : String)
  | internal (cause : InternalFault)
  deriving DecidableEq, Repr

namespace Error

def message : Error → String
  | .io fault => "I/O error: " ++ fault.message
  | .pageCorrupted page cause => s!"Page corrupted: {page.render}, reason: {cause.message}"
  | .pageFull => "Page full, unable to insert tuple"
  | .invalidPage page pageCount => s!"Invalid page: {page.render} (file has {pageCount} pages)"
  | .tupleNotOnPage page cause => s!"Tuple not on page {page.render}: {cause.message}"
  | .slotEmpty page slot => s!"Slot {slot} on page {page.render} is already empty"
  | .tupleNotPlaced => "Tuple has no record id"
  | .schemaMismatch cause => "Schema mismatch: " ++ cause.message
  | .invalidSchema cause => "Invalid schema: " ++ cause.message
  | .scanState cause => "Iterator state error: " ++ cause.message
  | .poolFull => "Buffer pool full, unable to allocate frame"
  | .permissionDenied cause => "Permission denied: " ++ cause.message
  | .tableNotFound table => s!"Table not found: {table}"
  | .aborted cause => "Transaction aborted: " ++ cause.message
  | .config cause => "Configuration error: " ++ cause.message
  | .invalidParameter name value => s!"Invalid parameter: {name} = {value}"
  | .internal cause => "Internal error: " ++ cause.message

/-- Only that the page has no free slot: an insert goes on to the next page. -/
def isPageFull : Error → Bool
  | .pageFull => true
  | _ => false

end Error

end HeapStore
