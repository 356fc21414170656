import CheckedMemo.Script.Flow

/-!
# Terms for cells and caches

Making cells and caches, asking them, and opening views of them.  A target is looked up before the
other operands are evaluated, but for a membership test, whose key comes first.
-/

namespace CheckedMemo.Script

/-- Makes an object. -/
def create (c : Creation) : Term := fun _ => .perform (.create c)

/-- Makes a cell with a content. -/
def createCell (name : String) (content : Term) (label : Option String) : Term := fun sc =>
  .bind (content sc) fun v => .perform (.create (.cell name v label))

/-- Goes on with the place of a target and the value of a key. -/
def atKey (target : Target) (key : Term) (next : Place → Value → Program) : Term := fun sc =>
  .reach target fun p => .bind (key sc) (next p)

/-- Looks at a cell or cache. -/
def inspect (i : Place → Inspection) (target : Target) : Term := fun _ =>
  .reach target fun p => .perform (.inspect (i p))

/-- Looks at a cache with a key. -/
def inspectKey (i : Place → Value → Inspection) (target : Target) (key : Term) : Term :=
  atKey target key fun p k => .perform (.inspect (i p k))

/-- Whether a key has a stored value.  The key is evaluated before the cache is looked up. -/
def contains (key : Term) (target : Target) : Term := fun sc =>
  .bind (key sc) fun k => .reach target fun p => .contains p k

/-- Asks a cache for the value of a key, with a body that computes it. -/
def get (target : Target) (key compute : Term) : Term :=
  atKey target key fun p k => .get p k (computing compute)

/-- Asks a cache for the value of a key without computing it. -/
def peek (target : Target) (key : Term) : Term := atKey target key .peek

/-- Stores the value of a key, with a body that computes it, and gives nothing. -/
def populate (target : Target) (key compute : Term) : Term :=
  atKey target key fun p k => .populate p k (computing compute)

/-- Evaluates a term inside a view; the content of a cell stands for the key. -/
def within (target : Target) (mode : Mode) (key t : Term) : Term := fun sc =>
  atKey target key (fun p k => .view p mode k fun content => t { sc with key := content }) sc

/-- Opens a view under a name, unless one is open under it: then the key is not evaluated. -/
def openView (name : String) (target : Target) (mode : Mode) (key : Term) : Term := fun sc =>
  .branch (.perform (.view (.isOpen name))) (.done (.text "already open"))
    (atKey target key (fun p k => .perform (.view (.openAs name p mode k))) sc)

/-- Closes the view that is open under a name. -/
def closeView (name : String) (failure : Option Thrown) : Term := fun _ =>
  .perform (.view (.close name failure))

end CheckedMemo.Script
