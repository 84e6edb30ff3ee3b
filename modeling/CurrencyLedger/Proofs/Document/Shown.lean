import CurrencyLedger.Wire.Basic

/-!
Written documents as their readers meet them.

`Node.shown` is what is read where a document was written: formats differ in the nodes of integers
only. `Doc.Fits` says what a document has to keep to, to be read in every format: its integers have
64 bits, it is not nested too deeply, and no container stands where a name is wanted.
-/

namespace CurrencyLedger

namespace Node

mutual

/-- What is read where a document was written, in a format with the given nodes of integers. -/
def shown (number : Int → Node) : Doc → Node
  | .null => .null
  | .bool b => .bool b
  | .int i => number i
  | .text s => .text s
  | .list items => .list (shownItems number items)
  | .record members => .map (shownMembers number members)

def shownItems (number : Int → Node) : List Doc → List Node
  | [] => []
  | d :: rest => shown number d :: shownItems number rest

def shownMembers (number : Int → Node) : List (String × Doc) → List (Node × Node)
  | [] => []
  | (name, d) :: rest => (.text name, shown number d) :: shownMembers number rest

end

/-- The nodes of integers tell their values. -/
def KeepsValue (number : Int → Node) : Prop :=
  ∀ i, (number i).int? = some i

theorem keepsValue_int : KeepsValue .int :=
  fun _ => rfl

theorem shownItems_eq_map (number : Int → Node) (items : List Doc) :
    shownItems number items = items.map (shown number) := by
  induction items with
  | nil => rfl
  | cons d rest ih => rw [shownItems, ih, List.map_cons]

theorem shownMembers_eq_map (number : Int → Node) (members : List (String × Doc)) :
    shownMembers number members = members.map fun m => (.text m.1, shown number m.2) := by
  induction members with
  | nil => rfl
  | cons m rest ih => rw [shownMembers, ih, List.map_cons]

theorem isReadable_number {number : Int → Node} (keeps : KeepsValue number) (i : Int) :
    (number i).isReadable = true := by
  have h := keeps i
  cases hn : number i <;> simp_all [int?, isReadable]

mutual

/-- A written document has a value in every part. -/
theorem isReadable_shown {number : Int → Node} (keeps : KeepsValue number) :
    ∀ d : Doc, (shown number d).isReadable = true
  | .null => rfl
  | .bool _ => rfl
  | .int i => isReadable_number keeps i
  | .text _ => rfl
  | .list items => by rw [shown, isReadable, areReadable_shownItems keeps items]
  | .record members => by rw [shown, isReadable, entriesReadable_shownMembers keeps members]

theorem areReadable_shownItems {number : Int → Node} (keeps : KeepsValue number) :
    ∀ items : List Doc, areReadable (shownItems number items) = true
  | [] => rfl
  | d :: rest => by
    rw [shownItems, areReadable, isReadable_shown keeps d, areReadable_shownItems keeps rest]
    rfl

theorem entriesReadable_shownMembers {number : Int → Node} (keeps : KeepsValue number) :
    ∀ members : List (String × Doc), entriesReadable (shownMembers number members) = true
  | [] => rfl
  | (name, d) :: rest => by
    rw [shownMembers, entriesReadable, isReadable_shown keeps d,
      entriesReadable_shownMembers keeps rest]
    rfl

end

/-- Only null is read as null or as nothing. -/
theorem shown_eq_null {number : Int → Node} (keeps : KeepsValue number) {d : Doc}
    (h : shown number d = .null ∨ shown number d = .undefined) : d = .null := by
  cases d with
  | null => rfl
  | int i =>
    have hi := keeps i
    rcases h with h | h <;> rw [shown] at h <;> simp [h, int?] at hi
  | _ => simp [shown] at h

end Node

namespace Doc

/-- A document that can be read at a place of a shape, with levels for `depth` containers left. -/
inductive Fits : Nat → Shape → Doc → Prop
  | null {depth : Nat} {shape : Shape} : Fits depth shape .null
  | bool {depth : Nat} {shape : Shape} (b : Bool) : Fits depth shape (.bool b)
  | int {depth : Nat} {shape : Shape} {i : Int} (least : -9223372036854775808 ≤ i)
      (greatest : i < 18446744073709551616) : Fits depth shape (.int i)
  | text {depth : Nat} {shape : Shape} (s : String) : Fits depth shape (.text s)
  | list {depth : Nat} {shape : Shape} {items : List Doc} (place : shape ≠ .choice)
      (each : ∀ i d, items[i]? = some d → Fits depth (shape.item i) d) :
      Fits (depth + 1) shape (.list items)
  | record {depth : Nat} {shape : Shape} {members : List (String × Doc)}
      (place : shape ≠ .choice)
      (each : ∀ name d, (name, d) ∈ members → Fits depth (shape.member (.text name)) d) :
      Fits (depth + 1) shape (.record members)

/-- A document that fits somewhere fits where nothing is known of the place. -/
theorem Fits.anywhere {depth : Nat} {shape : Shape} {d : Doc} (h : Fits depth shape d) :
    Fits depth .any d := by
  induction h with
  | null => exact .null
  | bool b => exact .bool b
  | int least greatest => exact .int least greatest
  | text s => exact .text s
  | list _ _ ih => exact .list nofun ih
  | record _ _ ih => exact .record nofun ih

end Doc

end CurrencyLedger
