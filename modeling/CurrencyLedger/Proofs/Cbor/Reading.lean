import CurrencyLedger.Cbor.Reader
import CurrencyLedger.Proofs.Cbor.Lexing

/-!
Written CBOR reads back: `read_bytes` says that the bytes of a document that fits its place are read
as the document and nothing behind it, where the numbers in heads have 64 bits. This holds of every
byte string that is shorter than that.
-/

namespace CurrencyLedger

theorem Shape.listNode_of_ne {shape : Shape} (h : shape ≠ .choice) (items : List Node) :
    shape.listNode items = .list items := by
  cases shape <;> first | rfl | exact absurd rfl h

theorem Shape.mapNode_of_ne {shape : Shape} (h : shape ≠ .choice) (entries : List (Node × Node)) :
    shape.mapNode entries = .map entries := by
  cases shape <;> first | rfl | exact absurd rfl h

namespace Cbor

open Node (shown shownMembers depthLimit)

theorem Frame.map_of_ne {shape : Shape} (h : shape ≠ .choice) (short : Bool) (count : Option Nat) :
    Frame.map shape short count = .key shape count [] := by
  cases shape <;> first | rfl | exact absurd rfl h

section Lengths

theorem length_head_pos (major argument : Nat) : 0 < (head major argument).length := by
  rw [head_eq]
  exact Nat.succ_pos _

theorem length_bytes_pos (d : Doc) : 0 < (bytes d).length := by
  cases d with
  | int i => rw [bytes]; split <;> exact length_head_pos _ _
  | null => exact Nat.one_pos
  | bool b => exact Nat.one_pos
  | text s =>
    rw [bytes, textBytes, List.length_append]
    exact Nat.add_pos_left (length_head_pos _ _) _
  | list items =>
    rw [bytes, List.length_append]
    exact Nat.add_pos_left (length_head_pos _ _) _
  | record members =>
    rw [bytes, List.length_append]
    exact Nat.add_pos_left (length_head_pos _ _) _

theorem length_le_itemBytes (items : List Doc) : items.length ≤ (itemBytes items).length := by
  induction items with
  | nil => exact Nat.le_refl 0
  | cons d rest ih =>
    have := length_bytes_pos d
    rw [itemBytes, List.length_append, List.length_cons]
    omega

theorem length_le_memberBytes (members : List (String × Doc)) :
    members.length ≤ (memberBytes members).length := by
  induction members with
  | nil => exact Nat.le_refl 0
  | cons m rest ih =>
    have := length_bytes_pos m.2
    rw [memberBytes, List.length_append, List.length_append, List.length_cons]
    omega

theorem utf8ByteSize_le_textBytes (s : String) : s.utf8ByteSize ≤ (textBytes s).length := by
  rw [textBytes, List.length_append, Text.length_utf8]
  exact Nat.le_add_left _ _

end Lengths

namespace State

/-- The state when bytes have been read on from this one. -/
def run (state : State) (bs : List UInt8) : State :=
  (Token.list bs).foldl step state

theorem run_nil (state : State) : state.run [] = state := by
  rw [run, Token.list, List.foldl_nil]

theorem run_of_list {state : State} {t : Token} {bs rest : List UInt8}
    (h : Token.list bs = t :: Token.list rest) : state.run bs = (state.step t).run rest := by
  rw [run, h, List.foldl_cons, run]

theorem deepen_of_lt {frames : List Frame} (h : frames.length < depthLimit) (next : State) :
    deepen frames next = next :=
  if_neg (Nat.not_le.2 h)

/-- The state after an item that is not the last one. -/
theorem place_item (n : Node) (shape : Shape) (left : Nat) (items : List Node)
    (frames : List Frame) :
    place n (.list shape (some (left + 2)) items :: frames) =
      inside (.list shape (some (left + 1)) (n :: items)) frames := by
  rw [place] <;> simp

theorem place_entry (n key : Node) (shape : Shape) (left : Nat) (entries : List (Node × Node))
    (frames : List Frame) :
    place n (.value shape (some (left + 2)) entries key :: frames) =
      inside (.key shape (some (left + 1)) ((key, n) :: entries)) frames := by
  rw [place] <;> simp

end State

/-- A document reads back at a place of a shape where that many levels of nesting are left. -/
def ReadsBack (depth : Nat) (shape : Shape) (d : Doc) : Prop :=
  ∀ (frames : List Frame) (rest : List UInt8), frames.length + depth ≤ depthLimit →
    (bytes d).length < UInt64.size →
    (State.item shape frames).run (bytes d ++ rest) =
      (State.place (shown number d) frames).run rest

variable {depth : Nat} {shape : Shape} {frames : List Frame} {rest : List UInt8}

/-- The rest of a list, with the items that have been read, the latest first. -/
theorem run_itemBytes (place : shape ≠ .choice) {items : List Doc} {before : List Node}
    (each : ∀ i d, items[i]? = some d → ReadsBack depth (shape.item (before.length + i)) d)
    (levels : frames.length + (depth + 1) ≤ depthLimit)
    (bound : (itemBytes items).length < UInt64.size) (nonempty : items ≠ []) :
    (State.inside (.list shape (some items.length) before) frames).run (itemBytes items ++ rest) =
      (State.place (.list (before.reverse ++ items.map (shown number))) frames).run rest := by
  induction items generalizing before with
  | nil => exact absurd rfl nonempty
  | cons d items ih =>
    rw [itemBytes, List.length_append] at bound
    have hd : ReadsBack depth (shape.item before.length) d := each 0 d rfl
    rw [itemBytes, List.append_assoc, State.inside, Frame.next,
      hd _ _ (by rw [List.length_cons]; omega) (by omega)]
    cases items with
    | nil =>
      rw [List.length_singleton, State.place, Shape.listNode_of_ne place, itemBytes,
        List.nil_append, List.map_singleton, List.reverse_cons]
    | cons d' items =>
      rw [List.length_cons, List.length_cons, State.place_item, ← List.length_cons,
        ih ?_ (by omega) (List.cons_ne_nil _ _)]
      · simp
      · intro i d hd
        rw [List.length_cons, Nat.add_assoc, Nat.add_comm 1 i]
        exact each (i + 1) d hd

/-- The rest of a map, with the entries that have been read, the latest first. -/
theorem run_memberBytes (place : shape ≠ .choice) {members : List (String × Doc)}
    {before : List (Node × Node)}
    (each : ∀ name d, (name, d) ∈ members → ReadsBack depth (shape.member (.text name)) d)
    (levels : frames.length + (depth + 1) ≤ depthLimit)
    (bound : (memberBytes members).length < UInt64.size) (nonempty : members ≠ []) :
    (State.inside (.key shape (some members.length) before) frames).run
        (memberBytes members ++ rest) =
      (State.place (.map (before.reverse ++ shownMembers number members)) frames).run rest := by
  induction members generalizing before with
  | nil => exact absurd rfl nonempty
  | cons m members ih =>
    obtain ⟨name, d⟩ := m
    have hd := each name d List.mem_cons_self
    rw [memberBytes, List.length_append, List.length_append] at bound
    have hname := utf8ByteSize_le_textBytes name
    rw [memberBytes, List.append_assoc, List.append_assoc, State.inside,
      State.run_of_list (Token.list_text (by omega) _), State.step, State.place, State.inside,
      Frame.next, hd _ _ (by rw [List.length_cons]; omega) (by omega)]
    cases members with
    | nil =>
      rw [List.length_singleton, State.place, Shape.mapNode_of_ne place, memberBytes,
        List.nil_append, shownMembers, shownMembers, List.reverse_cons]
    | cons m' members =>
      rw [List.length_cons, List.length_cons, State.place_entry, ← List.length_cons,
        ih (fun name d h => each name d (List.mem_cons_of_mem _ h)) (by omega) (List.cons_ne_nil _ _)]
      simp [shownMembers]

theorem readsBack_list (place : shape ≠ .choice) {items : List Doc}
    (each : ∀ i d, items[i]? = some d → ReadsBack depth (shape.item i) d) :
    ReadsBack (depth + 1) shape (.list items) := fun frames rest levels bound => by
  have hlength := length_le_itemBytes items
  rw [bytes, List.length_append] at bound
  rw [bytes, List.append_assoc, State.run_of_list (Token.list_openList (by omega) _), State.step,
    State.deepen_of_lt (by omega), shown, Node.shownItems_eq_map]
  cases items with
  | nil => rfl
  | cons d items =>
    exact run_itemBytes place (by simpa using each) levels (by omega) (List.cons_ne_nil _ _)

theorem readsBack_record (place : shape ≠ .choice) {members : List (String × Doc)}
    (each : ∀ name d, (name, d) ∈ members → ReadsBack depth (shape.member (.text name)) d) :
    ReadsBack (depth + 1) shape (.record members) := fun frames rest levels bound => by
  have hlength := length_le_memberBytes members
  rw [bytes, List.length_append] at bound
  rw [bytes, List.append_assoc, State.run_of_list (Token.list_openMap (by omega) _), State.step,
    State.deepen_of_lt (by omega), Frame.map_of_ne place, shown]
  cases members with
  | nil => rfl
  | cons m members =>
    exact run_memberBytes place each levels (by omega) (List.cons_ne_nil _ _)

/-- A value without parts that is one token. -/
theorem readsBack_atom {d : Doc}
    (h : ∀ rest, Token.list (bytes d ++ rest) = .atom (shown number d) :: Token.list rest) :
    ReadsBack depth shape d := fun frames rest _ _ => by
  rw [State.run_of_list (h rest), State.step]

theorem readsBack_of_fits {d : Doc} (h : d.Fits depth shape) : ReadsBack depth shape d := by
  induction h with
  | null => exact readsBack_atom fun rest => @Token.list_simple rest 0xf6 _ rfl
  | bool b =>
    cases b with
    | false => exact readsBack_atom fun rest => @Token.list_simple rest 0xf4 _ rfl
    | true => exact readsBack_atom fun rest => @Token.list_simple rest 0xf5 _ rfl
  | int least greatest => exact readsBack_atom (Token.list_int least greatest)
  | text s =>
    intro frames rest _ bound
    have := utf8ByteSize_le_textBytes s
    rw [bytes] at bound ⊢
    exact State.run_of_list (Token.list_text (by omega) rest)
  | list place _ ih => exact readsBack_list place ih
  | record place _ ih => exact readsBack_record place ih

/-- The bytes of a document are read as the document. -/
theorem read_bytes {d : Doc} (h : d.Fits depthLimit shape)
    (bound : (bytes d).length < UInt64.size) : read shape (bytes d) = ⟨shown number d, false⟩ := by
  have hrun := readsBack_of_fits h [] [] (Nat.le_of_eq (Nat.zero_add _)) bound
  rw [List.append_nil, State.run_nil] at hrun
  show ((State.item shape []).run (bytes d)).reading = _
  rw [hrun]
  rfl

end Cbor

end CurrencyLedger
