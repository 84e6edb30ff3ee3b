import CurrencyLedger.Proofs.Cbor.Reading

/-!
Where no name of a finite type is wanted, the places of a document do not matter to the CBOR reader:
`read_of_isFlat` says that it reads what it reads of any document.
-/

namespace CurrencyLedger

/-- A shape without a place for a name of a finite type. -/
inductive Shape.IsFlat : Shape → Prop
  | any : IsFlat .any
  | list {item : Shape} (h : IsFlat item) : IsFlat (.list item)
  | record {members : List (String × Shape)} (h : ∀ m ∈ members, IsFlat m.2) :
      IsFlat (.record members)

namespace Shape.IsFlat

variable {shape : Shape} (flat : shape.IsFlat)
include flat

theorem ne_choice : shape ≠ .choice := by
  rintro rfl
  cases flat

theorem tagged_eq : shape.tagged = shape := by
  cases flat <;> rfl

theorem item (position : Nat) : (shape.item position).IsFlat := by
  cases flat with
  | any => exact .any
  | list h => exact h
  | @record members h =>
    rw [Shape.item]
    cases hm : members[position]? with
    | none => exact .any
    | some m => exact h m (List.mem_of_getElem? hm)

theorem member (key : Node) : (shape.member key).IsFlat := by
  cases flat with
  | any => exact .any
  | list => exact .any
  | @record members h =>
    have each {found : Option ((String × Shape) × Nat)} (hfound : ∀ m ∈ found, m.1 ∈ members) :
        Shape.IsFlat ((found.map (·.1.2)).getD .any) := by
      cases found with
      | none => exact .any
      | some m => exact h _ (hfound m rfl)
    exact each fun m hm => List.fst_mem_of_mem_zipIdx (List.mem_of_find?_eq_some hm)

end Shape.IsFlat

namespace Cbor

namespace Frame

def IsFlat : Frame → Prop
  | .list shape _ _ | .key shape _ _ | .value shape _ _ _ => shape.IsFlat
  | .tag => True

/-- The container without its shape. -/
def plain : Frame → Frame
  | .list _ left items => .list .any left items
  | .key _ left entries => .key .any left entries
  | .value _ left entries name => .value .any left entries name
  | .tag => .tag

@[simp] theorem around?_plain (frame : Frame) : frame.plain.around? = frame.around? := by
  cases frame <;> rfl

@[simp] theorem next_plain (frame : Frame) : frame.plain.next = .any := by
  cases frame <;> rfl

theorem IsFlat.next {frame : Frame} (flat : frame.IsFlat) : frame.next.IsFlat := by
  cases frame with
  | list => exact Shape.IsFlat.item flat _
  | value => exact Shape.IsFlat.member flat _
  | _ => exact .any

end Frame

namespace State

/-- The state without the shapes of places. -/
def plain : State → State
  | .item _ frames => .item .any (frames.map Frame.plain)
  | state => state

def IsFlat : State → Prop
  | .item shape frames => shape.IsFlat ∧ ∀ frame ∈ frames, frame.IsFlat
  | _ => True

/-- The second state is the first one without shapes, which are flat. -/
structure Shadows (state shadow : State) : Prop where
  flat : state.IsFlat
  eq : shadow = state.plain

variable {frame : Frame} {frames : List Frame}

theorem around_plain (frames : List Frame) :
    (frames.map Frame.plain).filterMap Frame.around? = frames.filterMap Frame.around? := by
  rw [List.filterMap_map]
  exact congrArg (List.filterMap · frames) (funext Frame.around?_plain)

theorem reading_plain (state : State) : state.plain.reading = state.reading := by
  cases state with
  | item shape frames => rw [plain, reading, reading, around_plain]
  | _ => rfl

theorem shadows_fail (n : Node) : (fail n frames).Shadows (fail n (frames.map Frame.plain)) where
  flat := trivial
  eq := by
    rw [fail, around_plain]
    rfl

theorem place_list {left : Option Nat} (h : left ≠ some 1) (n : Node) (shape : Shape)
    (items : List Node) (frames : List Frame) :
    place n (.list shape left items :: frames) =
      inside (.list shape (left.map (· - 1)) (n :: items)) frames := by
  rw [place]
  exact h

theorem place_value {left : Option Nat} (h : left ≠ some 1) (n key : Node) (shape : Shape)
    (entries : List (Node × Node)) (frames : List Frame) :
    place n (.value shape left entries key :: frames) =
      inside (.key shape (left.map (· - 1)) ((key, n) :: entries)) frames := by
  rw [place]
  exact h

section frames

variable (flat : ∀ frame ∈ frames, frame.IsFlat)
include flat

theorem shadows_inside (h : frame.IsFlat) :
    (inside frame frames).Shadows (inside frame.plain (frames.map Frame.plain)) where
  flat := ⟨h.next, List.forall_mem_cons.2 ⟨h, flat⟩⟩
  eq := by rw [inside, inside, Frame.next_plain, plain, List.map_cons]

theorem shadows_place (n : Node) :
    (place n frames).Shadows (place n (frames.map Frame.plain)) := by
  induction frames generalizing n with
  | nil => exact ⟨trivial, rfl⟩
  | cons frame rest ih =>
    obtain ⟨hframe, hrest⟩ := List.forall_mem_cons.1 flat
    rw [List.map_cons]
    cases frame with
    | list shape left items =>
      by_cases hleft : left = some 1
      · subst hleft
        have hnode := Shape.listNode_of_ne hframe.ne_choice (n :: items).reverse
        rw [Frame.plain, place, place, hnode]
        exact ih hrest _
      · rw [place_list hleft, Frame.plain, place_list hleft]
        exact shadows_inside hrest hframe
    | key shape left entries => exact shadows_inside hrest hframe
    | value shape left entries name =>
      by_cases hleft : left = some 1
      · subst hleft
        have hnode := Shape.mapNode_of_ne hframe.ne_choice ((name, n) :: entries).reverse
        rw [Frame.plain, place, place, hnode]
        exact ih hrest _
      · rw [place_value hleft, Frame.plain, place_value hleft]
        exact shadows_inside hrest hframe
    | tag => exact ih hrest _

theorem shadows_enter (h : frame.IsFlat) :
    (enter frame frames).Shadows (enter frame.plain (frames.map Frame.plain)) := by
  cases frame with
  | list shape left items =>
    rcases left with _ | _ | left
    · exact shadows_inside flat h
    · exact shadows_place flat _
    · exact shadows_inside flat h
  | key shape left entries =>
    rcases left with _ | _ | left
    · exact shadows_inside flat h
    · exact shadows_place flat _
    · exact shadows_inside flat h
  | value shape left entries name => exact shadows_inside flat h
  | tag => exact shadows_inside flat h

theorem shadows_leave : (leave frames).Shadows (leave (frames.map Frame.plain)) := by
  cases frames with
  | nil => exact shadows_fail _
  | cons frame rest =>
    obtain ⟨hframe, hrest⟩ := List.forall_mem_cons.1 flat
    cases frame with
    | list shape left items =>
      cases left with
      | none =>
        show (place (shape.listNode items.reverse) rest).Shadows _
        rw [Shape.listNode_of_ne hframe.ne_choice]
        exact shadows_place hrest _
      | some left => exact shadows_fail _
    | key shape left entries =>
      cases left with
      | none =>
        show (place (shape.mapNode entries.reverse) rest).Shadows _
        rw [Shape.mapNode_of_ne hframe.ne_choice]
        exact shadows_place hrest _
      | some left => exact shadows_fail _
    | value shape left entries name => exact shadows_fail _
    | tag => exact shadows_fail _

end frames

theorem shadows_deepen {state shadow : State} (h : state.Shadows shadow) :
    (deepen frames state).Shadows (deepen (frames.map Frame.plain) shadow) := by
  rw [deepen, deepen, List.length_map]
  split
  · exact shadows_fail _
  · exact h

theorem Shadows.step {state shadow : State} (h : state.Shadows shadow) (t : Token) :
    (state.step t).Shadows (shadow.step t) := by
  obtain ⟨flat, rfl⟩ := h
  cases state with
  | item shape frames =>
    obtain ⟨hshape, hframes⟩ := flat
    cases t with
    | openList count =>
      exact shadows_deepen (@shadows_enter (.list shape count []) _ hframes hshape)
    | openMap short count =>
      have hframe : Frame.map shape short count = .key shape count [] :=
        Frame.map_of_ne hshape.ne_choice short count
      refine shadows_deepen ?_
      rw [hframe]
      exact @shadows_enter (.key shape count []) _ hframes hshape
    | endMark => exact shadows_leave hframes
    | tag =>
      refine shadows_deepen ⟨⟨?_, List.forall_mem_cons.2 ⟨trivial, hframes⟩⟩, rfl⟩
      rw [hshape.tagged_eq]
      exact hshape
    | atom n => exact shadows_place hframes n
    | bad => exact shadows_fail _
  | done n => exact ⟨trivial, rfl⟩
  | trailing n => exact ⟨trivial, rfl⟩
  | failed n => exact ⟨trivial, rfl⟩

theorem Shadows.foldl {state shadow : State} (h : state.Shadows shadow) (tokens : List Token) :
    (tokens.foldl State.step state).Shadows (tokens.foldl State.step shadow) := by
  induction tokens generalizing state shadow with
  | nil => exact h
  | cons t rest ih => exact ih (h.step t)

end State

theorem read_of_isFlat {shape : Shape} (flat : shape.IsFlat) (bs : List UInt8) :
    read shape bs = read .any bs := by
  have start : (State.item shape []).Shadows (.item .any []) := ⟨⟨flat, nofun⟩, rfl⟩
  rw [read, read, (start.foldl _).eq, State.reading_plain]

end Cbor

end CurrencyLedger
