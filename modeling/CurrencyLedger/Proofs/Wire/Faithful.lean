import CurrencyLedger.Proofs.Collection.Traversal
import CurrencyLedger.Proofs.Document.Shown

/-!
Faithful wires: what is written reads back, whatever the form it is read from, and can be read in
every format. Each way of building a wire keeps this.
-/

namespace CurrencyLedger.Wire

/-- What is written reads back, also where integers are shown with a mark of their width, and it is
nested no more than `depth` levels deep. -/
structure Faithful {α : Type} (depth : Nat) (w : Wire α) : Prop where
  read_write : ∀ (form : Form) {number : Int → Node} (_ : Node.KeepsValue number) (a : α),
    w.read form (Node.shown number (w.write a)) = .ok a
  fits : ∀ a, (w.write a).Fits depth w.shape

variable {α β ε : Type} {depth : Nat}

theorem faithful_string : string.Faithful depth where
  read_write _ _ _ _ := rfl
  fits := .text

/-- A text form is faithful if `parse` takes what `print` gives. -/
theorem faithful_text {print : α → String} {parse : String → Except ε α} {message : ε → String}
    (parse_print : ∀ a, parse (print a) = .ok a) :
    (text print parse message).Faithful depth where
  read_write form number keeps a := by
    have h := (@faithful_string depth).read_write form keeps (print a)
    simp only [text, string] at h ⊢
    simp only [h, parse_print, bind, Except.bind]
  fits a := .text (print a)

theorem faithful_nat {limit : Nat} {expected : String} (bound : limit < UInt64.size) :
    (nat limit expected).Faithful depth where
  read_write form number keeps n := by
    simp only [nat, Node.shown, keeps n.val]
    exact dif_pos ⟨n.property, Int.natCast_nonneg n.val⟩
  fits n := by
    have := n.property
    refine .int ?_ ?_ <;> simp only [UInt64.size] at bound <;> omega

theorem Faithful.map {w : Wire α} {make : α → β} {back : β → α} (h : w.Faithful depth)
    (make_back : ∀ b, make (back b) = b) : (w.map make back).Faithful depth where
  read_write form number keeps b := by
    simp only [Wire.map, h.read_write form keeps, Except.map, make_back]
  fits b := h.fits (back b)

theorem Faithful.refine {w : Wire α} {back : β → α} {make : α → Except ε β}
    {message : ε → String} (h : w.Faithful depth) (make_back : ∀ b, make (back b) = .ok b) :
    (w.refine back make message).Faithful depth where
  read_write form number keeps b := by
    simp only [Wire.refine, h.read_write form keeps, bind, Except.bind, make_back]
  fits b := h.fits (back b)

theorem faithful_uint64 : uint64.Faithful depth :=
  (faithful_nat (by decide)).map fun n => UInt64.ofNat_toNat

theorem faithful_uint32 : uint32.Faithful depth :=
  (faithful_nat (by decide)).map fun n => UInt32.ofNat_toNat

theorem Faithful.list {w : Wire α} (h : w.Faithful depth) : w.list.Faithful (depth + 1) where
  read_write form number keeps as := by
    simp only [Wire.list, Node.shown, Node.shownItems_eq_map]
    rw [Traversal.mapM_eq_ok_iff, List.map_map, List.forall₂_map_left_iff]
    exact List.forall₂_same.2 fun a _ => h.read_write form keeps a
  fits as := by
    refine .list nofun fun i d hd => ?_
    rw [List.getElem?_map, Option.map_eq_some_iff] at hd
    obtain ⟨a, -, rfl⟩ := hd
    exact h.fits a

/-- A value must not be written as null, which stands for none. -/
theorem Faithful.optional {w : Wire α} (h : w.Faithful depth) (nonnull : ∀ a, w.write a ≠ .null) :
    w.optional.Faithful depth where
  read_write form number keeps
    | none => rfl
    | some a => by
      have hread := h.read_write form keeps a
      have hnull : Node.shown number (w.write a) ≠ .null := fun e =>
        nonnull a (Node.shown_eq_null keeps (.inl e))
      have hundefined : Node.shown number (w.write a) ≠ .undefined := fun e =>
        nonnull a (Node.shown_eq_null keeps (.inr e))
      simp only [Wire.optional, hread]
      rfl
  fits
    | none => .null
    | some a => h.fits a

/-- The entry of a list with different names that a name belongs to. -/
theorem find?_zipIdx_of_nodup {name : α → String} {all : List α} {a : α}
    (nodup : (all.map name).Nodup) (mem : a ∈ all) (start : Nat) :
    ∃ i, (all.zipIdx start).find? (fun p => name a == name p.1) = some (a, i) := by
  induction all generalizing start with
  | nil => simp at mem
  | cons b rest ih =>
    obtain ⟨fresh, nodup⟩ := List.nodup_cons.1 nodup
    rw [List.zipIdx_cons, List.find?_cons]
    by_cases hb : name a = name b
    · rcases List.mem_cons.1 mem with rfl | mem
      · exact ⟨start, by simp⟩
      · exact absurd (List.mem_map.2 ⟨a, mem, hb⟩) fresh
    · rw [beq_false_of_ne hb]
      exact ih nodup ((List.mem_cons.1 mem).resolve_left fun e => hb (congrArg name e)) (start + 1)

theorem faithful_choice {expected : String} {all : List α} {name : α → String}
    (nodup : (all.map name).Nodup) (mem : ∀ a, a ∈ all) :
    (choice expected all name).Faithful depth where
  read_write form number keeps a := by
    obtain ⟨i, hi⟩ := find?_zipIdx_of_nodup nodup (mem a) 0
    simp only [choice, Node.shown, name?, Option.bind_some, Node.names, hi]
  fits a := .text (name a)

end CurrencyLedger.Wire
