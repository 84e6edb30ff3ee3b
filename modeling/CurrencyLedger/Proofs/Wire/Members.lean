import CurrencyLedger.Proofs.Wire.Faithful
import CurrencyLedger.Wire.Tagged

/-!
Faithful records and tagged types. The members of a record are found by their names wherever they
stand, so a written record reads back if no two members have one name and what is not written is
what a missing member stands for. A tagged type asks besides that its tags differ.
-/

namespace CurrencyLedger

variable {α β : Type} {ts : List Type} {depth : Nat} {number : Int → Node}

namespace Fields

def names : {ts : List Type} → Fields ts → List String
  | _, .nil => []
  | _, .cons field rest => field.name :: rest.names

/-- The slots when all that is written has been read. -/
def filled : {ts : List Type} → Fields ts → Tuple ts → Slots ts
  | _, .nil, () => ()
  | _, .cons field rest, (a, as) => (if field.hides a then none else some a, rest.filled as)

/-- Members that read back together. -/
inductive Faithful (depth : Nat) : {ts : List Type} → Fields ts → Prop
  | nil : Faithful depth .nil
  | cons {α : Type} {ts : List Type} {field : Field α} {rest : Fields ts}
      (fresh : field.name ∉ rest.names) (wire : field.wire.Faithful depth)
      (absent : ∀ a, field.hides a = true → field.absent = some a)
      (tail : rest.Faithful depth) : Faithful depth (.cons field rest)

/-- A member that is always written. -/
theorem Faithful.always {name : String} {wire : Wire α} {absent absentLast : Option α}
    {rest : Fields ts} (fresh : name ∉ rest.names) (faithful : wire.Faithful depth)
    (tail : rest.Faithful depth) :
    Faithful depth (.cons ⟨name, wire, absent, absentLast, fun _ => false⟩ rest) :=
  .cons fresh faithful (fun _ h => absurd h Bool.false_ne_true) tail

/-- A member that is left out where there is nothing. -/
theorem Faithful.unlessNone {name : String} {wire : Wire (Option α)}
    {absentLast : Option (Option α)} {rest : Fields ts} (fresh : name ∉ rest.names)
    (faithful : wire.Faithful depth) (tail : rest.Faithful depth) :
    Faithful depth (.cons ⟨name, wire, some none, absentLast, Option.isNone⟩ rest) :=
  .cons fresh faithful (fun a h => by rw [Option.isNone_iff_eq_none.1 h]) tail

theorem mem_names_of_write {fields : Fields ts} {as : Tuple ts} {name : String} {d : Doc}
    (h : (name, d) ∈ fields.write as) : name ∈ fields.names := by
  induction fields with
  | nil => exact absurd h List.not_mem_nil
  | cons field rest ih =>
    rw [write] at h
    split at h
    · exact List.mem_cons_of_mem _ (ih h)
    · rcases List.mem_cons.1 h with h | h
      · exact (Prod.mk.inj h).1 ▸ List.mem_cons_self
      · exact List.mem_cons_of_mem _ (ih h)

/-- Where a key is a text, its position does not matter. -/
theorem put_text (fields : Fields ts) (form : Form) (name : String) (value : Node)
    (position : Nat) (slots : Slots ts) :
    fields.put form (.text name) value position slots =
      fields.put form (.text name) value 0 slots := by
  induction fields generalizing position with
  | nil => rfl
  | cons field rest ih => simp only [put, Node.names, ih (position + 1), ih (0 + 1)]

/-- Entries of other names leave the first slot as it is. -/
theorem putEntries_cons {field : Field α} {rest : Fields ts} {members : List (String × Doc)}
    (other : ∀ name d, (name, d) ∈ members → name ≠ field.name) (form : Form)
    (slot : Option α) (slots : Slots ts) :
    (Fields.cons field rest).putEntries form (Node.shownMembers number members) (slot, slots) =
      (rest.putEntries form (Node.shownMembers number members) slots).map (Prod.mk slot) := by
  induction members generalizing slots with
  | nil => rfl
  | cons m members ih =>
    obtain ⟨name, d⟩ := m
    have hname : (name == field.name) = false :=
      beq_false_of_ne (other name d List.mem_cons_self)
    simp only [Node.shownMembers, putEntries, Node.isName, if_true, put, Node.names, hname,
      Bool.false_eq_true, if_false, rest.put_text form name _ (0 + 1)]
    cases rest.put form (.text name) (Node.shown number d) 0 slots with
    | error e => rfl
    | ok slots => exact ih (fun name d h => other name d (List.mem_cons_of_mem _ h)) slots

theorem putEntries_write {fields : Fields ts} (h : fields.Faithful depth) (form : Form)
    (keeps : Node.KeepsValue number) (as : Tuple ts) :
    fields.putEntries form (Node.shownMembers number (fields.write as)) fields.emptySlots =
      .ok (fields.filled as) := by
  induction h with
  | nil => rfl
  | @cons α ts field rest fresh wire absent tail ih =>
    obtain ⟨a, as⟩ := as
    have other : ∀ name d, (name, d) ∈ rest.write as → name ≠ field.name :=
      fun name d h e => fresh (e ▸ mem_names_of_write h)
    simp only [write, filled, emptySlots]
    split
    · rw [putEntries_cons other, ih]
      rfl
    · simp only [Node.shownMembers, putEntries, Node.isName, if_true, put, Node.names,
        beq_self_eq_true, wire.read_write form keeps, bind, Except.bind, pure, Except.pure]
      rw [putEntries_cons other, ih]
      rfl

theorem finish_filled {fields : Fields ts} (h : fields.Faithful depth) (as : Tuple ts) :
    fields.finish (fields.filled as) = .ok as := by
  induction h with
  | nil => rfl
  | @cons α ts field rest fresh wire absent tail ih =>
    obtain ⟨a, as⟩ := as
    have hslot : (if field.hides a then none else some a).or field.absent = some a := by
      split
      · exact absent a ‹_›
      · rfl
    simp only [filled, finish, hslot, ih, bind, Except.bind, pure, Except.pure]

theorem read_write {fields : Fields ts} (h : fields.Faithful depth) (title : String) (form : Form)
    (keeps : Node.KeepsValue number) (as : Tuple ts) :
    fields.read title form (.map (Node.shownMembers number (fields.write as))) = .ok as := by
  simp only [read, putEntries_write h form keeps, bind, Except.bind, finish_filled h]

/-- Each member is written to fit its own shape. -/
theorem fits_write {fields : Fields ts} (h : fields.Faithful depth) {as : Tuple ts}
    {name : String} {d : Doc} (mem : (name, d) ∈ fields.write as) (start : Nat) :
    ∃ shape i, (fields.shapes.zipIdx start).find? (fun p => name == p.1.1) =
        some ((name, shape), i) ∧ d.Fits depth shape := by
  induction h generalizing start with
  | nil => exact absurd mem List.not_mem_nil
  | @cons α ts field rest fresh wire absent tail ih =>
    obtain ⟨a, as⟩ := as
    rw [shapes, List.zipIdx_cons, List.find?_cons]
    rw [write] at mem
    have behind (mem : (name, d) ∈ rest.write as) :
        ∃ shape i, (match name == field.name with
            | true => some ((field.name, field.wire.shape), start)
            | false => (rest.shapes.zipIdx (start + 1)).find? fun p => name == p.1.1) =
          some ((name, shape), i) ∧ d.Fits depth shape := by
      have hname : name ≠ field.name := fun e => fresh (e ▸ mem_names_of_write mem)
      rw [beq_false_of_ne hname]
      exact ih mem (start + 1)
    split at mem
    · exact behind mem
    · rcases List.mem_cons.1 mem with mem | mem
      · obtain ⟨rfl, rfl⟩ := Prod.mk.inj mem
        exact ⟨field.wire.shape, start, by simp, wire.fits a⟩
      · exact behind mem

theorem fits_member {fields : Fields ts} (h : fields.Faithful depth) {as : Tuple ts}
    {name : String} {d : Doc} (mem : (name, d) ∈ fields.write as) :
    d.Fits depth ((Shape.record fields.shapes).member (.text name)) := by
  obtain ⟨shape, i, hfind, hfits⟩ := fits_write h mem 0
  simp only [Shape.member, Node.names, hfind]
  exact hfits

end Fields

theorem Wire.faithful_record {title : String} {fields : Fields ts} {members : α → Tuple ts}
    {make : Tuple ts → α} (h : fields.Faithful depth) (make_members : ∀ a, make (members a) = a) :
    (record title fields members make).Faithful (depth + 1) where
  read_write form number keeps a := by
    simp only [record, Node.shown, Fields.read_write h title form keeps, Except.map, make_members]
  fits a := .record nofun fun _ _ => Fields.fits_member h

namespace Case

/-- A kind of values whose documents read back without their tag. -/
structure Faithful (depth : Nat) (c : Case α) : Prop where
  unhinted : ∀ {a members}, c.members? a = some members →
    ∀ name d, (name, d) ∈ members → name ≠ hintMember
  read_members : ∀ {a members}, c.members? a = some members →
    ∀ {number : Int → Node}, Node.KeepsValue number →
      c.read .buffered (.map (Node.shownMembers number members)) = .ok a
  fits : ∀ {a members}, c.members? a = some members →
    ∀ name d, (name, d) ∈ members → d.Fits depth .any

theorem faithful_record {tag title : String} {fields : Fields ts} {members? : α → Option (Tuple ts)}
    {make : Tuple ts → α} (h : fields.Faithful depth) (unhinted : hintMember ∉ fields.names)
    (make_members : ∀ {a as}, members? a = some as → make as = a) :
    (record tag title fields members? make).Faithful depth where
  unhinted hm name d mem e := by
    obtain ⟨as, -, rfl⟩ := Option.map_eq_some_iff.1 hm
    exact unhinted (e ▸ Fields.mem_names_of_write mem)
  read_members hm number keeps := by
    obtain ⟨as, has, rfl⟩ := Option.map_eq_some_iff.1 hm
    simp only [record, Fields.read_write h title .buffered keeps, Except.map, make_members has]
  fits hm name d mem := by
    obtain ⟨as, -, rfl⟩ := Option.map_eq_some_iff.1 hm
    exact (Fields.fits_member h mem).anywhere

theorem faithful_single {tag title : String} {value : α} {isValue : α → Bool}
    (eq_value : ∀ a, isValue a = true → a = value) :
    (single tag title value isValue).Faithful depth where
  unhinted {a members} hm name d mem := by
    have : members = [] := by simp only [single] at hm; grind
    exact absurd mem (this ▸ List.not_mem_nil)
  read_members {a members} hm number keeps := by
    have : a = value := by simp only [single] at hm; grind
    rw [this]
    rfl
  fits {a members} hm name d mem := by
    have : members = [] := by simp only [single] at hm; grind
    exact absurd mem (this ▸ List.not_mem_nil)

/-- A tag is found again among different tags. -/
theorem find?_tag {cases : List (Case α)} {c : Case α} (nodup : (cases.map (·.tag)).Nodup)
    (mem : c ∈ cases) (form : Form) : Case.find? form (.text c.tag) cases = some c := by
  obtain ⟨i, hi⟩ := Wire.find?_zipIdx_of_nodup nodup mem 0
  simp only [Case.find?, Node.names, hi, Option.map_some]

end Case

/-- The tag is taken out of a document whose other members have other names. -/
theorem Node.splitHint_shown {members : List (String × Doc)} {tag : String}
    (unhinted : ∀ name d, (name, d) ∈ members → name ≠ hintMember) (form : Form) :
    (shown number (.record ((hintMember, .text tag) :: members))).splitHint form =
      .ok (.text tag, .map (shownMembers number members)) := by
  have hrest : ∀ entry ∈ shownMembers number members, entry.1.isHint form = false := by
    rw [shownMembers_eq_map]
    rintro _ mem
    obtain ⟨⟨name, d⟩, hm, rfl⟩ := List.mem_map.1 mem
    exact beq_false_of_ne (unhinted name d hm)
  have hpart : (shownMembers number ((hintMember, .text tag) :: members)).partition
      (fun entry => entry.1.isHint form) =
      ([(.text hintMember, .text tag)], shownMembers number members) := by
    rw [List.partition_eq_filter_filter, shownMembers]
    have hhint : (Node.text hintMember).isHint form = true := beq_self_eq_true hintMember
    simp only [List.filter_cons, hhint, if_true, Function.comp_apply, Bool.not_true,
      Bool.false_eq_true, if_false, shown, Prod.mk.injEq, List.cons.injEq, true_and]
    exact ⟨List.filter_eq_nil_iff.2 fun entry h => by simp [hrest entry h],
      List.filter_eq_self.2 fun entry h => by simp [hrest entry h]⟩
  rw [shown, splitHint, hpart]

theorem Wire.faithful_tagged {cases : List (Case α)} (each : ∀ c ∈ cases, c.Faithful depth)
    (tags : (cases.map (·.tag)).Nodup) (total : ∀ a, ∃ c ∈ cases, (c.members? a).isSome) :
    (tagged cases).Faithful (depth + 1) := by
  have written (a : α) : ∃ c ∈ cases, ∃ members, c.members? a = some members ∧
      (tagged cases).write a = .record ((hintMember, .text c.tag) :: members) := by
    obtain ⟨c, mem, hc⟩ := total a
    cases hfind : cases.findSome? fun c => (c.members? a).map fun members => (c.tag, members) with
    | none =>
      rw [List.findSome?_eq_none_iff] at hfind
      have := hfind c mem
      rw [Option.map_eq_none_iff] at this
      simp [this] at hc
    | some found =>
      obtain ⟨c, hc, hm⟩ := List.exists_of_findSome?_eq_some hfind
      obtain ⟨members, hmembers, rfl⟩ := Option.map_eq_some_iff.1 hm
      refine ⟨c, hc, members, hmembers, ?_⟩
      simp only [tagged, hfind]
  constructor
  · intro form number keeps a
    obtain ⟨c, mem, members, hm, hw⟩ := written a
    have readable := Node.isReadable_shown keeps (.record ((hintMember, .text c.tag) :: members))
    rw [hw]
    simp only [tagged, readable, if_true, Node.splitHint_shown ((each c mem).unhinted hm), bind,
      Except.bind, Case.find?_tag tags mem, (each c mem).read_members hm keeps]
  · intro a
    obtain ⟨c, mem, members, hm, hw⟩ := written a
    rw [hw]
    refine .record nofun fun name d h => ?_
    rcases List.mem_cons.1 h with h | h
    · obtain ⟨rfl, rfl⟩ := Prod.mk.inj h
      exact .text c.tag
    · exact (each c mem).fits hm name d h

end CurrencyLedger
