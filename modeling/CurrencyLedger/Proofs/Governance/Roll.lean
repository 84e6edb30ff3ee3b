import CurrencyLedger.Proofs.Ledger.Place
import CurrencyLedger.Proofs.Processing.Accounting
import CurrencyLedger.Proofs.Wire.Peeking

/-!
The rolls of the suffrage: its members and its candidates as finite maps by address. `IsRoll` has
the laws of such a map, which is in one form however it was made: from a list with addresses in any
order and more than once, by reading such a list from a document, or by insertions and removals.
`isRoll_members_and_candidates` says that both kinds of sets follow them.
-/

namespace CurrencyLedger

open Traversal

namespace Wire

variable {α : Type}

/-- The document of a set, with its items in any order and at any address. -/
def listed (item : Wire α) : Wire (List α) :=
  record "struct Raw" (nodesFields item) (fun items => (items, ())) (fun (items, ()) => items)

/-- The same document with the tag of a payload. -/
def listedPayload (kind : Payload.Kind) (item : Wire α) : Wire (List α) :=
  tagged [.record kind.hint "struct Raw" (nodesFields item) (fun items => some (items, ()))
    (fun (items, ()) => items)]

theorem hintMember_not_mem_nodesFields (item : Wire α) : hintMember ∉ (nodesFields item).names := by
  show hintMember ∉ ["nodes"]
  decide

theorem keyedList_read (item : Wire α) (key : α → String) (form : Form) (n : Node) :
    (keyedList item key).read form n = ((listed item).read form n).map .ofList := by
  simp only [keyedList, listed, record]
  cases (nodesFields item).read "struct Raw" form n <;> rfl

/-- What is read from a document is made of the items that it lists. -/
theorem decode_keyedList (item : Wire α) (key : α → String) (format : Format) (bytes : List UInt8) :
    format.decode (keyedList item key) bytes =
      (format.decode (listed item) bytes).map .ofList := by
  have reading (form : Form) (read : Reading) : (keyedList item key).ofReading form read =
      ((listed item).ofReading form read).map .ofList := by
    simp only [ofReading, keyedList_read]
    cases (listed item).read form read.root with
    | error e => rfl
    | ok items =>
      simp only [bind, Except.bind, Except.map]
      cases read.trailing <;> rfl
  cases format with
  | json => exact reading .json (Json.read bytes)
  | cbor => exact reading .cbor (Cbor.read (keyedList item key).shape bytes)

theorem faithful_listed {depth : Nat} {item : Wire α} (h : item.Faithful depth) :
    (listed item).Faithful (depth + 2) :=
  faithful_record (faithful_nodesFields h) fun _ => rfl

/-- A tagged document is read by a case, without its tag. -/
theorem exists_case_of_tagged {cases : List (Case α)} {form : Form} {n : Node} {a : α}
    (h : (tagged cases).read form n = .ok a) :
    ∃ tag content, n.splitHint form = .ok (tag, content) ∧
      ∃ c ∈ cases, c.read .buffered content = .ok a := by
  simp only [tagged] at h
  split at h
  · obtain ⟨⟨tag, content⟩, hsplit, h⟩ := bind_eq_ok.1 h
    dsimp only at h
    split at h
    · next c hc => exact ⟨tag, content, hsplit, c, (mem_of_find? hc).1, h⟩
    · cases h
  · cases h

/-- A document with the tag of a case in front is read by the case. -/
theorem tagged_read_shown {cases : List (Case α)} {c : Case α}
    (tags : (cases.map (·.tag)).Nodup) (mem : c ∈ cases) {number : Int → Node}
    (keeps : Node.KeepsValue number) {members : List (String × Doc)}
    (unhinted : ∀ name d, (name, d) ∈ members → name ≠ hintMember) (form : Form) :
    (tagged cases).read form
        (Node.shown number (.record ((hintMember, .text c.tag) :: members))) =
      c.read .buffered (.map (Node.shownMembers number members)) := by
  have readable := Node.isReadable_shown keeps (.record ((hintMember, .text c.tag) :: members))
  simp only [tagged, readable, if_true, Node.splitHint_shown unhinted, bind, Except.bind,
    Case.find?_tag tags mem]

theorem faithful_listedPayload {depth : Nat} {kind : Payload.Kind} {item : Wire α}
    (h : item.Faithful depth) : (listedPayload kind item).Faithful (depth + 2) := by
  refine faithful_tagged (fun c hc => ?_) (List.nodup_singleton _) fun items => ?_
  · obtain rfl := List.mem_singleton.1 hc
    refine Case.faithful_record (faithful_nodesFields h) (hintMember_not_mem_nodesFields item) ?_
    intro items as hitems
    cases hitems
    rfl
  · exact ⟨_, List.mem_singleton_self _, rfl⟩

end Wire

theorem Payload.listed_of_read_members {c : Case Payload} (hc : c ∈ cases) {form : Form} {n : Node}
    {s : Members} (h : c.read form n = .ok (.members s)) :
    ∃ items, (Wire.listed Wire.member).read form n = .ok items ∧ s = .ofList items := by
  simp only [cases, List.mem_cons, List.not_mem_nil, or_false] at hc
  rcases hc with rfl | rfl | rfl | rfl | rfl | rfl <;>
    obtain ⟨⟨items, ⟨⟩⟩, hread, hmake⟩ := map_eq_ok.1 h <;> cases hmake
  exact ⟨items, map_eq_ok.2 ⟨_, hread, rfl⟩, rfl⟩

theorem Payload.listed_of_read_candidates {c : Case Payload} (hc : c ∈ cases) {form : Form}
    {n : Node} {s : Candidates} (h : c.read form n = .ok (.candidates s)) :
    ∃ items, (Wire.listed Wire.candidate).read form n = .ok items ∧ s = .ofList items := by
  simp only [cases, List.mem_cons, List.not_mem_nil, or_false] at hc
  rcases hc with rfl | rfl | rfl | rfl | rfl | rfl <;>
    obtain ⟨⟨items, ⟨⟩⟩, hread, hmake⟩ := map_eq_ok.1 h <;> cases hmake
  exact ⟨items, map_eq_ok.2 ⟨_, hread, rfl⟩, rfl⟩

/-- A payload's document is read by the case that has its tag. -/
theorem Payload.decode_listedPayload {α : Type} {item : Wire α} {kind : Kind}
    {members? : Payload → Option (Tuple [List α])} {make : Tuple [List α] → Payload}
    (mem : Case.record kind.hint "struct Raw" (Wire.nodesFields item) members? make ∈ cases)
    (faithful : ∀ depth, item.Faithful (depth + 1)) {format : Format} {items : List α}
    (holds : format.Holds (Wire.listedPayload kind item) items) :
    format.decode Wire.payload (format.encode (Wire.listedPayload kind item) items) =
      .ok (make (items, ())) := by
  have keeps : Node.KeepsValue format.number := by
    cases format with
    | json => exact Node.keepsValue_int
    | cbor => exact Cbor.keepsValue_number
  have unhinted : ∀ name d, (name, d) ∈ (Wire.nodesFields item).write (items, ()) →
      name ≠ hintMember := by
    rintro name d hd rfl
    exact Wire.hintMember_not_mem_nodesFields item (Fields.mem_names_of_write hd)
  have read := Wire.tagged_read_shown (by decide) mem keeps unhinted format.form
  refine (Format.decode_eq_ok (w := Wire.payload) .any).2 ?_
  rw [Format.reading_encode (Wire.faithful_listedPayload (faithful _)) holds]
  have reread := Fields.read_write (Wire.faithful_nodesFields (faithful 0)) "struct Raw" .buffered
    keeps (items, ())
  exact ⟨read.trans (map_eq_ok.2 ⟨_, reread, rfl⟩), rfl⟩

/-- Sets of items that stand at addresses. -/
abbrev Roll {α : Type} (address : α → Address) :=
  KeyedList fun a => (address a).text

/-- The laws of sets by address, which are finite maps in one form. `kind` and `wrap` are those of
their payloads. -/
structure IsRoll {α : Type} (address : α → Address) (item : Wire α) (kind : Payload.Kind)
    (wrap : Roll address → Payload) : Prop where
  /-- However it was made, a set is strictly sorted. -/
  sorted (s : Roll address) : s.toList.Pairwise fun m n => (address m).text < (address n).text
  /-- A list is sorted with items at one address in their order, and the first of them is kept. -/
  toList_ofList (items : List α) : (KeyedList.ofList items : Roll address).toList =
    (items.mergeSort fun m n => (address m).text ≤ (address n).text).destutter
      fun m n => (address m).text ≠ (address n).text
  get?_ofList (items : List α) (a : Address) :
    (KeyedList.ofList items : Roll address).get? a.text = items.find? fun m => address m = a
  /-- A document is read as the set that is made of the items it lists. -/
  decode (format : Format) (bytes : List UInt8) :
    format.decode (Wire.keyedList item fun m => (address m).text) bytes =
      (format.decode (Wire.listed item) bytes).map .ofList
  /-- Each list of items has a document. -/
  decode_listed (format : Format) (items : List α) : format.Holds (Wire.listed item) items →
    format.decode (Wire.listed item) (format.encode (Wire.listed item) items) = .ok items
  /-- The document of a payload is read in the same way. -/
  read_payload (form : Form) (n : Node) (s : Roll address) :
    Wire.payload.read form n = .ok (wrap s) →
      ∃ tag content items, n.splitHint form = .ok (tag, content) ∧
        (Wire.listed item).read .buffered content = .ok items ∧ s = .ofList items
  decode_listedPayload (format : Format) (items : List α) :
    format.Holds (Wire.listedPayload kind item) items →
      format.decode Wire.payload (format.encode (Wire.listedPayload kind item) items) =
        .ok (wrap (.ofList items))
  /-- To insert is to drop the item at the address, add the new one and make the set again. -/
  insert_eq (s : Roll address) (m : α) :
    s.insert m = .ofList ((s.toList.filter fun n => (address n).text ≠ (address m).text) ++ [m])
  get?_insert (s : Roll address) (m : α) (a : Address) :
    (s.insert m).get? a.text = if a = address m then some m else s.get? a.text
  get?_erase (s : Roll address) (a b : Address) :
    (s.erase a.text).get? b.text = if b = a then none else s.get? b.text
  insert_comm (s : Roll address) (m n : α) : address m ≠ address n →
    (s.insert m).insert n = (s.insert n).insert m
  erase_insert_comm (s : Roll address) (m : α) (a : Address) : address m ≠ a →
    (s.insert m).erase a.text = (s.erase a.text).insert m
  erase_comm (s : Roll address) (a b : Address) :
    (s.erase a.text).erase b.text = (s.erase b.text).erase a.text
  /-- A set is known by what is found at each address. -/
  ext (s t : Roll address) : (∀ a : Address, s.get? a.text = t.get? a.text) → s = t

theorem Address.text_inj {a b : Address} : a.text = b.text ↔ a = b :=
  ⟨text_injective, congrArg text⟩

namespace Roll

variable {α : Type} {address : α → Address}

theorem get?_ofList (items : List α) (a : Address) :
    (KeyedList.ofList items : Roll address).get? a.text = items.find? fun m => address m = a := by
  rw [KeyedList.get?_ofList]
  simp only [Address.text_inj]

theorem get?_insert (s : Roll address) (m : α) (a : Address) :
    (s.insert m).get? a.text = if a = address m then some m else s.get? a.text := by
  rw [KeyedList.get?_insert]
  simp only [Address.text_inj, eq_comm]

theorem get?_erase (s : Roll address) (a b : Address) :
    (s.erase a.text).get? b.text = if b = a then none else s.get? b.text := by
  rw [KeyedList.get?_erase]
  simp only [Address.text_inj]

/-- Texts that are no addresses find nothing. -/
theorem ext {s t : Roll address} (h : ∀ a : Address, s.get? a.text = t.get? a.text) : s = t := by
  refine KeyedList.ext fun k => ?_
  by_cases hk : ∃ a : Address, a.text = k
  · obtain ⟨a, rfl⟩ := hk
    exact h a
  · have nothing (r : Roll address) : r.get? k = none := by
      cases hget : r.get? k with
      | none => rfl
      | some m =>
        have htext := @KeyedList.key_of_get? _ _ r _ _ hget
        exact absurd ⟨address m, htext⟩ hk
    rw [nothing s, nothing t]

theorem isRoll {item : Wire α} {kind : Payload.Kind} {wrap : Roll address → Payload}
    {members? : Payload → Option (Tuple [List α])}
    (mem : Case.record kind.hint "struct Raw" (Wire.nodesFields item) members?
      (fun (items, ()) => wrap (.ofList items)) ∈ Payload.cases)
    (listed : ∀ c ∈ Payload.cases, ∀ form n s, c.read form n = .ok (wrap s) →
      ∃ items, (Wire.listed item).read form n = .ok items ∧ s = .ofList items)
    (faithful : ∀ depth, item.Faithful (depth + 1)) : IsRoll address item kind wrap where
  sorted s := s.sorted
  toList_ofList := KeyedList.toList_ofList
  get?_ofList := get?_ofList
  decode := Wire.decode_keyedList item _
  decode_listed _ _ := Format.decode_encode_of_faithful (Wire.faithful_listed (faithful _))
  read_payload form n s h := by
    obtain ⟨tag, content, hsplit, c, hc, hread⟩ := Wire.exists_case_of_tagged h
    obtain ⟨items, hitems, hs⟩ := listed c hc .buffered content s hread
    exact ⟨tag, content, items, hsplit, hitems, hs⟩
  decode_listedPayload _ _ := Payload.decode_listedPayload mem faithful
  insert_eq s m := s.insert_eq_ofList m
  get?_insert := get?_insert
  get?_erase := get?_erase
  insert_comm s m n h := s.insert_comm fun htext => h (Address.text_injective htext)
  erase_insert_comm s m a h := s.erase_insert_comm fun htext => h (Address.text_injective htext)
  erase_comm s a b := s.erase_comm a.text b.text
  ext _ _ := ext

end Roll

theorem isRoll_members_and_candidates :
    IsRoll Member.address Wire.member .members .members ∧
    IsRoll Candidate.address Wire.candidate .candidates .candidates :=
  ⟨Roll.isRoll (.tail _ (.tail _ (.tail _ (.head _))))
      (fun _ hc _ _ _ => Payload.listed_of_read_members hc) fun _ => Wire.faithful_member,
    Roll.isRoll (.tail _ (.tail _ (.tail _ (.tail _ (.head _)))))
      (fun _ hc _ _ _ => Payload.listed_of_read_candidates hc) fun _ => Wire.faithful_candidate⟩

namespace Sample

/-- Members out of order, two of them at one address. -/
def nodes : List Member :=
  [⟨carol, key, .genesis⟩, ⟨bob, key, ⟨5⟩⟩, ⟨bob, key, .genesis⟩]

theorem holds_nodes (format : Format) :
    format.Holds (Wire.listedPayload .members Wire.member) nodes := by
  cases format with
  | json => trivial
  | cbor =>
    show ((Wire.listedPayload .members Wire.member).cborBytes nodes).length < UInt64.size
    decide +kernel

end Sample

/-- Both formats give the set of the nodes, which has the first one at the repeated address. -/
theorem isRoll_members_and_candidates_nodes :
    (∀ format : Format,
      format.decode Wire.payload
          (format.encode (Wire.listedPayload .members Wire.member) Sample.nodes) =
        .ok (.members (.ofList Sample.nodes))) ∧
    (KeyedList.ofList Sample.nodes : Members).get? Sample.bob.text =
      some ⟨Sample.bob, Sample.key, ⟨5⟩⟩ ∧
    ∀ s : Members, (s.insert ⟨Sample.carol, Sample.key, .genesis⟩).erase Sample.bob.text =
      (s.erase Sample.bob.text).insert ⟨Sample.carol, Sample.key, .genesis⟩ := by
  obtain ⟨roll, -⟩ := isRoll_members_and_candidates
  refine ⟨fun format => roll.decode_listedPayload format _ (Sample.holds_nodes format), ?_,
    fun s => roll.erase_insert_comm s _ _ (by decide +kernel)⟩
  exact (roll.get?_ofList Sample.nodes Sample.bob).trans (by decide +kernel)

end CurrencyLedger
