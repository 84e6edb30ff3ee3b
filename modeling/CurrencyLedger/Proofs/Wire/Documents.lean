import CurrencyLedger.Ledger.Change
import CurrencyLedger.Operation.Operation
import CurrencyLedger.Proofs.Collection.KeyedList
import CurrencyLedger.Proofs.Identity.Keys
import CurrencyLedger.Proofs.Money.Texts
import CurrencyLedger.Proofs.Wire.Members

/-!
The wires of the ledger's documents are faithful. The names of a record's members and the tags of a
tagged type are checked to differ; for the rest each wire is as faithful as its parts.
-/

namespace CurrencyLedger

namespace Wire

variable {α : Type} {depth : Nat}

theorem faithful_address : address.Faithful depth :=
  faithful_text Address.parse_text

theorem faithful_currencyId : currencyId.Faithful depth :=
  faithful_text CurrencyId.parse_text

theorem faithful_publicKey : publicKey.Faithful depth :=
  faithful_text PublicKey.parse_text

theorem faithful_digest : digest.Faithful depth :=
  faithful_text Digest.parse_text

theorem faithful_hexBytes : hexBytes.Faithful depth :=
  faithful_text Hex.decode_text

theorem faithful_magnitude : magnitude.Faithful depth :=
  faithful_text Amount.parseMagnitude_ofInt

theorem faithful_ratio : ratio.Faithful depth :=
  faithful_text Ratio.parse_text

theorem faithful_height : height.Faithful depth :=
  faithful_uint64.map fun _ => rfl

theorem faithful_addressKind : addressKind.Faithful depth :=
  faithful_choice (by decide) fun kind => by cases kind <;> decide

theorem faithful_strategy : strategy.Faithful depth :=
  faithful_choice (by decide) fun strategy => by cases strategy <;> decide

theorem faithful_amount : amount.Faithful (depth + 1) :=
  faithful_record
    (.always (by decide) faithful_magnitude <| .always (by decide) faithful_currencyId .nil)
    fun _ => rfl

theorem faithful_weightedKey : weightedKey.Faithful (depth + 1) :=
  faithful_record
    (.always (by decide) faithful_publicKey <| .always (by decide) faithful_uint32 .nil)
    fun _ => rfl

theorem faithful_keySet : keySet.Faithful (depth + 3) :=
  Faithful.refine
    (faithful_record
      (.always (by decide) faithful_weightedKey.list <| .always (by decide) faithful_uint32 .nil)
      fun _ => rfl)
    KeySet.make_self

theorem faithful_account : account.Faithful (depth + 4) :=
  faithful_record
    (.always (by decide) faithful_address <|
      .always (by decide) (faithful_keySet.optional nofun) .nil)
    fun _ => rfl

theorem faithful_feePolicy : feePolicy.Faithful (depth + 1) := by
  refine faithful_tagged (fun c hc => ?_) (by decide) fun policy => ?_
  · simp only [FeePolicy.cases, List.mem_cons, List.not_mem_nil, or_false] at hc
    rcases hc with rfl | rfl | rfl
    · exact Case.faithful_single fun policy h => of_decide_eq_true h
    · exact Case.faithful_record
        (.always (by decide) faithful_address <| .always (by decide) faithful_magnitude .nil)
        (by decide) fun {policy as} h => by cases policy <;> cases h; rfl
    · exact Case.faithful_record
        (.always (by decide) faithful_address <| .always (by decide) faithful_ratio <|
          .always (by decide) faithful_magnitude <|
          .always (by decide) (faithful_magnitude.optional nofun) .nil)
        (by decide) fun {policy as} h => by cases policy <;> cases h; rfl
  · cases policy with
    | nil => exact ⟨_, .head _, rfl⟩
    | fixed => exact ⟨_, .tail _ (.head _), rfl⟩
    | ratio => exact ⟨_, .tail _ (.tail _ (.head _)), rfl⟩

theorem faithful_currencyPolicy : currencyPolicy.Faithful (depth + 2) :=
  faithful_record
    (.always (by decide) faithful_magnitude <| .always (by decide) faithful_feePolicy .nil)
    fun _ => rfl

theorem faithful_currencyDesign : currencyDesign.Faithful (depth + 3) :=
  faithful_record
    (.always (by decide) faithful_amount <| .always (by decide) faithful_address <|
      .always (by decide) faithful_currencyPolicy <| .always (by decide) faithful_magnitude .nil)
    fun _ => rfl

theorem faithful_networkPolicy : networkPolicy.Faithful (depth + 1) :=
  faithful_record
    (.always (by decide) faithful_uint64 <| .always (by decide) faithful_uint64 .nil)
    fun _ => rfl

theorem faithful_member : member.Faithful (depth + 1) :=
  faithful_record
    (.always (by decide) faithful_address <| .always (by decide) faithful_publicKey <|
      .always (by decide) faithful_height .nil)
    fun _ => rfl

theorem faithful_candidate : candidate.Faithful (depth + 1) :=
  faithful_record
    (.always (by decide) faithful_address <| .always (by decide) faithful_publicKey <|
      .always (by decide) faithful_height <| .always (by decide) faithful_height .nil)
    fun _ => rfl

theorem faithful_nodesFields {item : Wire α} (h : item.Faithful depth) :
    (nodesFields item).Faithful (depth + 1) :=
  .always (by decide) h.list .nil

theorem faithful_members : members.Faithful (depth + 3) :=
  faithful_record (faithful_nodesFields faithful_member) KeyedList.ofList_toList

theorem faithful_candidates : candidates.Faithful (depth + 3) :=
  faithful_record (faithful_nodesFields faithful_candidate) KeyedList.ofList_toList

theorem faithful_newAccount : newAccount.Faithful (depth + 4) :=
  faithful_record
    (.always (by decide) faithful_keySet <| .always (by decide) faithful_amount.list <|
      .always (by decide) faithful_addressKind .nil)
    fun _ => rfl

theorem faithful_transfer : transfer.Faithful (depth + 3) :=
  faithful_record
    (.always (by decide) faithful_address <| .always (by decide) faithful_amount.list .nil)
    fun _ => rfl

theorem faithful_issue : issue.Faithful (depth + 2) :=
  faithful_record
    (.always (by decide) faithful_address <| .always (by decide) faithful_amount .nil)
    fun _ => rfl

end Wire

namespace Fact

open Wire

variable {ts : List Type} {depth : Nat}

theorem faithful_case {tag title : String} {rest : Fields ts}
    {members? : Intent → Option (Tuple ts)} {make : Tuple ts → Intent} (h : rest.Faithful depth)
    (names : "token" ∉ rest.names ∧ hintMember ∉ rest.names)
    (make_members : ∀ intent as, members? intent = some as → make as = intent) :
    (Fact.case tag title rest members? make).Faithful depth := by
  refine Case.faithful_record (.always names.1 faithful_hexBytes h) ?_ fun {f as} hm => ?_
  · refine fun hmem => ?_
    rcases List.mem_cons.1 hmem with e | hmem
    · exact absurd e (by decide)
    · exact names.2 hmem
  · obtain ⟨members, hmembers, rfl⟩ := Option.map_eq_some_iff.1 hm
    simp only [make_members f.intent members hmembers]

/-- The case of a fact, in the list of all cases. -/
theorem exists_case (f : Fact) : ∃ c ∈ cases, (c.members? f).isSome := by
  obtain ⟨token, intent⟩ := f
  simp only [cases, List.exists_mem_cons_iff]
  cases intent <;> simp [case, Case.record]

theorem faithful_of_mem_cases {c : Case Fact} (h : c ∈ cases) : c.Faithful (depth + 5) := by
  simp only [cases, List.mem_cons, List.not_mem_nil, or_false] at h
  rcases h with rfl | rfl | rfl | rfl | rfl | rfl | rfl | rfl | rfl | rfl
  all_goals refine faithful_case ?_ (by decide) fun intent as h => by cases intent <;> cases h; rfl
  · exact .always (by decide) faithful_address <| .always (by decide) faithful_newAccount.list .nil
  · exact .always (by decide) faithful_address <| .always (by decide) faithful_transfer.list .nil
  · exact .always (by decide) faithful_address <| .always (by decide) faithful_keySet <|
      .always (by decide) faithful_currencyId .nil
  · exact .always (by decide) faithful_currencyDesign .nil
  · exact .always (by decide) faithful_currencyId <|
      .always (by decide) faithful_currencyPolicy .nil
  · exact .always (by decide) faithful_issue.list .nil
  · exact .always (by decide) faithful_address <| .always (by decide) faithful_publicKey .nil
  · exact .always (by decide) faithful_address <| .always (by decide) faithful_height .nil
  · exact .always (by decide) faithful_address <| .always (by decide) faithful_height .nil
  · exact .always (by decide) faithful_publicKey <| .always (by decide) faithful_keySet <|
      .always (by decide) faithful_currencyDesign.list .nil

end Fact

/-- The case of a payload, in the list of all cases. -/
theorem Payload.exists_case (p : Payload) : ∃ c ∈ cases, (c.members? p).isSome := by
  simp only [cases, List.exists_mem_cons_iff]
  cases p <;> simp [Case.record]

theorem Payload.faithful_of_mem_cases {depth : Nat} {c : Case Payload} (h : c ∈ cases) :
    c.Faithful (depth + 4) := by
  simp only [cases, List.mem_cons, List.not_mem_nil, or_false] at h
  rcases h with rfl | rfl | rfl | rfl | rfl | rfl
  · exact Case.faithful_record (.always (by decide) Wire.faithful_account .nil) (by decide)
      fun {p as} h => by cases p <;> cases h; rfl
  · exact Case.faithful_record (.always (by decide) Wire.faithful_amount .nil) (by decide)
      fun {p as} h => by cases p <;> cases h; rfl
  · exact Case.faithful_record (.always (by decide) Wire.faithful_currencyDesign .nil) (by decide)
      fun {p as} h => by cases p <;> cases h; rfl
  · exact Case.faithful_record (Wire.faithful_nodesFields Wire.faithful_member) (by decide)
      fun {p as} h => by cases p <;> cases h; exact congrArg _ (KeyedList.ofList_toList _)
  · exact Case.faithful_record (Wire.faithful_nodesFields Wire.faithful_candidate) (by decide)
      fun {p as} h => by cases p <;> cases h; exact congrArg _ (KeyedList.ofList_toList _)
  · exact Case.faithful_record (.always (by decide) Wire.faithful_networkPolicy .nil) (by decide)
      fun {p as} h => by cases p <;> cases h; rfl

namespace Wire

variable {depth : Nat}

theorem faithful_fact : fact.Faithful (depth + 6) :=
  faithful_tagged (fun _ => Fact.faithful_of_mem_cases) (by decide) Fact.exists_case

theorem faithful_sign : sign.Faithful (depth + 1) :=
  faithful_record
    (.always (by decide) faithful_publicKey <| .always (by decide) faithful_hexBytes <|
      .unlessNone (by decide) (faithful_address.optional nofun) .nil)
    fun _ => rfl

theorem faithful_operation : operation.Faithful (depth + 7) :=
  faithful_record
    (.always (by decide) faithful_digest <| .always (by decide) faithful_fact <|
      .always (by decide) faithful_sign.list .nil)
    fun _ => rfl

theorem faithful_payload : payload.Faithful (depth + 5) :=
  faithful_tagged (fun _ => Payload.faithful_of_mem_cases) (by decide) Payload.exists_case

theorem faithful_change : change.Faithful (depth + 6) :=
  faithful_record
    (.always (by decide) faithful_string <| .always (by decide) faithful_payload <|
      .always (by decide) faithful_strategy .nil)
    fun _ => rfl

theorem faithful_ledgerRecord : ledgerRecord.Faithful (depth + 6) :=
  faithful_record
    (.always (by decide) faithful_digest <| .always (by decide) faithful_string <|
      .always (by decide) faithful_payload <| .always (by decide) faithful_height <|
      .unlessNone (by decide) (faithful_digest.optional nofun) <|
      .always (by decide) faithful_digest.list .nil)
    fun _ => rfl

end Wire

end CurrencyLedger
