import CurrencyLedger.Operation.Validity
import CurrencyLedger.Proofs.Identity.Canonical
import CurrencyLedger.Proofs.Ledger.Place
import CurrencyLedger.Proofs.Processing.Accounting

/-!
The schemes of addresses keep apart. Base 58 reads back as the number of the bytes, so native
addresses tell digests apart; no address of keys has the form of a zero address; and the ending of a
text tells whether its address is native.
-/

namespace CurrencyLedger

theorem BigEndian.eq_of_number_eq {bs bs' : List UInt8} (lengths : bs.length = bs'.length)
    (h : number bs = number bs') : bs = bs' := by
  induction bs generalizing bs' with
  | nil => exact (List.length_eq_zero_iff.1 lengths.symm).symm
  | cons b rest ih =>
    cases bs' with
    | nil => cases lengths
    | cons b' rest' =>
      have hlength : rest.length = rest'.length := Nat.succ.inj lengths
      rw [number_cons, number_cons, ← hlength] at h
      obtain ⟨hb, hrest⟩ := eq_of_mul_add_eq (number_lt rest) (hlength ▸ number_lt rest') h
      rw [UInt8.toNat_inj.1 hb, ih hlength hrest]

namespace Base58

/-- The number that digits stand for. -/
def value (cs : List Char) : Nat :=
  cs.foldl (fun n c => 58 * n + alphabet.idxOf c) 0

theorem idxOf_digit : ∀ n < 58, alphabet.idxOf (digit n) = n := by
  decide +kernel

theorem value_digits (n : Nat) : value (digits n) = n := by
  induction n using Nat.strongRecOn with
  | _ n ih =>
    rw [digits]
    split
    · next h => exact h.symm
    · next h =>
      have hlead : value (digits (n / 58)) = n / 58 := ih _ (by omega)
      rw [value, List.foldl_append, ← value, hlead]
      simp only [List.foldl_cons, List.foldl_nil, idxOf_digit (n % 58) (by omega)]
      omega

/-- The digits in front, of which there is one for each leading zero byte, are zeros. -/
theorem value_encode (bytes : List UInt8) : value (encode bytes) = BigEndian.number bytes := by
  have hzeros (count : Nat) : value (List.replicate count '1') = 0 := by
    induction count with
    | zero => rfl
    | succ count ih =>
      have hone : alphabet.idxOf '1' = 0 := by decide
      rw [value, List.replicate_succ, List.foldl_cons, hone]
      exact ih
  rw [encode, value, List.foldl_append, ← value, hzeros]
  exact value_digits _

theorem eq_of_encode_eq {bytes bytes' : List UInt8} (lengths : bytes.length = bytes'.length)
    (h : encode bytes = encode bytes') : bytes = bytes' := by
  refine BigEndian.eq_of_number_eq lengths ?_
  rw [← value_encode, ← value_encode, h]

end Base58

theorem CurrencyId.text_of_parse {s : String} {c : CurrencyId} (h : parse s = .ok c) :
    c.text = s := by
  unfold parse at h
  split at h
  · split at h
    · cases h
      rfl
    · cases h
  · cases h

theorem Digest.eq_of_bytes_eq {d e : Digest} (h : d.bytes = e.bytes) : d = e := by
  cases d
  cases e
  simpa using h

namespace Address

theorem body_ofBody (cs : List Char) (kind : AddressKind) (length : 3 ≤ cs.length ∧ cs.length ≤ 100)
    (characters : cs.all isBodyChar = true) :
    (ofBody cs kind length characters).body = String.ofList cs :=
  rfl

/-- The text that is made of a key set. -/
def nativeText (keys : KeySet) : String :=
  String.ofList (Base58.encode keys.hash.bytes) ++ AddressKind.native.ending

/-- The text that is made of a public key. -/
def ethereumText (key : PublicKey) : String :=
  String.ofList ('0' :: 'x' :: keyDigits key) ++ AddressKind.ethereum.ending

/-- The text that is made of a currency. -/
def zeroText (c : CurrencyId) : String :=
  c.text ++ String.ofList zeroMark ++ AddressKind.native.ending

theorem text_ofKeySet (keys : KeySet) : (ofKeySet keys).text = nativeText keys :=
  rfl

theorem text_ofPublicKey (key : PublicKey) : (ofPublicKey key).text = ethereumText key :=
  rfl

theorem text_zero (c : CurrencyId) : (zero c).text = zeroText c := by
  rw [text, zero, body_ofBody, String.ofList_append, String.ofList_toList]
  rfl

theorem hash_eq_of_ofKeySet_eq {keys keys' : KeySet} (h : ofKeySet keys = ofKeySet keys') :
    keys.hash = keys'.hash := by
  have hbody : String.ofList (Base58.encode keys.hash.bytes) =
      String.ofList (Base58.encode keys'.hash.bytes) := congrArg body h
  have hbytes := Base58.eq_of_encode_eq (keys.hash.size.trans keys'.hash.size.symm)
    (String.ofList_inj.1 hbody)
  exact Digest.eq_of_bytes_eq hbytes

theorem kind_eq_of_text_eq {a b : Address} (h : a.text = b.text) : a.kind = b.kind :=
  congrArg kind (text_injective h)

/-- An address that looks like a zero address is one. -/
theorem isZero_iff {a : Address} : a.isZero = true ↔ ∃ c, a = zero c := by
  constructor
  · intro h
    obtain ⟨hkind, hmark⟩ := decide_eq_true_iff.1 h
    obtain ⟨cs, hbody, hparse⟩ := (Option.any_eq_true _ _).1 hmark
    obtain ⟨c, hc⟩ := Traversal.exists_of_isOk hparse
    have hcs : cs = c.text.toList := by
      rw [CurrencyId.text_of_parse hc, String.toList_ofList]
    refine ⟨c, text_injective ?_⟩
    rw [Text.dropSuffix?_eq_some_iff, hcs] at hbody
    have hbody : a.body = c.text ++ String.ofList zeroMark := by
      rw [← String.toList_inj, hbody, String.toList_append, String.toList_ofList]
    rw [text_zero, text, hkind, hbody]
    rfl
  · rintro ⟨c, rfl⟩
    exact isZero_zero c

theorem derive_ne_zero {keys : KeySet} {kind : AddressKind} {a : Address}
    (h : derive keys kind = .ok a) (c : CurrencyId) : a ≠ zero c := by
  rintro rfl
  have hfalse := isZero_of_derive h
  rw [isZero_zero] at hfalse
  cases hfalse

theorem ofKeySet_ne_zero (keys : KeySet) (c : CurrencyId) : ofKeySet keys ≠ zero c :=
  have h : derive keys .native = .ok (ofKeySet keys) := rfl
  derive_ne_zero h c

/-- Targets of new accounts are no zero addresses. -/
theorem zero_not_mem_targets {items : List NewAccount} {targets : List Address}
    (h : Intent.targets items = .ok targets) (c : CurrencyId) : zero c ∉ targets := by
  intro hmem
  obtain ⟨item, -, hitem⟩ := (Traversal.mem_mapM h).1 hmem
  exact derive_ne_zero hitem c rfl

/-- What is made of a key set, of the one key of a set and of a currency are texts of addresses.
Native addresses tell hashes of key sets apart, zero addresses tell currencies apart, and no text is
both of a native address and of an ethereum one. The zero addresses are those that look like one,
and no keys have such an address: neither those of new accounts nor those of the genesis account. -/
theorem schemes_apart :
    (∀ keys : KeySet, parse (nativeText keys) = .ok (ofKeySet keys) ∧
      (ofKeySet keys).kind = .native ∧ (ofKeySet keys).isZero = false ∧
      ∀ keys', ofKeySet keys = ofKeySet keys' → keys.hash = keys'.hash) ∧
    (∀ (keys : KeySet) (k : WeightedKey), keys.keys = [k] → ∃ a, ofSingleKey keys = .ok a ∧
      parse (ethereumText k.key) = .ok a ∧ a.kind = .ethereum ∧ a.isZero = false) ∧
    (∀ a b : Address, a.kind = .native → b.kind = .ethereum → a ≠ b ∧ a.text ≠ b.text) ∧
    (∀ c : CurrencyId, parse (zeroText c) = .ok (zero c)) ∧
    Function.Injective zero ∧
    (∀ a : Address, a.isZero = true ↔ ∃ c, a = zero c) ∧
    (∀ (items : List NewAccount) (targets : List Address),
      Intent.targets items = .ok targets → ∀ c, zero c ∉ targets) ∧
    ∀ (keys : KeySet) (c : CurrencyId), ofKeySet keys ≠ zero c := by
  refine ⟨fun keys => ?_, fun keys k hkeys => ?_, fun a b ha hb => ?_, fun c => ?_,
    fun c d h => zero_injective h, fun a => isZero_iff, fun items targets => zero_not_mem_targets,
    fun keys => ofKeySet_ne_zero keys⟩
  · exact ⟨text_ofKeySet keys ▸ parse_text _, rfl, isZero_ofKeySet keys,
      fun keys' => hash_eq_of_ofKeySet_eq⟩
  · refine ⟨ofPublicKey k.key, ?_, text_ofPublicKey k.key ▸ parse_text _, rfl, rfl⟩
    rw [ofSingleKey, hkeys]
  · have kinds : a.kind ≠ b.kind := by
      rw [ha, hb]
      decide
    exact ⟨fun h => kinds (congrArg kind h), fun h => kinds (kind_eq_of_text_eq h)⟩
  · exact text_zero c ▸ parse_text _

/-- The one key of a set has addresses of both schemes, and a new account may be at the first. -/
theorem schemes_apart_keys :
    (∃ a, ofSingleKey Sample.keys = .ok a ∧ a ≠ ofKeySet Sample.keys ∧ a.isZero = false) ∧
    zero Sample.currency ∉ [ofKeySet Sample.keys] ∧ (zero Sample.currency).isZero = true := by
  obtain ⟨-, single, apart, -, -, isZero, targets, -⟩ := schemes_apart
  refine ⟨?_, ?_, (isZero _).2 ⟨Sample.currency, rfl⟩⟩
  · obtain ⟨a, ha, -, hkind, hzero⟩ := single Sample.keys _ rfl
    exact ⟨a, ha, (apart _ a rfl hkind).1.symm, hzero⟩
  · exact targets [⟨Sample.keys, [], .native⟩] _ rfl Sample.currency

end Address

end CurrencyLedger
