import CurrencyLedger.Identity.KeySet
import CurrencyLedger.Money.Currency
import CurrencyLedger.Text.Base58

/-!
Addresses of accounts. An address is derived from a key set, or from the one key of a set, or it is
the zero address of a currency, which belongs to no keys. `Address.parse_text` says that the text of
an address reads back.
-/

namespace CurrencyLedger

inductive AddressKind where
  | native
  | ethereum
deriving DecidableEq

namespace AddressKind

def ending : AddressKind → String
  | .native => "mca"
  | .ethereum => "eca"

def all : List AddressKind := [native, ethereum]

end AddressKind

namespace Address

def isBodyChar (c : Char) : Bool :=
  c.isAlphanum || ['-', '_', '.', '!', '$', '*', '@'].contains c

end Address

structure Address where
  body : String
  kind : AddressKind
  length : 3 ≤ body.utf8ByteSize ∧ body.utf8ByteSize ≤ 100
  characters : body.toList.all Address.isBodyChar = true
deriving DecidableEq

namespace Address

inductive Fault where
  | unknownType (text : String)
  | length (text : String)
  | characters (text : String)
deriving DecidableEq

def Fault.message : Fault → String
  | .unknownType s => Text.quoted s ++ ": unknown address type"
  | .length s => Text.quoted s ++ ": body length must be 3..=100"
  | .characters s => Text.quoted s ++ ": invalid characters"

def text (a : Address) : String :=
  a.body ++ a.kind.ending

/-- The kind whose ending a text has, with the text in front of the ending. -/
def split? (s : String) : Option (AddressKind × String) :=
  AddressKind.all.findSome? fun kind =>
    (Text.dropSuffix? kind.ending.toList s.toList).map fun body => (kind, String.ofList body)

def parse (s : String) : Except Fault Address :=
  match split? s with
  | none => .error (.unknownType s)
  | some (kind, body) =>
    if length : 3 ≤ body.utf8ByteSize ∧ body.utf8ByteSize ≤ 100 then
      if characters : body.toList.all isBodyChar then .ok ⟨body, kind, length, characters⟩
      else .error (.characters s)
    else .error (.length s)

theorem split?_append (body : String) (kind : AddressKind) :
    split? (body ++ kind.ending) = some (kind, body) := by
  cases kind with
  | native =>
    simp only [split?, AddressKind.all, List.findSome?_cons, String.toList_append,
      Text.dropSuffix?_append, Option.map_some, String.ofList_toList]
  | ethereum =>
    have h : Text.dropSuffix? AddressKind.native.ending.toList
        (body.toList ++ AddressKind.ethereum.ending.toList) = none := by
      cases hd : Text.dropSuffix? AddressKind.native.ending.toList
          (body.toList ++ AddressKind.ethereum.ending.toList) with
      | none => rfl
      | some b =>
        have := Text.dropSuffix?_eq_some_iff.1 hd
        have := (List.append_inj' this (by decide)).2
        exact absurd this (by decide)
    simp only [split?, AddressKind.all, List.findSome?_cons, String.toList_append, h,
      Option.map_none, Text.dropSuffix?_append, Option.map_some, String.ofList_toList]

theorem parse_text (a : Address) : parse a.text = .ok a := by
  simp only [parse, text, split?_append]
  rw [dif_pos a.length, dif_pos a.characters]

theorem text_injective {a b : Address} (h : a.text = b.text) : a = b := by
  have := parse_text a
  rw [h, parse_text] at this
  exact (Except.ok.inj this).symm

theorem toNat_le_of_isAlphanum {c : Char} (h : c.isAlphanum = true) : c.val.toNat ≤ 127 := by
  rcases Bool.or_eq_true_iff.1 (show (c.isAlpha || c.isDigit) = true from h) with h | h
  · rcases Bool.or_eq_true_iff.1 (show (c.isUpper || c.isLower) = true from h) with h | h
    · have : c.val ≤ 'Z'.val := (of_decide_eq_true h).2
      exact Nat.le_trans (UInt32.le_iff_toNat_le.1 this) (by decide)
    · have : c.val ≤ 'z'.val := of_decide_eq_true (Bool.and_eq_true_iff.1 h).2
      exact Nat.le_trans (UInt32.le_iff_toNat_le.1 this) (by decide)
  · have : c.val ≤ '9'.val := of_decide_eq_true (Bool.and_eq_true_iff.1 h).2
    exact Nat.le_trans (UInt32.le_iff_toNat_le.1 this) (by decide)

theorem utf8EncodeChar_of_isBodyChar {c : Char} (h : isBodyChar c = true) :
    (String.utf8EncodeChar c).length = 1 := by
  have hlt : c.val.toNat ≤ 127 := by
    simp only [isBodyChar, Bool.or_eq_true] at h
    rcases h with h | h
    · exact toNat_le_of_isAlphanum h
    · simp only [List.contains_eq_mem, decide_eq_true_eq, List.mem_cons, List.not_mem_nil,
        or_false] at h
      rcases h with rfl | rfl | rfl | rfl | rfl | rfl | rfl <;> decide
  rw [String.utf8EncodeChar, if_pos hlt]
  rfl

theorem utf8ByteSize_ofList {cs : List Char} (h : cs.all isBodyChar = true) :
    (String.ofList cs).utf8ByteSize = cs.length := by
  rw [← Text.length_utf8, Text.utf8_ofList]
  induction cs with
  | nil => rfl
  | cons c rest ih =>
    simp only [List.all_cons, Bool.and_eq_true] at h
    simp [utf8EncodeChar_of_isBodyChar h.1, ih h.2]; omega

/-- The address with the given characters in front of its ending. -/
def ofBody (cs : List Char) (kind : AddressKind) (length : 3 ≤ cs.length ∧ cs.length ≤ 100)
    (characters : cs.all isBodyChar = true) : Address :=
  ⟨String.ofList cs, kind, by rwa [utf8ByteSize_ofList characters],
    by rwa [String.toList_ofList]⟩

theorem isBodyChar_of_isAlphanum {c : Char} (h : c.isAlphanum = true) : isBodyChar c = true := by
  simp [isBodyChar, h]

theorem isBodyChar_of_isInner {c : Char} (h : CurrencyId.isInner c = true) :
    isBodyChar c = true := by
  simp only [CurrencyId.isInner, CurrencyId.isEdge, Bool.or_eq_true] at h
  rcases h with h | h
  · apply isBodyChar_of_isAlphanum
    show ((c.isUpper || c.isLower) || c.isDigit) = true
    rcases h with h | h <;> simp [h]
  · simp only [isBodyChar, List.contains_eq_mem, List.mem_cons, Bool.or_eq_true,
      decide_eq_true_eq] at h ⊢
    grind

/-- The mark between a currency and the ending in a zero address. -/
def zeroMark : List Char := ['-', 'X']

/-- The reserved address of a currency. -/
def zero (currency : CurrencyId) : Address :=
  ofBody (currency.text.toList ++ zeroMark) .native
    (by
      have := currency.length
      rw [List.length_append, String.length_toList]
      simp only [zeroMark, List.length_cons, List.length_nil]
      omega)
    (by
      have h := currency.shape
      simp only [CurrencyId.hasShape, Bool.and_eq_true, List.all_eq_true] at h
      simp only [List.all_append, Bool.and_eq_true, List.all_eq_true]
      exact ⟨fun c hc => isBodyChar_of_isInner (h.2 c hc),
        List.all_eq_true.mp (by decide : zeroMark.all isBodyChar = true)⟩)

def isZero (a : Address) : Bool :=
  a.kind = .native ∧
    ((Text.dropSuffix? zeroMark a.body.toList).any fun cs =>
      (CurrencyId.parse (String.ofList cs)).isOk)

theorem isZero_zero (currency : CurrencyId) : (zero currency).isZero = true := by
  have hbody : (zero currency).body.toList = currency.text.toList ++ zeroMark :=
    String.toList_ofList
  have hkind : (zero currency).kind = .native := rfl
  simp [isZero, hkind, hbody, Text.dropSuffix?_append, CurrencyId.parse_text, Except.isOk,
    Except.toBool]

/-- The native address of a key set: its hash in base 58. -/
def ofKeySet (keys : KeySet) : Address :=
  ofBody (Base58.encode keys.hash.bytes) .native
    (by have := Base58.length_encode_bounds keys.hash.size; omega)
    (List.all_eq_true.2 fun _ hc => isBodyChar_of_isAlphanum (Base58.isAlphanum_of_mem_encode hc))

/-- No address of keys ends in the mark of zero addresses. -/
theorem isZero_ofKeySet (keys : KeySet) : (ofKeySet keys).isZero = false := by
  have hbody : (ofKeySet keys).body.toList = Base58.encode keys.hash.bytes :=
    String.toList_ofList
  have hnone : Text.dropSuffix? zeroMark (Base58.encode keys.hash.bytes) = none := by
    cases hd : Text.dropSuffix? zeroMark (Base58.encode keys.hash.bytes) with
    | none => rfl
    | some cs =>
      have happend := Text.dropSuffix?_eq_some_iff.1 hd
      have hmark : '-' ∈ Base58.encode keys.hash.bytes := by
        rw [happend]
        exact List.mem_append_right _ List.mem_cons_self
      exact absurd (Base58.isAlphanum_of_mem_encode hmark) (by decide)
  simp [isZero, hbody, hnone]

theorem hexDigit_isAlphanum {n : Nat} (h : n < 16) : (Text.hexDigit n).isAlphanum = true := by
  revert n; decide

theorem isAlphanum_of_mem_encode {bytes : List UInt8} {c : Char} (h : c ∈ Hex.encode bytes) :
    c.isAlphanum = true := by
  obtain ⟨b, -, hc⟩ := List.mem_flatMap.1 h
  simp only [List.mem_cons, List.not_mem_nil, or_false] at hc
  have := b.toNat_lt
  rcases hc with rfl | rfl
  · exact hexDigit_isAlphanum (by omega)
  · exact hexDigit_isAlphanum (by omega)

theorem length_encode (bytes : List UInt8) : (Hex.encode bytes).length = 2 * bytes.length := by
  induction bytes with
  | nil => rfl
  | cons b rest ih =>
    simp only [Hex.encode, List.flatMap_cons, List.length_append, List.length_cons,
      List.length_nil] at ih ⊢
    omega

/-- The last twenty bytes of the digest of a point's coordinates. -/
def keyDigits (key : PublicKey) : List Char :=
  Hex.encode ((keccak256 (PublicKey.coordinates key.point)).drop 12)

theorem length_keyDigits (key : PublicKey) : (keyDigits key).length = 40 := by
  rw [keyDigits, length_encode, List.length_drop, length_keccak256]

def ofPublicKey (key : PublicKey) : Address :=
  ofBody ('0' :: 'x' :: keyDigits key) .ethereum
    (by simp [length_keyDigits])
    (by
      simp only [List.all_cons, Bool.and_eq_true, List.all_eq_true]
      exact ⟨by decide, by decide, fun c hc =>
        isBodyChar_of_isAlphanum (isAlphanum_of_mem_encode hc)⟩)

/-- The address of the one key of a key set. -/
def ofSingleKey (keys : KeySet) : Except KeyFault Address :=
  match keys.keys with
  | [k] => .ok (ofPublicKey k.key)
  | _ => .error .severalForEthereum

/-- The address that a key set has in the given scheme. -/
def derive (keys : KeySet) : AddressKind → Except KeyFault Address
  | .native => .ok (ofKeySet keys)
  | .ethereum =>
    if keys.keys.all fun k => k.key.kind = .ethereum then ofSingleKey keys
    else .error .nativeForEthereum

/-- The address of keys is no zero address. -/
theorem isZero_of_derive {keys : KeySet} {kind : AddressKind} {a : Address}
    (h : derive keys kind = .ok a) : a.isZero = false := by
  cases kind with
  | native =>
    cases h
    exact isZero_ofKeySet keys
  | ethereum =>
    simp only [derive, ofSingleKey] at h
    split at h
    · split at h
      · cases h
        rfl
      · cases h
    · cases h

end Address

namespace Wire

def address : Wire Address :=
  text Address.text Address.parse fun fault => "Invalid address: " ++ fault.message

def addressKind : Wire AddressKind :=
  choice "variant identifier" AddressKind.all AddressKind.ending

end Wire

end CurrencyLedger
