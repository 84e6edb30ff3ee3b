import CurrencyLedger.Proofs.Collection.Repetition
import CurrencyLedger.Proofs.Processing.Suffrage
import Mathlib.Order.Bounds.Basic

/-!
How the check of a quorum ends for any signs. Only the members count that signs speak for: that one
of them has two such signs is a failure of its own, otherwise their number has to reach the share
that is required. Two such quorums of more than half have a member in common.
-/

namespace CurrencyLedger

open Traversal Repetition

namespace Threshold

/-- What is required is the least number, from one up, that makes up the share. -/
theorem required_isLeast (t : Threshold) (n : Nat) :
    IsLeast {k | 1 ≤ k ∧ n * t.percent ≤ 100 * k} (t.required n) := by
  constructor
  · constructor
    · exact le_max_right _ _
    · rw [required]
      omega
  · rintro k ⟨hpos, hshare⟩
    rw [required]
    omega

theorem required_le_max (t : Threshold) (n : Nat) : t.required n ≤ max 1 n := by
  have hshare : n * t.percent ≤ n * 100 := Nat.mul_le_mul_left n t.range.2
  apply (t.required_isLeast n).2
  constructor
  · exact le_max_left 1 n
  · omega

theorem required_le (t : Threshold) {n : Nat} (h : 1 ≤ n) : t.required n ≤ n :=
  (t.required_le_max n).trans_eq (max_eq_right h)

theorem lt_two_mul_required (t : Threshold) (half : 50 < t.percent) (n : Nat) :
    n < t.required n + t.required n := by
  obtain ⟨hpos, hshare⟩ := (t.required_isLeast n).1
  have hmore : n * 51 ≤ n * t.percent := Nat.mul_le_mul_left n half
  omega

end Threshold

/-- A sign speaks for a member: it names the member's address, and is made with the member's
key. -/
def Sign.SpeaksFor (s : Sign) (m : Member) : Prop :=
  s.node = some m.address ∧ s.signer = m.key

instance (s : Sign) (m : Member) : Decidable (s.SpeaksFor m) :=
  inferInstanceAs (Decidable (_ ∧ _))

namespace Members

variable {members : Members} {counted : List Address} {signs signs' : List Sign}
  {threshold : Threshold}

/-- The members that signs speak for. -/
def matched (members : Members) (signs : List Sign) : List Member :=
  members.toList.filter fun m => ∃ s ∈ signs, s.SpeaksFor m

/-- The members that signs count for, in the order of the signs. -/
def votes (members : Members) (signs : List Sign) : List Address :=
  signs.filterMap members.signedBy?

theorem signedBy?_eq_some_iff {s : Sign} {a : Address} :
    members.signedBy? s = some a ↔ ∃ m ∈ members.toList, m.address = a ∧ s.SpeaksFor m := by
  constructor
  · intro h
    obtain ⟨node, hnode, h⟩ := Option.bind_eq_some_iff.1 h
    obtain ⟨m, hm, h⟩ := Option.bind_eq_some_iff.1 h
    have htext := KeyedList.key_of_get? hm
    have haddress : m.address = node := Address.text_injective htext
    split at h
    · next hkey =>
      cases h
      exact ⟨m, List.mem_of_find?_eq_some hm, haddress, haddress ▸ hnode, hkey.symm⟩
    · cases h
  · rintro ⟨m, hm, rfl, hnode, hkey⟩
    simp only [signedBy?, hnode, Option.bind_eq_bind, Option.bind_some, KeyedList.get?_of_mem hm,
      hkey, if_true]

theorem signedBy?_eq_none {s : Sign} (h : ∀ m ∈ members.toList, ¬s.SpeaksFor m) :
    members.signedBy? s = none := by
  rw [Option.eq_none_iff_forall_ne_some]
  intro a ha
  obtain ⟨m, hm, -, hfor⟩ := signedBy?_eq_some_iff.1 ha
  exact h m hm hfor

/-- A member has one address, so the signs for it are the votes for that address. -/
theorem count_votes (signs : List Sign) {m : Member} (hm : m ∈ members.toList) :
    (members.votes signs).count m.address = signs.countP (·.SpeaksFor m) := by
  rw [votes, List.count, List.countP_filterMap]
  apply List.countP_congr
  intro s _
  have hiff : members.signedBy? s = some m.address ↔ s.SpeaksFor m := by
    rw [signedBy?_eq_some_iff]
    constructor
    · rintro ⟨m', hm', haddress, hfor⟩
      obtain rfl := List.inj_on_of_nodup_map members.nodup_addresses hm' hm haddress
      exact hfor
    · exact fun hfor => ⟨m, hm, rfl, hfor⟩
  rw [decide_eq_true_iff, ← hiff]
  cases members.signedBy? s with
  | none => simp
  | some a => simp

theorem mem_matched {m : Member} :
    m ∈ members.matched signs ↔ m ∈ members.toList ∧ ∃ s ∈ signs, s.SpeaksFor m := by
  rw [matched, List.mem_filter, decide_eq_true_iff]

theorem mem_votes {a : Address} :
    a ∈ members.votes signs ↔ a ∈ (members.matched signs).map Member.address := by
  simp only [votes, List.mem_filterMap, List.mem_map, mem_matched, signedBy?_eq_some_iff]
  constructor
  · rintro ⟨s, hs, m, hm, ha, hfor⟩
    exact ⟨m, ⟨hm, s, hs, hfor⟩, ha⟩
  · rintro ⟨m, ⟨hm, s, hs, hfor⟩, ha⟩
    exact ⟨s, hs, m, hm, ha, hfor⟩

theorem nodup_votes_iff :
    (members.votes signs).Nodup ↔ ∀ m ∈ members.toList, signs.countP (·.SpeaksFor m) ≤ 1 := by
  rw [List.nodup_iff_count_le_one]
  constructor
  · intro h m hm
    rw [← count_votes signs hm]
    exact h m.address
  · intro h a
    by_cases ha : a ∈ members.votes signs
    · obtain ⟨m, hm, rfl⟩ := List.mem_map.1 (mem_votes.1 ha)
      have hlisted := (mem_matched.1 hm).1
      rw [count_votes signs hlisted]
      exact h m hlisted
    · rw [List.count_eq_zero.2 ha]
      exact Nat.zero_le 1

theorem nodup_matched : ((members.matched signs).map Member.address).Nodup :=
  members.nodup_addresses.sublist (List.filter_sublist.map _)

theorem length_votes (distinct : (members.votes signs).Nodup) :
    (members.votes signs).length = (members.matched signs).length := by
  have perm : (members.votes signs).Perm ((members.matched signs).map Member.address) :=
    (List.perm_ext_iff_of_nodup distinct nodup_matched).2 fun a => mem_votes
  rw [perm.length_eq, List.length_map]

theorem length_matched_le (members : Members) (signs : List Sign) :
    (members.matched signs).length ≤ members.size :=
  List.length_filter_le _ _

theorem signedMembers_eq_error_iff {reason : Reason} :
    signedMembers members counted signs = .error reason ↔
      ∃ a, IsFirst counted (members.votes signs) a ∧ reason = .duplicatedSigner a.text := by
  induction signs generalizing counted with
  | nil => simp [signedMembers, votes, not_isFirst_nil]
  | cons s rest ih =>
    rw [signedMembers, votes]
    cases hs : members.signedBy? s with
    | none => rw [List.filterMap_cons_none hs, ih, votes]
    | some a =>
      rw [List.filterMap_cons_some hs, ← votes]
      by_cases h : a ∈ counted
      · simp only [h, if_true, isFirst_cons_of_mem h, exists_eq_left, Except.error.injEq]
        exact eq_comm
      · simp only [h, if_false, ih, isFirst_cons_of_not_mem h]

theorem signedMembers_of_nodup (distinct : (members.votes signs).Nodup)
    (fresh : ∀ a ∈ members.votes signs, a ∉ counted) :
    signedMembers members counted signs = .ok ((members.votes signs).reverse ++ counted) := by
  induction signs generalizing counted with
  | nil => rfl
  | cons s rest ih =>
    rw [signedMembers, votes] at *
    cases hs : members.signedBy? s with
    | none =>
      rw [List.filterMap_cons_none hs] at *
      exact ih distinct fresh
    | some a =>
      rw [List.filterMap_cons_some hs] at *
      obtain ⟨ha, distinct⟩ := List.nodup_cons.1 distinct
      obtain ⟨hnew, fresh⟩ := List.forall_mem_cons.1 fresh
      simp only [hnew, if_false]
      rw [ih distinct, List.reverse_cons, List.append_assoc]
      · rfl
      · intro b hb hmem
        rcases List.mem_cons.1 hmem with rfl | hmem
        · exact ha hb
        · exact fresh b hb hmem

theorem exists_duplicated_iff :
    (∃ name, checkQuorum members threshold signs = .error (.duplicatedSigner name)) ↔
      ¬(members.votes signs).Nodup := by
  have hduplicated : ∀ name,
      checkQuorum members threshold signs = .error (.duplicatedSigner name) ↔
        ∃ a, IsFirst [] (members.votes signs) a ∧ name = a.text := by
    intro name
    rw [checkQuorum, bind_eq_error_of_ne, signedMembers_eq_error_iff]
    · simp only [Reason.duplicatedSigner.injEq]
    · intro counted
      dsimp only
      split <;> simp
  simp only [hduplicated, ← exists_isFirst_nil_iff]
  constructor
  · rintro ⟨_, a, ha, -⟩
    exact ⟨a, ha⟩
  · rintro ⟨a, ha⟩
    exact ⟨a.text, a, ha, rfl⟩

theorem checkQuorum_of_nodup (distinct : (members.votes signs).Nodup) :
    checkQuorum members threshold signs =
      if threshold.required members.size ≤ (members.votes signs).length then .ok ()
      else .error (.insufficientSignature (threshold.required members.size % UInt32.size)
        ((members.votes signs).length % UInt32.size)) := by
  rw [checkQuorum, signedMembers_of_nodup distinct (by simp)]
  simp only [bind, Except.bind, List.append_nil, List.length_reverse, ← Nat.not_le, ite_not]

theorem checkQuorum_eq_ok : checkQuorum members threshold signs = .ok () ↔
    (members.votes signs).Nodup ∧
      threshold.required members.size ≤ (members.matched signs).length := by
  by_cases distinct : (members.votes signs).Nodup
  · rw [checkQuorum_of_nodup distinct, length_votes distinct]
    simp [distinct]
  · obtain ⟨name, hname⟩ := (@exists_duplicated_iff members signs threshold).2 distinct
    simp [hname, distinct]

/-- Two answers are of one class: they are equal, or both name one who signs twice. -/
def SameClass : Except Reason Unit → Except Reason Unit → Prop
  | .error (.duplicatedSigner _), .error (.duplicatedSigner _) => True
  | answer, answer' => answer = answer'

theorem SameClass.refl (answer : Except Reason Unit) : SameClass answer answer := by
  unfold SameClass
  split
  · trivial
  · rfl

theorem sameClass_of_perm (perm : signs.Perm signs') :
    SameClass (checkQuorum members threshold signs) (checkQuorum members threshold signs') := by
  have hvotes : (members.votes signs).Perm (members.votes signs') := perm.filterMap _
  by_cases distinct : (members.votes signs).Nodup
  · rw [checkQuorum_of_nodup distinct, checkQuorum_of_nodup (hvotes.nodup_iff.1 distinct),
      hvotes.length_eq]
    exact .refl _
  · obtain ⟨name, hname⟩ := (@exists_duplicated_iff members signs threshold).2 distinct
    obtain ⟨name', hname'⟩ := (@exists_duplicated_iff members signs' threshold).2
      (mt hvotes.nodup_iff.2 distinct)
    rw [hname, hname']
    trivial

/-- A sign that speaks for no member is passed over. -/
theorem checkQuorum_of_stray {before after : List Sign} {s : Sign}
    (stray : ∀ m ∈ members.toList, ¬s.SpeaksFor m) :
    checkQuorum members threshold (before ++ s :: after) =
      checkQuorum members threshold (before ++ after) := by
  suffices hcount : ∀ counted, signedMembers members counted (before ++ s :: after) =
      signedMembers members counted (before ++ after) by
    rw [checkQuorum, checkQuorum, hcount]
  induction before with
  | nil =>
    intro counted
    rw [List.nil_append, signedMembers, signedBy?_eq_none stray]
    rfl
  | cons first before ih =>
    intro counted
    simp only [List.cons_append, signedMembers, ih]

/-- The check of a quorum is exact. Signs are refused as made twice if and only if two of them speak
for one member; otherwise the number of the members that signs speak for decides, and both numbers
are reported. What is required is the least number that makes up the share; if the share is more
than half, two sets of so many members have one in common. The order of the signs does not change
the class of the answer, and signs that speak for no member do not change the answer. -/
theorem checkQuorum_exact (members : Members) (small : members.size < UInt32.size)
    (threshold : Threshold) (signs : List Sign) :
    ((∃ name, checkQuorum members threshold signs = .error (.duplicatedSigner name)) ↔
      ∃ m ∈ members.toList, 2 ≤ signs.countP (·.SpeaksFor m)) ∧
    ((∀ m ∈ members.toList, signs.countP (·.SpeaksFor m) ≤ 1) →
      checkQuorum members threshold signs =
        if threshold.required members.size ≤ (members.matched signs).length then .ok ()
        else .error (.insufficientSignature (threshold.required members.size)
          (members.matched signs).length)) ∧
    (∀ n, IsLeast {k | 1 ≤ k ∧ n * threshold.percent ≤ 100 * k} (threshold.required n)) ∧
    (∀ n, 1 ≤ n → threshold.required n ≤ n) ∧
    (50 < threshold.percent → ∀ q q' : Finset Address,
      q ⊆ members.addresses → threshold.required members.size ≤ q.card →
      q' ⊆ members.addresses → threshold.required members.size ≤ q'.card → (q ∩ q').Nonempty) ∧
    (∀ signs' : List Sign, signs.Perm signs' →
      SameClass (checkQuorum members threshold signs) (checkQuorum members threshold signs')) ∧
    ∀ before s after, signs = before ++ s :: after → (∀ m ∈ members.toList, ¬s.SpeaksFor m) →
      checkQuorum members threshold signs = checkQuorum members threshold (before ++ after) := by
  refine ⟨?_, fun once => ?_, threshold.required_isLeast, fun n => threshold.required_le,
    fun half q q' hq hcard hq' hcard' => ?_, fun signs' => sameClass_of_perm, ?_⟩
  · rw [exists_duplicated_iff, nodup_votes_iff]
    simp only [not_forall, exists_prop, Nat.not_le, Nat.lt_iff_add_one_le, Nat.reduceAdd]
  · have distinct := nodup_votes_iff.2 once
    have hmatched := members.length_matched_le signs
    have hrequired : threshold.required members.size < UInt32.size :=
      (threshold.required_le_max members.size).trans_lt (max_lt (by decide) small)
    rw [checkQuorum_of_nodup distinct, length_votes distinct, Nat.mod_eq_of_lt hrequired,
      Nat.mod_eq_of_lt (hmatched.trans_lt small)]
  · apply Finset.inter_nonempty_of_card_lt_card_add_card hq hq'
    have hmore := threshold.lt_two_mul_required half members.size
    rw [card_addresses]
    omega
  · rintro before s after rfl stray
    exact checkQuorum_of_stray stray

end Members

namespace Sample

/-- A sign of the key that both members have. -/
def signFor (node : Option Address) : Sign := ⟨key, [], node⟩

end Sample

/-- Both members are needed, in any order and whoever signs besides; one of them is not enough, even
with two signs. -/
theorem Members.checkQuorum_exact_council :
    checkQuorum Sample.council .standard
      [Sample.signFor (some Sample.bob), Sample.signFor none,
        Sample.signFor (some Sample.alice)] = .ok () ∧
    checkQuorum Sample.council .standard
      [Sample.signFor (some Sample.carol), Sample.signFor (some Sample.bob)] =
        .error (.insufficientSignature 2 1) ∧
    ∃ name, checkQuorum Sample.council .standard
      [Sample.signFor (some Sample.bob), Sample.signFor (some Sample.bob)] =
        .error (.duplicatedSigner name) := by
  have small : Sample.council.size < UInt32.size := by decide +kernel
  obtain ⟨-, hboth, -⟩ := checkQuorum_exact Sample.council small .standard
    [Sample.signFor (some Sample.bob), Sample.signFor none, Sample.signFor (some Sample.alice)]
  obtain ⟨-, hone, -⟩ := checkQuorum_exact Sample.council small .standard
    [Sample.signFor (some Sample.carol), Sample.signFor (some Sample.bob)]
  obtain ⟨htwice, -⟩ := checkQuorum_exact Sample.council small .standard
    [Sample.signFor (some Sample.bob), Sample.signFor (some Sample.bob)]
  refine ⟨?_, ?_, htwice.2 ?_⟩
  · exact hboth (by decide +kernel)
  · exact hone (by decide +kernel)
  · exact ⟨⟨Sample.bob, Sample.key, .genesis⟩, by decide +kernel⟩

end CurrencyLedger
