import CurrencyLedger.Json.Reader
import CurrencyLedger.Proofs.Document.Shown
import CurrencyLedger.Proofs.Json.Lexing

/-!
Written JSON reads back: `read_text` says that the compact text of a document that fits is read as
the document and nothing behind it. A document is read in any state where a value is wanted, so that
the first item of a list is no case of its own.
-/

namespace CurrencyLedger.Json

open Node (shown depthLimit)
open Text (bytes)
open Token (Ended)

namespace State

/-- The state when bytes have been read on from this one. -/
def run (state : State) (bs : List UInt8) : State :=
  (Token.list bs).foldl step state

/-- A value is wanted inside the given containers. -/
def Awaits (state : State) (around : List Node.Around) : Prop :=
  ∀ t, t ≠ .closeList → state.step t = startValue around t

theorem awaits_value (around : List Node.Around) : (value around).Awaits around :=
  fun _ _ => rfl

theorem awaits_firstItem (around : List Node.Around) :
    (firstItem around).Awaits (.list [] :: around) := fun t ht => by
  cases t <;> first | rfl | exact absurd rfl ht

variable {state : State} {around : List Node.Around} {bs rest : List UInt8} {t : Token}

theorem run_of_list (h : Token.list bs = t :: Token.list rest) :
    state.run bs = (state.step t).run rest := by
  rw [run, h, List.foldl_cons, run]

theorem Awaits.run_openList (h : state.Awaits around) (bs : List UInt8) :
    state.run ('['.toUInt8 :: bs) = (firstItem around).run bs := by
  rw [run_of_list (Token.list_openList bs), h .openList nofun, startValue]

theorem Awaits.run_openRecord (h : state.Awaits around) (bs : List UInt8) :
    state.run ('\x7b'.toUInt8 :: bs) = (firstKey around).run bs := by
  rw [run_of_list (Token.list_openRecord bs), h .openRecord nofun, startValue]

theorem run_nil (state : State) : state.run [] = state := by
  rw [run, Token.list, List.foldl_nil]

theorem run_quote (s : String) (rest : List UInt8) :
    state.run (bytes (quote s) ++ rest) = (state.step (.atom (.text s))).run rest :=
  run_of_list (Token.list_quote s rest)

end State

/-- A document reads back where that many levels of nesting are left. -/
def ReadsBack (depth : Nat) (d : Doc) : Prop :=
  ∀ (state : State) (around : List Node.Around) (rest : List UInt8), state.Awaits around →
    around.length + depth ≤ depthLimit → Ended rest →
    state.run (bytes (chars d) ++ rest) = (State.finish (shown .int d) around).run rest

variable {depth : Nat} {around : List Node.Around} {rest : List UInt8}

theorem close_eq_finish (n : Node) (h : around.length < depthLimit) :
    State.close n around = State.finish n around := by
  rw [State.close, if_pos h]

theorem ended_itemChars (items : List Doc) (ended : Ended rest) :
    Ended (bytes (itemChars items) ++ rest) := by
  cases items with
  | nil => exact ended
  | cons d items => exact Token.ended_cons (by decide) _

theorem ended_memberChars (members : List (String × Doc)) (ended : Ended rest) :
    Ended (bytes (memberChars members) ++ rest) := by
  cases members with
  | nil => exact ended
  | cons m members => exact Token.ended_cons (by decide) _

/-- The rest of a list, with the items that have been read, the latest first. -/
theorem run_itemChars {items : List Doc} (each : ∀ d ∈ items, ReadsBack depth d)
    (levels : around.length + (depth + 1) ≤ depthLimit) (before : List Node) :
    (State.afterItem before around).run (bytes (itemChars items) ++ ']'.toUInt8 :: rest) =
      (State.finish (.list (before.reverse ++ items.map (shown .int))) around).run rest := by
  induction items generalizing before with
  | nil =>
    rw [itemChars, Text.bytes_nil, List.nil_append, State.run_of_list (Token.list_closeList rest),
      State.step, close_eq_finish _ (by omega), List.map_nil, List.append_nil]
  | cons d items ih =>
    have hd := each d List.mem_cons_self
    have happend : bytes (itemChars (d :: items)) ++ ']'.toUInt8 :: rest =
        ','.toUInt8 :: (bytes (chars d) ++ (bytes (itemChars items) ++ ']'.toUInt8 :: rest)) := by
      simp (disch := decide) [itemChars, Text.bytes_cons_of_isAscii]
    rw [happend, State.run_of_list (Token.list_comma _), State.step,
      hd _ _ _ (State.awaits_value _) (by rw [List.length_cons]; omega)
        (ended_itemChars items (Token.ended_cons (by decide) _)), State.finish,
      ih (fun d h => each d (List.mem_cons_of_mem _ h)) (shown .int d :: before)]
    simp

/-- A member, after its key. -/
theorem run_member {d : Doc} (hd : ReadsBack depth d)
    (levels : around.length + (depth + 1) ≤ depthLimit) (ended : Ended rest)
    (before : List (Node × Node)) (name : String) :
    (State.colon before (.text name) around).run (':'.toUInt8 :: (bytes (chars d) ++ rest)) =
      (State.afterEntry ((.text name, shown .int d) :: before) around).run rest := by
  rw [State.run_of_list (Token.list_colon _), State.step,
    hd _ _ _ (State.awaits_value _) (by rw [List.length_cons]; omega) ended, State.finish]

theorem run_memberChars {members : List (String × Doc)}
    (each : ∀ name d, (name, d) ∈ members → ReadsBack depth d)
    (levels : around.length + (depth + 1) ≤ depthLimit) (before : List (Node × Node)) :
    (State.afterEntry before around).run (bytes (memberChars members) ++ '\x7d'.toUInt8 :: rest) =
      (State.finish (.map (before.reverse ++ Node.shownMembers .int members)) around).run rest := by
  induction members generalizing before with
  | nil =>
    rw [memberChars, Text.bytes_nil, List.nil_append,
      State.run_of_list (Token.list_closeRecord rest), State.step, close_eq_finish _ (by omega),
      Node.shownMembers, List.append_nil]
  | cons m members ih =>
    obtain ⟨name, d⟩ := m
    have hd := each name d List.mem_cons_self
    have happend : bytes (memberChars ((name, d) :: members)) ++ '\x7d'.toUInt8 :: rest =
        ','.toUInt8 :: (bytes (quote name) ++ ':'.toUInt8 ::
          (bytes (chars d) ++ (bytes (memberChars members) ++ '\x7d'.toUInt8 :: rest))) := by
      simp (disch := decide) [memberChars, Text.bytes_cons_of_isAscii]
    rw [happend, State.run_of_list (Token.list_comma _), State.step, State.run_quote, State.step,
      run_member hd levels (ended_memberChars members (Token.ended_cons (by decide) _)),
      ih (fun name d h => each name d (List.mem_cons_of_mem _ h))]
    simp [Node.shownMembers]

theorem readsBack_list {items : List Doc} (each : ∀ d ∈ items, ReadsBack depth d) :
    ReadsBack (depth + 1) (.list items) := fun state around rest awaits levels _ => by
  rw [shown, Node.shownItems_eq_map]
  cases items with
  | nil =>
    have happend : bytes (chars (.list [])) ++ rest = '['.toUInt8 :: ']'.toUInt8 :: rest := by
      simp (disch := decide) [chars, Text.bytes_cons_of_isAscii]
    rw [happend, awaits.run_openList, State.run_of_list (Token.list_closeList rest), State.step,
      close_eq_finish _ (by omega), List.map_nil]
  | cons d items =>
    have hd := each d List.mem_cons_self
    have happend : bytes (chars (.list (d :: items))) ++ rest =
        '['.toUInt8 :: (bytes (chars d) ++ (bytes (itemChars items) ++ ']'.toUInt8 :: rest)) := by
      simp (disch := decide) [chars, Text.bytes_cons_of_isAscii]
    rw [happend, awaits.run_openList,
      hd _ _ _ (State.awaits_firstItem around) (by rw [List.length_cons]; omega)
        (ended_itemChars items (Token.ended_cons (by decide) _)), State.finish,
      run_itemChars (fun d h => each d (List.mem_cons_of_mem _ h)) levels]
    rfl

theorem readsBack_record {members : List (String × Doc)}
    (each : ∀ name d, (name, d) ∈ members → ReadsBack depth d) :
    ReadsBack (depth + 1) (.record members) := fun state around rest awaits levels _ => by
  rw [shown]
  cases members with
  | nil =>
    have happend :
        bytes (chars (.record [])) ++ rest = '\x7b'.toUInt8 :: '\x7d'.toUInt8 :: rest := by
      simp (disch := decide) [chars, Text.bytes_cons_of_isAscii]
    rw [happend, awaits.run_openRecord, State.run_of_list (Token.list_closeRecord rest), State.step,
      close_eq_finish _ (by omega), Node.shownMembers]
  | cons m members =>
    obtain ⟨name, d⟩ := m
    have hd := each name d List.mem_cons_self
    have happend : bytes (chars (.record ((name, d) :: members))) ++ rest =
        '\x7b'.toUInt8 :: (bytes (quote name) ++ ':'.toUInt8 ::
          (bytes (chars d) ++ (bytes (memberChars members) ++ '\x7d'.toUInt8 :: rest))) := by
      simp (disch := decide) [chars, Text.bytes_cons_of_isAscii]
    rw [happend, awaits.run_openRecord, State.run_quote, State.step,
      run_member hd levels (ended_memberChars members (Token.ended_cons (by decide) _)),
      run_memberChars (fun name d h => each name d (List.mem_cons_of_mem _ h)) levels]
    rfl

/-- A value without parts that is one token. -/
theorem readsBack_atom {d : Doc}
    (h : ∀ rest, Ended rest →
      Token.list (bytes (chars d) ++ rest) = .atom (shown .int d) :: Token.list rest) :
    ReadsBack depth d := fun state around rest awaits _ ended => by
  rw [State.run_of_list (h rest ended), awaits (.atom _) nofun, State.startValue]

theorem readsBack_of_fits {shape : Shape} {d : Doc} (h : d.Fits depth shape) :
    ReadsBack depth d := by
  induction h with
  | null => exact readsBack_atom fun rest _ => Token.list_null rest
  | bool b => exact readsBack_atom fun rest _ => Token.list_bool rest b
  | int least greatest =>
    refine readsBack_atom fun rest ended => ?_
    rw [chars, Token.list_intChars _ ended, numberNode_ofInt least greatest, shown]
  | text s => exact readsBack_atom fun rest _ => Token.list_quote s rest
  | list _ _ ih =>
    refine readsBack_list fun d hd => ?_
    obtain ⟨i, hi⟩ := List.mem_iff_getElem?.1 hd
    exact ih i d hi
  | record _ _ ih => exact readsBack_record ih

/-- The text of a document is read as the document. -/
theorem read_text {shape : Shape} {d : Doc} (h : d.Fits depthLimit shape) :
    read (Text.utf8 (text d)) = ⟨shown .int d, false⟩ := by
  have hrun := readsBack_of_fits h (.value []) [] [] (State.awaits_value [])
    (Nat.le_of_eq (Nat.zero_add _)) Token.ended_nil
  rw [List.append_nil, State.run_nil] at hrun
  show ((State.value []).run (Text.utf8 (text d))).reading = _
  rw [text, Text.utf8_ofList_eq_bytes, hrun]
  rfl

end CurrencyLedger.Json
