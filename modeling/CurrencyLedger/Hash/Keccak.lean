/-!
Keccak-256: a sponge over 25 lanes of 64 bits that takes 136 bytes at a time and is padded with
a one bit, zeros and a one bit.
-/

namespace CurrencyLedger.Keccak

def rate : Nat := 136

def roundConstants : List UInt64 :=
  [0x0000000000000001, 0x0000000000008082, 0x800000000000808a, 0x8000000080008000,
   0x000000000000808b, 0x0000000080000001, 0x8000000080008081, 0x8000000000008009,
   0x000000000000008a, 0x0000000000000088, 0x0000000080008009, 0x000000008000000a,
   0x000000008000808b, 0x800000000000008b, 0x8000000000008089, 0x8000000000008003,
   0x8000000000008002, 0x8000000000000080, 0x000000000000800a, 0x800000008000000a,
   0x8000000080008081, 0x8000000000008080, 0x0000000080000001, 0x8000000080008008]

/-- How far the lane at `x + 5 y` is rotated. -/
def rotations : List UInt64 :=
  [0, 1, 62, 28, 27, 36, 44, 6, 55, 20, 3, 10, 43, 25, 39, 41, 45, 15, 21, 8, 18, 2, 61, 56, 14]

def rotateLeft (x n : UInt64) : UInt64 :=
  if n = 0 then x else (x <<< n) ||| (x >>> (64 - n))

abbrev Lanes := Vector UInt64 25

def Lanes.at (s : Lanes) (x y : Nat) : UInt64 :=
  s.get ⟨x % 5 + 5 * (y % 5), by omega⟩

/-- Builds the lanes from a function of column and row. -/
def Lanes.of (f : Nat → Nat → UInt64) : Lanes :=
  Vector.ofFn fun i => f (i.val % 5) (i.val / 5)

/-- Adds to each lane the parities of two neighbouring columns. -/
def theta (s : Lanes) : Lanes :=
  let columns : Vector UInt64 5 := Vector.ofFn fun x =>
    s.at x 0 ^^^ s.at x 1 ^^^ s.at x 2 ^^^ s.at x 3 ^^^ s.at x 4
  Lanes.of fun x y =>
    s.at x y ^^^ columns.get ⟨(x + 4) % 5, by omega⟩ ^^^
      rotateLeft (columns.get ⟨(x + 1) % 5, by omega⟩) 1

/-- Rotates each lane and moves it to its new place. -/
def rhoPi (s : Lanes) : Lanes :=
  Lanes.of fun x y =>
    let column := x + 3 * y
    rotateLeft (s.at column x) (rotations.getD (column % 5 + 5 * x) 0)

def chi (s : Lanes) : Lanes :=
  Lanes.of fun x y => s.at x y ^^^ (~~~s.at (x + 1) y &&& s.at (x + 2) y)

def iota (constant : UInt64) (s : Lanes) : Lanes :=
  s.set 0 (s.at 0 0 ^^^ constant)

def permute (s : Lanes) : Lanes :=
  roundConstants.foldl (fun t constant => iota constant (chi (rhoPi (theta t)))) s

/-- Lanes of eight bytes, the least significant first. -/
def lanes : List UInt8 → List UInt64
  | a :: b :: c :: d :: e :: f :: g :: h :: rest =>
    [h, g, f, e, d, c, b, a].foldl (fun n byte => (n <<< 8) ||| byte.toUInt64) 0 :: lanes rest
  | _ => []

def laneBytes (lane : UInt64) : List UInt8 :=
  (List.range 8).map fun i => (lane >>> (8 * UInt64.ofNat i)).toUInt8

def pad (message : List UInt8) : List UInt8 :=
  let room := rate - message.length % rate
  if room = 1 then message ++ [0x81]
  else message ++ 0x01 :: List.replicate (room - 2) 0 ++ [0x80]

/-- Adds blocks of 17 lanes to the state; a shorter rest is dropped. -/
def absorb (s : Lanes) (ws : List UInt64) : Lanes :=
  if 17 ≤ ws.length then
    let block := (ws.take 17).toArray
    absorb (permute (Vector.ofFn fun i => s[i] ^^^ block.getD i.val 0)) (ws.drop 17)
  else s
termination_by ws.length
decreasing_by simp; omega

end CurrencyLedger.Keccak

namespace CurrencyLedger

def keccak256 (message : List UInt8) : List UInt8 :=
  let s := Keccak.absorb (Vector.replicate 25 0) (Keccak.lanes (Keccak.pad message))
  (s.toList.take 4).flatMap Keccak.laneBytes

theorem length_keccak256 (message : List UInt8) : (keccak256 message).length = 32 := by
  have h : ∀ ws : List UInt64, (ws.flatMap Keccak.laneBytes).length = 8 * ws.length := by
    intro ws
    induction ws with
    | nil => rfl
    | cons w ws ih => simp [ih, Keccak.laneBytes]; omega
  simp [keccak256, h]

end CurrencyLedger
