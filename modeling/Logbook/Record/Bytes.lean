set_option autoImplicit false

/-!
# Little-endian words

Fixed-width words are stored least significant byte first. Readers take what they need from the
front of the remaining bytes and return the rest, or nothing if the bytes end too early.
-/
namespace Logbook.Record

/-- The `count` lowest bytes of a number, least significant first. -/
def toBytes : Nat → Nat → List UInt8
  | 0, _ => []
  | count + 1, n => UInt8.ofNat n :: toBytes count (n / 256)

def ofBytes : List UInt8 → Nat
  | [] => 0
  | b :: rest => b.toNat + 256 * ofBytes rest

def takeBytes : Nat → List UInt8 → Option (List UInt8 × List UInt8)
  | 0, rest => some ([], rest)
  | _ + 1, [] => none
  | count + 1, b :: rest =>
    match takeBytes count rest with
    | some (taken, rest) => some (b :: taken, rest)
    | none => none

def skipBytes : Nat → List UInt8 → Option (List UInt8)
  | 0, rest => some rest
  | _ + 1, [] => none
  | count + 1, _ :: rest => skipBytes count rest

def takeByte : List UInt8 → Option (UInt8 × List UInt8)
  | [] => none
  | b :: rest => some (b, rest)

def wordBytes (count : Nat) (word : BitVec (8 * count)) : List UInt8 := toBytes count word.toNat

def takeWord (count : Nat) (data : List UInt8) : Option (BitVec (8 * count) × List UInt8) :=
  match takeBytes count data with
  | some (taken, rest) => some (BitVec.ofNat _ (ofBytes taken), rest)
  | none => none

def takeSpan (data : List UInt8) : Option (List UInt8 × List UInt8) :=
  match takeWord 4 data with
  | some (length, rest) => takeBytes length.toNat rest
  | none => none

def skipSpan (data : List UInt8) : Option (List UInt8) :=
  match takeWord 4 data with
  | some (length, rest) => skipBytes length.toNat rest
  | none => none

@[simp] theorem length_toBytes (count n : Nat) : (toBytes count n).length = count := by
  induction count generalizing n with
  | zero => rfl
  | succ count ih => simp [toBytes, ih]

theorem ofBytes_toBytes (count n : Nat) :
    ofBytes (toBytes count n) = n % Nat.pow 256 count := by
  induction count generalizing n with
  | zero => simp [toBytes, ofBytes, Nat.mod_one]
  | succ count ih =>
    have hb : (UInt8.ofNat n).toNat = n % 256 := UInt8.toNat_ofNat'
    rw [toBytes, ofBytes, ih, hb, Nat.pow_eq, Nat.pow_eq, Nat.pow_succ', Nat.mod_mul]

@[simp] theorem takeBytes_append (taken rest : List UInt8) :
    takeBytes taken.length (taken ++ rest) = some (taken, rest) := by
  induction taken with
  | nil => rfl
  | cons b taken ih => simp [takeBytes, ih]

theorem skipBytes_eq (count : Nat) (data : List UInt8) :
    skipBytes count data = (takeBytes count data).map Prod.snd := by
  induction count generalizing data with
  | zero => rfl
  | succ count ih =>
    cases data with
    | nil => rfl
    | cons b rest =>
      rw [skipBytes, takeBytes, ih]
      cases takeBytes count rest <;> rfl

theorem takeWord_wordBytes (count : Nat) (word : BitVec (8 * count)) (rest : List UInt8) :
    takeWord count (wordBytes count word ++ rest) = some (word, rest) := by
  have ht := takeBytes_append (toBytes count word.toNat) rest
  rw [length_toBytes] at ht
  have hp : (256 : Nat) ^ count = 2 ^ (8 * count) := by
    rw [Nat.pow_mul]
  simp [takeWord, wordBytes, ht, ofBytes_toBytes, hp]

end Logbook.Record
